import PathPolicy.Frame
import PathPolicy.Script.Host
import PathPolicy.Selector.Service
import PathPolicy.Tracer.Service

/-!
The daemon: its two services behind one script. A request goes to the service that it names,
and every frame received is answered with one frame under the request's id.
-/

namespace PathPolicy.Daemon
open Script

structure Tables where
  sessions : Selector.SessionTable
  tracers : Tracer.Registry

def Tables.start : Tables := ⟨∅, .empty Tracer.Registry.defaultLimit⟩

def dispatch (t : Tables) (r : Request) : Plan Tables (Except Fault (Option Json.Value)) :=
  if r.service = Selector.service then
    (Selector.serve t.sessions r).within fun sessions => { t with sessions }
  else if r.service = Tracer.service then
    (Tracer.serve t.tracers r).within fun tracers => { t with tracers }
  else .answer t (.error (.unknownMethod r.target))

def respond (t : Tables) (body : Bytes) : Plan Tables Response :=
  match Request.parse body with
  | .error e => .answer t (.failure (Address.ofBody body) e)
  | .ok r => (dispatch t r).map (Response.ofResult r.id)

/-- The frame of a response. One that is longer than the limit is replaced by the fault that
says so, if that one fits. -/
def frameOf (limit : Nat) (r : Response) : Option Bytes :=
  match Frame.encode limit (Json.encode r) with
  | .ok frame => some frame
  | .error e => (Frame.encode limit (Json.encode (Response.failure r.id e))).toOption

def reply (limit : Nat) (t : Tables) (body : Bytes) : Plan Tables (Option Bytes) :=
  (respond t body).map (frameOf limit)

/-! ### Running -/

structure State (μ : Type) where
  tables : Tables
  script : μ

variable {μ : Type}

/-- Registers the modules of both services and loads the script, which may then define their
functions. -/
def start (host : Host μ) (file : File) (m : μ) : Except Fault (State μ) :=
  match host.register Selector.scriptModule Selector.entryPoints m with
  | (.error e, _) => .error e
  | (.ok (), m) =>
    match host.register Tracer.scriptModule Tracer.entryPoints m with
    | (.error e, _) => .error e
    | (.ok (), m) =>
      match host.loadFile file m with
      | (.error e, _) => .error e
      | (.ok (), m) => .ok ⟨.start, m⟩

def State.answer (host : Host μ) (limit : Nat) :
    List Bytes → State μ → List Bytes × State μ
  | [], d => ([], d)
  | body :: bodies, d =>
    let (frame, tables, script) := (reply limit d.tables body).run host.call d.script
    let (frames, d) := State.answer host limit bodies ⟨tables, script⟩
    (frame.toList ++ frames, d)

/-- One client's stream: the bytes that are not yet a frame, until the stream is refused. -/
structure Connection where
  buffer : Bytes
  closed : Bool

def Connection.opened : Connection := ⟨[], false⟩

/-- Receives a chunk of a client's stream. A frame that is too long ends the connection: what
was not answered before it is answered no more, and the refusal has no request's id. -/
def Connection.receive (host : Host μ) (limit : Nat) (c : Connection) (chunk : Bytes)
    (d : State μ) : List Bytes × Connection × State μ :=
  if c.closed then ([], c, d)
  else
    let drained := Frame.drain limit (c.buffer ++ chunk)
    let (frames, d) := d.answer host limit drained.bodies
    match drained.stop with
    | none => (frames, ⟨drained.buffer, false⟩, d)
    | some fault =>
      let refusal := Frame.encode limit (Json.encode (Response.failure 0 fault))
      (refusal.toOption.toList, ⟨drained.buffer, true⟩, d)

def State.call (host : Host μ) (c : Call) (d : State μ) : Outcome × State μ :=
  let (outcome, script) := host.call c d.script
  (outcome, { d with script })

end PathPolicy.Daemon
