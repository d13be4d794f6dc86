import PathPolicy.Script.Plan
import PathPolicy.Tracer.Arguments
import PathPolicy.Tracer.Registry

/-!
Serving the connection tracer. A message is first read as a registration or as an event; only
a message that is complete gets to the registry, and only what the registry accepts gets to
the script.
-/

namespace PathPolicy.Tracer
open Script

def scriptModule : String := "stats"

def registerFunction : String := "TracerForConnection"

def entryPoints : List String := registerFunction :: eventMethods

inductive Operation
  | register (id : UInt64) (perspective : Perspective) (firstDestinationId : String)
  | event (id : UInt64) (localAddress remoteAddress : String) (e : Event)
deriving DecidableEq

namespace Operation

def ofMessage (method : String) (m : Message) : Except Fault Operation :=
  if method = registerMethod then do
    let id ← m.requiredId
    let perspective ← required m.perspective "perspective"
    let firstDestinationId ← required m.firstDestinationId "odcid"
    return register id perspective firstDestinationId
  else do
    let e ← Event.ofMessage method m
    let id ← m.requiredId
    let localAddress ← required m.localAddress "local"
    let remoteAddress ← required m.remoteAddress "remote"
    return event id localAddress remoteAddress e

def eventCall (id : UInt64) (localAddress remoteAddress : String) (e : Event) : Call :=
  ⟨scriptModule, e.kind.name, e.arguments id localAddress remoteAddress⟩

/-- Carries out an operation. Closing a closed tracer again does not reach the script. -/
def plan (r : Registry) : Operation → Plan Registry (Except Fault Unit)
  | register id perspective firstDestinationId =>
    .notify (r.create id perspective firstDestinationId)
      ⟨scriptModule, registerFunction,
        [.ofUInt64 id, .text perspective.name, .text firstDestinationId]⟩
      ()
  | event id localAddress remoteAddress e =>
    if e = .close then
      match r.close id with
      | .error fault => .answer r (.error fault)
      | .ok (.alreadyClosed, r) => .answer r (.ok ())
      | .ok (.closed, r) => .notify r (eventCall id localAddress remoteAddress e) ()
    else
      match r.record id with
      | .error fault => .answer r (.error fault)
      | .ok (_, r) => .notify r (eventCall id localAddress remoteAddress e) ()

def ofRequest (r : Request) : Except Fault Operation := do
  let message ← r.payload Message.empty
  ofMessage r.method message

end Operation

def serve (registry : Registry) (r : Request) :
    Plan Registry (Except Fault (Option Json.Value)) :=
  match Operation.ofRequest r with
  | .error e => .answer registry (.error e)
  | .ok operation => (operation.plan registry).map (Except.map fun _ => none)

end PathPolicy.Tracer
