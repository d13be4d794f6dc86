import PathPolicy.Envelope
import PathPolicy.Frame

/-!
A client's channel to the daemon. Each call takes a fresh id, sends one frame and waits for the
response under its id. What else arrives is passed over. Once the stream has ended, or has been
refused, every further call fails.
-/

namespace PathPolicy.Client
open Json

structure Channel where
  nextId : UInt64
  /-- How many requests were sent. -/
  issued : Nat
  limit : Nat
  /-- The bytes received that are not yet a frame. -/
  buffer : Bytes
  closed : Bool

namespace Channel

def opened (limit : Nat) : Channel := ⟨1, 0, limit, [], false⟩

structure Sent where
  id : UInt64
  frame : Bytes

/-- Prepares a call. The id is used up even if nothing is sent. -/
def send {α : Type} [Codable α] (c : Channel) (service method : String) (data : α) :
    Except Fault Sent × Channel :=
  let id := c.nextId
  let c := { c with nextId := id + 1 }
  match Frame.encode c.limit (encode (Request.make id service method data)) with
  | .error e => (.error e, c)
  | .ok frame =>
    if c.closed then (.error (.transport "connection closed"), c)
    else (.ok ⟨id, frame⟩, { c with issued := c.issued + 1 })

def responseAmong (id : UInt64) (bodies : List Bytes) : Option Response :=
  bodies.findSome? fun body =>
    match Response.parse body with
    | .ok r => if r.id = id then some r else none
    | .error _ => none

def receive (c : Channel) (awaited : Option UInt64) (chunk : Bytes) :
    Option Response × Channel :=
  if c.closed then (none, c)
  else
    let drained := Frame.drain c.limit (c.buffer ++ chunk)
    (awaited.bind fun id => responseAmong id drained.bodies,
      { c with buffer := drained.buffer, closed := drained.stop.isSome })

def hangUp (c : Channel) : Channel := { c with closed := true }

/-- The outcome of a call. Without a response the connection was lost. -/
def outcome (service method : String) : Option Response → Except Fault (Option Value)
  | none => .error (.transport (service ++ "." ++ method ++ ": connection lost"))
  | some r => r.result

end Channel

/-- The other end of a channel: what it sends when bytes arrive, and whether it then ends the
stream. -/
structure Peer (π : Type) where
  receive : Bytes → π → Bytes × Bool × π

def Channel.call {π α : Type} [Codable α] (peer : Peer π) (c : Channel) (p : π)
    (service method : String) (data : α) : Except Fault (Option Value) × Channel × π :=
  match c.send service method data with
  | (.error e, c) => (.error e, c, p)
  | (.ok sent, c) =>
    let (chunk, ended, p) := peer.receive sent.frame p
    let (response, c) := c.receive (some sent.id) chunk
    (outcome service method response, if ended then c.hangUp else c, p)

/-- Reads the data of a response in a given shape. Absent data are the shape without any
field. -/
def shaped {α : Type} [Codable α] (absent : α) (service method : String) :
    Option Value → Except Fault α
  | none => .ok absent
  | some v => (fromValue v).mapError fun e =>
    .transport (service ++ "." ++ method ++ " invalid response data: " ++ e.message)

end PathPolicy.Client
