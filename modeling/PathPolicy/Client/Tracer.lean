import PathPolicy.Client.Channel
import PathPolicy.Tracer.Event

/-!
A client of the connection tracer, for one connection. Tracing is never in the way of the
connection: faults are dropped, and after a failed registration nothing is sent at all.
-/

namespace PathPolicy.Client
open PathPolicy.Tracer

structure Tracer where
  id : UInt64
  enabled : Bool
  /-- Known once the connection has started. -/
  localAddress : String
  remoteAddress : String

namespace Tracer

def registration (id : UInt64) (perspective : Perspective) (connectionId : Bytes) : Message :=
  { Message.empty with
    tracingId := some id, perspective := some perspective,
    firstDestinationId := some connectionId.hex }

def register {π : Type} (peer : Peer π) (c : Channel) (p : π) (id : UInt64)
    (perspective : Perspective) (connectionId : Bytes) : Tracer × Channel × π :=
  let (outcome, c, p) :=
    c.call peer p service registerMethod (registration id perspective connectionId)
  (⟨id, outcome.isOk, "", ""⟩, c, p)

def learn (t : Tracer) : Event → Tracer
  | .startedConnection localAddress remoteAddress _ _ => { t with localAddress, remoteAddress }
  | _ => t

def message (t : Tracer) (e : Event) : Message :=
  e.writeInto (Message.ofHeader t.id t.localAddress t.remoteAddress)

def trace {π : Type} (peer : Peer π) (c : Channel) (p : π) (t : Tracer) (e : Event) :
    Tracer × Channel × π :=
  if t.enabled then
    let t := t.learn e
    let (_, c, p) := c.call peer p service e.kind.name (t.message e)
    (t, c, p)
  else (t, c, p)

end Tracer
end PathPolicy.Client
