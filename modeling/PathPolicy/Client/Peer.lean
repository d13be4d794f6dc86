import PathPolicy.Client.Channel
import PathPolicy.Daemon

/-! Two peers of a channel: the daemon, and one that sends what was laid down before. -/

namespace PathPolicy.Client
open Daemon

structure Served (μ : Type) where
  connection : Connection
  daemon : State μ

def daemonPeer {μ : Type} (host : Script.Host μ) (limit : Nat) : Peer (Served μ) where
  receive chunk p :=
    let (frames, connection, daemon) := p.connection.receive host limit chunk p.daemon
    (frames.flatten, connection.closed, ⟨connection, daemon⟩)

structure Turn where
  bytes : Bytes
  /-- Whether the stream ends then. -/
  last : Bool

structure Scripted where
  turns : List Turn
  buffer : Bytes
  /-- The bodies received, latest first. -/
  received : List Bytes

namespace Scripted

def start (turns : List Turn) : Scripted := ⟨turns, [], []⟩

/-- One turn for each body, as long as there are turns. -/
def answer : List Bytes → Scripted → Bytes × Bool × Scripted
  | [], s => ([], false, s)
  | body :: bodies, s =>
    let s := { s with received := body :: s.received }
    match s.turns with
    | [] => answer bodies s
    | turn :: turns =>
      if turn.last then (turn.bytes, true, { s with turns })
      else
        let (bytes, last, s) := answer bodies { s with turns }
        (turn.bytes ++ bytes, last, s)

def peer : Peer Scripted where
  receive chunk s :=
    let drained := Frame.drain UInt32.size (s.buffer ++ chunk)
    answer drained.bodies { s with buffer := drained.buffer }

end Scripted
end PathPolicy.Client
