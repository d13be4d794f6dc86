import PathPolicy.Client.Channel
import PathPolicy.Selector.Message
import PathPolicy.Selector.Session

/-!
A client of the path selector, for one connection. It keeps its own table of the candidates, so
that the daemon answers with a fingerprint only, and the last selection that is still a
candidate, which it falls back on when the daemon fails.
-/

namespace PathPolicy.Client
open Selector Json

structure Selector where
  pair : Option Pair
  preferences : Texts
  paths : PathTable
  lastGood : Option Fingerprint

inductive Operation
  | initialise (pair : Pair) (paths : List Path)
  | setPreferences (preferences : Texts)
  | path
  /-- The daemon's selection without a fallback. -/
  | tryPath
  | pathDown (fingerprint : Fingerprint) (interface : Interface)
  | refresh (paths : List Path)
  | close

/-- What an operation comes to: a change of the client's own state, and after it at most one
request, whose outcome can change the state once more. -/
inductive Step
  | silent (s : Selector) (result : Except Fault (Option Path))
  | ask (s : Selector) (method : Method) (message : Message)
    (finish : Except Fault Message → Selector × Except Fault (Option Path))

namespace Selector

def start : Selector := ⟨none, ∅, ∅, none⟩

/-- Replaces the candidates. The last selection is kept only if it is still one of them. -/
def rebuild (s : Selector) (paths : List Path) : Selector :=
  let table := PathTable.ofList paths
  { s with paths := table, lastGood := s.lastGood.filter fun fp => table.contains fp }

def lastPath (s : Selector) : Option Path := s.lastGood.bind fun fp => s.paths[fp]?

def tell (s : Selector) (method : Method) (message : Message) : Step :=
  .ask s method message fun outcome => (s, outcome.map fun _ => none)

def tellPair (s : Selector) (method : Method) (fill : Message → Message) : Step :=
  match s.pair with
  | none => .silent s (.ok none)
  | some pair => s.tell method (fill (Message.ofPair pair))

def select (s : Selector) (reply : Message) : Selector × Option Path :=
  match reply.fingerprint.bind fun fp => (s.paths[fp]?).map fun p => (fp, p) with
  | some (fp, p) => ({ s with lastGood := some fp }, some p)
  | none => (s, none)

def askPath (s : Selector) (onFault : Fault → Except Fault (Option Path)) : Step :=
  match s.pair with
  | none => .silent s (.ok none)
  | some pair =>
    .ask s .path (Message.ofPair pair) fun
      | .error e => (s, onFault e)
      | .ok reply =>
        let (s, selected) := s.select reply
        (s, .ok selected)

def wirePaths (paths : List Path) : Option (List WirePath) := some (paths.map Path.toWire)

def step (s : Selector) : Operation → Step
  | .initialise pair paths =>
    let s := rebuild { s with pair := some pair, lastGood := none } paths
    s.tell .initialise
      { Message.ofPair pair with preferences := some s.preferences, paths := wirePaths paths }
  | .setPreferences preferences =>
    tellPair { s with preferences } .setPreferences fun m =>
      { m with preferences := some preferences }
  | .path => s.askPath fun _ => .ok s.lastPath
  | .tryPath => s.askPath .error
  | .pathDown fp interface =>
    tellPair { s with paths := s.paths.erase fp, lastGood := s.lastGood.filter (· ≠ fp) }
      .pathDown fun m => { m with fingerprint := some fp, interface := some interface }
  | .refresh paths =>
    (s.rebuild paths).tellPair .refresh fun m => { m with paths := wirePaths paths }
  | .close =>
    let closed := { s with pair := none, paths := ∅, lastGood := none }
    match s.pair with
    | none => .silent closed (.ok none)
    | some pair => closed.tell .close (Message.ofPair pair)

def run {π : Type} (peer : Peer π) (c : Channel) (p : π) (s : Selector) (operation : Operation) :
    Except Fault (Option Path) × Selector × Channel × π :=
  match s.step operation with
  | .silent s result => (result, s, c, p)
  | .ask _ method message finish =>
    let (outcome, c, p) := c.call peer p service method.name message
    let (s, result) := finish (outcome.bind (shaped Message.empty service method.name))
    (result, s, c, p)

end Selector
end PathPolicy.Client
