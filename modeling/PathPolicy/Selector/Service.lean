import PathPolicy.Envelope
import PathPolicy.Path.Table
import PathPolicy.Script.Plan
import PathPolicy.Selector.Message
import PathPolicy.Selector.Session

/-!
Serving the path selector. A message is first read as an operation on an address pair; only a
message that is complete gets that far. The operation changes the sessions and consults the
script.
-/

namespace PathPolicy.Selector
open Script Json

def scriptModule : String := "panapi"

def periodicFunction : String := "Periodic"

def entryPoints : List String :=
  ["Initialize", "SetPreferences", "Path", "PathDown", "Refresh", "Close", periodicFunction]

def periodicCall (elapsed : Nat) : Call :=
  ⟨scriptModule, periodicFunction, [.number (Duration.seconds elapsed)]⟩

inductive Operation
  | initialise (preferences : Texts) (paths : List Path)
  | setPreferences (preferences : Texts)
  | path
  | pathDown (fingerprint : Fingerprint) (interface : Interface)
  | refresh (paths : List Path)
  | close

namespace Operation

def method : Operation → Method
  | initialise _ _ => .initialise
  | setPreferences _ => .setPreferences
  | path => .path
  | pathDown _ _ => .pathDown
  | refresh _ => .refresh
  | close => .close

def candidates (m : Message) : Except Fault (List Path) := (m.paths.getD []).mapM Path.ofWire

def ofMessage (method : Method) (m : Message) : Except Fault (Pair × Operation) := do
  let pair ← m.pair
  match method with
  | .initialise => return (pair, initialise (m.preferences.getD ∅) (← candidates m))
  | .setPreferences => return (pair, setPreferences (m.preferences.getD ∅))
  | .path => return (pair, path)
  | .pathDown =>
    let fingerprint ← required m.fingerprint "fingerprint"
    let interface ← required m.interface "path_interface"
    return (pair, pathDown fingerprint interface)
  | .refresh => return (pair, refresh (← candidates m))
  | .close => return (pair, close)

end Operation

def preferencesToScript (preferences : Texts) : Script.Value :=
  (Table.ofFields (preferences.toList.map fun (name, s) => (name, .text s))).value

inductive Reply
  | done
  | selected (fingerprint : Option Fingerprint)
deriving DecidableEq

def Reply.data : Reply → Option Json.Value
  | done => none
  | selected fp => some (selectionValue fp)

/-- The fingerprint that the script's answer names: a text, or a path table with one. -/
def namedFingerprint : List Script.Value → Except Fault (Option Fingerprint)
  | [] | .nil :: _ => .ok none
  | .text s :: _ => .ok (some s)
  | .table sequence fields :: _ =>
    match (Table.mk sequence fields).get? "Fingerprint" with
    | none | some .nil => .ok none
    | some (.text s) => .ok (some s)
    | some v =>
      .error (.policy ("Path result Fingerprint must be a string, got " ++ v.typeName))
  | v :: _ =>
    .error (.policy ("Path must return nil, a fingerprint, or a path table, got " ++ v.typeName))

/-- A selection counts only if it is a candidate of the session. -/
def selection (t : SessionTable) (key : String) (results : List Script.Value) :
    Except Fault Reply := do
  let named ← namedFingerprint results
  return .selected (named.filter fun fp => (t.resolve key fp).isSome)

def Pair.call (p : Pair) (method : Method) (before after : List Script.Value) : Call :=
  ⟨scriptModule, method.name, before ++ [.text p.localAddress, .text p.remoteAddress] ++ after⟩

/-- Carries out an operation. Questions for a path, and closing, reach the script only if the
pair has a session. -/
def Operation.plan (p : Pair) (t : SessionTable) :
    Operation → Plan SessionTable (Except Fault Reply)
  | initialise preferences paths =>
    .notify (t.install p.key preferences paths)
      (p.call .initialise [preferencesToScript preferences] [Path.listToScript paths]) .done
  | setPreferences preferences =>
    .notify (t.setPreferences p.key preferences)
      (p.call .setPreferences [preferencesToScript preferences] []) .done
  | path =>
    if t.contains p.key then
      .consult t (p.call .path [] []) fun outcome => outcome.bind (selection t p.key)
    else .answer t (.ok (.selected none))
  | pathDown fp interface =>
    .notify (t.evict p.key fp) (p.call .pathDown [] [.text fp, interface.toScript]) .done
  | refresh paths =>
    .notify (t.refresh p.key paths) (p.call .refresh [] [Path.listToScript paths]) .done
  | close =>
    if t.contains p.key then .notify (t.erase p.key) (p.call .close [] []) .done
    else .answer t (.ok .done)

def Operation.ofRequest (r : Request) : Except Fault (Pair × Operation) := do
  let method ← Method.ofName r.method
  let message ← r.payload Message.empty
  ofMessage method message

def serve (t : SessionTable) (r : Request) :
    Plan SessionTable (Except Fault (Option Json.Value)) :=
  match Operation.ofRequest r with
  | .error e => .answer t (.error e)
  | .ok (p, operation) => (operation.plan p t).map (Except.map Reply.data)

end PathPolicy.Selector
