import PathPolicy.Path.Wire

/-!
The message that serves every method of the path selector, in both directions. Each method
reads only the fields that it needs.
-/

namespace PathPolicy.Selector
open Json

def service : String := "Selector"

structure Pair where
  localAddress : String
  remoteAddress : String
deriving DecidableEq

/-- The key of the session of a pair. Canonical addresses hold no space, so pairs with equal
keys are equal. -/
def Pair.key (p : Pair) : String := p.localAddress ++ " " ++ p.remoteAddress

structure Message where
  localAddress : Option String
  remoteAddress : Option String
  /-- In an answer its absence says that no path is selected. -/
  fingerprint : Option Fingerprint
  interface : Option Interface
  preferences : Option Texts
  paths : Option (List WirePath)

namespace Message

def empty : Message := ⟨none, none, none, none, none, none⟩

def record : Record Message where
  name := "SelectorMsg"
  start := empty
  fields := [
    .of "local" .defaulted (·.localAddress) fun m x => { m with localAddress := x },
    .of "remote" .defaulted (·.remoteAddress) fun m x => { m with remoteAddress := x },
    .of "fingerprint" .defaulted (·.fingerprint) fun m x => { m with fingerprint := x },
    .of "path_interface" .defaulted (·.interface) fun m x => { m with interface := x },
    .of "preferences" .defaulted (·.preferences) fun m x => { m with preferences := x },
    .of "paths" .defaulted (·.paths) fun m x => { m with paths := x }]
  lenient := false

instance : Codable Message := record.codable

def ofPair (p : Pair) : Message :=
  { empty with localAddress := some p.localAddress, remoteAddress := some p.remoteAddress }

def pair (m : Message) : Except Fault Pair := do
  let localAddress ← required m.localAddress "local"
  let remoteAddress ← required m.remoteAddress "remote"
  return ⟨localAddress, remoteAddress⟩

end Message

def selectionValue (selected : Option Fingerprint) : Value :=
  .object [
    ("fingerprint", match selected with | some fp => .text fp | none => .null),
    ("local", .null),
    ("path_interface", .null),
    ("paths", .null),
    ("preferences", .null),
    ("remote", .null)]

inductive Method
  | initialise
  | setPreferences
  | path
  | pathDown
  | refresh
  | close
deriving DecidableEq

namespace Method

def name : Method → String
  | initialise => "Initialize"
  | setPreferences => "SetPreferences"
  | path => "Path"
  | pathDown => "PathDown"
  | refresh => "Refresh"
  | close => "Close"

def ofName : String → Except Fault Method
  | "Initialize" => .ok initialise
  | "SetPreferences" => .ok setPreferences
  | "Path" => .ok path
  | "PathDown" => .ok pathDown
  | "Refresh" => .ok refresh
  | "Close" => .ok close
  | other => .error (.unknownMethod (service ++ "." ++ other))

theorem ofName_name (m : Method) : ofName m.name = .ok m := by
  cases m <;> rfl

end Method
end PathPolicy.Selector
