import PathPolicy.Fault
import PathPolicy.Frame
import PathPolicy.Yaml.Document

/-!
The daemon's configuration. Fields that are not known, or given twice, are refused, as are
values outside their ranges.
-/

namespace PathPolicy
open Yaml

inductive Backend
  | lua
deriving DecidableEq

structure Config where
  version : Nat
  socketPath : String
  maxFrameBytes : Nat
  backend : Backend
  script : String
  /-- In milliseconds. -/
  periodicInterval : Nat
deriving DecidableEq

namespace Config

def defaultSocketPath : String := "/tmp/scion-pan-rpc.sock"

def defaultInterval : Nat := 1000

/-! ### Reading values -/

def digitsIn (base : Nat) (cs : List Char) : Option Nat :=
  if cs.isEmpty then none
  else cs.foldlM (fun n c => (Bytes.hexValue? c).bind fun d =>
    if d < base then some (base * n + d) else none) 0

/-- A whole number without a minus sign: decimal without leading zeros, or after `0x`, `0o` or
`0b`. -/
def wholeNumber? (text : String) : Option Nat :=
  match (match text.toList with | '+' :: cs => cs | cs => cs) with
  | '0' :: 'x' :: cs => digitsIn 16 cs
  | '0' :: 'o' :: cs => digitsIn 8 cs
  | '0' :: 'b' :: cs => digitsIn 2 cs
  | ['0'] => some 0
  | '0' :: _ => none
  | cs => digitsIn 10 cs

def wholeTag : Bytes := Bytes.ofText "tag:yaml.org,2002:int"

/-- A number is written plainly, or in a block of lines that is tagged as a whole number. -/
def numberBelow (d : Document) (bound : Nat) (n : Node) : Option Nat :=
  match d.resolve? n with
  | some (.scalar properties text style) =>
    if style = .plain || (style = .literal && properties.tag = some wholeTag) then
      (wholeNumber? text).filter (· < bound)
    else none
  | _ => none

def text (d : Document) (n : Node) : Option String :=
  match d.resolve? n with
  | some (.scalar _ text _) => some text
  | _ => none

def isNull (text : String) (style : Style) : Bool :=
  style = .plain && ["", "null", "Null", "NULL", "~"].contains text

def ownTag? (tag : Bytes) : Option String :=
  match tag with
  | 33 :: rest => Bytes.text? (if rest.isEmpty then tag else rest)
  | _ => none

def backendOf (d : Document) (n : Node) : Option Backend :=
  match d.resolve? n with
  | some (.scalar properties text style) =>
    match properties.tag.bind ownTag? with
    | some tag => if tag = "lua" && isNull text style then some .lua else none
    | none => if text = "lua" then some .lua else none
  | _ => none

/-! ### Reading sections -/

/-- Takes each entry into the fields, unless its name is unknown or was met before. -/
def takeEntries (d : Document) (names : List String) :
    List (Node × Node) → List (String × Node) → Option (List (String × Node))
  | [], fields => some fields
  | (key, value) :: rest, fields => do
    let name ← text d key
    if names.contains name && !(fields.any fun f => f.1 = name) then
      takeEntries d names rest ((name, value) :: fields)
    else none

def section? (d : Document) (names : List String) (n : Node) : Option (List (String × Node)) :=
  match d.resolve? n with
  | some (.mapping _ entries) => takeEntries d names entries []
  | some (.scalar _ text style) => if style = .plain && text.isEmpty then some [] else none
  | _ => none

def field? (fields : List (String × Node)) (name : String) : Option Node :=
  (fields.find? fun f => f.1 = name).map Prod.snd

def fieldOr {α : Type} (fields : List (String × Node)) (name : String) (absent : α)
    (read : Node → Option α) : Option α :=
  match field? fields name with
  | none => some absent
  | some n => read n

def ofDocument? (d : Document) : Option Config := do
  let top ← section? d ["version", "daemon", "policy"] d.root
  let version ← numberBelow d UInt32.size (← field? top "version")
  let daemon ← fieldOr top "daemon" [] (section? d ["socket_path", "max_frame_bytes"])
  let socketPath ← fieldOr daemon "socket_path" defaultSocketPath (text d)
  let maxFrameBytes ←
    fieldOr daemon "max_frame_bytes" Frame.defaultLimit (numberBelow d UInt64.size)
  let policy ← section? d ["backend", "script", "periodic_interval_ms"] (← field? top "policy")
  let backend ← fieldOr policy "backend" .lua (backendOf d)
  let script ← text d (← field? policy "script")
  let periodicInterval ←
    fieldOr policy "periodic_interval_ms" defaultInterval (numberBelow d UInt64.size)
  return { version, socketPath, maxFrameBytes, backend, script, periodicInterval }

/-! ### Checking -/

def minFrameBytes : Nat := 1024

def maxFrameLimit : Nat := 64 * 1024 * 1024

def check (c : Config) : Except Fault Unit :=
  if c.version ≠ 1 then
    .error (.config ("unsupported config version: " ++ String.ofList (Decimal.ofNat c.version)))
  else if c.socketPath.isEmpty then .error (.config "daemon.socket_path must not be empty")
  else if c.maxFrameBytes < minFrameBytes ∨ maxFrameLimit < c.maxFrameBytes then
    .error (.config "daemon.max_frame_bytes must be between 1024 and 67108864")
  else if c.script.isEmpty then .error (.config "policy.script must not be empty")
  else if c.periodicInterval < 10 ∨ 60000 < c.periodicInterval then
    .error (.config "policy.periodic_interval_ms must be between 10 and 60000")
  else .ok ()

def ofText (yaml : String) : Except Fault Config :=
  match (Document.ofText? yaml).bind ofDocument? with
  | none => .error (.config "invalid yaml")
  | some c => (check c).map fun _ => c

def ofFile (path : String) : Except String String → Except Fault Config
  | .error reason => .error (.config ("read config " ++ path ++ " failed: " ++ reason))
  | .ok yaml => ofText yaml

end Config
end PathPolicy
