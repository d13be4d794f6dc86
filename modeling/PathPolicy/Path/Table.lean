import PathPolicy.Fault
import PathPolicy.Path
import PathPolicy.Script.Value

/-!
The form in which a policy script sees paths: tables with named fields. What a script hands
back is read with care, since a script can build any table; each cause of refusal is a policy
fault.
-/

namespace PathPolicy
open Script

/-! ### Making tables -/

def Interface.toScript (i : Interface) : Value :=
  (Table.ofFields [("IA", .text i.area), ("IfID", .ofUInt64 i.id)]).value

def Location.toScript (l : Location) : Value :=
  (Table.ofFields [
    ("Latitude", .number (Double.ofSingle l.latitude)),
    ("Longitude", .number (Double.ofSingle l.longitude)),
    ("Address", .text l.address)]).value

def Metadata.toScript (m : Metadata) : Value :=
  (Table.ofFields [
    ("MTU", .ofNat m.mtu.toNat),
    ("Interfaces", .ofList Interface.toScript m.interfaces),
    ("Latency", .ofList (fun d => .ofUInt64 (Duration.nanos d)) m.latency),
    ("Bandwidth", .ofList .ofUInt64 m.bandwidth),
    ("LinkType", .ofList (fun l => .ofNat l.code) m.linkTypes),
    ("InternalHops", .ofList .ofUInt32 m.internalHops),
    ("Notes", .ofList .text m.notes),
    ("Geo", .ofList Location.toScript m.locations)]).value

/-- Absent metadata is an absent field. -/
def Path.toScript (p : Path) : Value :=
  (Table.ofFields [
    ("Source", .text p.source),
    ("Destination", .text p.destination),
    ("Fingerprint", .text p.fingerprint),
    ("Expiry", .ofUInt64 p.expiry.unixNanos),
    ("Metadata", .ofOption Metadata.toScript p.metadata)]).value

def Path.listToScript (paths : List Path) : Value := .ofList Path.toScript paths

/-! ### Reading tables -/

namespace Script

def mustBe {α : Type} (name kind : String) (v : Value) : Except Fault α :=
  .error (.policy (name ++ " must be " ++ kind ++ ", got " ++ v.typeName))

def Value.tableOr (name : String) (v : Value) : Except Fault Table :=
  match v.table? with
  | some t => .ok t
  | none => mustBe name "a table" v

def Value.textOr (name : String) (v : Value) : Except Fault String :=
  match v.text? with
  | some s => .ok s
  | none => mustBe name "a string" v

def Value.signedOr (name : String) (v : Value) : Except Fault Int64 :=
  match v.signed? with
  | some n => .ok n
  | none => mustBe name "an integer" v

def Value.unsignedOr (name : String) (v : Value) : Except Fault UInt64 :=
  match v.unsigned? with
  | some n => .ok n
  | none => mustBe name "a non-negative integer" v

def Value.floatOr (name : String) (v : Value) : Except Fault Float :=
  match v.float? with
  | some x => .ok x
  | none => mustBe name "a number" v

def Table.field (t : Table) (name : String) : Except Fault Value :=
  match t.get? name with
  | some v => .ok v
  | none => .error (.policy ("path table missing field " ++ name))

/-- The entries of a sequence; an absent one is empty. -/
def Table.entries (t : Table) (name : String) : Except Fault (List Value) :=
  match t.get? name with
  | none | some .nil => .ok []
  | some v => (v.tableOr name).map Table.sequence

end Script

def bounded {α : Type} (name : String) (bound : Int) (make : Nat → α) (n : Int64) :
    Except Fault α :=
  if 0 ≤ n.toInt ∧ n.toInt < bound then .ok (make n.toInt.toNat)
  else .error (.policy (name ++ " out of range"))

def Interface.ofScript (v : Value) : Except Fault Interface := do
  let t ← v.tableOr "interface"
  let area ← (← t.field "IA").textOr "IA"
  let id ← (← t.field "IfID").unsignedOr "IfID"
  return ⟨area, id⟩

def LinkType.ofScript (v : Value) : Except Fault LinkType := do
  let code ← v.signedOr "LinkType"
  match if 0 ≤ code.toInt then ofCode? code.toInt.toNat else none with
  | some l => return l
  | none =>
    .error (.policy ("unknown link type code: " ++ String.ofList (Decimal.ofInt code.toInt)))

def noteOfScript (v : Value) : Except Fault String :=
  match v.text? with
  | some s => .ok s
  | none => .error (.policy "Notes entries must be strings")

def Location.ofScript (v : Value) : Except Fault Location := do
  let t ← v.tableOr "Geo"
  let latitude ← (← t.field "Latitude").floatOr "Latitude"
  let longitude ← (← t.field "Longitude").floatOr "Longitude"
  let address ← (← t.field "Address").textOr "Address"
  return ⟨Single.ofDouble latitude, Single.ofDouble longitude, address⟩

def Metadata.ofScript (t : Table) : Except Fault Metadata := do
  let mtu ← bounded "MTU" UInt16.size UInt16.ofNat (← (← t.field "MTU").signedOr "MTU")
  let interfaces ← (← t.entries "Interfaces").mapM Interface.ofScript
  let latency ← (← t.entries "Latency").mapM (Value.unsignedOr "Latency")
  let bandwidth ← (← t.entries "Bandwidth").mapM (Value.unsignedOr "Bandwidth")
  let linkTypes ← (← t.entries "LinkType").mapM LinkType.ofScript
  let internalHops ← (← t.entries "InternalHops").mapM fun v => do
    bounded "InternalHops" UInt32.size UInt32.ofNat (← v.signedOr "InternalHops")
  let notes ← (← t.entries "Notes").mapM noteOfScript
  let locations ← (← t.entries "Geo").mapM Location.ofScript
  return {
    mtu, interfaces, latency := latency.map UInt64.toNat, bandwidth, linkTypes, internalHops,
    notes, locations }

def Metadata.fieldOfScript (t : Table) : Except Fault (Option Metadata) :=
  match t.get? "Metadata" with
  | none | some .nil => .ok none
  | some v => do
    let metadata ← Metadata.ofScript (← v.tableOr "Metadata")
    return some metadata

def Path.ofScript : Value → Except Fault (Option Path)
  | .nil => .ok none
  | v => do
    let t ← v.tableOr "path"
    let metadata ← Metadata.fieldOfScript t
    let source ← (← t.field "Source").textOr "Source"
    let destination ← (← t.field "Destination").textOr "Destination"
    let fingerprint ← (← t.field "Fingerprint").textOr "Fingerprint"
    let expiry ← (← t.field "Expiry").unsignedOr "Expiry"
    return some { source, destination, metadata, fingerprint, expiry := .ofUnixNanos expiry }

end PathPolicy
