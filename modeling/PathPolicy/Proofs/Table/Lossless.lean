import PathPolicy.Proofs.Vm.Tables
import PathPolicy.Proofs.Widening
import PathPolicy.Proofs.Wire.Lossless

/-!
The table form of a path is lossless. Every field is stored under a name of its own and read from
there, a number above the signed range by its decimal text, and a coordinate as the same number in
double precision. Only an expiry or a latency that 64 bits do not hold comes back changed.
-/
namespace PathPolicy
open Script

/-! ### Values and fields -/

@[simp] theorem ok_bind {ε α β : Type} (x : α) (f : α → Except ε β) :
    (Except.ok x >>= f) = f x := rfl

namespace Script

section Views
variable (name : String)

@[simp] theorem Value.tableOr_table (sequence : List Value) (fields : List (String × Value)) :
    (table sequence fields).tableOr name = .ok ⟨sequence, fields⟩ := rfl

@[simp] theorem Value.textOr_text (s : String) : (text s).textOr name = .ok s := rfl

@[simp] theorem Value.floatOr_number (x : Float) : (number x).floatOr name = .ok x := rfl

@[simp] theorem Value.signedOr_ofNat (n : Nat) :
    (ofNat n).signedOr name = .ok (Int64.ofInt n) := rfl

@[simp] theorem Value.unsignedOr_ofUInt64 (n : UInt64) :
    (ofUInt64 n).unsignedOr name = .ok n := by
  rw [unsignedOr, unsigned?_ofUInt64]

end Views

section Fields
variable {name : String} {fields : List (String × Value)}

theorem Table.field_ofFields (hnodup : (fields.map Prod.fst).Nodup) {v : Value}
    (h : (name, v) ∈ fields) (hv : v.isNil = false) : (ofFields fields).field name = .ok v := by
  rw [field, get?_ofFields hnodup h, hv]
  rfl

theorem Table.entries_ofFields (hnodup : (fields.map Prod.fst).Nodup) {α : Type}
    {value : α → Value} {xs : List α} (h : (name, .ofList value xs) ∈ fields) :
    (ofFields fields).entries name = .ok (xs.map value) := by
  rw [entries, get?_ofFields hnodup h]
  rfl

end Fields

end Script

theorem bounded_ofInt {α : Type} (name : String) {bound : Int} {make : Nat → α} {n : Nat}
    (h : n < bound) (hsigned : n < 2 ^ 63) :
    bounded name bound make (Int64.ofInt n) = .ok (make n) := by
  have hn : (Int64.ofInt n).toInt = n := Int64.toInt_ofInt_of_le (by omega) (by omega)
  rw [bounded, hn, if_pos ⟨Int.natCast_nonneg n, h⟩, Int.toNat_natCast]

theorem bounded_uint16 (name : String) (n : UInt16) :
    bounded name UInt16.size UInt16.ofNat (Int64.ofInt n.toNat) = .ok n := by
  have hlt : n.toNat < UInt16.size := n.toNat_lt
  rw [bounded_ofInt name (Int.ofNat_lt.mpr hlt) (hlt.trans (by decide)), UInt16.ofNat_toNat]

theorem bounded_uint32 (name : String) (n : UInt32) :
    bounded name UInt32.size UInt32.ofNat (Int64.ofInt n.toNat) = .ok n := by
  have hlt : n.toNat < UInt32.size := n.toNat_lt
  rw [bounded_ofInt name (Int.ofNat_lt.mpr hlt) (hlt.trans (by decide)), UInt32.ofNat_toNat]

/-! ### Hops and places -/

theorem Interface.table_toScript (i : Interface) :
    ∃ t : Table, i.toScript = t.value ∧ t.field "IA" = .ok (.text i.area) ∧
      t.field "IfID" = .ok (.ofUInt64 i.id) :=
  ⟨_, rfl, Table.field_ofFields (by simp) (by simp) rfl,
    Table.field_ofFields (by simp) (by simp) (Value.isNil_ofUInt64 i.id)⟩

theorem Interface.ofScript_toScript (i : Interface) : ofScript i.toScript = .ok i := by
  obtain ⟨t, ht, harea, hid⟩ := i.table_toScript
  simp [ofScript, ht, Table.value, harea, hid, pure, Except.pure]

theorem LinkType.ofScript_code (l : LinkType) : ofScript (.ofNat l.code) = .ok l := by
  cases l <;> rfl

theorem Location.table_toScript (l : Location) :
    ∃ t : Table, l.toScript = t.value ∧
      t.field "Latitude" = .ok (.number (Double.ofSingle l.latitude)) ∧
      t.field "Longitude" = .ok (.number (Double.ofSingle l.longitude)) ∧
      t.field "Address" = .ok (.text l.address) :=
  ⟨_, rfl, Table.field_ofFields (by simp) (by simp) rfl,
    Table.field_ofFields (by simp) (by simp) rfl, Table.field_ofFields (by simp) (by simp) rfl⟩

theorem Location.ofScript_toScript (l : Location) : ofScript l.toScript = .ok l := by
  obtain ⟨t, ht, hlatitude, hlongitude, haddress⟩ := l.table_toScript
  simp [ofScript, ht, Table.value, hlatitude, hlongitude, haddress, Single.ofDouble_ofSingle, pure,
    Except.pure]

/-! ### Metadata -/

theorem Metadata.table_toScript (m : Metadata) :
    ∃ t : Table, m.toScript = t.value ∧ t.field "MTU" = .ok (.ofNat m.mtu.toNat) ∧
      t.entries "Interfaces" = .ok (m.interfaces.map Interface.toScript) ∧
      t.entries "Latency" = .ok (m.latency.map fun d => .ofUInt64 (Duration.nanos d)) ∧
      t.entries "Bandwidth" = .ok (m.bandwidth.map .ofUInt64) ∧
      t.entries "LinkType" = .ok (m.linkTypes.map fun l => .ofNat l.code) ∧
      t.entries "InternalHops" = .ok (m.internalHops.map .ofUInt32) ∧
      t.entries "Notes" = .ok (m.notes.map .text) ∧
      t.entries "Geo" = .ok (m.locations.map Location.toScript) :=
  ⟨_, rfl, Table.field_ofFields (by simp) (by simp) rfl,
    Table.entries_ofFields (by simp) (by simp), Table.entries_ofFields (by simp) (by simp),
    Table.entries_ofFields (by simp) (by simp), Table.entries_ofFields (by simp) (by simp),
    Table.entries_ofFields (by simp) (by simp), Table.entries_ofFields (by simp) (by simp),
    Table.entries_ofFields (by simp) (by simp)⟩

theorem Metadata.exists_ofScript (m : Metadata) :
    ∃ t : Table, m.toScript = t.value ∧ ofScript t = .ok m.clamped := by
  obtain ⟨t, ht, hmtu, hinterfaces, hlatency, hbandwidth, hlinks, hhops, hnotes, hlocations⟩ :=
    m.table_toScript
  have hlatency' : (m.latency.map fun d => Value.ofUInt64 (Duration.nanos d)).mapM
      (Value.unsignedOr "Latency") = .ok (m.latency.map Duration.nanos) :=
    mapM_map_ok fun d _ => Value.unsignedOr_ofUInt64 "Latency" (Duration.nanos d)
  have hhops' : (m.internalHops.map Value.ofUInt32).mapM (fun v =>
      v.signedOr "InternalHops" >>= bounded "InternalHops" UInt32.size UInt32.ofNat)
      = .ok m.internalHops :=
    mapM_map_self m.internalHops (bounded_uint32 "InternalHops")
  have hnotes' : (m.notes.map Value.text).mapM noteOfScript = .ok m.notes :=
    mapM_map_self m.notes fun _ => rfl
  have hlocations' : (m.locations.map Location.toScript).mapM Location.ofScript = .ok m.locations :=
    mapM_map_self m.locations Location.ofScript_toScript
  refine ⟨t, ht, ?_⟩
  simp only [ofScript, hmtu, Value.signedOr_ofNat, bounded_uint16, hinterfaces,
    mapM_map_self m.interfaces Interface.ofScript_toScript, hlatency, hlatency', hbandwidth,
    mapM_map_self m.bandwidth (Value.unsignedOr_ofUInt64 "Bandwidth"), hlinks,
    mapM_map_self m.linkTypes LinkType.ofScript_code, hhops, hhops', hnotes, hnotes', hlocations,
    hlocations', ok_bind, clamped, List.map_map]
  rfl

/-! ### Paths -/

theorem Path.table_toScript (p : Path) :
    ∃ t : Table, p.toScript = t.value ∧ t.field "Source" = .ok (.text p.source) ∧
      t.field "Destination" = .ok (.text p.destination) ∧
      t.field "Fingerprint" = .ok (.text p.fingerprint) ∧
      t.field "Expiry" = .ok (.ofUInt64 p.expiry.unixNanos) ∧
      t.get? "Metadata" = p.metadata.map Metadata.toScript := by
  refine ⟨_, rfl, Table.field_ofFields (by simp) (by simp) rfl,
    Table.field_ofFields (by simp) (by simp) rfl, Table.field_ofFields (by simp) (by simp) rfl,
    Table.field_ofFields (by simp) (by simp) (Value.isNil_ofUInt64 _), ?_⟩
  rw [Table.get?_ofFields (v := .ofOption Metadata.toScript p.metadata) (by simp) (by simp)]
  cases p.metadata <;> rfl

theorem Metadata.fieldOfScript_of_get? {t : Table} {o : Option Metadata}
    (h : t.get? "Metadata" = o.map toScript) : fieldOfScript t = .ok (o.map clamped) := by
  rw [fieldOfScript, h]
  cases o with
  | none => rfl
  | some m =>
    obtain ⟨inner, hinner, hread⟩ := m.exists_ofScript
    simp [hinner, Table.value, hread, pure, Except.pure]

theorem Path.ofScript_toScript (p : Path) : ofScript p.toScript = .ok (some p.clamped) := by
  obtain ⟨t, ht, hsource, hdestination, hfingerprint, hexpiry, hmetadata⟩ := p.table_toScript
  simp [ofScript, ht, Table.value, Metadata.fieldOfScript_of_get? hmetadata, hsource, hdestination,
    hfingerprint, hexpiry, clamped, pure, Except.pure]

/-! ### Both ways -/

/-- Every path that is written as a table is read back from it, and so is every hop. What comes back
is the path as it was, coordinates that are no number included, but for what 64 bits do not hold of
its expiry and of its latencies; if they hold all of it, it is unchanged. -/
theorem table_form_lossless :
    (∀ p : Path, Path.ofScript p.toScript = .ok (some { p with
      metadata := p.metadata.map fun m => { m with latency := m.latency.map Duration.held }
      expiry := p.expiry.held })) ∧
    (∀ p : Path, p.InRange → Path.ofScript p.toScript = .ok (some p)) ∧
    ∀ i : Interface, Interface.ofScript i.toScript = .ok i := by
  refine ⟨fun p => ?_, fun p h => ?_, Interface.ofScript_toScript⟩
  · rw [Path.ofScript_toScript, Path.clamped_eq]
  · rw [Path.ofScript_toScript, h.clamped_eq]

/-- Numbers on both sides of the signed range, texts without characters, and a place that is not
known. -/
def extremePath : Path where
  source := ""
  destination := ""
  metadata := some {
    mtu := 65535
    interfaces := [⟨"", 18446744073709551615⟩, ⟨"1-a", 0⟩]
    latency := [Duration.longest, 2 ^ 63, 2 ^ 63 - 1, 0]
    bandwidth := [9223372036854775808, 9223372036854775807]
    linkTypes := [.openNet, .unset]
    internalHops := [4294967295]
    notes := ["", "note"]
    locations := [⟨0 / 0, -0, ""⟩] }
  fingerprint := ""
  expiry := ⟨Duration.longest⟩

/-- Metadata that are absent and metadata that are empty stay apart. -/
theorem table_form_lossless_extremes :
    let bare : Path := ⟨"", "", none, "", .epoch⟩
    let plain : Path := ⟨"", "", some ⟨0, [], [], [], [], [], [], []⟩, "", .epoch⟩
    extremePath.InRange ∧ Path.ofScript extremePath.toScript = .ok (some extremePath) ∧
      Path.ofScript bare.toScript = .ok (some bare) ∧
      Path.ofScript plain.toScript = .ok (some plain) := by
  intro bare plain
  obtain ⟨-, hpath, -⟩ := table_form_lossless
  have hlatency : ∀ m ∈ extremePath.metadata, ∀ d ∈ m.latency, d ≤ Duration.longest := by
    intro m hm
    obtain rfl := Option.some.inj hm
    decide
  have hextreme : extremePath.InRange := ⟨by decide, by decide, hlatency⟩
  have hbare : bare.InRange := ⟨by decide, by decide, nofun⟩
  have hplain : plain.InRange := by
    refine ⟨by decide, by decide, fun m hm => ?_⟩
    obtain rfl := Option.some.inj hm
    exact nofun
  exact ⟨hextreme, hpath _ hextreme, hpath _ hbare, hpath _ hplain⟩

end PathPolicy
