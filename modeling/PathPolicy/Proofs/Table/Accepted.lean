import PathPolicy.Proofs.Table.Lossless

/-!
What is read as a path stays as it is. A script may hand back any value. Where that is refused, the
fault is the policy's; where it is read as a path, the numbers of the path are in the range in which
neither of its forms loses anything.
-/
namespace PathPolicy
open Script

/-! ### What a reading comes to -/

/-- The reading gives a result of the kind or a fault of the policy. -/
def Reads {α : Type} (kind : α → Prop) : Except Fault α → Prop
  | .ok x => kind x
  | .error e => ∃ detail, e = .policy detail

namespace Reads
variable {α β : Type} {kind : α → Prop} {result : Except Fault α}

theorem bind {kind' : β → Prop} {f : α → Except Fault β} (h : Reads kind result)
    (hf : ∀ x, kind x → Reads kind' (f x)) : Reads kind' (result >>= f) := by
  cases result with
  | error e => exact h
  | ok x => exact hf x h

theorem mapM {f : β → Except Fault α} (h : ∀ x, Reads kind (f x)) (xs : List β) :
    Reads (fun ys => ∀ y ∈ ys, kind y) (xs.mapM f) := by
  induction xs with
  | nil => exact nofun
  | cons x xs ih =>
    rw [List.mapM_cons]
    refine (h x).bind fun y hy => ih.bind fun ys hys => ?_
    exact List.forall_mem_cons.mpr ⟨hy, hys⟩

end Reads

/-! ### Fields -/

section Fields
variable (name : String) (v : Value) (t : Table)

theorem reads_tableOr : Reads (fun _ => True) (v.tableOr name) := by
  cases h : v.table? <;> simp [Value.tableOr, h, Reads, mustBe]

theorem reads_textOr : Reads (fun _ => True) (v.textOr name) := by
  cases h : v.text? <;> simp [Value.textOr, h, Reads, mustBe]

theorem reads_signedOr : Reads (fun _ => True) (v.signedOr name) := by
  cases h : v.signed? <;> simp [Value.signedOr, h, Reads, mustBe]

theorem reads_unsignedOr : Reads (fun _ => True) (v.unsignedOr name) := by
  cases h : v.unsigned? <;> simp [Value.unsignedOr, h, Reads, mustBe]

theorem reads_floatOr : Reads (fun _ => True) (v.floatOr name) := by
  cases h : v.float? <;> simp [Value.floatOr, h, Reads, mustBe]

theorem reads_field : Reads (fun _ => True) (t.field name) := by
  cases h : t.get? name <;> simp [Table.field, h, Reads]

theorem reads_entries : Reads (fun _ => True) (t.entries name) := by
  rw [Table.entries]
  split
  · trivial
  · trivial
  next v _ _ => exact (reads_tableOr name v).bind fun t _ => trivial

theorem reads_bounded {α : Type} (bound : Int) (make : Nat → α) (n : Int64) :
    Reads (fun _ => True) (bounded name bound make n) := by
  rw [bounded]
  split
  · trivial
  · exact ⟨_, rfl⟩

end Fields

/-! ### Paths -/

theorem Interface.reads_ofScript (v : Value) : Reads (fun _ => True) (ofScript v) :=
  (reads_tableOr "interface" v).bind fun t _ =>
    (reads_field "IA" t).bind fun area _ => (reads_textOr "IA" area).bind fun _ _ =>
    (reads_field "IfID" t).bind fun id _ => (reads_unsignedOr "IfID" id).bind fun _ _ => trivial

theorem LinkType.reads_ofScript (v : Value) : Reads (fun _ => True) (ofScript v) := by
  refine (reads_signedOr "LinkType" v).bind fun code _ => ?_
  split
  · trivial
  · exact ⟨_, rfl⟩

theorem reads_noteOfScript (v : Value) : Reads (fun _ => True) (noteOfScript v) := by
  cases h : v.text? <;> simp [noteOfScript, h, Reads]

theorem Location.reads_ofScript (v : Value) : Reads (fun _ => True) (ofScript v) :=
  (reads_tableOr "Geo" v).bind fun t _ =>
    (reads_field "Latitude" t).bind fun latitude _ =>
    (reads_floatOr "Latitude" latitude).bind fun _ _ =>
    (reads_field "Longitude" t).bind fun longitude _ =>
    (reads_floatOr "Longitude" longitude).bind fun _ _ =>
    (reads_field "Address" t).bind fun address _ =>
    (reads_textOr "Address" address).bind fun _ _ => trivial

theorem Metadata.reads_ofScript (t : Table) :
    Reads (fun m => ∀ d ∈ m.latency, d ≤ Duration.longest) (ofScript t) := by
  refine (reads_field "MTU" t).bind fun mtu _ => (reads_signedOr "MTU" mtu).bind fun _ _ =>
    (reads_bounded "MTU" _ _ _).bind fun _ _ =>
    (reads_entries "Interfaces" t).bind fun interfaces _ =>
    (Reads.mapM Interface.reads_ofScript interfaces).bind fun _ _ =>
    (reads_entries "Latency" t).bind fun latency _ =>
    (Reads.mapM (reads_unsignedOr "Latency") latency).bind fun latencyNanos _ =>
    (reads_entries "Bandwidth" t).bind fun bandwidth _ =>
    (Reads.mapM (reads_unsignedOr "Bandwidth") bandwidth).bind fun _ _ =>
    (reads_entries "LinkType" t).bind fun linkTypes _ =>
    (Reads.mapM LinkType.reads_ofScript linkTypes).bind fun _ _ =>
    (reads_entries "InternalHops" t).bind fun hops _ =>
    (Reads.mapM (fun v => (reads_signedOr "InternalHops" v).bind fun _ _ =>
      reads_bounded "InternalHops" _ _ _) hops).bind fun _ _ =>
    (reads_entries "Notes" t).bind fun notes _ =>
    (Reads.mapM reads_noteOfScript notes).bind fun _ _ =>
    (reads_entries "Geo" t).bind fun locations _ =>
    (Reads.mapM Location.reads_ofScript locations).bind fun _ _ => ?_
  intro d hd
  obtain ⟨n, -, rfl⟩ := List.mem_map.mp hd
  exact Nat.le_sub_one_of_lt n.toNat_lt

theorem Metadata.reads_fieldOfScript (t : Table) :
    Reads (fun o => ∀ m ∈ o, ∀ d ∈ m.latency, d ≤ Duration.longest) (fieldOfScript t) := by
  rw [fieldOfScript]
  split
  · rintro _ ⟨⟩
  · rintro _ ⟨⟩
  next v _ _ =>
    refine (reads_tableOr "Metadata" v).bind fun inner _ =>
      (reads_ofScript inner).bind fun m hm => ?_
    rintro _ ⟨⟩
    exact hm

theorem Path.reads_ofScript {v : Value} (h : v ≠ .nil) :
    Reads (fun o => ∃ p, o = some p ∧ p.InRange) (ofScript v) := by
  rw [ofScript.eq_2 v h]
  refine (reads_tableOr "path" v).bind fun t _ =>
    (Metadata.reads_fieldOfScript t).bind fun metadata hmetadata =>
    (reads_field "Source" t).bind fun source _ =>
    (reads_textOr "Source" source).bind fun _ _ =>
    (reads_field "Destination" t).bind fun destination _ =>
    (reads_textOr "Destination" destination).bind fun _ _ =>
    (reads_field "Fingerprint" t).bind fun fingerprint _ =>
    (reads_textOr "Fingerprint" fingerprint).bind fun _ _ =>
    (reads_field "Expiry" t).bind fun expiry _ =>
    (reads_unsignedOr "Expiry" expiry).bind fun nanos _ => ⟨_, rfl, ?_⟩
  have hlongest : (nanos.toNat : Int) ≤ Duration.longest :=
    Int.ofNat_le.mpr (Nat.le_sub_one_of_lt nanos.toNat_lt)
  exact ⟨Int.natCast_nonneg _, hlongest, hmetadata⟩

/-! ### Reading again -/

/-- Exactly nil is read as no path, and whatever is refused is refused with a fault of the policy. A
path that is read has an expiry and latencies that 64 bits hold, so that its table is read as this
path again, and its wire form as well. -/
theorem accepted_path_stable (v : Value) :
    (Path.ofScript v = .ok none ↔ v = .nil) ∧
    (∀ e, Path.ofScript v = .error e → ∃ detail, e = .policy detail) ∧
    ∀ p, Path.ofScript v = .ok (some p) →
      p.InRange ∧ Path.ofScript p.toScript = .ok (some p) ∧ Path.ofWire p.toWire = .ok p := by
  by_cases hv : v = .nil
  · subst hv
    exact ⟨⟨fun _ => rfl, fun _ => rfl⟩, nofun, nofun⟩
  · have hreads := Path.reads_ofScript hv
    refine ⟨⟨fun h => ?_, fun h => absurd h hv⟩, fun e he => ?_, fun p hp => ?_⟩
    · rw [h] at hreads
      obtain ⟨p, hp, -⟩ := hreads
      cases hp
    · rwa [he] at hreads
    · rw [hp] at hreads
      obtain ⟨q, hq, hrange⟩ := hreads
      cases hq
      rw [Path.ofScript_toScript, Path.ofWire_toWire, hrange.clamped_eq]
      exact ⟨hrange, rfl, rfl⟩

/-- A table as a careless script writes it: numbers as floating-point numbers and as texts, a sequence
that is nil, others that are absent, and fields that no path has. -/
def looseTable : Value :=
  .table [.boolean true] [
    ("Colour", .text "red"),
    ("Destination", .text ""),
    ("Expiry", .number 9223372036854775808),
    ("Fingerprint", .text "x"),
    ("Metadata", .table [] [
      ("Bandwidth", .table [.text "+0018446744073709551615", .integer 7] []),
      ("Latency", .table [.text "007"] []),
      ("LinkType", .table [.number 3] []),
      ("MTU", .number 1500),
      ("Notes", .nil)]),
    ("Source", .text "1-a")]

/-- The path that the loose table is read as, with its absent lists empty. -/
theorem accepted_path_stable_loose :
    let p : Path := ⟨"1-a", "", some ⟨1500, [], [7], [18446744073709551615, 7], [.openNet], [], [],
      []⟩, "x", ⟨9223372036854775808⟩⟩
    Path.ofScript looseTable = .ok (some p) ∧ Path.ofScript p.toScript = .ok (some p) ∧
      Path.ofWire p.toWire = .ok p := by
  intro p
  have hread : Path.ofScript looseTable = .ok (some p) := by rfl
  obtain ⟨-, -, hstable⟩ := accepted_path_stable looseTable
  obtain ⟨-, htable, hwire⟩ := hstable p hread
  exact ⟨hread, htable, hwire⟩

end PathPolicy
