import PathPolicy.Envelope
import PathPolicy.Proofs.Json.Finite
import PathPolicy.Selector.Message

/-!
Paths, messages of the path selector and requests are read back from what is sent. Only their
coordinates have to be finite, since no other numbers have a text.
-/
namespace PathPolicy.Json

/-! ### Written forms -/

theorem written_nat (n : Nat) : Written (writeNat n) := by
  rw [writeNat_eq]
  exact .number false (Numeral.proper_ofNat n)

theorem written_uint8 (n : UInt8) : Written (Codable.write n) := written_nat n.toNat

theorem written_uint16 (n : UInt16) : Written (Codable.write n) := written_nat n.toNat

theorem written_uint32 (n : UInt32) : Written (Codable.write n) := written_nat n.toNat

theorem written_uint64 (n : UInt64) : Written (Codable.write n) := written_nat n.toNat

theorem written_int64 (n : Int64) : Written (Codable.write n) := by
  change Written (writeInt n.toInt)
  rw [writeInt_eq]
  exact .number _ (Numeral.proper_ofNat _)

theorem written_option {α : Type} [Codable α] (h : ∀ x : α, Written (Codable.write x))
    (o : Option α) : Written (Codable.write o) := by
  cases o with
  | none => exact .null
  | some x => exact h x

theorem written_list {α : Type} [Codable α] (h : ∀ x : α, Written (Codable.write x))
    (xs : List α) : Written (Codable.write xs) := by
  refine .list fun item hitem => ?_
  obtain ⟨x, -, rfl⟩ := List.mem_map.mp hitem
  exact h x

section Record
variable {ρ : Type} {x : ρ}

def FieldsWritten (x : ρ) (fields : List (Field ρ)) : Prop :=
  ∀ f ∈ fields, ∀ value ∈ f.write x, Written value

theorem FieldsWritten.nil : FieldsWritten x [] := by
  rintro f ⟨⟩

theorem FieldsWritten.of {α : Type} [Codable α] {name : String} {absence : Absence} {get : ρ → α}
    {set : ρ → α → ρ} {fields : List (Field ρ)} (h : Written (Codable.write (get x)))
    (hrest : FieldsWritten x fields) : FieldsWritten x (.of name absence get set :: fields) := by
  intro f hf
  rcases List.mem_cons.mp hf with rfl | hf
  · rintro value ⟨⟩
    exact h
  · exact hrest f hf

theorem FieldsWritten.sparse {α : Type} [Codable α] {name : String} {get : ρ → Option α}
    {set : ρ → Option α → ρ} {fields : List (Field ρ)} (h : ∀ y : α, Written (Codable.write y))
    (hrest : FieldsWritten x fields) : FieldsWritten x (.sparse name get set :: fields) := by
  intro f hf
  rcases List.mem_cons.mp hf with rfl | hf
  · intro value hvalue
    obtain ⟨y, -, rfl⟩ := Option.map_eq_some_iff.mp hvalue
    exact h y
  · exact hrest f hf

theorem written_record {r : Record ρ} (h : FieldsWritten x r.fields) : Written (r.write x) := by
  refine .object fun m hm => ?_
  obtain ⟨f, hf, hm⟩ := List.mem_filterMap.mp hm
  obtain ⟨value, hvalue, rfl⟩ := Option.map_eq_some_iff.mp hm
  exact h f hf value hvalue

end Record

/-! ### Texts by name -/

theorem ofList_toList (t : Texts) : Std.ExtTreeMap.ofList t.toList = t := by
  ext key s
  cases h : t[key]? with
  | some s' =>
    rw [Std.ExtTreeMap.getElem?_ofList_of_mem Std.ReflCmp.compare_self Std.ExtTreeMap.distinct_keys_toList
      (Std.ExtTreeMap.mem_toList_iff_getElem?_eq_some.mpr h)]
  | none =>
    rw [Std.ExtTreeMap.getElem?_ofList_of_contains_eq_false]
    simpa using h

theorem opens_texts (t : Texts) : Opens (Codable.write t) := ⟨123, _, rfl, by decide⟩

theorem written_texts (t : Texts) : Written (Codable.write t) := by
  refine .object fun m hm => ?_
  obtain ⟨entry, -, rfl⟩ := List.mem_map.mp hm
  exact .text entry.2

def readEntryInto (budget : Budget) (t : Texts) (name : String) (text : Bytes) :
    Except Failure (Texts × Bytes) := do
  let text ← readColon text
  let (s, text) ← Codable.read budget text
  return (t.insert name s, text)

theorem follows_entries {budget : Budget} {entries : List (String × String)}
    (h : ∀ e ∈ entries, (writeText e.2).length < budget.steps) (t : Texts) :
    Follows (readEntryInto budget) (entries.map fun e => (e.1, writeText e.2)) t
      (entries.foldl (fun t e => t.insert e.1 e.2) t) := by
  induction entries generalizing t with
  | nil => exact .nil t
  | cons e entries ih =>
    refine .cons (fun rest hrest => ?_) (ih (fun e he => h e (List.mem_cons_of_mem _ he)) _)
    have hcolon : readColon (58 :: (writeText e.2 ++ rest)) = .ok (writeText e.2 ++ rest) := by
      simp [readColon, skipSpace_cons (b := 58) (by decide)]
    have hread := roundTrips_string e.2 budget (Nat.zero_le _) (h e List.mem_cons_self) rest hrest
    change Codable.read budget (writeText e.2 ++ rest) = _ at hread
    simp only [readEntryInto, List.cons_append, hcolon, hread, bind, Except.bind]
    rfl

theorem roundTrips_texts (t : Texts) : RoundTrips 1 t := by
  intro budget hdepth hsteps rest _
  obtain ⟨d, steps⟩ := budget
  obtain ⟨d, rfl⟩ := Nat.exists_eq_add_of_le' hdepth
  change (writeObject (t.toList.map fun e => (e.1, writeText e.2))).length < steps at hsteps
  have hsize : ∀ m ∈ t.toList.map fun e => (e.1, writeText e.2),
      (quotedTail m.1).length + m.2.length < steps :=
    fun m hm => Nat.lt_trans (length_member_lt hm) hsteps
  have hfollows := @follows_entries ⟨d, steps⟩ t.toList
    (fun e he => Nat.lt_of_le_of_lt (Nat.le_add_left _ _)
      (hsize (e.1, writeText e.2) (List.mem_map.mpr ⟨e, he, rfl⟩))) ∅
  rw [← Std.ExtTreeMap.ofList_eq_foldl, ofList_toList] at hfollows
  have hmembers := readMembers_separated hfollows
    (fun m hm => Nat.le_of_lt (Nat.lt_of_le_of_lt (Nat.le_add_right _ _) (hsize m hm)))
    (Nat.lt_trans (length_members_lt _) hsteps) rest
  change Codable.read ⟨d + 1, steps⟩ (123 :: separated (writeMembers
    (t.toList.map fun e => (e.1, writeText e.2))) ++ [125] ++ rest) = _
  simp only [Codable.read, List.cons_append, List.append_assoc, List.nil_append,
    atValue_cons (b := 123) (by decide), bind, Except.bind, if_true, Budget.enter]
  change closing closeObject (readMembers (readEntryInto ⟨d, steps⟩) steps steps true ∅ _) = _
  rw [hmembers]
  rfl

end PathPolicy.Json

namespace PathPolicy
open Json

/-! ### Paths -/

theorem roundTrips_interface (i : Interface) : RoundTrips 1 i :=
  takes_record (by decide) <|
    .of (roundTrips_string i.area) <| .of (roundTrips_uint64 i.id) <| .nil i

theorem written_interface (i : Interface) : Written (Codable.write i) :=
  written_record <| .of (.text i.area) <| .of (written_uint64 i.id) .nil

def Location.FiniteCoordinates (l : Location) : Prop :=
  l.latitude.isFinite ∧ l.longitude.isFinite

theorem roundTrips_location {l : Location} (h : l.FiniteCoordinates) : RoundTrips 1 l :=
  takes_record (by decide) <|
    .of (roundTrips_single h.1).2 <| .of (roundTrips_single h.2).2 <|
    .of (roundTrips_string l.address) <| .nil l

theorem written_location (l : Location) : Written (Codable.write l) :=
  written_record <| .of (written_single l.latitude) <| .of (written_single l.longitude) <|
    .of (.text l.address) .nil

theorem roundTrips_scalars {α : Type} [Codable α] (hopens : ∀ x : α, Opens (Codable.write x))
    (hread : ∀ x : α, RoundTrips 0 x) (xs : List α) : RoundTrips 2 xs :=
  (roundTrips_list fun x _ => ⟨hopens x, hread x⟩).mono (by decide)

theorem roundTrips_interfaces (interfaces : List Interface) : RoundTrips 2 interfaces :=
  roundTrips_list fun i _ => ⟨opens_record Interface.record i, roundTrips_interface i⟩

theorem roundTrips_metadata {m : WireMetadata} (h : ∀ l ∈ m.locations, l.FiniteCoordinates) :
    RoundTrips 3 m := by
  have hlocations : RoundTrips 2 m.locations := roundTrips_list fun l hl =>
    ⟨opens_record Location.record l, roundTrips_location (h l hl)⟩
  exact takes_record (by decide) <|
    .of ((roundTrips_uint16 m.mtu).mono (by decide)) <|
    .of (roundTrips_interfaces m.interfaces) <|
    .of (roundTrips_scalars (fun n => opens_nat n.toNat) roundTrips_uint64 m.latencyNanos) <|
    .of (roundTrips_scalars (fun n => opens_nat n.toNat) roundTrips_uint64 m.bandwidth) <|
    .of (roundTrips_scalars (fun n => opens_nat n.toNat) roundTrips_uint8 m.linkTypes) <|
    .of (roundTrips_scalars (fun n => opens_nat n.toNat) roundTrips_uint32 m.internalHops) <|
    .of (roundTrips_scalars opens_string roundTrips_string m.notes) <| .of hlocations <| .nil m

theorem written_metadata (m : WireMetadata) : Written (Codable.write m) :=
  written_record <| .of (written_uint16 m.mtu) <| .of (written_list written_interface m.interfaces) <|
    .of (written_list written_uint64 m.latencyNanos) <|
    .of (written_list written_uint64 m.bandwidth) <| .of (written_list written_uint8 m.linkTypes) <|
    .of (written_list written_uint32 m.internalHops) <| .of (written_list .text m.notes) <|
    .of (written_list written_location m.locations) .nil

def WirePath.FiniteCoordinates (p : WirePath) : Prop :=
  ∀ m ∈ p.metadata, ∀ l ∈ m.locations, l.FiniteCoordinates

theorem roundTrips_path {p : WirePath} (h : p.FiniteCoordinates) : RoundTrips 4 p :=
  takes_record (by decide) <|
    .of ((roundTrips_string p.source).mono (by decide)) <|
    .of ((roundTrips_string p.destination).mono (by decide)) <|
    .of (roundTrips_option (fun m hm => roundTrips_metadata (h m hm))
      fun m => opens_record WireMetadata.record m) <|
    .of ((roundTrips_string p.fingerprint).mono (by decide)) <|
    .of ((roundTrips_uint64 p.expiryNanos).mono (by decide)) <| .nil p

theorem written_path (p : WirePath) : Written (Codable.write p) :=
  written_record <| .of (.text p.source) <| .of (.text p.destination) <|
    .of (written_option written_metadata p.metadata) <| .of (.text p.fingerprint) <|
    .of (written_uint64 p.expiryNanos) .nil

/-! ### Messages and requests -/

namespace Selector

def Message.FiniteCoordinates (m : Message) : Prop :=
  ∀ paths ∈ m.paths, ∀ p ∈ paths, p.FiniteCoordinates

theorem roundTrips_optionalString (o : Option String) : RoundTrips 5 o :=
  roundTrips_option (fun s _ => (roundTrips_string s).mono (by decide)) opens_string

theorem roundTrips_message {m : Message} (h : m.FiniteCoordinates) : RoundTrips 6 m := by
  have hpaths : RoundTrips 5 m.paths := roundTrips_option
    (fun paths hpaths => roundTrips_list fun p hp =>
      ⟨opens_record WirePath.record p, roundTrips_path (h paths hpaths p hp)⟩) opens_list
  exact takes_record (by decide) <|
    .of (roundTrips_optionalString m.localAddress) <|
    .of (roundTrips_optionalString m.remoteAddress) <|
    .of (roundTrips_optionalString m.fingerprint) <|
    .of (roundTrips_option (fun i _ => (roundTrips_interface i).mono (by decide))
      fun i => opens_record Interface.record i) <|
    .of (roundTrips_option (fun t _ => (roundTrips_texts t).mono (by decide)) opens_texts) <|
    .of hpaths <| .nil m

theorem written_message (m : Message) : Written (Codable.write m) :=
  written_record <| .of (written_option .text m.localAddress) <|
    .of (written_option .text m.remoteAddress) <| .of (written_option .text m.fingerprint) <|
    .of (written_option written_interface m.interface) <|
    .of (written_option written_texts m.preferences) <|
    .of (written_option (written_list written_path) m.paths) .nil

end Selector

theorem roundTrips_request {r : Request} (h : ∀ raw ∈ r.data, Keepable raw.text) :
    RoundTrips 1 r := by
  have hdata : RoundTrips 0 r.data := by
    cases hr : r.data with
    | none => exact roundTrips_none 0
    | some raw => exact roundTrips_some (roundTrips_raw (h raw hr)) (h raw hr).opens
  exact takes_record (by decide) <|
    .of (roundTrips_uint8 r.version) <| .of (roundTrips_uint64 r.id) <|
    .of (roundTrips_string r.service) <| .of (roundTrips_string r.method) <| .of hdata <| .nil r

theorem Request.parse_encode {r : Request} (hversion : r.version = protocolVersion)
    (h : ∀ raw ∈ r.data, Keepable raw.text) : Request.parse (encode r) = .ok r := by
  rw [Request.parse, decode_encode (roundTrips_request h) (by decide)]
  exact if_pos hversion

theorem Request.parse_encode_make {α : Type} [Codable α] {data : α} (hwritten : Written (encode data))
    (hopens : Opens (encode data)) (id : UInt64) (service method : String) :
    Request.parse (encode (Request.make id service method data))
      = .ok (Request.make id service method data) :=
  parse_encode rfl (by rintro raw ⟨⟩; exact hwritten.keepable hopens)

theorem Request.payload_make {α : Type} [Codable α] {depth : Nat} {data : α}
    (h : RoundTrips depth data) (hdepth : depth ≤ 127) (absent : α) (id : UInt64)
    (service method : String) : (Request.make id service method data).payload absent = .ok data := by
  change (decode (encode data)).mapError _ = _
  rw [decode_encode h hdepth]
  rfl

end PathPolicy
