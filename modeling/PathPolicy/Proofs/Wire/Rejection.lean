import PathPolicy.Proofs.Json.Reading
import PathPolicy.Proofs.Wire.Message
import PathPolicy.Selector.Service

/-!
A coordinate that is not finite is sent as null, which is not read as a coordinate. So a message
with such a coordinate is refused, wherever in it the coordinate stands.
-/
namespace PathPolicy.Json
variable {α ρ : Type}

/-- The reader takes no text that begins with this one. -/
def Spurns (item : Bytes → Except Failure (α × Bytes)) (text : Bytes) : Prop :=
  ∀ rest found, item (text ++ rest) ≠ .ok found

/-- The reader spurns the text wherever `depth` further levels are allowed. -/
def Rejects (read : Budget → Bytes → Except Failure (α × Bytes)) (depth : Nat) (text : Bytes) :
    Prop :=
  ∀ budget : Budget, depth ≤ budget.depth → text.length < budget.steps → Spurns (read budget) text

abbrev Unreadable [Codable α] (depth : Nat) (x : α) : Prop :=
  Rejects (Codable.read : Budget → Bytes → Except Failure (α × Bytes)) depth (Codable.write x)

theorem Rejects.mono {read : Budget → Bytes → Except Failure (α × Bytes)} {depth deeper : Nat}
    {text : Bytes} (h : Rejects read depth text) (hle : depth ≤ deeper) :
    Rejects read deeper text :=
  fun budget hdepth => h budget (Nat.le_trans hle hdepth)

theorem Spurns.map {β : Type} {item : Bytes → Except Failure (α × Bytes)} {text : Bytes}
    (h : Spurns item text) (f : α × Bytes → β × Bytes) :
    Spurns (fun text => (item text).map f) text := by
  intro rest found hmap
  obtain ⟨taken, htaken, -⟩ := map_eq_ok.mp hmap
  exact h rest taken htaken

theorem decode_ne_ok [Codable α] {depth : Nat} {x : α} (h : Unreadable depth x)
    (hdepth : depth ≤ 127) (y : α) : decode (encode x) ≠ .ok y := by
  intro hdecode
  obtain ⟨rest, hread, -⟩ := readWhole_eq_ok.mp hdecode
  have hspurns := h (.ofText (encode x)) hdepth (Nat.lt_succ_self _) [] (y, rest)
  rw [List.append_nil] at hspurns
  exact hspurns hread

theorem unreadable_single {x : Float32} (h : x.isFinite = false) : Unreadable 0 x := by
  intro budget _ _ rest found
  have hnone : numeral? x.toModel.unpack = none := by
    change x.toModel.unpack.isFinite = false at h
    cases hx : x.toModel.unpack with
    | notANumber | infinity s => rfl
    | zero s | finite s m e hm =>
      rw [hx] at h
      cases h
  change single.read budget (writeFloat32 x ++ rest) ≠ _
  rw [writeFloat32_of_none hnone]
  change refuse single.expected budget (writeNull ++ rest) ≠ _
  exact refuse_ne_ok

theorem unreadable_some [Codable α] {depth : Nat} {x : α} (h : Unreadable depth x)
    (hopens : Opens (Codable.write x)) : Unreadable depth (some x) := by
  intro budget hdepth hsteps rest found
  have hspurns := (h budget hdepth hsteps).map (Prod.map some id) rest found
  obtain ⟨b, tail, htext, hspace, -, hnull⟩ := hopens
  change Codable.read budget (Codable.write x ++ rest) ≠ _
  dsimp only at hspurns
  rw [htext, List.cons_append] at hspurns ⊢
  simp only [Codable.read, skipSpace_cons hspace]
  split
  · rename_i heq
    exact absurd (List.head_eq_of_cons_eq heq) hnull
  · exact hspurns

/-! ### Parts of lists and objects -/

def joined (first : Bool) (parts : List Bytes) : Bytes :=
  if first then separated parts else parts.flatMap (44 :: ·)

theorem nextElement_joined {text : Bytes} (h : Opens text) (first : Bool) (parts : List Bytes)
    (rest : Bytes) : nextElement first (joined first (text :: parts) ++ rest)
      = .ok (true, text ++ (parts.flatMap (44 :: ·) ++ rest)) := by
  obtain ⟨b, tail, rfl, hspace, hclose, -⟩ := h
  cases first <;> simp [joined, separated_cons, nextElement, skipSpace_cons hspace, hclose,
    skipSpace_cons (b := 44) (by decide)]

theorem nextMember_joined (first : Bool) (name : String) (value : Bytes) (parts : List Bytes)
    (rest : Bytes) : nextMember first (joined first (writeMember name value :: parts) ++ rest)
      = .ok (true, writeMember name value ++ (parts.flatMap (44 :: ·) ++ rest)) := by
  cases first <;> simp [joined, separated_cons, nextMember, writeMember, writeText_eq,
    skipSpace_cons (b := 44) (by decide), skipSpace_cons (b := 34) (by decide)]

section List
variable [Codable α] {item : Bytes → Except Failure (α × Bytes)}

theorem readElements_ne_ok {xs : List α} (hopens : ∀ x : α, Opens (Codable.write x))
    (h : ∀ x ∈ xs, Consumes item (Codable.write x) x ∨ Spurns item (Codable.write x))
    (hbad : ∃ x ∈ xs, Spurns item (Codable.write x)) (n : Nat) (first : Bool) (rest : Bytes)
    (found : List α × Bytes) :
    readElements item n first (joined first (xs.map Codable.write) ++ 93 :: rest) ≠ .ok found := by
  induction xs generalizing n first found with
  | nil => simp at hbad
  | cons x xs ih =>
    intro hread
    cases n with
    | zero => cases hread
    | succ n =>
      obtain ⟨⟨more, next⟩, hnext, hread⟩ := bind_eq_ok.mp hread
      rw [List.map_cons, nextElement_joined (hopens x)] at hnext
      cases hnext
      obtain ⟨⟨y, after⟩, hitem, hread⟩ := bind_eq_ok.mp hread
      -- a good element leads on to a bad one behind it
      rcases h x List.mem_cons_self with hconsumes | hspurns
      · cases (hconsumes _ (stops_flatMap_comma (.inl rfl) _ rest)).symm.trans hitem
        obtain ⟨⟨ys, last⟩, hlast, -⟩ := bind_eq_ok.mp hread
        have hbad' : ∃ x ∈ xs, Spurns item (Codable.write x) := by
          obtain ⟨z, hz, hspurns⟩ := hbad
          rcases List.mem_cons.mp hz with rfl | hz
          · exact absurd hitem (hspurns _ _)
          · exact ⟨z, hz, hspurns⟩
        exact ih (fun x hx => h x (List.mem_cons_of_mem _ hx)) hbad' n false (ys, last) hlast
      · exact hspurns _ _ hitem

theorem unreadable_list {depth : Nat} {xs : List α} (hopens : ∀ x : α, Opens (Codable.write x))
    (h : ∀ x ∈ xs, RoundTrips depth x ∨ Unreadable depth x) (hbad : ∃ x ∈ xs, Unreadable depth x) :
    Unreadable (depth + 1) xs := by
  intro budget hdepth hsteps rest found hread
  obtain ⟨d, steps⟩ := budget
  obtain ⟨d, rfl⟩ := Nat.exists_eq_add_of_le' (Nat.lt_of_lt_of_le (Nat.succ_pos depth) hdepth)
  change (writeList (xs.map Codable.write)).length < steps at hsteps
  rw [length_writeList] at hsteps
  have hdepth' : depth ≤ d := Nat.le_of_succ_le_succ hdepth
  have hlt {x : α} (hx : x ∈ xs) : (Codable.write x).length < steps := by
    have hle := length_part_le (List.mem_map_of_mem (f := Codable.write) hx)
    omega
  have helements := @readElements_ne_ok _ _ (Codable.read ⟨d, steps⟩) _ hopens
    (fun x hx => (h x hx).imp (fun h => h ⟨d, steps⟩ hdepth' (hlt hx))
      fun h => h ⟨d, steps⟩ hdepth' (hlt hx))
    (hbad.imp fun x hx => ⟨hx.1, hx.2 ⟨d, steps⟩ hdepth' (hlt hx.1)⟩) steps true rest
  change readList "a sequence" Codable.read ⟨d + 1, steps⟩
    (91 :: separated (xs.map Codable.write) ++ [93] ++ rest) = _ at hread
  simp only [readList, List.cons_append, List.append_assoc, List.nil_append,
    atValue_cons (b := 91) (by decide), bind, Except.bind, if_true, Budget.enter] at hread
  obtain ⟨mid, hmid, -⟩ := closing_eq_ok.mp hread
  exact helements _ hmid

end List

/-! ### Records -/

/-- Some field is written to a text that is not read, and those before it are read back, which takes
the record to another one each time. -/
inductive Spoils (depth : Nat) (x : ρ) : List (Field ρ) → ρ → Prop
  | here {f : Field ρ} {fields : List (Field ρ)} {a : ρ} {value : Bytes}
    (h : f.write x = some value) (hread : Rejects f.read depth value) :
    Spoils depth x (f :: fields) a
  | later {f : Field ρ} {fields : List (Field ρ)} {a : ρ} {value : Bytes} {update : ρ → ρ}
    (h : f.write x = some value) (hread : Takes f.read depth value update)
    (hrest : Spoils depth x fields (update a)) : Spoils depth x (f :: fields) a

section Record
variable [Codable α] {depth : Nat} {x a : ρ} {name : String} {absence : Absence} {get : ρ → α}
  {set : ρ → α → ρ} {fields : List (Field ρ)}

theorem Spoils.field (h : Unreadable depth (get x)) :
    Spoils depth x (.of name absence get set :: fields) a :=
  .here rfl fun budget hdepth hsteps =>
    (h budget hdepth hsteps).map (Prod.map (fun y r => set r y) id)

theorem Spoils.of (h : RoundTrips depth (get x)) (hrest : Spoils depth x fields (set a (get x))) :
    Spoils depth x (.of name absence get set :: fields) a :=
  .later rfl (fun budget hdepth hsteps => (h budget hdepth hsteps).map fun y r => set r y) hrest

end Record

theorem step_of_readMembers {σ : Type} {step : σ → String → Bytes → Except Failure (σ × Bytes)}
    {steps n : Nat} {first : Bool} {s : σ} {name : String} {value : Bytes} {parts : List Bytes}
    {rest : Bytes} {found : σ × Bytes} (hname : (quotedTail name).length ≤ steps)
    (h : readMembers step steps n first s
      (joined first (writeMember name value :: parts) ++ 125 :: rest) = .ok found) :
    ∃ m t after, step s name (58 :: value ++ (parts.flatMap (44 :: ·) ++ 125 :: rest))
      = .ok (t, after) ∧ readMembers step steps m false t after = .ok found := by
  cases n with
  | zero => cases h
  | succ n =>
    obtain ⟨⟨more, next⟩, hnext, h⟩ := bind_eq_ok.mp h
    rw [nextMember_joined] at hnext
    cases hnext
    obtain ⟨⟨other, colon⟩, htext, h⟩ := bind_eq_ok.mp h
    have hquoted := readText_quotedTail name
      (58 :: value ++ (parts.flatMap (44 :: ·) ++ 125 :: rest)) hname
    simp only [writeMember, writeText_eq, List.cons_append, List.append_assoc,
      List.tail_cons] at htext hquoted
    cases hquoted.symm.trans htext
    obtain ⟨⟨t, after⟩, hstep, h⟩ := bind_eq_ok.mp h
    exact ⟨n, t, after, hstep, h⟩

section Member
variable {r : Record ρ} {budget : Budget} {given : List String} {a : ρ} {f : Field ρ}

theorem new_of_readMember (hfind : (r.fields.find? fun g => g.name = f.name) = some f)
    {text : Bytes} {found : (List String × ρ) × Bytes}
    (h : r.readMember budget (given, a) f.name text = .ok found) : f.name ∉ given := by
  intro hgiven
  simp [Record.readMember, hfind, hgiven, failWhole] at h

theorem readMember_spurns (hfind : (r.fields.find? fun g => g.name = f.name) = some f)
    {value : Bytes} (hread : Spurns (f.read budget) value) :
    Spurns (r.readMember budget (given, a) f.name) (58 :: value) := by
  intro rest found h
  have hnew := new_of_readMember hfind h
  have hcolon : readColon (58 :: (value ++ rest)) = .ok (value ++ rest) := by
    simp [readColon, skipSpace_cons (b := 58) (by decide)]
  simp only [Record.readMember, hfind, List.contains_eq_mem, hnew, decide_false, Bool.false_eq_true,
    if_false, List.cons_append, hcolon] at h
  obtain ⟨_, ⟨⟩, h⟩ := bind_eq_ok.mp h
  obtain ⟨taken, htaken, -⟩ := bind_eq_ok.mp h
  exact hread _ _ htaken

end Member

theorem readMembers_ne_ok {r : Record ρ} {depth : Nat} {x a : ρ} {fields : List (Field ρ)}
    (h : Spoils depth x fields a) {budget : Budget} (hdepth : depth ≤ budget.depth)
    (hsteps : ∀ m ∈ writtenFields x fields, (quotedTail m.1).length + m.2.length < budget.steps)
    (hfind : ∀ f ∈ fields, (r.fields.find? fun g => g.name = f.name) = some f) (n : Nat)
    (first : Bool) (given : List String) (rest : Bytes) (found : (List String × ρ) × Bytes) :
    readMembers (r.readMember budget) budget.steps n first (given, a)
      (joined first (writeMembers (writtenFields x fields)) ++ 125 :: rest) ≠ .ok found := by
  intro hread
  induction h generalizing n first given with
  | @here f fields a value hwrite hrejects =>
    rw [writtenFields_cons_of_some hwrite] at hsteps hread
    have hsize := hsteps _ List.mem_cons_self
    obtain ⟨m, t, after, hstep, -⟩ := step_of_readMembers
      (Nat.le_of_lt (Nat.lt_of_le_of_lt (Nat.le_add_right _ _) hsize)) hread
    exact readMember_spurns (hfind f List.mem_cons_self)
      (hrejects budget hdepth (Nat.lt_of_le_of_lt (Nat.le_add_left _ _) hsize)) _ _ hstep
  | @later f fields a value update hwrite htakes _ ih =>
    rw [writtenFields_cons_of_some hwrite] at hsteps hread
    have hsize := hsteps _ List.mem_cons_self
    obtain ⟨m, t, after, hstep, hread⟩ := step_of_readMembers
      (Nat.le_of_lt (Nat.lt_of_le_of_lt (Nat.le_add_right _ _) hsize)) hread
    have hconsumes := readMember_of_find (a := a) (hfind f List.mem_cons_self)
      (new_of_readMember (hfind f List.mem_cons_self) hstep)
      (htakes budget hdepth (Nat.lt_of_le_of_lt (Nat.le_add_left _ _) hsize))
    cases (hconsumes _ (stops_flatMap_comma (.inr rfl) _ rest)).symm.trans hstep
    exact ih (fun m hm => hsteps m (List.mem_cons_of_mem _ hm))
      (fun f hf => hfind f (List.mem_cons_of_mem _ hf)) m false _ hread

theorem rejects_record {r : Record ρ} {depth : Nat} {x : ρ}
    (hnodup : (r.fields.map Field.name).Nodup)
    (h : Spoils depth x r.fields r.start) : Rejects r.read (depth + 1) (r.write x) := by
  intro budget hdepth hsteps rest found hread
  obtain ⟨d, steps⟩ := budget
  obtain ⟨d, rfl⟩ := Nat.exists_eq_add_of_le' (Nat.lt_of_lt_of_le (Nat.succ_pos depth) hdepth)
  change (writeObject (writtenFields x r.fields)).length < steps at hsteps
  have hmembers := @readMembers_ne_ok _ _ _ _ _ _ h ⟨d, steps⟩ (Nat.le_of_succ_le_succ hdepth)
    (fun m hm => Nat.lt_trans (length_member_lt hm) hsteps) (fun f hf => find?_name hnodup hf)
    steps true [] rest
  change r.read ⟨d + 1, steps⟩
    (123 :: separated (writeMembers (writtenFields x r.fields)) ++ [125] ++ rest) = _ at hread
  simp only [Record.read, List.cons_append, List.append_assoc, List.nil_append,
    atValue_cons (b := 123) (by decide), bind, Except.bind, Budget.enter] at hread
  obtain ⟨mid, hmid, -⟩ := closing_eq_ok.mp hread
  obtain ⟨taken, htaken, -⟩ := bind_eq_ok.mp hmid
  exact hmembers _ htaken

end PathPolicy.Json

namespace PathPolicy
open Json

/-! ### Coordinates -/

theorem unreadable_location {l : Location} (h : ¬l.FiniteCoordinates) : Unreadable 1 l := by
  refine rejects_record (by decide) ?_
  cases hlatitude : l.latitude.isFinite with
  | false => exact .field (unreadable_single hlatitude)
  | true =>
    have hlongitude : l.longitude.isFinite = false := by
      simpa [Location.FiniteCoordinates, hlatitude] using h
    exact .of (roundTrips_single hlatitude).2 <| .field (unreadable_single hlongitude)

theorem unreadable_metadata {m : WireMetadata} (h : ¬∀ l ∈ m.locations, l.FiniteCoordinates) :
    Unreadable 3 m := by
  have hlocations : Unreadable 2 m.locations := by
    push Not at h
    obtain ⟨l, hl, hinfinite⟩ := h
    exact unreadable_list (fun l => opens_record Location.record l)
      (fun l _ => (em l.FiniteCoordinates).imp roundTrips_location unreadable_location)
      ⟨l, hl, unreadable_location hinfinite⟩
  exact rejects_record (by decide) <|
    .of ((roundTrips_uint16 m.mtu).mono (by decide)) <|
    .of (roundTrips_interfaces m.interfaces) <|
    .of (roundTrips_scalars (fun n => opens_nat n.toNat) roundTrips_uint64 m.latencyNanos) <|
    .of (roundTrips_scalars (fun n => opens_nat n.toNat) roundTrips_uint64 m.bandwidth) <|
    .of (roundTrips_scalars (fun n => opens_nat n.toNat) roundTrips_uint8 m.linkTypes) <|
    .of (roundTrips_scalars (fun n => opens_nat n.toNat) roundTrips_uint32 m.internalHops) <|
    .of (roundTrips_scalars opens_string roundTrips_string m.notes) <| .field hlocations

theorem unreadable_path {p : WirePath} (h : ¬p.FiniteCoordinates) : Unreadable 4 p := by
  obtain ⟨m, hm, hinfinite⟩ :
      ∃ m, p.metadata = some m ∧ ¬∀ l ∈ m.locations, l.FiniteCoordinates := by
    by_contra hnone
    exact h fun m hm => by_contra fun hinfinite => hnone ⟨m, hm, hinfinite⟩
  have hmetadata : Unreadable 3 p.metadata := by
    rw [hm]
    exact unreadable_some (unreadable_metadata hinfinite) (opens_record WireMetadata.record m)
  exact rejects_record (by decide) <|
    .of ((roundTrips_string p.source).mono (by decide)) <|
    .of ((roundTrips_string p.destination).mono (by decide)) <| .field hmetadata

namespace Selector

theorem unreadable_message {m : Message} (h : ¬m.FiniteCoordinates) : Unreadable 6 m := by
  obtain ⟨paths, hpaths, p, hp, hinfinite⟩ :
      ∃ paths, m.paths = some paths ∧ ∃ p ∈ paths, ¬p.FiniteCoordinates := by
    by_contra hnone
    exact h fun paths hpaths p hp =>
      by_contra fun hinfinite => hnone ⟨paths, hpaths, p, hp, hinfinite⟩
  have hlist : Unreadable 5 m.paths := by
    rw [hpaths]
    exact unreadable_some (unreadable_list (fun p => opens_record WirePath.record p)
      (fun p _ => (em p.FiniteCoordinates).imp roundTrips_path unreadable_path)
      ⟨p, hp, unreadable_path hinfinite⟩) (opens_list paths)
  exact rejects_record (by decide) <|
    .of (roundTrips_optionalString m.localAddress) <|
    .of (roundTrips_optionalString m.remoteAddress) <|
    .of (roundTrips_optionalString m.fingerprint) <|
    .of (roundTrips_option (fun i _ => (roundTrips_interface i).mono (by decide))
      fun i => opens_record Interface.record i) <|
    .of (roundTrips_option (fun t _ => (roundTrips_texts t).mono (by decide)) opens_texts) <|
    .field hlist

/-- A message is read back if all its coordinates are finite, and not read at all otherwise. -/
theorem decode_message_iff (m : Message) : decode (encode m) = .ok m ↔ m.FiniteCoordinates := by
  constructor
  · intro hdecode
    by_contra hinfinite
    exact decode_ne_ok (unreadable_message hinfinite) (by decide) m hdecode
  · intro hfinite
    exact decode_encode (roundTrips_message hfinite) (by decide)

theorem ofRequest_ne_ok {m : Message} (h : ¬m.FiniteCoordinates) (id : UInt64)
    (service method : String) (asked : Pair × Operation) :
    Operation.ofRequest (Request.make id service method m) ≠ .ok asked := by
  intro hrequest
  obtain ⟨found, -, hrequest⟩ := bind_eq_ok.mp hrequest
  obtain ⟨read, hpayload, -⟩ := bind_eq_ok.mp hrequest
  change (decode (encode m) : Except Json.Error Message).mapError _ = _ at hpayload
  cases hdecode : (decode (encode m) : Except Json.Error Message) with
  | error e =>
    rw [hdecode] at hpayload
    cases hpayload
  | ok read => exact decode_ne_ok (unreadable_message h) (by decide) read hdecode

end Selector
end PathPolicy
