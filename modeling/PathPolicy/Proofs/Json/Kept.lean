import PathPolicy.Proofs.Json.Cut
import PathPolicy.Proofs.Json.Reading
import PathPolicy.Proofs.Json.Written

/-!
A text that a reader keeps unread is a part of the text that was read, and it is kept as it is
wherever it is put.
-/
namespace PathPolicy.Json

/-! ### What remains -/

theorem skipSpace_suffix (text : Bytes) : skipSpace text <:+ text := List.dropWhile_suffix isSpace

theorem suffix_of_skipSpace {text rest : Bytes} {b : UInt8} (h : skipSpace text = b :: rest) :
    rest <:+ text := by
  have hspace := skipSpace_suffix text
  rw [h] at hspace
  exact (List.suffix_cons b rest).trans hspace

theorem suffix_of_readColon {text rest : Bytes} (h : readColon text = .ok rest) : rest <:+ text :=
  suffix_of_skipSpace (skipSpace_of_readColon h)

theorem suffix_of_readText {steps : Nat} {text rest : Bytes} {s : String}
    (h : readText steps text = .ok (s, rest)) : rest <:+ text := by
  obtain ⟨-, hskip⟩ := skipQuoted_of_readText h
  exact (cut_skipQuoted (hskip text.length (Nat.le_add_right _ _))).suffix

theorem suffix_of_readNumber {text rest : Bytes} {n : Number} (h : readNumber text = .ok (n, rest)) :
    rest <:+ text :=
  (cut_skipNumber (skipNumber_of_readNumber h).1).suffix

theorem suffix_of_nextElement {first more : Bool} {text rest : Bytes}
    (h : nextElement first text = .ok (more, rest)) : rest <:+ text := by
  match first, more with
  | _, false => exact (nextElement_end h).1 ▸ skipSpace_suffix text
  | true, true => exact (nextElement_first h).1 ▸ skipSpace_suffix text
  | false, true =>
    obtain ⟨tail, hcomma, rfl⟩ := nextElement_later h
    exact (skipSpace_suffix tail).trans (suffix_of_skipSpace hcomma)

theorem suffix_of_nextMember {first more : Bool} {text rest : Bytes}
    (h : nextMember first text = .ok (more, rest)) : rest <:+ text := by
  match first, more with
  | _, false => exact (nextMember_end h).1 ▸ skipSpace_suffix text
  | true, true => exact (nextMember_first h).1 ▸ skipSpace_suffix text
  | false, true =>
    obtain ⟨tail, quoted, hcomma, rfl, -⟩ := nextMember_later h
    exact (skipSpace_suffix tail).trans (suffix_of_skipSpace hcomma)

/-! ### What a reader yields -/

section Yields
variable {α β ρ : Type} {body : Bytes}

/-- What is read from an end of the body is good, and an end of the body remains. -/
def Yields (body : Bytes) (good : α → Prop) (item : Bytes → Except Failure (α × Bytes)) : Prop :=
  ∀ text x rest, text <:+ body → item text = .ok (x, rest) → good x ∧ rest <:+ body

theorem Yields.map {good : α → Prop} {good' : β → Prop} {item : Bytes → Except Failure (α × Bytes)}
    (h : Yields body good item) {f : α → β} (himp : ∀ x, good x → good' (f x)) :
    Yields body good' fun text => (item text).map fun (x, rest) => (f x, rest) := by
  intro text y rest htext hitem
  obtain ⟨⟨x, rest'⟩, hx, hmap⟩ := map_eq_ok.mp hitem
  cases hmap
  obtain ⟨hgood, hrest⟩ := h text x rest htext hx
  exact ⟨himp x hgood, hrest⟩

theorem yields_numeric (t : Numeric α) (budget : Budget) :
    Yields body (fun _ => True) (t.read budget) := by
  intro text x rest htext h
  obtain ⟨⟨b, more⟩, hvalue, h⟩ := bind_eq_ok.mp h
  dsimp only at h
  split at h
  · obtain ⟨⟨n, after⟩, hnumber, h⟩ := bind_eq_ok.mp h
    have hafter := suffix_of_readNumber hnumber
    rw [← skipSpace_of_atValue hvalue] at hafter
    dsimp only at h
    split at h
    · cases h
      exact ⟨trivial, (hafter.trans (skipSpace_suffix text)).trans htext⟩
    · cases h
  · exact absurd h refuse_ne_ok

theorem yields_string (budget : Budget) :
    Yields body (fun _ : String => True) (Codable.read budget) := by
  intro text s rest htext h
  obtain ⟨⟨b, more⟩, hvalue, h⟩ := bind_eq_ok.mp h
  dsimp only at h
  split at h
  · have hmore := suffix_of_skipSpace (skipSpace_of_atValue hvalue)
    exact ⟨trivial, ((suffix_of_readText h).trans hmore).trans htext⟩
  · exact absurd h refuse_ne_ok

theorem yields_members {step : ρ → String → Bytes → Except Failure (ρ × Bytes)} {good : ρ → Prop}
    (hstep : ∀ r name, good r → Yields body good (step r name)) {steps n : Nat} {first : Bool} {r : ρ}
    (hr : good r) : Yields body good (readMembers step steps n first r) := by
  induction n generalizing first r with
  | zero => rintro text x rest - ⟨⟩
  | succ n ih =>
    intro text x rest htext h
    obtain ⟨⟨more, next⟩, hnext, h⟩ := bind_eq_ok.mp h
    have hremains := (suffix_of_nextMember hnext).trans htext
    cases more with
    | false =>
      cases h
      exact ⟨hr, hremains⟩
    | true =>
      obtain ⟨⟨name, colon⟩, hname, h⟩ := bind_eq_ok.mp h
      obtain ⟨⟨u, after⟩, hu, h⟩ := bind_eq_ok.mp h
      have hcolon := (suffix_of_readText hname).trans ((List.tail_suffix next).trans hremains)
      obtain ⟨hgood, hafter⟩ := hstep r name hr colon u after hcolon hu
      exact ih hgood after x rest hafter h

theorem Yields.closing {good : α → Prop} {close : Bytes → Except Failure Bytes} {b : UInt8}
    (hclose : ∀ text rest, close text = .ok rest → skipSpace text = b :: rest)
    {item : Bytes → Except Failure (α × Bytes)} (h : Yields body good item) :
    Yields body good fun text => Json.closing close (item text) := by
  intro text x rest htext hitem
  obtain ⟨mid, hitem, hmid⟩ := closing_eq_ok.mp hitem
  obtain ⟨hgood, hremains⟩ := h text x mid htext hitem
  exact ⟨hgood, (suffix_of_skipSpace (hclose mid rest hmid)).trans hremains⟩

theorem Yields.decode [Codable α] {good : α → Prop} (h : ∀ budget, Yields body good (Codable.read budget))
    {x : α} (hdecode : Json.decode body = .ok x) : good x := by
  obtain ⟨rest, hread, -⟩ := readWhole_eq_ok.mp hdecode
  exact (h _ body x rest List.suffix_rfl hread).1

/-! ### Records -/

/-- Whatever one of the fields reads in the body, the record stays good. -/
def FieldsKeep (body : Bytes) (good : ρ → Prop) (fields : List (Field ρ)) : Prop :=
  ∀ f ∈ fields, ∀ budget, Yields body (fun update => ∀ x, good x → good (update x)) (f.read budget)

theorem FieldsKeep.nil {good : ρ → Prop} : FieldsKeep body good [] := by
  rintro f ⟨⟩

theorem FieldsKeep.of [Codable α] {good : ρ → Prop} {goodValue : α → Prop} {name : String}
    {absence : Absence} {get : ρ → α} {set : ρ → α → ρ} {fields : List (Field ρ)}
    (h : ∀ budget, Yields body goodValue (Codable.read budget))
    (hset : ∀ y, goodValue y → ∀ x, good x → good (set x y)) (hrest : FieldsKeep body good fields) :
    FieldsKeep body good (.of name absence get set :: fields) := by
  intro f hf
  rcases List.mem_cons.mp hf with rfl | hf
  · exact fun budget => (h budget).map (f := fun y x => set x y) hset
  · exact hrest f hf

variable {good : ρ → Prop} {r : Record ρ}

theorem yields_member (hfields : FieldsKeep body good r.fields) (budget : Budget)
    (state : List String × ρ) (name : String) (hstate : good state.2) :
    Yields body (good ·.2) (r.readMember budget state name) := by
  intro text next rest htext h
  unfold Record.readMember at h
  split at h
  · split at h
    · obtain ⟨value, hcolon, h⟩ := bind_eq_ok.mp h
      obtain ⟨after, hskip, h⟩ := bind_eq_ok.mp h
      cases h
      exact ⟨hstate, (cut_skipValue hskip).suffix.trans ((suffix_of_readColon hcolon).trans htext)⟩
    · cases h
  next f hfind =>
    split at h
    · cases h
    · obtain ⟨value, hcolon, h⟩ := bind_eq_ok.mp h
      obtain ⟨⟨update, after⟩, hread, h⟩ := bind_eq_ok.mp h
      cases h
      obtain ⟨hupdate, hafter⟩ := hfields f (List.mem_of_find?_eq_some hfind) budget value update
        rest ((suffix_of_readColon hcolon).trans htext) hread
      exact ⟨hupdate _ hstate, hafter⟩

theorem yields_object (hstart : good r.start) (hfields : FieldsKeep body good r.fields)
    (budget : Budget) : Yields body good (r.readObject budget) := by
  intro text x rest htext h
  obtain ⟨⟨⟨given, y⟩, after⟩, hmembers, h⟩ := bind_eq_ok.mp h
  dsimp only at h
  split at h
  · cases h
  · cases h
    exact yields_members (yields_member hfields budget) hstart text (given, x) rest htext hmembers

theorem yields_fields (budget : Budget) {fields : List (Field ρ)}
    (hfields : FieldsKeep body good fields) {n : Nat} {x : ρ} (hx : good x) :
    Yields body good (r.readFields budget fields n x) := by
  induction fields generalizing n x with
  | nil =>
    rintro text y rest htext ⟨⟩
    exact ⟨hx, htext⟩
  | cons f fields ih =>
    have hrest : FieldsKeep body good fields := fun g hg => hfields g (List.mem_cons_of_mem f hg)
    intro text y rest htext h
    obtain ⟨⟨more, next⟩, hnext, h⟩ := bind_eq_ok.mp h
    have hremains := (suffix_of_nextElement hnext).trans htext
    cases more with
    | true =>
      obtain ⟨⟨update, after⟩, hread, h⟩ := bind_eq_ok.mp h
      obtain ⟨hupdate, hafter⟩ := hfields f List.mem_cons_self budget next update after hremains hread
      exact ih hrest (hupdate x hx) after y rest hafter h
    | false =>
      dsimp only at h
      rw [if_neg Bool.false_ne_true] at h
      split at h
      · exact ih hrest hx next y rest hremains h
      · cases h

theorem yields_record (hstart : good r.start) (hfields : FieldsKeep body good r.fields)
    (budget : Budget) : Yields body good (r.read budget) := by
  intro text x rest htext h
  obtain ⟨⟨b, more⟩, hvalue, h⟩ := bind_eq_ok.mp h
  have hmore := (suffix_of_skipSpace (skipSpace_of_atValue hvalue)).trans htext
  have henter {inside : Budget → Bytes → Except Failure (ρ × Bytes)}
      (hinside : ∀ inner, Yields body good (inside inner))
      (h : budget.enter (b :: more) (fun inner => inside inner more) = .ok (x, rest)) :
      good x ∧ rest <:+ body := by
    unfold Budget.enter at h
    split at h
    · cases h
    · exact hinside _ more x rest hmore h
  dsimp only at h
  split at h
  · exact henter (fun inner => (yields_fields inner hfields hstart).closing
      fun _ _ => skipSpace_of_closeList) h
  split at h
  · exact henter (fun inner => (yields_object hstart hfields inner).closing
      fun _ _ => skipSpace_of_closeObject) h
  · exact absurd h refuse_ne_ok

end Yields

/-! ### Texts that are kept -/

theorem PassedOver.opens {b : UInt8} {tail : Bytes} (h : PassedOver (b :: tail))
    (hspace : isSpace b = false) (hnull : b ≠ 110) : Opens (b :: tail) := by
  refine ⟨b, tail, rfl, hspace, ?_, hnull⟩
  rintro rfl
  have hskip : skipValue (tail.length + 1) (93 :: tail ++ []) = .ok [] :=
    (h [] stops_nil).skipValue (by simp)
  rw [skipValue, Nat.mul_succ, skipIn, List.cons_append, skipSpace_cons hspace] at hskip
  cases hskip

theorem kept_of_read {budget : Budget} {text rest : Bytes} {raw : Raw}
    (h : Codable.read budget text = .ok (raw, rest)) :
    skipSpace text = raw.text ++ rest ∧ PassedOver raw.text ∧ Bytes.IsText raw.text := by
  obtain ⟨after, hskip, h⟩ := bind_eq_ok.mp h
  obtain ⟨cut, htext, hcut⟩ := cut_skipValue hskip
  have htake : (skipSpace text).take ((skipSpace text).length - after.length) = cut := by
    rw [htext, List.length_append, Nat.add_sub_cancel, List.take_left]
  dsimp only at h
  rw [htake] at h
  split at h
  next s hs =>
    cases h
    exact ⟨htext, fun more hmore => (hcut more hmore).2, s, Bytes.ofText_of_text? hs⟩
  · cases h

/-- A text that is kept, if there is one, is a part of the body and can be kept anywhere. -/
def KeptIn (body : Bytes) (data : Option Raw) : Prop :=
  ∀ raw ∈ data, Keepable raw.text ∧ raw.text <:+: body

theorem yields_data {body : Bytes} (budget : Budget) :
    Yields body (KeptIn body) (Codable.read budget) := by
  intro text data rest htext h
  have hspace := (skipSpace_suffix text).trans htext
  simp only [Codable.read] at h
  split at h
  next more hnull =>
    obtain ⟨after, hword, h⟩ := map_eq_ok.mp h
    cases h
    exact ⟨nofun, (cut_word hword).suffix.trans ((suffix_of_skipSpace hnull).trans htext)⟩
  next hnull =>
    obtain ⟨⟨raw, after⟩, hread, h⟩ := map_eq_ok.mp h
    cases h
    obtain ⟨hcut, hpassed, hvalid⟩ := kept_of_read hread
    rw [skipSpace_skipSpace] at hcut
    obtain ⟨b, tail, hraw⟩ := List.exists_cons_of_length_pos <|
      Nat.lt_of_lt_of_eq (hpassed [] stops_nil).shorter (by rw [List.append_nil])
    rw [hcut] at hspace hnull
    rw [hraw] at hpassed hcut
    have hopens := hpassed.opens (isSpace_of_skipSpace hcut)
      fun hb => hnull (tail ++ after) (by rw [hraw, hb, List.cons_append])
    refine ⟨?_, (List.suffix_append _ _).trans hspace⟩
    rintro _ ⟨⟩
    exact ⟨⟨hraw ▸ hopens, hraw ▸ hpassed, hvalid⟩,
      (List.prefix_append _ _).isInfix.trans hspace.isInfix⟩

end PathPolicy.Json
