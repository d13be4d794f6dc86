import PathPolicy.Json.Raw
import PathPolicy.Proofs.Json.Fields
import PathPolicy.Proofs.Json.Skip

/-!
Texts as they are written: without spaces between their parts. Such a text is passed over as a whole,
so that it can be kept unread.
-/
namespace PathPolicy.Json

inductive Written : Bytes → Prop
  | null : Written writeNull
  | boolean (b : Bool) : Written (writeBoolean b)
  | text (s : String) : Written (writeText s)
  | number (negative : Bool) {n : Numeral} (h : n.Proper) : Written (withSign negative n.write)
  | list {items : List Bytes} (h : ∀ item ∈ items, Written item) : Written (writeList items)
  | object {members : List (String × Bytes)} (h : ∀ m ∈ members, Written m.2) :
    Written (writeObject members)

theorem Written.head {text : Bytes} (h : Written text) :
    ∃ b tail, text = b :: tail ∧ isSpace b = false ∧ b ≠ 93 := by
  cases h with
  | null => exact ⟨110, _, rfl, by decide⟩
  | boolean b => cases b <;> exact ⟨_, _, rfl, by decide⟩
  | text s => exact ⟨34, _, rfl, by decide⟩
  | number negative h =>
    obtain ⟨b, tail, htext, hspace, hclose, -⟩ := opens_numeral h negative
    exact ⟨b, tail, htext, hspace, hclose⟩
  | list h => exact ⟨91, _, rfl, by decide⟩
  | object h => exact ⟨123, _, rfl, by decide⟩

/-! ### Passing over -/

def PassedOver (text : Bytes) : Prop := ∀ rest, Stops rest → Passes (text ++ rest) rest

theorem passedOver_word {letter : UInt8} {ws : Bytes}
    (h : ∀ text more rest, skipSpace text = letter :: more → word ws more = .ok rest →
      Passes text rest) (hspace : isSpace letter = false) : PassedOver (letter :: ws) :=
  fun rest _ => h _ (ws ++ rest) rest (skipSpace_cons hspace _) (word_append ws rest)

theorem passedOver_text (s : String) : PassedOver (writeText s) := by
  intro rest _
  rw [writeText_eq, List.cons_append]
  refine passes_text (skipSpace_cons (by decide) _) (fun m hm => ?_) (by simp)
  rw [List.length_append] at hm
  exact skipQuoted_quotedTail s rest (Nat.le_of_add_le_add_right hm)

theorem passedOver_number (negative : Bool) {n : Numeral} (h : n.Proper) :
    PassedOver (withSign negative n.write) := by
  intro rest hrest
  obtain ⟨b, tail, htext, hspace, -⟩ := opens_numeral h negative
  have hskip := skipNumber_write negative h hrest
  have hb : b = 45 ∨ isDigit b := by
    cases negative with
    | true =>
      cases htext
      exact .inl rfl
    | false =>
      obtain ⟨c, more, hwrite, hc⟩ := Numeral.write_eq_cons h
      cases hwrite.symm.trans htext
      exact .inr hc
  rw [htext, List.cons_append] at hskip ⊢
  refine passes_number (skipSpace_cons hspace _) hb hskip ?_
  simp only [List.length_cons, List.length_append]
  omega

theorem passesAfter_list {items : List Bytes} (h : ∀ item ∈ items, PassedOver item) (rest : Bytes) :
    PassesAfter .list (items.flatMap (44 :: ·) ++ 93 :: rest) rest := by
  induction items with
  | nil => exact .last (skipSpace_cons (by decide) rest)
  | cons item items ih =>
    have hitem := h item List.mem_cons_self _ (stops_flatMap_comma (.inl rfl) items rest)
    rw [List.flatMap_cons, List.append_assoc]
    exact .next (skipSpace_cons (by decide) _) (Bracket.names_list _) hitem
      (ih fun item hitem => h item (List.mem_cons_of_mem _ hitem))

theorem passedOver_list {items : List Bytes} (hwritten : ∀ item ∈ items, Written item)
    (h : ∀ item ∈ items, PassedOver item) : PassedOver (writeList items) := by
  intro rest _
  rw [writeList, List.cons_append, List.cons_append, List.append_assoc, List.singleton_append]
  cases items with
  | nil => exact .empty .list (skipSpace_cons (by decide) _) (skipSpace_cons (by decide) _)
  | cons item items =>
    obtain ⟨b, tail, htext, hspace, hclose⟩ := (hwritten item List.mem_cons_self).head
    have hitem := h item List.mem_cons_self _ (stops_flatMap_comma (.inl rfl) items rest)
    rw [separated_cons, List.append_assoc]
    rw [htext, List.cons_append] at hitem ⊢
    exact .filled .list (skipSpace_cons (by decide) _) (skipSpace_cons hspace _) hclose
      (Bracket.names_list _) hitem
      (passesAfter_list (fun item hitem => h item (List.mem_cons_of_mem _ hitem)) rest)

theorem names_writeMember (name : String) (value rest : Bytes) :
    Bracket.object.Names (writeMember name value ++ rest) (value ++ rest) := by
  rw [writeMember, writeText_eq, List.cons_append, List.cons_append, List.append_assoc,
    List.cons_append]
  refine Bracket.names_object (skipSpace_cons (by decide) _) (fun m hm => ?_) (by simp)
    (skipSpace_cons (by decide) _)
  rw [List.length_append] at hm
  exact skipQuoted_quotedTail name _ (Nat.le_of_add_le_add_right hm)

theorem passesAfter_object {members : List (String × Bytes)} (h : ∀ m ∈ members, PassedOver m.2)
    (rest : Bytes) :
    PassesAfter .object ((writeMembers members).flatMap (44 :: ·) ++ 125 :: rest) rest := by
  induction members with
  | nil => exact .last (skipSpace_cons (by decide) rest)
  | cons m members ih =>
    obtain ⟨name, value⟩ := m
    have hvalue := h (name, value) List.mem_cons_self _
      (stops_flatMap_comma (.inr rfl) (writeMembers members) rest)
    change PassesAfter .object
      ((writeMember name value :: writeMembers members).flatMap (44 :: ·) ++ 125 :: rest) rest
    rw [List.flatMap_cons, List.append_assoc]
    exact .next (skipSpace_cons (by decide) _) (names_writeMember name value _) hvalue
      (ih fun m hm => h m (List.mem_cons_of_mem _ hm))

theorem passedOver_object {members : List (String × Bytes)} (h : ∀ m ∈ members, PassedOver m.2) :
    PassedOver (writeObject members) := by
  intro rest _
  change Passes (123 :: separated (writeMembers members) ++ [125] ++ rest) rest
  rw [List.cons_append, List.cons_append, List.append_assoc, List.singleton_append]
  cases members with
  | nil => exact .empty .object (skipSpace_cons (by decide) _) (skipSpace_cons (by decide) _)
  | cons m members =>
    obtain ⟨name, value⟩ := m
    have hvalue := h (name, value) List.mem_cons_self _
      (stops_flatMap_comma (.inr rfl) (writeMembers members) rest)
    have hquote (more : Bytes) : writeMember name value ++ more
        = 34 :: (quotedTail name ++ 58 :: (value ++ more)) := by
      simp [writeMember, writeText_eq]
    have hnames := names_writeMember name value
      ((writeMembers members).flatMap (44 :: ·) ++ 125 :: rest)
    change Passes (123 :: (separated (writeMember name value :: writeMembers members)
      ++ 125 :: rest)) rest
    rw [separated_cons, List.append_assoc]
    rw [hquote] at hnames ⊢
    exact .filled .object (skipSpace_cons (by decide) _) (skipSpace_cons (by decide) _) (by decide)
      hnames hvalue (passesAfter_object (fun m hm => h m (List.mem_cons_of_mem _ hm)) rest)

theorem Written.passedOver {text : Bytes} (h : Written text) : PassedOver text := by
  induction h with
  | null => exact passedOver_word (fun _ _ _ => passes_null) (by decide)
  | boolean b =>
    cases b with
    | true => exact passedOver_word (fun _ _ _ => passes_true) (by decide)
    | false => exact passedOver_word (fun _ _ _ => passes_false) (by decide)
  | text s => exact passedOver_text s
  | number negative h => exact passedOver_number negative h
  | list hwritten ih => exact passedOver_list hwritten ih
  | object _ ih => exact passedOver_object ih

/-! ### As a text -/

theorem isText_separated {parts : List Bytes} (h : ∀ part ∈ parts, Bytes.IsText part) :
    Bytes.IsText (separated parts) := by
  have htail (parts : List Bytes) (h : ∀ part ∈ parts, Bytes.IsText part) :
      Bytes.IsText (parts.flatMap (44 :: ·)) := by
    induction parts with
    | nil => exact Bytes.isText_nil
    | cons part parts ih =>
      rw [List.flatMap_cons, List.cons_append]
      exact Bytes.isText_cons (by decide) ((h part List.mem_cons_self).append
        (ih fun part hpart => h part (List.mem_cons_of_mem _ hpart)))
  cases parts with
  | nil => exact Bytes.isText_nil
  | cons part parts =>
    rw [separated_cons]
    exact (h part List.mem_cons_self).append
      (htail parts fun part hpart => h part (List.mem_cons_of_mem _ hpart))

theorem isText_enclosed {first last : UInt8} (hfirst : first < 128) (hlast : last < 128)
    {inside : Bytes} (h : Bytes.IsText inside) : Bytes.IsText (first :: inside ++ [last]) :=
  Bytes.isText_cons hfirst (h.append (Bytes.isText_cons hlast Bytes.isText_nil))

theorem isText_writeText (s : String) : Bytes.IsText (writeText s) :=
  Bytes.isText_cons (by decide) (isText_quotedTail s)

theorem isText_numeral (negative : Bool) {n : Numeral} (h : n.Proper) :
    Bytes.IsText (withSign negative n.write) := by
  have hdigits (ds : List Nat) (hds : ∀ d ∈ ds, d < 10) : Bytes.IsText (ds.map digitByte) := by
    have all : ∀ d < 10, digitByte d < 128 := by decide
    refine Bytes.isText_of_ascii (List.all_eq_true.mpr fun b hb => ?_)
    obtain ⟨d, hd, rfl⟩ := List.mem_map.mp hb
    exact decide_eq_true (all d (hds d hd))
  have hfraction : Bytes.IsText (Numeral.writeFraction n.fraction) := by
    have := hdigits n.fraction h.lt_of_mem_fraction
    cases hds : n.fraction with
    | nil => exact Bytes.isText_nil
    | cons d ds =>
      rw [hds] at this
      exact Bytes.isText_cons (by decide) this
  have hexponent : Bytes.IsText (Numeral.writeExponent n.exponent) := by
    cases he : n.exponent with
    | none => exact Bytes.isText_nil
    | some e =>
      obtain ⟨below, ds⟩ := e
      have hsign : (if below then 45 else 43 : UInt8) < 128 := by cases below <;> decide
      exact Bytes.isText_cons (by decide) (Bytes.isText_cons hsign
        (hdigits ds (h.exponent _ he).2))
  have hwrite : Bytes.IsText n.write := (hdigits n.whole h.lt_of_mem_whole).append
    (hfraction.append hexponent)
  cases negative with
  | true => exact Bytes.isText_cons (by decide) hwrite
  | false => exact hwrite

theorem Written.isText {text : Bytes} (h : Written text) : Bytes.IsText text := by
  induction h with
  | null => exact Bytes.isText_of_ascii rfl
  | boolean b => cases b <;> exact Bytes.isText_of_ascii rfl
  | text s => exact isText_writeText s
  | number negative h => exact isText_numeral negative h
  | list _ ih => exact isText_enclosed (by decide) (by decide) (isText_separated ih)
  | object _ ih =>
    refine isText_enclosed (by decide) (by decide) (isText_separated fun part hpart => ?_)
    obtain ⟨⟨name, value⟩, hm, rfl⟩ := List.mem_map.mp hpart
    exact (isText_writeText name).append (Bytes.isText_cons (by decide) (ih _ hm))

/-! ### Kept unread -/

/-- A value other than null that can be kept as its text, and read again wherever that is put. -/
structure Keepable (text : Bytes) : Prop where
  opens : Opens text
  passedOver : PassedOver text
  isText : Bytes.IsText text

theorem Written.keepable {text : Bytes} (h : Written text) (hopens : Opens text) : Keepable text :=
  ⟨hopens, h.passedOver, h.isText⟩

theorem roundTrips_raw {raw : Raw} (h : Keepable raw.text) : RoundTrips 0 raw := by
  intro budget _ hsteps rest hrest
  change raw.text.length < budget.steps at hsteps
  change Codable.read budget (raw.text ++ rest) = _
  obtain ⟨b, tail, htext, hspace, -⟩ := h.opens
  obtain ⟨s, hs⟩ := h.isText
  have hskipSpace : skipSpace (raw.text ++ rest) = raw.text ++ rest := by
    rw [htext, List.cons_append, skipSpace_cons hspace]
  have hskip : skipValue budget.steps (raw.text ++ rest) = .ok rest :=
    (h.passedOver rest hrest).skipValue (by rw [List.length_append]; omega)
  have htake : (raw.text ++ rest).take ((raw.text ++ rest).length - rest.length) = raw.text := by
    rw [List.length_append, Nat.add_sub_cancel, List.take_left]
  have hvalid : Bytes.text? raw.text = some s := by rw [← hs, Bytes.text?_ofText]
  simp only [Codable.read, hskipSpace, hskip, htake, hvalid, bind, Except.bind]
  rfl

end PathPolicy.Json
