import Mathlib.Data.List.TakeWhile
import PathPolicy.Proofs.Json.Skip

/-!
Passing over looks only at what it passes over. What was passed over in one text is passed over
wherever else it stands, if nothing follows it there that could continue a number.
-/
namespace PathPolicy.Json

/-- What is taken from `text` to get to `rest` is taken in the same way in front of anything else
that `after` allows, where the text then is as `before` says. -/
def Cut (before after : Bytes → Prop) (leads : Bytes → Bytes → Prop) (text rest : Bytes) : Prop :=
  ∃ raw, text = raw ++ rest ∧
    ∀ more, after more → before (raw ++ more) ∧ leads (raw ++ more) more

def Anything (_ : Bytes) : Prop := True

namespace Cut
variable {before before' between after : Bytes → Prop} {leads leads' : Bytes → Bytes → Prop}
variable {text mid rest : Bytes}

theorem mono (h : Cut before after leads text rest)
    (himp : ∀ t m, before t → leads t m → before' t ∧ leads' t m) :
    Cut before' after leads' text rest := by
  obtain ⟨raw, htext, hraw⟩ := h
  exact ⟨raw, htext, fun more hmore => himp _ _ (hraw more hmore).1 (hraw more hmore).2⟩

theorem narrow {after' : Bytes → Prop} (h : Cut before after leads text rest)
    (himp : ∀ m, after' m → after m) : Cut before after' leads text rest := by
  obtain ⟨raw, htext, hraw⟩ := h
  exact ⟨raw, htext, fun more hmore => hraw more (himp more hmore)⟩

theorem suffix (h : Cut before after leads text rest) : rest <:+ text := by
  obtain ⟨raw, rfl, -⟩ := h
  exact List.suffix_append raw rest

theorem comp (h : Cut before between leads text mid) (h' : Cut between after leads' mid rest) :
    Cut before after (fun t m => ∃ s, leads t s ∧ leads' s m) text rest := by
  obtain ⟨raw, rfl, hraw⟩ := h
  obtain ⟨raw', rfl, hraw'⟩ := h'
  refine ⟨raw ++ raw', (List.append_assoc ..).symm, fun more hmore => ?_⟩
  obtain ⟨hbetween, hleads'⟩ := hraw' more hmore
  obtain ⟨hbefore, hleads⟩ := hraw _ hbetween
  rw [List.append_assoc]
  exact ⟨hbefore, raw' ++ more, hleads, hleads'⟩

theorem andThen (h : Cut before Anything leads text mid) (h' : Cut between after leads' mid rest) :
    Cut before after (fun t m => ∃ s, leads t s ∧ leads' s m) text rest :=
  h.comp (h'.mono fun _ _ _ hleads' => ⟨trivial, hleads'⟩)

theorem nothing (h : ∀ more, after more → before more ∧ leads more more) :
    Cut before after leads text text :=
  ⟨[], rfl, h⟩

theorem bytes (raw : Bytes) (h : ∀ more, after more → before (raw ++ more) ∧ leads (raw ++ more) more) :
    Cut before after leads (raw ++ rest) rest :=
  ⟨raw, rfl, h⟩

theorem cons {b : UInt8} (h : Cut before after leads text rest)
    (himp : ∀ t m, after m → leads t m → before' (b :: t) ∧ leads' (b :: t) m) :
    Cut before' after leads' (b :: text) rest := by
  obtain ⟨raw, rfl, hraw⟩ := h
  exact ⟨b :: raw, rfl, fun more hmore => himp _ _ hmore (hraw more hmore).2⟩

theorem head {b : UInt8} (h : Cut before after leads (b :: text) rest)
    (hshorter : ∀ t m, leads t m → m.length < t.length) :
    Cut (fun t => t.head? = some b) after leads (b :: text) rest := by
  obtain ⟨raw, htext, hraw⟩ := h
  refine ⟨raw, htext, fun more hmore => ⟨?_, (hraw more hmore).2⟩⟩
  cases raw with
  | nil => exact absurd (hshorter _ _ (hraw more hmore).2) (Nat.lt_irrefl _)
  | cons c raw =>
    obtain ⟨rfl, -⟩ := List.cons.inj htext
    rfl

end Cut

/-! ### Spaces and words -/

theorem skipSpace_append {spaces : Bytes} (h : ∀ c ∈ spaces, isSpace c) {b : UInt8}
    (hb : isSpace b = false) (more : Bytes) : skipSpace (spaces ++ b :: more) = b :: more := by
  rw [skipSpace, List.dropWhile_append_of_pos h, ← skipSpace, skipSpace_cons hb]

theorem exists_spaces {text rest : Bytes} {b : UInt8} (h : skipSpace text = b :: rest) :
    ∃ spaces, text = spaces ++ b :: rest ∧ ∀ c ∈ spaces, isSpace c :=
  ⟨text.takeWhile isSpace, by rw [← h, skipSpace, List.takeWhile_append_dropWhile],
    fun _ hc => List.mem_takeWhile_imp hc⟩

def OpensWith (b : UInt8) (text : Bytes) : Prop := ∃ c ∈ text.head?, isSpace c ∨ c = b

theorem cut_skipSpace {text rest : Bytes} {b : UInt8} (h : skipSpace text = b :: rest) :
    Cut (OpensWith b) Anything (fun t m => skipSpace t = b :: m) text rest := by
  obtain ⟨spaces, rfl, hspaces⟩ := exists_spaces h
  refine ⟨spaces ++ [b], by simp, fun more _ => ?_⟩
  rw [List.append_assoc, List.singleton_append]
  refine ⟨?_, skipSpace_append hspaces (isSpace_of_skipSpace h) more⟩
  cases spaces with
  | nil => exact ⟨b, rfl, .inr rfl⟩
  | cons c spaces => exact ⟨c, rfl, .inl (hspaces c List.mem_cons_self)⟩

theorem cut_spaces {text rest : Bytes} {b : UInt8} (h : skipSpace text = b :: rest) :
    Cut Anything (fun m => m.head? = some b) (fun t m => ∃ tail, m = b :: tail ∧ skipSpace t = m)
      text (b :: rest) := by
  obtain ⟨spaces, rfl, hspaces⟩ := exists_spaces h
  refine ⟨spaces, rfl, fun more hmore => ⟨trivial, ?_⟩⟩
  obtain ⟨tail, rfl⟩ := List.head?_eq_some_iff.mp hmore
  exact ⟨tail, rfl, skipSpace_append hspaces (isSpace_of_skipSpace h) tail⟩

theorem eq_append_of_word {ws text rest : Bytes} (h : word ws text = .ok rest) :
    text = ws ++ rest := by
  induction ws generalizing text with
  | nil =>
    cases h
    rfl
  | cons w ws ih =>
    match text with
    | [] => cases h
    | b :: text =>
      rw [word] at h
      split at h
      · rename_i hb
        rw [hb, ih h, List.cons_append]
      · cases h

theorem cut_word {ws text rest : Bytes} (h : word ws text = .ok rest) :
    Cut Anything Anything (fun t m => word ws t = .ok m) text rest := by
  obtain rfl := eq_append_of_word h
  exact .bytes ws fun more _ => ⟨trivial, word_append ws more⟩

/-! ### Numbers -/

def OnDigit (text : Bytes) : Prop := ∃ b tail, text = b :: tail ∧ isDigit b

def NoFraction (rest : Bytes) : Prop := NoDigit rest ∧ rest.head? ≠ some 46

theorem takeDigits_cons {b : UInt8} (hb : isDigit b) (text : Bytes) :
    takeDigits (b :: text) = ((b.toNat - 48) :: (takeDigits text).1, (takeDigits text).2) := by
  rw [takeDigits, if_pos hb]

theorem cut_takeDigits {text rest : Bytes} {ds : List Nat} (h : takeDigits text = (ds, rest)) :
    Cut Anything NoDigit (fun t m => takeDigits t = (ds, m)) text rest := by
  induction text generalizing ds with
  | nil =>
    cases h
    exact .nothing fun more hmore => ⟨trivial, takeDigits_of_noDigit hmore⟩
  | cons b text ih =>
    by_cases hb : isDigit b
    · rw [takeDigits_cons hb] at h
      cases h
      refine (ih rfl).cons fun t m _ htake => ⟨trivial, ?_⟩
      rw [takeDigits_cons hb, htake]
    · rw [takeDigits, if_neg hb] at h
      cases h
      exact .nothing fun more hmore => ⟨trivial, takeDigits_of_noDigit hmore⟩

theorem cut_digits {b : UInt8} (hb : isDigit b) {text rest : Bytes} {ds : List Nat}
    (h : takeDigits (b :: text) = (ds, rest)) :
    Cut OnDigit NoDigit (fun t m => (∃ tail, t = b :: tail) ∧ takeDigits t = (ds, m)) (b :: text)
      rest := by
  rw [takeDigits_cons hb] at h
  cases h
  refine (cut_takeDigits rfl).cons fun t m _ htake => ⟨⟨b, t, rfl, hb⟩, ⟨t, rfl⟩, ?_⟩
  rw [takeDigits_cons hb, htake]

theorem scanWhole_digits (atEnd : Cause) {b : UInt8} (hb : isDigit b) (hzero : b ≠ 48)
    (text : Bytes) : scanWhole atEnd (b :: text) = .ok (takeDigits (b :: text)) := by
  unfold scanWhole
  split
  · contradiction
  next heq => exact absurd (List.cons.inj heq).1 hzero
  next heq => cases heq; rw [if_pos hb]

theorem scanWhole_zero (atEnd : Cause) {rest : Bytes} (h : NoDigit rest) :
    scanWhole atEnd (48 :: rest) = .ok ([0], rest) := by
  cases rest with
  | nil => rfl
  | cons b rest =>
    have hb : isDigit b = false := h b rfl
    simp [scanWhole, hb]

theorem scanWhole_cases {atEnd : Cause} {text rest : Bytes} {ds : List Nat}
    (h : scanWhole atEnd text = .ok (ds, rest)) :
    text = 48 :: rest ∧ ds = [0] ∨
      ∃ b tail, text = b :: tail ∧ isDigit b ∧ b ≠ 48 ∧ takeDigits text = (ds, rest) := by
  unfold scanWhole at h
  split at h
  · cases h
  · split at h
    · cases h
    · cases h
      exact .inl ⟨rfl, rfl⟩
  next b tail hzero =>
    split at h
    next hb =>
      by_cases h48 : b = 48
      · subst h48
        cases tail with
        | nil =>
          cases h
          exact .inl ⟨rfl, rfl⟩
        | cons c tail => exact absurd rfl (hzero c tail rfl)
      · exact .inr ⟨b, tail, rfl, hb, h48, Except.ok.inj h⟩
    · cases h

theorem cut_scanWhole {atEnd : Cause} {text rest : Bytes} {ds : List Nat}
    (h : scanWhole atEnd text = .ok (ds, rest)) :
    Cut OnDigit NoDigit (fun t m => scanWhole atEnd t = .ok (ds, m)) text rest := by
  rcases scanWhole_cases h with ⟨rfl, rfl⟩ | ⟨b, tail, rfl, hb, h48, htake⟩
  · exact .bytes [48] fun more hmore =>
      ⟨⟨48, more, rfl, by decide⟩, scanWhole_zero atEnd hmore⟩
  · refine (cut_digits hb htake).mono ?_
    rintro t m hdigit ⟨⟨tail, rfl⟩, hdigits⟩
    exact ⟨hdigit, by rw [scanWhole_digits atEnd hb h48, hdigits]⟩

theorem cut_scanPoint {atEnd : Cause} {text rest : Bytes} {ds : List Nat}
    (h : scanPoint atEnd text = .ok (ds, rest)) :
    Cut NoDigit NoFraction (fun t m => scanPoint atEnd t = .ok (ds, m)) text rest := by
  unfold scanPoint at h
  split at h
  next text =>
    unfold scanFraction at h
    split at h
    · cases h
    · cases h
    next ds' rest' hnil hcons htake =>
      cases h
      have hds : ds ≠ [] := by
        rintro rfl
        cases rest with
        | nil => exact hnil rfl rfl
        | cons b rest => exact hcons b rest rfl rfl
      obtain ⟨raw, rfl, hraw⟩ := cut_takeDigits htake
      refine ⟨46 :: raw, rfl, fun more hmore => ⟨?_, ?_⟩⟩
      · rintro _ ⟨⟩
        decide
      · simp only [scanPoint, List.cons_append, scanFraction, (hraw more hmore.1).2]
        cases ds with
        | nil => contradiction
        | cons d ds => rfl
  next hpoint =>
    cases h
    refine .nothing fun more hmore => ⟨hmore.1, ?_⟩
    unfold scanPoint
    split
    · exact absurd rfl hmore.2
    · rfl

theorem cut_takePowerSign {text rest : Bytes} {negative : Bool}
    (h : takePowerSign text = (negative, rest)) :
    Cut Anything OnDigit (fun t m => takePowerSign t = (negative, m)) text rest := by
  unfold takePowerSign at h
  split at h
  · cases h
    exact .bytes [43] fun _ _ => ⟨trivial, rfl⟩
  · cases h
    exact .bytes [45] fun _ _ => ⟨trivial, rfl⟩
  · cases h
    refine .nothing ?_
    rintro _ ⟨b, tail, rfl, hb⟩
    have hplus : b ≠ 43 := ne_of_isDigit hb (by decide)
    have hminus : b ≠ 45 := ne_of_isDigit hb (by decide)
    exact ⟨trivial, by simp [takePowerSign, hplus, hminus]⟩

theorem cut_scanExponent {atEnd : Cause} {text rest : Bytes} {e : Bool × List Nat}
    (h : scanExponent atEnd text = .ok (e, rest)) :
    Cut Anything NoDigit (fun t m => scanExponent atEnd t = .ok (e, m)) text rest := by
  obtain ⟨negative, unsigned, hsign⟩ : ∃ negative unsigned, takePowerSign text
      = (negative, unsigned) := ⟨_, _, rfl⟩
  rw [scanExponent, hsign] at h
  dsimp only at h
  split at h
  · cases h
  next b tail =>
    split at h
    next hb =>
      generalize htake : takeDigits (b :: tail) = found at h
      obtain ⟨ds, rest'⟩ := found
      cases h
      refine ((cut_takePowerSign hsign).comp (cut_digits hb htake)).mono ?_
      rintro t m - ⟨s, hs, ⟨more, rfl⟩, htake⟩
      exact ⟨trivial, by simp only [scanExponent, hs, if_pos hb, htake]⟩
    · cases h

theorem cut_scanPower {atEnd : Cause} {text rest : Bytes} {e : Option (Bool × List Nat)}
    (h : scanPower atEnd text = .ok (e, rest)) :
    Cut NoFraction Stops (fun t m => scanPower atEnd t = .ok (e, m)) text rest := by
  have hnone : Cut NoFraction Stops (fun t m => scanPower atEnd t = .ok (none, m)) text text := by
    refine .nothing fun more hmore => ?_
    cases more with
    | nil => exact ⟨⟨nofun, nofun⟩, rfl⟩
    | cons b more =>
      obtain ⟨hdigit, hpoint, hlower, hupper⟩ := hmore b rfl
      refine ⟨⟨hmore.noDigit, fun heq => hpoint (Option.some.inj heq)⟩, ?_⟩
      simp [scanPower, hlower, hupper]
  unfold scanPower at h
  split at h
  · cases h
    exact hnone
  next b tail =>
    split at h
    next hletter =>
      obtain ⟨⟨found, rest'⟩, hscan, h⟩ := map_eq_ok.mp h
      cases h
      obtain ⟨raw, rfl, hraw⟩ := cut_scanExponent hscan
      refine ⟨b :: raw, rfl, fun more hmore => ⟨?_, ?_⟩⟩
      · have hb : b = 101 ∨ b = 69 := by simpa using hletter
        refine ⟨?_, ?_⟩
        · rintro _ ⟨⟩
          rcases hb with rfl | rfl <;> decide
        · rcases hb with rfl | rfl <;> simp
      · simp only [List.cons_append, scanPower, if_pos hletter, (hraw more hmore.noDigit).2,
          Except.map]
    · cases h
      exact hnone

theorem cut_scanNumeral {atEnd : Cause} {text rest : Bytes} {n : Numeral}
    (h : scanNumeral atEnd text = .ok (n, rest)) :
    Cut OnDigit Stops (fun t m => scanNumeral atEnd t = .ok (n, m)) text rest := by
  obtain ⟨⟨whole, afterWhole⟩, hwhole, h⟩ := bind_eq_ok.mp h
  obtain ⟨⟨fraction, afterFraction⟩, hpoint, h⟩ := bind_eq_ok.mp h
  obtain ⟨⟨exponent, afterExponent⟩, hpower, h⟩ := bind_eq_ok.mp h
  cases h
  refine ((cut_scanWhole hwhole).comp ((cut_scanPoint hpoint).comp (cut_scanPower hpower))).mono ?_
  rintro t m hdigit ⟨s, hs, u, hu, hm⟩
  refine ⟨hdigit, ?_⟩
  simp only [scanNumeral, hs, hu, hm, bind, Except.bind]
  rfl

theorem length_of_skipNumber {text rest : Bytes} (h : skipNumber text = .ok rest) :
    rest.length < text.length := by
  obtain ⟨⟨n, rest'⟩, hscan, h⟩ := bind_eq_ok.mp h
  cases h
  exact Nat.lt_of_lt_of_le (scanNumeral_of_ok hscan .invalidNumber).2 (length_takeSign text)

theorem cut_skipNumber {text rest : Bytes} (h : skipNumber text = .ok rest) :
    Cut Anything Stops (fun t m => skipNumber t = .ok m) text rest := by
  obtain ⟨⟨n, rest'⟩, hscan, h⟩ := bind_eq_ok.mp h
  cases h
  have hcut := cut_scanNumeral hscan
  unfold takeSign at hcut
  split at hcut
  next tail =>
    refine hcut.cons fun t m _ hscan => ⟨trivial, ?_⟩
    simp only [skipNumber, takeSign, hscan, bind, Except.bind]
    rfl
  next hsign =>
    refine hcut.mono ?_
    rintro t m ⟨b, tail, rfl, hb⟩ hscan
    have hminus : b ≠ 45 := ne_of_isDigit hb (by decide)
    have htake : takeSign (b :: tail) = (false, b :: tail) := by simp [takeSign, hminus]
    refine ⟨trivial, ?_⟩
    simp only [skipNumber, htake, hscan, bind, Except.bind]
    rfl

/-! ### Strings -/

theorem cut_readUnit {text rest : Bytes} {n : Nat} (h : readUnit text = .ok (n, rest)) :
    Cut Anything Anything (fun t m => readUnit t = .ok (n, m)) text rest := by
  unfold readUnit at h
  split at h
  next a b c d tail =>
    split at h
    next ha hb hc hd =>
      cases h
      refine .bytes [a, b, c, d] fun more _ => ⟨trivial, ?_⟩
      simp [readUnit, ha, hb, hc, hd]
    · cases h
  · cases h

theorem cut_skipEscape {text rest : Bytes} (h : skipEscape text = .ok rest) :
    Cut Anything Anything (fun t m => m.length < t.length ∧ skipEscape t = .ok m) text rest := by
  unfold skipEscape at h
  split at h
  · cases h
  next b tail =>
    split at h
    next c hshort =>
      cases h
      exact .bytes [b] fun more _ => ⟨trivial, Nat.lt_succ_self _, by simp [skipEscape, hshort]⟩
    next hshort =>
      split at h
      next hb =>
        obtain ⟨⟨n, rest'⟩, hunit, h⟩ := map_eq_ok.mp h
        cases h
        subst hb
        refine (cut_readUnit hunit).cons fun t m _ hunit => ⟨trivial, ?_, ?_⟩
        · exact Nat.lt_succ_of_lt (length_of_readUnit hunit)
        · simp [skipEscape, hshort, hunit, Except.map]
      · cases h

/-- The string ends in front of `rest`, and is passed over in as many steps as it has bytes. -/
structure QuotedTo (text rest : Bytes) : Prop where
  shorter : rest.length ≤ text.length
  skip : ∀ steps, text.length ≤ steps + rest.length → skipQuoted steps text = .ok rest

theorem cut_skipQuoted {steps : Nat} {text rest : Bytes} (h : skipQuoted steps text = .ok rest) :
    Cut Anything Anything QuotedTo text rest := by
  induction steps generalizing text with
  | zero => cases h
  | succ steps ih =>
    match text with
    | [] => cases h
    | b :: text =>
      rw [skipQuoted] at h
      split at h
      next hb =>
        cases h
        refine .bytes [b] fun more _ => ⟨trivial, Nat.le_succ _, fun m hm => ?_⟩
        rw [List.length_append, List.length_singleton] at hm
        obtain ⟨m, rfl⟩ := Nat.exists_eq_add_of_le' (show 1 ≤ m by omega)
        simp [skipQuoted, hb]
      next hquote =>
        split at h
        next hslash =>
          split at h
          next mid hescape =>
            refine ((cut_skipEscape hescape).comp (ih h)).cons ?_
            rintro t m - ⟨s, ⟨hlt, hescape⟩, hquoted⟩
            have hle := hquoted.shorter
            refine ⟨trivial, by rw [List.length_cons]; omega, fun k hk => ?_⟩
            rw [List.length_cons] at hk
            obtain ⟨k, rfl⟩ := Nat.exists_eq_add_of_le' (show 1 ≤ k by omega)
            simp [skipQuoted, hslash, hescape, hquoted.skip k (by omega)]
          · cases h
        next hslash =>
          split at h
          · cases h
          next hcontrol =>
            refine (ih h).cons fun t m _ hquoted => ?_
            have hle := hquoted.shorter
            refine ⟨trivial, by rw [List.length_cons]; omega, fun k hk => ?_⟩
            rw [List.length_cons] at hk
            obtain ⟨k, rfl⟩ := Nat.exists_eq_add_of_le' (show 1 ≤ k by omega)
            simp [skipQuoted, hquote, hslash, hcontrol, hquoted.skip k (by omega)]

/-! ### Values -/

theorem stops_of_opensWith {b : UInt8} {text : Bytes} (hb : b = 44 ∨ b = 93 ∨ b = 125)
    (h : OpensWith b text) : Stops text := by
  have hspace : ∀ c, isSpace c → isDigit c = false ∧ c ≠ 46 ∧ c ≠ 101 ∧ c ≠ 69 := by
    intro c hc
    simp only [isSpace, Bool.or_eq_true, decide_eq_true_eq] at hc
    rcases hc with ((rfl | rfl) | rfl) | rfl <;> decide
  obtain ⟨c, hc, hopen⟩ := h
  intro d hd
  obtain rfl : c = d := Option.some.inj (hc.symm.trans hd)
  rcases hopen with hopen | rfl
  · exact hspace c hopen
  · rcases hb with rfl | rfl | rfl <;> decide

theorem Bracket.cut_skipName {bracket : Bracket} {steps : Nat} {text rest : Bytes}
    (h : bracket.skipName steps text = .ok rest) :
    Cut Anything Anything bracket.Names text rest := by
  cases bracket with
  | list =>
    cases h
    exact .nothing fun more _ => ⟨trivial, Bracket.names_list more⟩
  | object =>
    change Json.skipName steps text = .ok rest at h
    unfold Json.skipName at h
    split at h
    · cases h
    next b quoted hopen =>
      split at h
      next hb =>
        subst hb
        split at h
        · cases h
        next colon hquoted =>
          split at h
          · cases h
          next c inner hcolon =>
            split at h
            next hc =>
              subst hc
              cases h
              refine ((cut_skipSpace hopen).andThen
                ((cut_skipQuoted hquoted).andThen (cut_skipSpace hcolon))).mono ?_
              rintro t m - ⟨s, hs, u, hu, hm⟩
              exact ⟨trivial, Bracket.names_object hs hu.skip hu.shorter hm⟩
            · cases h
      · cases h

theorem cut_value_word {letter : UInt8} {ws text more rest : Bytes}
    (hpasses : ∀ text more rest, skipSpace text = letter :: more → word ws more = .ok rest →
      Passes text rest) (h : skipSpace text = letter :: more) (hword : word ws more = .ok rest) :
    Cut Anything Stops Passes text rest := by
  refine (((cut_skipSpace h).andThen (cut_word hword)).mono ?_).narrow fun _ _ => trivial
  rintro t m - ⟨s, hs, hm⟩
  exact ⟨trivial, hpasses t s m hs hm⟩

theorem cut_value_text {steps : Nat} {text more rest : Bytes} (h : skipSpace text = 34 :: more)
    (hquoted : skipQuoted steps more = .ok rest) : Cut Anything Stops Passes text rest := by
  refine (((cut_skipSpace h).andThen (cut_skipQuoted hquoted)).mono ?_).narrow fun _ _ => trivial
  rintro t m - ⟨s, hs, hm⟩
  exact ⟨trivial, passes_text hs hm.skip hm.shorter⟩

theorem cut_value_number {text more rest : Bytes} {b : UInt8} (h : skipSpace text = b :: more)
    (hb : b = 45 ∨ isDigit b) (hskip : skipNumber (b :: more) = .ok rest) :
    Cut Anything Stops Passes text rest := by
  have hnumber := (cut_skipNumber hskip).head fun t m => length_of_skipNumber
  refine ((cut_spaces h).comp hnumber).mono ?_
  rintro t m - ⟨_, ⟨tail, rfl, hs⟩, hm⟩
  exact ⟨trivial, passes_number hs hb hm (length_of_skipNumber hm)⟩

theorem cut_value_empty {bracket : Bracket} {text more rest : Bytes}
    (h : skipSpace text = bracket.opening :: more)
    (hclose : skipSpace more = bracket.closing :: rest) : Cut Anything Stops Passes text rest := by
  refine (((cut_skipSpace h).andThen (cut_skipSpace hclose)).mono ?_).narrow fun _ _ => trivial
  rintro t m - ⟨s, hs, hm⟩
  exact ⟨trivial, .empty bracket hs hm⟩

def Element (bracket : Bracket) (text rest : Bytes) : Prop :=
  ∃ inner, bracket.Names text inner ∧ ∃ after, Passes inner after ∧ PassesAfter bracket after rest

theorem cut_value_filled {bracket : Bracket} {text more first rest : Bytes} {b : UInt8}
    (h : skipSpace text = bracket.opening :: more) (hfirst : skipSpace more = b :: first)
    (hne : b ≠ bracket.closing) (helement : Cut Anything Anything (Element bracket) (b :: first) rest) :
    Cut Anything Stops Passes text rest := by
  have hshorter : ∀ t m, Element bracket t m → m.length < t.length := by
    rintro t m ⟨inner, hnames, after, hvalue, hafter⟩
    have := hnames.shorter
    have := hvalue.shorter
    have := hafter.shorter
    omega
  refine (((cut_skipSpace h).andThen ((cut_spaces hfirst).comp (helement.head hshorter))).mono
    ?_).narrow fun _ _ => trivial
  rintro t m - ⟨s, hs, _, ⟨tail, rfl, hu⟩, inner, hnames, after, hvalue, hafter⟩
  exact ⟨trivial, .filled bracket hs hu hne hnames hvalue hafter⟩

theorem cut_after_next {bracket : Bracket} {text more rest : Bytes} (h : skipSpace text = 44 :: more)
    (helement : Cut Anything Anything (Element bracket) more rest) :
    Cut Stops Anything (PassesAfter bracket) text rest := by
  refine ((cut_skipSpace h).andThen helement).mono ?_
  rintro t m hopens ⟨s, hs, inner, hnames, after, hvalue, hafter⟩
  exact ⟨stops_of_opensWith (.inl rfl) hopens, .next hs hnames hvalue hafter⟩

theorem cut_after_last {bracket : Bracket} {text rest : Bytes}
    (h : skipSpace text = bracket.closing :: rest) :
    Cut Stops Anything (PassesAfter bracket) text rest := by
  refine (cut_skipSpace h).mono fun t m hopens hm => ⟨stops_of_opensWith (.inr ?_) hopens, .last hm⟩
  cases bracket with
  | list => exact .inl rfl
  | object => exact .inr rfl

/-- Something is cut off, and the brackets still open are closed behind it in fewer steps. -/
def CutsOff (before after : Bytes → Prop) (leads : Bytes → Bytes → Prop) (steps n : Nat)
    (open_ : List Bracket) (text final : Bytes) : Prop :=
  ∃ rest k, k < n ∧ skipAfter steps k open_ rest = .ok final ∧ Cut before after leads text rest

/-- What so many steps pass over is a value that is cut off, or what follows one up to the end of
its list or object. -/
structure CutsAll (steps n : Nat) : Prop where
  value : ∀ {open_ text final}, skipIn steps n open_ text = .ok final →
    CutsOff Anything Stops Passes steps n open_ text final
  after : ∀ {bracket open_ text final}, skipAfter steps n (bracket :: open_) text = .ok final →
    CutsOff Stops Anything (PassesAfter bracket) steps n open_ text final

section Steps
variable {steps n : Nat} {bracket : Bracket} {open_ : List Bracket} {text final : Bytes}

theorem cutsOff_element (ih : ∀ m ≤ n, CutsAll steps m)
    (h : (bracket.skipName steps text).bind (skipIn steps n (bracket :: open_)) = .ok final) :
    CutsOff Anything Anything (Element bracket) steps n open_ text final := by
  obtain ⟨inner, hname, h⟩ := bind_eq_ok.mp h
  obtain ⟨after, k, hk, h, hvalue⟩ := (ih n (Nat.le_refl n)).value h
  obtain ⟨rest, j, hj, h, hafter⟩ := (ih k (Nat.le_of_lt hk)).after h
  refine ⟨rest, j, Nat.lt_trans hj hk, h, ?_⟩
  refine ((Bracket.cut_skipName hname).andThen (hvalue.comp hafter)).mono ?_
  rintro t m - hm
  exact ⟨trivial, hm⟩

theorem cutsOff_bracket (bracket : Bracket) (ih : ∀ m ≤ n, CutsAll steps m) {more : Bytes}
    (hspace : skipSpace text = bracket.opening :: more)
    (h : skipFirst steps n bracket open_ more = .ok final) :
    CutsOff Anything Stops Passes steps (n + 1) open_ text final := by
  cases n with
  | zero =>
    rw [skipFirst] at h
    cases h
  | succ n =>
    rw [skipFirst] at h
    split at h
    · cases h
    next b first hfirst =>
      split at h
      next hb =>
        subst hb
        exact ⟨first, n, by omega, h, cut_value_empty hspace hfirst⟩
      next hb =>
        obtain ⟨rest, k, hk, h, hcut⟩ :=
          cutsOff_element (fun m hm => ih m (Nat.le_succ_of_le hm)) h
        exact ⟨rest, k, by omega, h, cut_value_filled hspace hfirst hb hcut⟩

theorem cutsOff_single {read : Except Failure Bytes}
    (hcut : ∀ rest, read = .ok rest → Cut Anything Stops Passes text rest)
    (h : read.bind (skipAfter steps n open_) = .ok final) :
    CutsOff Anything Stops Passes steps (n + 1) open_ text final := by
  obtain ⟨rest, hread, h⟩ := bind_eq_ok.mp h
  exact ⟨rest, n, Nat.lt_succ_self n, h, hcut rest hread⟩

theorem cutsOff_value (ih : ∀ m ≤ n, CutsAll steps m)
    (h : skipIn steps (n + 1) open_ text = .ok final) :
    CutsOff Anything Stops Passes steps (n + 1) open_ text final := by
  rw [skipIn] at h
  split at h
  · cases h
  next b more hspace =>
    split at h
    next hb =>
      subst hb
      exact cutsOff_single (fun _ => cut_value_word (fun _ _ _ => passes_null) hspace) h
    split at h
    next hb =>
      subst hb
      exact cutsOff_single (fun _ => cut_value_word (fun _ _ _ => passes_true) hspace) h
    split at h
    next hb =>
      subst hb
      exact cutsOff_single (fun _ => cut_value_word (fun _ _ _ => passes_false) hspace) h
    split at h
    next hb => exact cutsOff_single (fun _ => cut_value_number hspace (by simpa using hb)) h
    split at h
    next hb =>
      subst hb
      exact cutsOff_single (fun _ => cut_value_text hspace) h
    split at h
    next hb =>
      subst hb
      exact cutsOff_bracket .list ih hspace h
    split at h
    next hb =>
      subst hb
      exact cutsOff_bracket .object ih hspace h
    · cases h

theorem cutsOff_after (ih : ∀ m ≤ n, CutsAll steps m)
    (h : skipAfter steps (n + 1) (bracket :: open_) text = .ok final) :
    CutsOff Stops Anything (PassesAfter bracket) steps (n + 1) open_ text final := by
  rw [skipAfter] at h
  split at h
  · cases h
  next b more hspace =>
    split at h
    next hb =>
      subst hb
      obtain ⟨rest, k, hk, h, hcut⟩ := cutsOff_element ih h
      exact ⟨rest, k, Nat.lt_succ_of_lt hk, h, cut_after_next hspace hcut⟩
    split at h
    next hb =>
      subst hb
      exact ⟨more, n, Nat.lt_succ_self n, h, cut_after_last hspace⟩
    · cases h

theorem cutsAll (steps n : Nat) : CutsAll steps n := by
  induction n using Nat.strong_induction_on with
  | _ n ih =>
  cases n with
  | zero =>
    refine ⟨fun h => ?_, fun h => ?_⟩
    · rw [skipIn] at h
      cases h
    · rw [skipAfter] at h
      cases h
  | succ n =>
    have hbelow : ∀ m ≤ n, CutsAll steps m := fun m hm => ih m (Nat.lt_succ_of_le hm)
    exact ⟨cutsOff_value hbelow, cutsOff_after hbelow⟩

end Steps

/-- A value that is passed over is passed over wherever it stands. -/
theorem cut_skipValue {steps : Nat} {text rest : Bytes} (h : skipValue steps text = .ok rest) :
    Cut Anything Stops Passes text rest := by
  obtain ⟨rest', k, -, h, hcut⟩ := (cutsAll steps (2 * steps)).value h
  rw [skipAfter] at h
  cases h
  exact hcut

end PathPolicy.Json
