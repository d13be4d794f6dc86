import PathPolicy.Json.Codable
import PathPolicy.Proofs.Json.RoundTrip

/-!
Passing over strings, numbers, and lists and objects of what can be passed over. Two steps for each
byte suffice.
-/
namespace PathPolicy.Json

/-! ### Strings -/

theorem length_of_readUnit {text rest : Bytes} {n : Nat} (h : readUnit text = .ok (n, rest)) :
    rest.length < text.length := by
  unfold readUnit at h
  split at h
  · split at h
    · cases h
      simp only [List.length_cons]
      omega
    · cases h
  · cases h

theorem eq_cons_of_expect {b : UInt8} {text rest : Bytes}
    (h : readCodePoint.expect b text = .ok rest) : text = b :: rest := by
  unfold readCodePoint.expect at h
  split at h
  · cases h
  · split at h
    · cases h
      simp [*]
    · cases h

theorem readCodePoint_cases {text rest : Bytes} {n : Nat} (h : readCodePoint text = .ok (n, rest)) :
    (∃ m, readUnit text = .ok (m, rest)) ∨
      ∃ m k low, readUnit text = .ok (m, 92 :: 117 :: low) ∧ readUnit low = .ok (k, rest) := by
  obtain ⟨⟨high, mid⟩, hunit, h⟩ := bind_eq_ok.mp h
  dsimp only at h
  split at h
  · cases h
  split at h
  · cases h
    exact .inl ⟨n, hunit⟩
  obtain ⟨afterSlash, hslash, h⟩ := bind_eq_ok.mp h
  obtain ⟨low, hletter, h⟩ := bind_eq_ok.mp h
  obtain ⟨⟨k, last⟩, hlow, h⟩ := bind_eq_ok.mp h
  dsimp only at h
  split at h
  · cases h
  cases h
  rw [eq_cons_of_expect hslash, eq_cons_of_expect hletter] at hunit
  exact .inr ⟨high, k, low, hunit, hlow⟩

theorem readEscape_cases {text rest bytes : Bytes} (h : readEscape text = .ok (bytes, rest)) :
    skipEscape text = .ok rest ∧ rest.length < text.length ∨
      ∃ low, skipEscape text = .ok (92 :: low) ∧ skipEscape low = .ok rest ∧
        rest.length < low.length ∧ low.length + 1 < text.length := by
  match text with
  | [] => cases h
  | b :: text =>
    rw [readEscape] at h
    cases hshort : shortEscape? b with
    | some c =>
      rw [hshort] at h
      cases h
      left
      simp [skipEscape, hshort]
    | none =>
      rw [hshort] at h
      dsimp only at h
      split at h
      · rename_i hb
        subst hb
        obtain ⟨⟨n, rest'⟩, hpoint, h⟩ := bind_eq_ok.mp h
        cases h
        rcases readCodePoint_cases hpoint with ⟨m, hunit⟩ | ⟨m, k, low, hunit, hlow⟩
        · have := length_of_readUnit hunit
          left
          simp only [skipEscape, hshort, if_true, hunit, Except.map, List.length_cons, true_and]
          omega
        · have hfirst := length_of_readUnit hunit
          have hsecond := length_of_readUnit hlow
          right
          refine ⟨117 :: low, ?_, ?_, ?_, ?_⟩
          · simp only [skipEscape, hshort, if_true, hunit, Except.map]
          · simp only [skipEscape, hshort, if_true, hlow, Except.map]
          · simp only [List.length_cons]
            omega
          · simp only [List.length_cons] at hfirst ⊢
            omega
      · cases h

theorem skipQuoted_of_readQuoted {n : Nat} {done text bytes rest : Bytes}
    (h : readQuoted n done text = .ok (bytes, rest)) :
    rest.length < text.length ∧
      ∀ m, text.length ≤ m + rest.length → skipQuoted m text = .ok rest := by
  induction n generalizing done text with
  | zero => cases h
  | succ n ih =>
    match text with
    | [] => cases h
    | b :: text =>
      rw [readQuoted] at h
      split at h
      · rename_i hb
        cases h
        refine ⟨Nat.lt_succ_self _, fun m hm => ?_⟩
        rw [List.length_cons] at hm
        obtain ⟨m, rfl⟩ := Nat.exists_eq_add_of_le' (show 1 ≤ m by omega)
        simp [skipQuoted, hb]
      split at h
      · rename_i hquote hslash
        subst hslash
        split at h
        · rename_i escaped rest' hescape
          obtain ⟨hlength, hskip⟩ := ih h
          -- a surrogate pair is read at once, and passed over in two steps
          rcases readEscape_cases hescape with ⟨hone, hlt⟩ | ⟨low, hone, htwo, hlow, hlt⟩
          · refine ⟨Nat.lt_trans hlength (Nat.lt_succ_of_lt hlt), fun m hm => ?_⟩
            rw [List.length_cons] at hm
            obtain ⟨m, rfl⟩ := Nat.exists_eq_add_of_le' (show 1 ≤ m by omega)
            simp [skipQuoted, hone, hskip m (by omega)]
          · refine ⟨by rw [List.length_cons]; omega, fun m hm => ?_⟩
            rw [List.length_cons] at hm
            obtain ⟨m, rfl⟩ := Nat.exists_eq_add_of_le' (show 2 ≤ m by omega)
            simp [skipQuoted, hone, htwo, hskip m (by omega)]
        · cases h
      split at h
      · cases h
      · rename_i hquote hslash hcontrol
        obtain ⟨hlength, hskip⟩ := ih h
        refine ⟨Nat.lt_succ_of_lt hlength, fun m hm => ?_⟩
        rw [List.length_cons] at hm
        obtain ⟨m, rfl⟩ := Nat.exists_eq_add_of_le' (show 1 ≤ m by omega)
        simp [skipQuoted, hquote, hslash, hcontrol, hskip m (by omega)]

theorem skipQuoted_of_readText {n : Nat} {text rest : Bytes} {s : String}
    (h : readText n text = .ok (s, rest)) :
    rest.length < text.length ∧
      ∀ m, text.length ≤ m + rest.length → skipQuoted m text = .ok rest := by
  obtain ⟨⟨bytes, rest'⟩, hquoted, h⟩ := bind_eq_ok.mp h
  dsimp only at h
  split at h
  · cases h
    exact skipQuoted_of_readQuoted hquoted
  · cases h

/-! ### Numbers -/

theorem length_takeDigits (text : Bytes) : (takeDigits text).2.length ≤ text.length := by
  induction text with
  | nil => exact Nat.le_refl 0
  | cons b text ih =>
    rw [takeDigits]
    split
    · exact Nat.le_succ_of_le ih
    · exact Nat.le_refl _

/-- The digits before the point are found in one way, whatever would be said if the text ended too
early; what follows is alike. -/
theorem scanWhole_of_ok {atEnd : Cause} {text rest : Bytes} {ds : List Nat}
    (h : scanWhole atEnd text = .ok (ds, rest)) (other : Cause) :
    scanWhole other text = .ok (ds, rest) ∧ rest.length < text.length := by
  unfold scanWhole at h ⊢
  split at h
  · cases h
  · split at h
    · cases h
    · rename_i hdigit
      cases h
      simp [hdigit]
  · rename_i b more hzero
    split at h
    · rename_i hdigit
      refine ⟨by simpa [hdigit] using h, ?_⟩
      have hlength := length_takeDigits more
      rw [Except.ok.injEq, takeDigits, if_pos hdigit] at h
      cases h
      exact Nat.lt_succ_of_le hlength
    · cases h

theorem length_le_of_takeDigits {text rest : Bytes} {ds : List Nat}
    (h : takeDigits text = (ds, rest)) : rest.length ≤ text.length := by
  have := length_takeDigits text
  rwa [h] at this

theorem scanPoint_of_ok {atEnd : Cause} {text rest : Bytes} {ds : List Nat}
    (h : scanPoint atEnd text = .ok (ds, rest)) (other : Cause) :
    scanPoint other text = .ok (ds, rest) ∧ rest.length ≤ text.length := by
  unfold scanPoint at h ⊢
  split at h
  · rename_i more
    unfold scanFraction at h ⊢
    split at h
    · cases h
    · cases h
    · rename_i found rest' hne hmore htake
      cases h
      exact ⟨rfl, Nat.le_succ_of_le (length_le_of_takeDigits htake)⟩
  · cases h
    exact ⟨rfl, Nat.le_refl _⟩

theorem scanExponent_of_ok {atEnd : Cause} {text rest : Bytes} {e : Bool × List Nat}
    (h : scanExponent atEnd text = .ok (e, rest)) (other : Cause) :
    scanExponent other text = .ok (e, rest) ∧ rest.length ≤ text.length := by
  have hsign : (takePowerSign text).2.length ≤ text.length := by
    unfold takePowerSign
    split
    · exact Nat.le_succ _
    · exact Nat.le_succ _
    · exact Nat.le_refl _
  unfold scanExponent at h ⊢
  generalize takePowerSign text = signed at h hsign ⊢
  obtain ⟨negative, unsigned⟩ := signed
  dsimp only at h hsign ⊢
  split at h
  · cases h
  · rename_i b more
    split at h
    · rename_i hdigit
      have hlength := length_takeDigits (b :: more)
      cases h
      exact ⟨by rw [if_pos hdigit], Nat.le_trans hlength hsign⟩
    · cases h

theorem scanPower_of_ok {atEnd : Cause} {text rest : Bytes} {e : Option (Bool × List Nat)}
    (h : scanPower atEnd text = .ok (e, rest)) (other : Cause) :
    scanPower other text = .ok (e, rest) ∧ rest.length ≤ text.length := by
  unfold scanPower at h ⊢
  split at h
  · cases h
    exact ⟨rfl, Nat.le_refl _⟩
  · split at h
    · rename_i hletter
      obtain ⟨⟨found, rest'⟩, hscan, h⟩ := map_eq_ok.mp h
      cases h
      obtain ⟨hscan, hle⟩ := scanExponent_of_ok hscan other
      rw [if_pos hletter, hscan]
      exact ⟨rfl, Nat.le_succ_of_le hle⟩
    · rename_i hletter
      cases h
      simp [hletter]

theorem scanNumeral_of_ok {atEnd : Cause} {text rest : Bytes} {n : Numeral}
    (h : scanNumeral atEnd text = .ok (n, rest)) (other : Cause) :
    scanNumeral other text = .ok (n, rest) ∧ rest.length < text.length := by
  obtain ⟨⟨whole, afterWhole⟩, hwhole, h⟩ := bind_eq_ok.mp h
  obtain ⟨⟨fraction, afterFraction⟩, hpoint, h⟩ := bind_eq_ok.mp h
  obtain ⟨⟨exponent, afterExponent⟩, hpower, h⟩ := bind_eq_ok.mp h
  cases h
  obtain ⟨hwhole, hwhole_lt⟩ := scanWhole_of_ok hwhole other
  obtain ⟨hpoint, hpoint_le⟩ := scanPoint_of_ok hpoint other
  obtain ⟨hpower, hpower_le⟩ := scanPower_of_ok hpower other
  refine ⟨?_, Nat.lt_of_le_of_lt (Nat.le_trans hpower_le hpoint_le) hwhole_lt⟩
  simp only [scanNumeral, hwhole, hpoint, hpower, bind, Except.bind]
  rfl

theorem length_takeSign (text : Bytes) : (takeSign text).2.length ≤ text.length := by
  unfold takeSign
  split
  · exact Nat.le_succ _
  · exact Nat.le_refl _

theorem skipNumber_of_readNumber {text rest : Bytes} {x : Number}
    (h : readNumber text = .ok (x, rest)) :
    skipNumber text = .ok rest ∧ rest.length < text.length := by
  have hsign := length_takeSign text
  unfold readNumber skipNumber at *
  generalize takeSign text = signed at h hsign ⊢
  obtain ⟨⟨n, rest'⟩, hscan, h⟩ := bind_eq_ok.mp h
  obtain ⟨hskip, hlt⟩ := scanNumeral_of_ok hscan .invalidNumber
  dsimp only at h
  split at h
  · cases h
    exact ⟨by rw [hskip]; rfl, Nat.lt_of_lt_of_le hlt hsign⟩
  · cases h

/-! ### Passing over -/

theorem length_skipSpace (text : Bytes) : (skipSpace text).length ≤ text.length :=
  (List.dropWhile_sublist isSpace).length_le

theorem length_lt_of_skipSpace {text rest : Bytes} {b : UInt8} (h : skipSpace text = b :: rest) :
    rest.length < text.length := by
  have := length_skipSpace text
  rw [h] at this
  exact this

theorem isSpace_of_skipSpace {text rest : Bytes} {b : UInt8} (h : skipSpace text = b :: rest) :
    isSpace b = false := by
  have hhead := List.head?_dropWhile_not isSpace text
  rw [← skipSpace, h] at hhead
  exact hhead

theorem skipSpace_skipSpace (text : Bytes) : skipSpace (skipSpace text) = skipSpace text := by
  match h : skipSpace text with
  | [] => rfl
  | b :: rest => exact skipSpace_cons (isSpace_of_skipSpace h) rest

/-- Passing over the value at the front of `text` leads to `rest`, whatever brackets are open, and
two steps for each byte of the value suffice. -/
structure Passes (text rest : Bytes) : Prop where
  shorter : rest.length < text.length
  skip : ∀ steps n open_, text.length ≤ steps + rest.length →
    2 * text.length ≤ n + 2 * rest.length →
    ∃ k, n + 2 * rest.length ≤ k + 2 * text.length ∧
      skipIn steps n open_ text = skipAfter steps k open_ rest

/-- The same behind an element of a list or an object, up to the end of that. -/
structure PassesAfter (bracket : Bracket) (text rest : Bytes) : Prop where
  shorter : rest.length < text.length
  skip : ∀ steps n open_, text.length ≤ steps + rest.length →
    2 * text.length ≤ n + 2 * rest.length →
    ∃ k, n + 2 * rest.length ≤ k + 2 * text.length ∧
      skipAfter steps n (bracket :: open_) text = skipAfter steps k open_ rest

theorem Passes.skipValue {text rest : Bytes} (h : Passes text rest) {steps : Nat}
    (hsteps : text.length ≤ steps + rest.length) : skipValue steps text = .ok rest := by
  obtain ⟨k, -, hskip⟩ := h.skip steps (2 * steps) [] hsteps (by omega)
  rw [Json.skipValue, hskip, skipAfter]

theorem Passes.of_skipSpace {text rest : Bytes} (h : Passes (skipSpace text) rest) :
    Passes text rest where
  shorter := Nat.lt_of_lt_of_le h.shorter (length_skipSpace text)
  skip steps n open_ hsteps hn := by
    have hle := length_skipSpace text
    have hshorter := h.shorter
    obtain ⟨k, hk, hskip⟩ := h.skip steps n open_ (by omega) (by omega)
    obtain ⟨n, rfl⟩ := Nat.exists_eq_add_of_le' (show 1 ≤ n by omega)
    refine ⟨k, by omega, hskip ▸ ?_⟩
    rw [skipIn, skipIn, skipSpace_skipSpace]

theorem Passes.single {text more rest : Bytes} {b : UInt8} (h : skipSpace text = b :: more)
    (hle : rest.length ≤ more.length)
    (hskip : ∀ steps n open_, more.length ≤ steps + rest.length →
      skipIn steps (n + 1) open_ text = skipAfter steps n open_ rest) : Passes text rest where
  shorter := Nat.lt_of_le_of_lt hle (length_lt_of_skipSpace h)
  skip steps n open_ hsteps hn := by
    have hlt := length_lt_of_skipSpace h
    obtain ⟨n, rfl⟩ := Nat.exists_eq_add_of_le' (show 1 ≤ n by omega)
    exact ⟨n, by omega, hskip steps n open_ (by omega)⟩

theorem length_of_word {ws text rest : Bytes} (h : word ws text = .ok rest) :
    rest.length ≤ text.length := by
  induction ws generalizing text with
  | nil =>
    cases h
    exact Nat.le_refl _
  | cons w ws ih =>
    match text with
    | [] => cases h
    | b :: text =>
      rw [word] at h
      split at h
      · exact Nat.le_succ_of_le (ih h)
      · cases h

theorem word_append (ws rest : Bytes) : word ws (ws ++ rest) = .ok rest := by
  induction ws with
  | nil => rfl
  | cons w ws ih => simp [word, ih]

theorem passes_null {text more rest : Bytes} (h : skipSpace text = 110 :: more)
    (hword : word ull more = .ok rest) : Passes text rest :=
  .single h (length_of_word hword) fun steps n open_ _ => by
    simp [skipIn, h, hword, Except.bind]

theorem passes_true {text more rest : Bytes} (h : skipSpace text = 116 :: more)
    (hword : word rue more = .ok rest) : Passes text rest :=
  .single h (length_of_word hword) fun steps n open_ _ => by
    simp [skipIn, h, hword, Except.bind]

theorem passes_false {text more rest : Bytes} (h : skipSpace text = 102 :: more)
    (hword : word alse more = .ok rest) : Passes text rest :=
  .single h (length_of_word hword) fun steps n open_ _ => by
    simp [skipIn, h, hword, Except.bind]

theorem skipIn_number {text more rest : Bytes} {b : UInt8} (h : skipSpace text = b :: more)
    (hb : b = 45 ∨ isDigit b) (hskip : skipNumber (b :: more) = .ok rest) (steps n : Nat)
    (open_ : List Bracket) : skipIn steps (n + 1) open_ text = skipAfter steps n open_ rest := by
  have hne (c : UInt8) (hc : c ≠ 45) (hdigit : isDigit c = false) : b ≠ c := by
    rcases hb with rfl | hb
    · exact hc.symm
    · exact ne_of_isDigit hb hdigit
  simp only [skipIn, h, hne 110 (by decide) (by decide), hne 116 (by decide) (by decide),
    hne 102 (by decide) (by decide), if_false]
  simp [hb, hskip, Except.bind]

theorem passes_number {text more rest : Bytes} {b : UInt8} (h : skipSpace text = b :: more)
    (hb : b = 45 ∨ isDigit b) (hskip : skipNumber (b :: more) = .ok rest)
    (hlt : rest.length < (b :: more).length) : Passes text rest :=
  .single h (Nat.le_of_lt_succ hlt) fun steps n open_ _ => skipIn_number h hb hskip steps n open_

theorem passes_text {text more rest : Bytes} (h : skipSpace text = 34 :: more)
    (hskip : ∀ m, more.length ≤ m + rest.length → skipQuoted m more = .ok rest)
    (hle : rest.length ≤ more.length) : Passes text rest := by
  refine .single h hle fun steps n open_ hsteps => ?_
  simp [skipIn, h, hskip steps hsteps, Except.bind, isDigit]

/-! ### Lists and objects -/

def Bracket.opening : Bracket → UInt8
  | .list => 91
  | .object => 123

structure Bracket.Names (bracket : Bracket) (text rest : Bytes) : Prop where
  shorter : rest.length ≤ text.length
  skip : ∀ steps, text.length ≤ steps + rest.length → bracket.skipName steps text = .ok rest

theorem skipIn_bracket {bracket : Bracket} {text more : Bytes}
    (h : skipSpace text = bracket.opening :: more) (steps n : Nat) (open_ : List Bracket) :
    skipIn steps (n + 1) open_ text = skipFirst steps n bracket open_ more := by
  cases bracket <;> simp [skipIn, h, Bracket.opening, isDigit]

theorem PassesAfter.last {bracket : Bracket} {text rest : Bytes}
    (h : skipSpace text = bracket.closing :: rest) : PassesAfter bracket text rest where
  shorter := length_lt_of_skipSpace h
  skip steps n open_ _ hn := by
    have hlt := length_lt_of_skipSpace h
    obtain ⟨n, rfl⟩ := Nat.exists_eq_add_of_le' (show 1 ≤ n by omega)
    have hcomma : bracket.closing ≠ 44 := by cases bracket <;> decide
    exact ⟨n, by omega, by simp [skipAfter, h, hcomma]⟩

theorem PassesAfter.next {bracket : Bracket} {text more inner after rest : Bytes}
    (h : skipSpace text = 44 :: more) (hname : bracket.Names more inner)
    (hvalue : Passes inner after) (hafter : PassesAfter bracket after rest) :
    PassesAfter bracket text rest where
  shorter := by
    have := length_lt_of_skipSpace h
    have := hname.shorter
    have := hvalue.shorter
    have := hafter.shorter
    omega
  skip steps n open_ hsteps hn := by
    have htext := length_lt_of_skipSpace h
    have hinner := hname.shorter
    have hvalue_lt := hvalue.shorter
    have hafter_lt := hafter.shorter
    obtain ⟨n, rfl⟩ := Nat.exists_eq_add_of_le' (show 1 ≤ n by omega)
    obtain ⟨k, hk, hskip⟩ := hvalue.skip steps n (bracket :: open_) (by omega) (by omega)
    obtain ⟨j, hj, hrest⟩ := hafter.skip steps k open_ (by omega) (by omega)
    refine ⟨j, by omega, ?_⟩
    simp only [skipAfter, h, if_true, hname.skip steps (by omega), Except.bind, hskip, hrest]

theorem Passes.empty (bracket : Bracket) {text more rest : Bytes}
    (h : skipSpace text = bracket.opening :: more)
    (hclose : skipSpace more = bracket.closing :: rest) : Passes text rest where
  shorter := Nat.lt_trans (length_lt_of_skipSpace hclose) (length_lt_of_skipSpace h)
  skip steps n open_ _ hn := by
    have htext := length_lt_of_skipSpace h
    have hmore := length_lt_of_skipSpace hclose
    obtain ⟨n, rfl⟩ := Nat.exists_eq_add_of_le' (show 2 ≤ n by omega)
    exact ⟨n, by omega, by simp [skipIn_bracket h, skipFirst, hclose]⟩

theorem Passes.filled (bracket : Bracket) {text more first inner after rest : Bytes} {b : UInt8}
    (h : skipSpace text = bracket.opening :: more) (hfirst : skipSpace more = b :: first)
    (hne : b ≠ bracket.closing) (hname : bracket.Names (b :: first) inner)
    (hvalue : Passes inner after) (hafter : PassesAfter bracket after rest) : Passes text rest where
  shorter := by
    have := length_lt_of_skipSpace h
    have := length_lt_of_skipSpace hfirst
    have hinner := hname.shorter
    have := hvalue.shorter
    have := hafter.shorter
    rw [List.length_cons] at hinner
    omega
  skip steps n open_ hsteps hn := by
    have htext := length_lt_of_skipSpace h
    have hmore := length_lt_of_skipSpace hfirst
    have hinner := hname.shorter
    have hvalue_lt := hvalue.shorter
    rw [List.length_cons] at hinner
    have hafter_lt := hafter.shorter
    obtain ⟨n, rfl⟩ := Nat.exists_eq_add_of_le' (show 2 ≤ n by omega)
    obtain ⟨k, hk, hskip⟩ := hvalue.skip steps n (bracket :: open_) (by omega) (by omega)
    obtain ⟨j, hj, hrest⟩ := hafter.skip steps k open_ (by omega) (by omega)
    have hskipName := hname.skip steps (by rw [List.length_cons]; omega)
    refine ⟨j, by omega, ?_⟩
    simp only [skipIn_bracket h, skipFirst, hfirst, hne, if_false, hskipName, Except.bind, hskip,
      hrest]

theorem Bracket.names_list (text : Bytes) : Bracket.list.Names text text :=
  ⟨Nat.le_refl _, fun _ _ => rfl⟩

theorem Bracket.names_object {text quoted colon inner : Bytes} (h : skipSpace text = 34 :: quoted)
    (hquoted : ∀ m, quoted.length ≤ m + colon.length → skipQuoted m quoted = .ok colon)
    (hle : colon.length ≤ quoted.length) (hcolon : skipSpace colon = 58 :: inner) :
    Bracket.object.Names text inner where
  shorter := by
    have := length_lt_of_skipSpace h
    have := length_lt_of_skipSpace hcolon
    omega
  skip steps hsteps := by
    have htext := length_lt_of_skipSpace h
    have hinner := length_lt_of_skipSpace hcolon
    simp [Bracket.skipName, Json.skipName, h, hquoted steps (by omega), hcolon]

end PathPolicy.Json
