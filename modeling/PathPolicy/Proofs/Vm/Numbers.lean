import Mathlib.Data.List.TakeWhile
import PathPolicy.Proofs.Float
import PathPolicy.Vm.Exchange
import PathPolicy.Vm.Maths

/-!
Numbers inside the machine: the order in which they are compared, and what becomes of the
unsigned numbers that the host hands over.
-/
namespace PathPolicy.Vm

/-! ### Comparison -/

def Value.exact : Value → Extended
  | .integer n => Extended.ofRat n.toInt
  | .number x => Double.exact x
  | _ => ⊤

def Value.Comparable : Value → Prop
  | .integer _ => True
  | .number x => x.toModel.unpack ≠ .notANumber
  | _ => False

theorem lessNumbers_iff {a b : Value} (hb : b.Comparable) :
    lessNumbers a b ↔ a.exact < b.exact := by
  cases b with
  | integer n =>
    cases a with
    | integer m => simp [lessNumbers, Value.exact]
    | number x => exact Double.ltInt_iff_exact_lt
    | _ => simp [lessNumbers, Value.exact]
  | number y =>
    cases a with
    | integer m => exact Double.intLt_iff_exact_lt hb
    | number x =>
      simp only [lessNumbers, Value.exact, decide_eq_true_iff]
      exact Double.lt_iff_exact_lt hb
    | _ => simp [lessNumbers, Value.exact]
  | _ => exact hb.elim

theorem Value.comparable_of_lt_top {v : Value} (h : v.exact < ⊤) : v.Comparable := by
  cases v with
  | integer n => trivial
  | number x =>
    intro hx
    rw [Value.exact, Double.exact, hx] at h
    exact absurd h (lt_irrefl _)
  | _ => exact absurd h (lt_irrefl _)

theorem unpack_huge : Maths.huge.toModel.unpack = .infinity .positive := by rfl

theorem exact_huge : (Value.number Maths.huge).exact = ⊤ := by
  rw [Value.exact, Double.exact, unpack_huge]
  rfl

theorem comparable_huge : (Value.number Maths.huge).Comparable := by
  rw [Value.Comparable, unpack_huge]
  nofun

/-! ### Unsigned numbers from outside -/

/-- An unsigned number as scripts use it: a whole number, or the nearest floating-point number
if it is above the signed range. -/
def ofUnsigned (n : UInt64) : Value :=
  if n.toNat ≤ Int64.maxValue.toInt then .integer (Int64.ofInt n.toNat)
  else .number (Float.ofScientific n.toNat false 0)

theorem isSpace_of_isDigit {c : Char} (h : c.isDigit) : Numeral.isSpace c = false := by
  simp only [Char.isDigit, Bool.and_eq_true, decide_eq_true_eq] at h
  have hdigit : 48 ≤ c.val.toNat := h.1
  have hblank : c ≠ ' ' := by
    rintro rfl
    exact absurd hdigit (by decide)
  have hcontrol : ¬c ≤ '\r' := by
    intro hle
    have hle' : c.val.toNat ≤ 13 := hle
    omega
  simp [Numeral.isSpace, hblank, hcontrol]

theorem dropWhile_isSpace {cs : List Char} (h : ∀ c ∈ cs, c.isDigit) :
    cs.dropWhile Numeral.isSpace = cs := by
  cases cs with
  | nil => rfl
  | cons c cs => rw [List.dropWhile_cons_of_neg (by simp [isSpace_of_isDigit (h c (by simp))])]

theorem trim_of_isDigit {cs : List Char} (h : ∀ c ∈ cs, c.isDigit) : Numeral.trim cs = cs := by
  have hreverse : ∀ c ∈ cs.reverse, c.isDigit := fun c hc => h c (List.mem_reverse.mp hc)
  rw [Numeral.trim, dropWhile_isSpace h, dropWhile_isSpace hreverse, List.reverse_reverse]

theorem foldl_hexValue_of_isDigit {cs : List Char} (h : ∀ c ∈ cs, c.isDigit) (n : Nat) :
    cs.foldl (fun n c => 10 * n + (Bytes.hexValue? c).getD 0) n = Nat.ofDigitChars 10 cs n := by
  induction cs generalizing n with
  | nil => rfl
  | cons c cs ih =>
    have hc := h c List.mem_cons_self
    simp only [Char.isDigit, Bool.and_eq_true, decide_eq_true_eq] at hc
    have hvalue : Bytes.hexValue? c = some (c.toNat - 48) := if_pos ⟨hc.1, hc.2⟩
    rw [List.foldl_cons, ih (fun d hd => h d (List.mem_cons_of_mem c hd)), hvalue,
      Nat.ofDigitChars_cons]
    rfl

theorem signed_of_isDigit {cs : List Char} (h : ∀ c ∈ cs, c.isDigit) :
    Numeral.signed cs = (false, cs) := by
  unfold Numeral.signed
  split
  · exact absurd (h '-' List.mem_cons_self) (by decide)
  · exact absurd (h '+' List.mem_cons_self) (by decide)
  · rfl

theorem unsigned?_of_isDigit {cs : List Char} (h : ∀ c ∈ cs, c.isDigit) (hne : cs ≠ []) :
    Numeral.unsigned? 10 Char.isDigit 'e' 'E' cs =
      some ⟨true, Nat.ofDigitChars 10 cs 0, 0, 0⟩ := by
  have htake : cs.takeWhile Char.isDigit = cs := List.takeWhile_eq_self_iff.mpr h
  have hdrop : cs.dropWhile Char.isDigit = [] := List.dropWhile_eq_nil_iff.mpr h
  simp [Numeral.unsigned?, htake, hdrop, hne, Numeral.exponent?, Numeral.ofDigits,
    foldl_hexValue_of_isDigit h]

theorem ofText?_ofNat (n : Nat) :
    Numeral.ofText? (String.ofList (Decimal.ofNat n)) = some
      (if (n : Int) ≤ Int64.maxValue.toInt then .integer (Int64.ofInt n)
      else .real (Float.ofScientific n false 0)) := by
  have hdigit : ∀ c ∈ Decimal.ofNat n, c.isDigit := fun c => Decimal.isDigit_of_mem_ofNat
  have hne : Decimal.ofNat n ≠ [] := by simp [Decimal.ofNat]
  have hvalue : Nat.ofDigitChars 10 (Decimal.ofNat n) 0 = n := by
    rw [Decimal.ofNat, Nat.ofDigitChars_toDigits (by decide) (by decide)]
  have hunsigned := unsigned?_of_isDigit hdigit hne
  rw [hvalue] at hunsigned
  rw [Numeral.ofText?, String.toList_ofList, trim_of_isDigit hdigit, signed_of_isDigit hdigit]
  dsimp only
  split
  next hx => exact absurd (hdigit 'x' (by simp [hx])) (by decide)
  next hx => exact absurd (hdigit 'X' (by simp [hx])) (by decide)
  next =>
    simp only [Numeral.decimal?, hunsigned, Option.map_some, Bool.false_eq_true, if_false,
      Bool.true_and, Numeral.finish]
    simp

theorem arithmetic?_ofUInt64 (n : UInt64) :
    arithmetic? (ofScript (.ofUInt64 n)) = some (ofUnsigned n) := by
  rw [Script.Value.ofUInt64, ofUnsigned]
  split
  · rfl
  · rename_i hlarge
    rw [ofScript, arithmetic?, numeral?, ofText?_ofNat, if_neg hlarge]
    rfl

end PathPolicy.Vm
