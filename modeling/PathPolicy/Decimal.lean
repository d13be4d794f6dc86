/-! Decimal text of whole numbers. -/

namespace PathPolicy.Decimal

def digit? (c : Char) : Option Nat :=
  if '0' ≤ c ∧ c ≤ '9' then some (c.toNat - 48) else none

def digits? (n : Nat) : List Char → Option Nat
  | [] => some n
  | c :: cs => (digit? c).bind fun d => digits? (10 * n + d) cs

/-- At least one digit and nothing else; leading zeros are allowed. -/
def natural? : List Char → Option Nat
  | [] => none
  | cs => digits? 0 cs

/-- An unsigned 64-bit number, with or without a plus sign in front. -/
def unsigned? (s : String) : Option UInt64 := do
  let n ← natural? (match s.toList with | '+' :: cs => cs | cs => cs)
  if n < UInt64.size then some (UInt64.ofNat n) else none

def ofNat (n : Nat) : List Char := Nat.toDigits 10 n

def ofInt : Int → List Char
  | .ofNat n => ofNat n
  | .negSucc n => '-' :: ofNat (n + 1)

/-! ### Reading what was written -/

theorem digit?_of_isDigit {c : Char} (h : c.isDigit) : digit? c = some (c.toNat - 48) := by
  simp only [Char.isDigit, Bool.and_eq_true, decide_eq_true_eq] at h
  exact if_pos ⟨h.1, h.2⟩

theorem digits?_of_isDigit {cs : List Char} (h : ∀ c ∈ cs, c.isDigit) (n : Nat) :
    digits? n cs = some (Nat.ofDigitChars 10 cs n) := by
  induction cs generalizing n with
  | nil => rfl
  | cons c cs ih =>
    have hc := digit?_of_isDigit (h c List.mem_cons_self)
    have hcs := ih (fun d hd => h d (List.mem_cons_of_mem c hd)) (10 * n + (c.toNat - 48))
    simp only [digits?, hc, Option.bind_some, hcs]
    rfl

theorem isDigit_of_mem_ofNat {n : Nat} {c : Char} (h : c ∈ ofNat n) : c.isDigit :=
  Nat.isDigit_of_mem_toDigits (by decide) (by decide) h

theorem natural?_ofNat (n : Nat) : natural? (ofNat n) = some n := by
  have hdigit : ∀ c ∈ ofNat n, c.isDigit := fun c => isDigit_of_mem_ofNat
  have h := digits?_of_isDigit hdigit 0
  match hd : ofNat n with
  | [] => exact absurd hd (by simp [ofNat])
  | c :: cs =>
    rw [hd] at h
    rw [natural?, h, ← hd, ofNat, Nat.ofDigitChars_toDigits (by decide) (by decide)]
    simp

theorem unsigned?_ofNat {n : Nat} (h : n < UInt64.size) :
    unsigned? (String.ofList (ofNat n)) = some (UInt64.ofNat n) := by
  rw [unsigned?, String.toList_ofList]
  split
  next cs hcs =>
    have hplus : '+' ∈ ofNat n := hcs ▸ List.mem_cons_self
    exact absurd (isDigit_of_mem_ofNat hplus) (by decide)
  next =>
    rw [natural?_ofNat]
    exact if_pos h

end PathPolicy.Decimal
