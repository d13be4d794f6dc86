import PathPolicy.Proofs.Json.Written
import PathPolicy.Proofs.Shortest

/-!
The text of a finite single-precision number is that of a numeral, in one of four forms: a whole
number, a number with a point inside or in front of its digits, or one with an exponent.
-/
namespace PathPolicy.Json
open Decimal Float.Model

/-- The numeral as which a decimal number is laid out. -/
def layOut (layout : Layout) (x : Scaled) : Numeral :=
  let ds := digits x.digits
  let point := x.exponent + ds.length
  if 0 ≤ x.exponent ∧ point ≤ layout.wholeDigits then
    ⟨ds ++ List.replicate x.exponent.toNat 0, [0], none⟩
  else if 0 < point ∧ point ≤ layout.wholeDigits then
    ⟨ds.take point.toNat, ds.drop point.toNat, none⟩
  else if -layout.leadingZeros < point ∧ point ≤ 0 then
    ⟨[0], List.replicate (-point).toNat 0 ++ ds, none⟩
  else ⟨ds.take 1, ds.drop 1, some (point < 1, digits (point - 1).natAbs)⟩

theorem length_ofNat (n : Nat) : (Decimal.ofNat n).length = (digits n).length := by
  have := congrArg List.length (ofChars_ofNat n)
  simpa [ofChars] using this

theorem ofChars_append (cs ds : List Char) : ofChars (cs ++ ds) = ofChars cs ++ ofChars ds := by
  simp [ofChars]

theorem ofChars_zeros (n : Nat) :
    ofChars (List.replicate n '0') = (List.replicate n 0).map digitByte := by
  simp [ofChars, digitByte]

theorem writeFraction_of_ne_nil {ds : List Nat} (h : ds ≠ []) :
    Numeral.writeFraction ds = 46 :: ds.map digitByte := by
  cases ds with
  | nil => exact absurd rfl h
  | cons d ds => rfl

theorem ofChars_take (n k : Nat) :
    ofChars ((Decimal.ofNat n).take k) = ((digits n).take k).map digitByte := by
  rw [ofChars, List.map_take, ← ofChars, ofChars_ofNat, List.map_take]

theorem ofChars_drop (n k : Nat) :
    ofChars ((Decimal.ofNat n).drop k) = ((digits n).drop k).map digitByte := by
  rw [ofChars, List.map_drop, ← ofChars, ofChars_ofNat, List.map_drop]

theorem ofChars_pointed {cs : List Char} {ds : List Nat} (h : ofChars cs = ds.map digitByte) :
    ofChars (pointed cs) = Numeral.writeFraction ds := by
  cases cs with
  | nil =>
    rw [List.map_eq_nil_iff.mp h.symm]
    rfl
  | cons c cs =>
    have hne : ds ≠ [] := by
      rintro rfl
      cases h
    rw [writeFraction_of_ne_nil hne, ← h]
    rfl

theorem ofChars_exponent (point : Int) (n : Nat) :
    ofChars ('e' :: (if 1 ≤ point then '+' else '-') :: Decimal.ofNat n)
      = Numeral.writeExponent (some (point < 1, digits n)) := by
  have hsign : ofChars [if 1 ≤ point then '+' else '-']
      = [if decide (point < 1) then 45 else 43] := by
    by_cases h : 1 ≤ point
    · simp [ofChars, h, Int.not_lt.mpr h]
    · simp [ofChars, h, Int.not_le.mp h]
  change 101 :: (ofChars [_] ++ ofChars (Decimal.ofNat n)) = _
  rw [hsign, ofChars_ofNat]
  rfl

theorem ofChars_render (layout : Layout) (x : Scaled) :
    ofChars (x.render layout) = (layOut layout x).write := by
  have hdigits := ofChars_ofNat x.digits
  have hpoint (cs : List Char) : ofChars ('.' :: cs) = 46 :: ofChars cs := rfl
  rw [Scaled.render, layOut]
  simp only [length_ofNat]
  split
  · simp only [ofChars_append, hdigits, ofChars_zeros, Numeral.write, Numeral.writeFraction,
      Numeral.writeExponent, List.map_append]
    rfl
  rename_i hwhole
  split
  · have hfraction : (digits x.digits).drop (x.exponent + (digits x.digits).length).toNat ≠ [] := by
      rw [Ne, List.drop_eq_nil_iff]
      omega
    rw [ofChars_append, hpoint, ofChars_take, ofChars_drop, Numeral.write,
      writeFraction_of_ne_nil hfraction]
    exact congrArg _ (List.append_nil _).symm
  split
  · have hfraction : List.replicate (-(x.exponent + (digits x.digits).length)).toNat 0
        ++ digits x.digits ≠ [] := by
      obtain ⟨h, -⟩ | ⟨d, ds, h, -⟩ := digits_eq_cons x.digits <;> simp [h]
    rw [Numeral.write, writeFraction_of_ne_nil hfraction, List.map_append, ← hdigits, ← ofChars_zeros,
      ← ofChars_append]
    exact congrArg (fun bytes => 48 :: 46 :: bytes) (List.append_nil _).symm
  · rw [ofChars_append, ofChars_append, ofChars_take, ofChars_pointed (ofChars_drop x.digits 1),
      ofChars_exponent, List.append_assoc]
    rfl

theorem proper_layOut (layout : Layout) {x : Scaled} (h : 0 < x.digits) :
    (layOut layout x).Proper := by
  have hds : ∀ d ∈ digits x.digits, d < 10 := fun d => lt_of_mem_digits
  have hzero (n : Nat) : ∀ d ∈ List.replicate n 0 ++ digits x.digits, d < 10 := by
    intro d hd
    rcases List.mem_append.mp hd with hd | hd
    · rw [List.eq_of_mem_replicate hd]
      decide
    · exact hds d hd
  obtain ⟨-, hnone⟩ | ⟨d, ds, hcons, hd⟩ := digits_eq_cons x.digits
  · omega
  rw [layOut]
  split
  · refine ⟨.inr ⟨d, ds ++ List.replicate x.exponent.toNat 0, by rw [hcons]; rfl, hd⟩, ?_, by simp,
      by simp⟩
    intro d hd
    exact hzero x.exponent.toNat d (by simpa [or_comm] using hd)
  split
  · rename_i hpoint
    refine ⟨.inr ?_, fun d hd => hds d (List.mem_of_mem_take hd),
      fun d hd => hds d (List.mem_of_mem_drop hd), by simp⟩
    obtain ⟨n, hn⟩ := Nat.exists_eq_add_of_le' (show 1 ≤ (x.exponent + (digits x.digits).length).toNat
      by omega)
    exact ⟨d, ds.take n, by rw [hn, hcons, List.take_succ_cons], hd⟩
  split
  · exact ⟨.inl rfl, by simp, hzero _, by simp⟩
  · refine ⟨.inr ⟨d, [], by rw [hcons]; rfl, hd⟩, fun d hd => hds d (List.mem_of_mem_take hd),
      fun d hd => hds d (List.mem_of_mem_drop hd), ?_⟩
    rintro e ⟨⟩
    refine ⟨?_, fun d hd => lt_of_mem_digits hd⟩
    obtain ⟨h, -⟩ | ⟨d, ds, h, -⟩ := digits_eq_cons (x.exponent + (digits x.digits).length - 1).natAbs
      <;> simp [h]

def isNegative : UnpackedFloat.Sign → Bool
  | .negative => true
  | .positive => false

theorem ofChars_signed (s : UnpackedFloat.Sign) (cs : List Char) :
    ofChars (signed s cs) = withSign (isNegative s) (ofChars cs) := by
  cases s <;> rfl

def numeral? (x : UnpackedFloat) : Option (Bool × Numeral) :=
  match x with
  | .notANumber | .infinity _ => none
  | .zero s => some (isNegative s, ⟨[0], [0], none⟩)
  | .finite s m e _ => some (isNegative s, layOut narrow (shortest .binary32 m e))

theorem proper_numeral {x : UnpackedFloat} {negative : Bool} {n : Numeral}
    (h : numeral? x = some (negative, n)) : n.Proper := by
  cases x with
  | notANumber | infinity s => cases h
  | zero s =>
    cases h
    exact ⟨.inl rfl, by simp, by simp, by simp⟩
  | finite s m e hm =>
    cases h
    exact proper_layOut narrow (pos_digits_shortest _ hm e)

theorem writeFloat32_of_none {x : Float32} (h : numeral? x.toModel.unpack = none) :
    writeFloat32 x = writeNull := by
  rw [writeFloat32, ofFloat32?]
  cases hx : x.toModel.unpack with
  | notANumber | infinity s => rfl
  | zero s | finite s m e hm =>
    rw [hx] at h
    cases h

theorem writeFloat32_of_some {x : Float32} {negative : Bool} {n : Numeral}
    (h : numeral? x.toModel.unpack = some (negative, n)) :
    writeFloat32 x = withSign negative n.write := by
  rw [writeFloat32, ofFloat32?]
  cases hx : x.toModel.unpack with
  | notANumber | infinity s =>
    rw [hx] at h
    cases h
  | zero s =>
    rw [hx] at h
    cases h
    cases s <;> rfl
  | finite s m e hm =>
    rw [hx] at h
    cases h
    exact (ofChars_signed s _).trans (congrArg _ (ofChars_render narrow _))

theorem written_single (x : Float32) : Written (Codable.write x) := by
  change Written (writeFloat32 x)
  match h : numeral? x.toModel.unpack with
  | none =>
    rw [writeFloat32_of_none h]
    exact .null
  | some (negative, n) =>
    rw [writeFloat32_of_some h]
    exact .number negative (proper_numeral h)

end PathPolicy.Json
