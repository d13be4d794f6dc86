import PathPolicy.Proofs.LowestLatency.Finite
import PathPolicy.Proofs.Sums
import PathPolicy.Proofs.Wire.Lossless

/-!
How the latency that a script adds up compares with the exact one. It is exact below the end of the
signed numbers. A single hop from there on makes it a floating-point number, which is rounded with
each further hop, but stays above that end.
-/
namespace PathPolicy.Policies.LowestLatency
open Vm

def latencies (p : Path) : List Nat := p.metadata.elim [] Metadata.latency

def exactTotal (p : Path) : Nat := (latencies p).sum

def scriptSum (ds : List Nat) : Value :=
  ds.foldl (fun sum d => addNumbers sum (ofUnsigned (Duration.nanos d))) (.integer 0)

theorem hops_eq_scriptSum (p : Path) : hops p = scriptSum (latencies p) := rfl

theorem scriptSum_append_singleton (ds : List Nat) (d : Nat) :
    scriptSum (ds ++ [d]) = addNumbers (scriptSum ds) (ofUnsigned (Duration.nanos d)) := by
  rw [scriptSum, List.foldl_append]
  rfl

/-- Whole numbers do not wrap around: those in front of the first one beyond the signed range stay
within it when they are added up. -/
def Unwrapped (ds : List Nat) : Prop := (ds.takeWhile (· < 2 ^ 63)).sum < 2 ^ 63

theorem Unwrapped.of_append {ds rest : List Nat} (h : Unwrapped (ds ++ rest)) : Unwrapped ds := by
  refine lt_of_le_of_lt ?_ h
  rw [List.takeWhile_append]
  split
  next hall =>
    rw [List.sum_append]
    have heq := List.IsPrefix.eq_of_length (List.takeWhile_prefix (· < 2 ^ 63) (l := ds)) hall
    rw [heq]
    exact Nat.le_add_right _ _
  next => exact le_rfl

theorem takeWhile_of_sum_lt {ds : List Nat} (h : ds.sum < 2 ^ 63) :
    ds.takeWhile (· < 2 ^ 63) = ds :=
  List.takeWhile_eq_self_iff.mpr fun _ hd => decide_eq_true ((List.le_sum_of_mem hd).trans_lt h)

/-! ### One hop -/

theorem ofUnsigned_nanos {d : Nat} (hd : d < 2 ^ 64) : ofUnsigned (Duration.nanos d) =
    if d < 2 ^ 63 then .integer (Int64.ofInt d) else .number (Float.ofScientific d false 0) := by
  have hmax : Int64.maxValue.toInt = 2 ^ 63 - 1 := by rfl
  have hheld : Duration.held d = d := Nat.min_eq_left (Nat.le_sub_one_of_lt hd)
  rw [ofUnsigned, Duration.toNat_nanos, hheld, hmax]
  by_cases h : d < 2 ^ 63
  · rw [if_pos h, if_pos (by omega)]
  · rw [if_neg h, if_neg (by omega)]

theorem addNumbers_number_ofUnsigned (x : Float) (n : UInt64) :
    addNumbers (.number x) (ofUnsigned n) = .number (x + floatOf (ofUnsigned n)) := by
  rw [ofUnsigned]
  split <;> rfl

theorem toInt_ofInt_of_lt {n : Nat} (h : n < 2 ^ 63) : (Int64.ofInt n).toInt = n :=
  Int64.toInt_ofInt_of_le (by omega) (by omega)

theorem rounds_hop {d : Nat} (hd : d < 2 ^ 64) :
    ∃ w, Double.exact (floatOf (ofUnsigned (Duration.nanos d))) = Extended.ofRat w ∧
      Double.Rounds d w := by
  have hsmall : d ≤ 2 ^ 200 :=
    hd.le.trans (Nat.pow_le_pow_right (by decide) (by decide))
  rw [ofUnsigned_nanos hd]
  split
  next h =>
    rw [floatOf, toInt_ofInt_of_lt h]
    exact Double.rounds_ofInt hsmall
  next h => exact Double.rounds_ofScientific (by omega) hsmall

/-! ### The sum -/

/-- What a script's sum of latencies is: the exact one while that is in the signed range, and a
floating-point number near it from there on. -/
inductive Sums (ds : List Nat) : Value → Prop
  | whole (hsum : ds.sum < 2 ^ 63) : Sums ds (.integer (Int64.ofInt ds.sum))
  | rounded {x : Float} {t : ℚ} (hx : Double.exact x = Extended.ofRat t)
    (hsum : 2 ^ 63 ≤ ds.sum) (hbeyond : 2 ^ 63 ≤ t)
    (hdrift : Double.Drifts (ds.length + 1) ds.sum t) : Sums ds (.number x)

theorem sums_of_float {ds : List Nat} {d : Nat} {x y : Float} {t w : ℚ}
    (hx : Double.exact x = Extended.ofRat t) (ht : 0 ≤ t) (hlarge : t ≤ 2 ^ 120)
    (hdrift : Double.Drifts (ds.length + 1) ds.sum t)
    (hy : Double.exact y = Extended.ofRat w) (hround : Double.Rounds d w) (hd : d < 2 ^ 64)
    (hsum : 2 ^ 63 ≤ ds.sum + d) (hbeyond : 2 ^ 63 ≤ t + w) :
    Sums (ds ++ [d]) (.number (x + y)) := by
  have hd0 : (0 : ℚ) ≤ d := Nat.cast_nonneg d
  have hw : 0 ≤ w := hround.nonneg hd0
  have hhop : Double.Drifts 1 d w := (Double.Drifts.refl (d : ℚ)).round hd0 hround
  have hsmall : t + w ≤ 2 ^ 200 := by
    have hd' : (d : ℚ) ≤ 2 ^ 64 := by exact_mod_cast hd.le
    have hupper := hhop.upper
    rw [pow_one] at hupper
    linarith
  obtain ⟨v, hv, hrounds⟩ := Double.rounds_add hx ht hy hw
    (Double.normal_of_one_le (le_trans (by norm_num) hbeyond) hsmall)
  have htogether := hdrift.add (hhop.mono hd0 (Nat.le_add_left 1 ds.length))
  have hafter := htogether.round (add_nonneg ht hw) hrounds
  refine .rounded hv ?_ (hrounds.pow_le hbeyond) ?_
  · rwa [List.sum_append, List.sum_singleton]
  · rw [List.sum_append, List.sum_singleton, Nat.cast_add, List.length_append, List.length_singleton]
    exact hafter

theorem sums_of_whole {ds : List Nat} {d : Nat} (hsum : ds.sum < 2 ^ 63) (hd : d < 2 ^ 63)
    (hunwrapped : Unwrapped (ds ++ [d])) :
    Sums (ds ++ [d]) (addNumbers (.integer (Int64.ofInt ds.sum)) (.integer (Int64.ofInt d))) := by
  have htotal : (ds ++ [d]).sum < 2 ^ 63 := by
    have hall : (ds ++ [d]).takeWhile (· < 2 ^ 63) = ds ++ [d] := by
      rw [List.takeWhile_append, takeWhile_of_sum_lt hsum, if_pos rfl]
      simpa using hd
    rwa [Unwrapped, hall] at hunwrapped
  have hadd : addNumbers (.integer (Int64.ofInt ds.sum)) (.integer (Int64.ofInt d)) =
      .integer (Int64.ofInt (ds ++ [d]).sum) := by
    rw [addNumbers, ← Int64.ofInt_add, List.sum_append, List.sum_singleton, Nat.cast_add]
  rw [hadd]
  exact .whole htotal

theorem sums_of_first_beyond {ds : List Nat} {d : Nat} (hsum : ds.sum < 2 ^ 63)
    (hlow : 2 ^ 63 ≤ d) (hd : d < 2 ^ 64) : Sums (ds ++ [d])
      (addNumbers (.integer (Int64.ofInt ds.sum)) (.number (Float.ofScientific d false 0))) := by
  obtain ⟨t, ht, hprefix⟩ := Double.rounds_ofInt (n := ds.sum) (by omega)
  obtain ⟨w, hw, hround⟩ := Double.rounds_ofScientific (n := d) (by omega) (by omega)
  have ht0 : 0 ≤ t := hprefix.nonneg (Nat.cast_nonneg _)
  have hdrift := (Double.Drifts.refl (ds.sum : ℚ)).round (Nat.cast_nonneg _) hprefix
  have hlarge : t ≤ 2 ^ 120 := by
    have hsum' : (ds.sum : ℚ) ≤ 2 ^ 63 := by exact_mod_cast hsum.le
    have hupper := hdrift.upper
    norm_num at hupper hsum' ⊢
    linarith
  have hbeyond : (2 : ℚ) ^ 63 ≤ t + w := by
    have := hround.pow_le (k := 63) (by exact_mod_cast hlow)
    linarith
  rw [addNumbers, toInt_ofInt_of_lt hsum]
  exact sums_of_float ht ht0 hlarge (hdrift.mono (Nat.cast_nonneg _) (by omega)) hw hround hd
    (by omega) hbeyond

theorem sums_append_singleton {ds : List Nat} {d : Nat} {v : Value} (h : Sums ds v)
    (hd : d < 2 ^ 64) (hlimited : Limited 120 v) (hunwrapped : Unwrapped (ds ++ [d])) :
    Sums (ds ++ [d]) (addNumbers v (ofUnsigned (Duration.nanos d))) := by
  cases h with
  | whole hsum =>
    rw [ofUnsigned_nanos hd]
    split
    next hsigned => exact sums_of_whole hsum hsigned hunwrapped
    next hsigned => exact sums_of_first_beyond hsum (Nat.le_of_not_lt hsigned) hd
  | @rounded x t hx hsum hbeyond hdrift =>
    obtain ⟨w, hw, hround⟩ := rounds_hop hd
    have hw0 : 0 ≤ w := hround.nonneg (Nat.cast_nonneg d)
    have ht0 : 0 ≤ t := le_trans (by positivity) hbeyond
    have hlarge : t ≤ 2 ^ 120 := by
      obtain ⟨q, hq, hle⟩ := hlimited
      obtain rfl := Extended.ofRat_inj.mp (hx.symm.trans hq)
      exact (le_abs_self t).trans hle
    rw [addNumbers_number_ofUnsigned]
    exact sums_of_float hx ht0 hlarge hdrift hw hround hd (by omega) (by linarith)

theorem sums_scriptSum {ds : List Nat} (hds : ∀ d ∈ ds, d < 2 ^ 64) (h : Unwrapped ds) :
    Sums ds (scriptSum ds) := by
  induction ds using List.reverseRecOn with
  | nil => exact .whole (by decide)
  | append_singleton ds d ih =>
    have hbefore := ih (fun d hd => hds d (List.mem_append_left _ hd)) h.of_append
    rw [scriptSum_append_singleton]
    exact sums_append_singleton hbefore (hds d (by simp)) (limited_foldl ds) h

structure Approximates (p : Path) (t : ℚ) : Prop where
  exact : exactTotal p < 2 ^ 63 → t = exactTotal p
  beyond : 2 ^ 63 ≤ exactTotal p → 2 ^ 63 ≤ t
  drift : Double.Drifts ((latencies p).length + 1) (exactTotal p) t

theorem approximates_hops {p : Path} (hp : p.InRange) (h : Unwrapped (latencies p)) :
    ∃ t, (hops p).exact = Extended.ofRat t ∧ Approximates p t := by
  have hds : ∀ d ∈ latencies p, d < 2 ^ 64 := by
    intro d hd
    rw [latencies] at hd
    cases hm : p.metadata with
    | none =>
      rw [hm] at hd
      cases hd
    | some m =>
      rw [hm] at hd
      exact Nat.lt_of_le_sub_one (by decide) (hp.latency_le m hm d hd)
  have hsums := sums_scriptSum hds h
  rw [hops_eq_scriptSum]
  generalize scriptSum (latencies p) = v at hsums
  cases hsums with
  | whole hsum =>
    refine ⟨exactTotal p, ?_, fun _ => rfl, fun hlarge => absurd hsum (Nat.not_lt.mpr hlarge),
      (Double.Drifts.refl _).mono (Nat.cast_nonneg _) (Nat.zero_le _)⟩
    rw [Value.exact, toInt_ofInt_of_lt hsum]
    rfl
  | rounded hx hsum hbeyond hdrift =>
    exact ⟨_, hx, fun hsmall => absurd hsmall (Nat.not_lt.mpr hsum), fun _ => hbeyond, hdrift⟩

/-! ### The least of the sums -/

theorem cost_of_no_penalty (p : Path) : cost (fun _ => none) p = (hops p).exact := by
  have hlimited := limited_hops p
  rw [cost, price]
  cases hv : hops p with
  | integer n =>
    rw [penaltyValue, Option.elim, addNumbers, Int64.add_zero]
  | number x =>
    rw [hv] at hlimited
    obtain ⟨q, hq, -⟩ := hlimited
    have hzero : Double.exact (Double.ofInt (0 : Int64).toInt) = Extended.ofRat 0 := by rfl
    rw [penaltyValue, Option.elim, addNumbers, Value.exact, Value.exact,
      Double.exact_add_zero hq hzero, hq]
  | _ =>
    rw [hv] at hlimited
    exact hlimited.elim

theorem preferred_of_no_penalty (paths : List Path) :
    preferred (cost fun _ => none) paths = paths.argmin fun p => (hops p).exact := by
  have hcost : cost (fun _ => none) = fun p => (hops p).exact := funext cost_of_no_penalty
  have hfinite (p : Path) : (hops p).exact < ⊤ := by
    rw [← cost_of_no_penalty]
    exact @cost_lt_top [] nofun p
  rw [preferred, hcost]
  cases paths.argmin fun p => (hops p).exact <;> simp [hfinite]

theorem argmin_of_agrees {α β γ : Type} [DecidableEq α] [LinearOrder β] [LinearOrder γ]
    {f : α → β} {g : α → γ} {xs : List α} {x : α} (hx : xs.argmin f = some x)
    (hle : ∀ y ∈ xs, g x ≤ g y) (htie : ∀ y ∈ xs, g y ≤ g x → f y ≤ f x) :
    xs.argmin g = some x := by
  obtain ⟨hmem, -, hfirst⟩ := List.argmin_eq_some_iff.mp hx
  exact List.argmin_eq_some_iff.mpr ⟨hmem, hle, fun y hy h => hfirst y hy (htie y hy h)⟩

theorem argmin_hops {paths : List Path}
    (h : ∀ p ∈ paths, ∃ t, (hops p).exact = Extended.ofRat t ∧ Approximates p t)
    (hlow : ∃ p ∈ paths, exactTotal p < 2 ^ 63) :
    (paths.argmin fun p => (hops p).exact) = paths.argmin exactTotal := by
  obtain ⟨low, hlow, hsmall⟩ := hlow
  have hne : paths.argmin exactTotal ≠ none := by
    rw [Ne, List.argmin_eq_none]
    exact List.ne_nil_of_mem hlow
  obtain ⟨p, hp⟩ := Option.ne_none_iff_exists'.mp hne
  have hleast : ∀ q ∈ paths, exactTotal p ≤ exactTotal q := fun q hq =>
    List.le_of_mem_argmin hq hp
  have hsmall' : exactTotal p < 2 ^ 63 := (hleast low hlow).trans_lt hsmall
  obtain ⟨t, ht, hexact⟩ := h p (List.argmin_mem hp)
  obtain rfl := hexact.exact hsmall'
  have hbelow : (exactTotal p : ℚ) < 2 ^ 63 := by exact_mod_cast hsmall'
  rw [hp]
  -- a sum beyond the signed range is rounded, but not back into it, where the least one lies
  refine argmin_of_agrees hp (fun q hq => ?_) fun q hq hle => ?_
  · obtain ⟨u, hu, happrox⟩ := h q hq
    rw [ht, hu, Extended.ofRat_le_ofRat]
    rcases Nat.lt_or_ge (exactTotal q) (2 ^ 63) with hin | hout
    · rw [happrox.exact hin]
      exact_mod_cast hleast q hq
    · exact hbelow.le.trans (happrox.beyond hout)
  · obtain ⟨u, hu, happrox⟩ := h q hq
    rw [ht, hu, Extended.ofRat_le_ofRat] at hle
    rcases Nat.lt_or_ge (exactTotal q) (2 ^ 63) with hin | hout
    · rw [happrox.exact hin] at hle
      exact_mod_cast hle
    · exact absurd (happrox.beyond hout) (not_le.mpr (hle.trans_lt hbelow))

end PathPolicy.Policies.LowestLatency
