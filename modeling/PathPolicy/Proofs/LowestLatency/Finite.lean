import PathPolicy.Proofs.Arithmetic
import PathPolicy.Proofs.LowestLatency.Run

/-!
The costs are finite numbers as long as the time that goes by is not negative. However often a
path is reported down, its penalty stays below the power of two at which a further step would be
rounded away; and it is gone before it could turn into something that is no number.
-/
namespace PathPolicy.Policies.LowestLatency
open Vm Selector

/-! ### Penalties -/

/-- A penalty above zero, and not as high as a step could take it. -/
def Moderate (x : Float) : Prop :=
  ∃ q : ℚ, Double.exact x = Extended.ofRat q ∧ 0 < q ∧ q ≤ 2 ^ 120

theorem exact_penaltyStep : Double.exact penaltyStep = Extended.ofRat (10 ^ 9) := by
  have hunpack : penaltyStep.toModel.unpack =
      .finite .positive (10 ^ 9 * 2 ^ 23) (-23) (by decide) := by rfl
  rw [Double.exact, hunpack, Double.exactOf_positive]
  norm_num

theorem exact_decayPerSecond : Double.exact decayPerSecond = Extended.ofRat (1 / 2) := by
  have hunpack : decayPerSecond.toModel.unpack =
      .finite .positive (2 ^ 52) (-53) (by decide) := by rfl
  rw [Double.exact, hunpack, Double.exactOf_positive]
  norm_num

theorem moderate_step {x : Float} {p : ℚ} (hx : Double.exact x = Extended.ofRat p) (hp : 0 ≤ p)
    (hle : p ≤ 2 ^ 120) : Moderate (x + penaltyStep) := by
  have hsum : Double.Within 120 (Double.exact (x + penaltyStep)) := by
    apply Double.within_add (N := 120) (M := 30) ⟨p, hx, by rwa [abs_of_nonneg hp]⟩
      ⟨_, exact_penaltyStep, by norm_num⟩ (by decide)
    norm_num
  have hpos := Double.exact_add_pos hx hp exact_penaltyStep (by norm_num)
  obtain ⟨q, hq, hbound⟩ := hsum
  rw [hq, Extended.ofRat_lt_ofRat] at hpos
  exact ⟨q, hq, hpos, (le_abs_self q).trans hbound⟩

theorem moderate_decayed {x seconds left : Float} (hx : Moderate x) (hs : 0 ≤ seconds)
    (h : decayed (1 - decayPerSecond * seconds) x = some left) : Moderate left := by
  obtain ⟨p, hp, hpos, hle⟩ := hx
  have hlost := Double.nonneg_mul exact_decayPerSecond (by norm_num) (Double.nonneg_of_le hs)
  have hfactor := Double.exact_sub_le (N := 0) Double.exact_one (by norm_num) (by decide) hlost
  rw [pow_zero] at hfactor
  have hhigh := Double.exact_mul_le hp hpos hle (by decide) hfactor
  rw [decayed] at h
  split at h
  · cases h
  · rename_i hlow
    cases h
    have hone : (1 : Float).toModel.unpack ≠ .notANumber := by
      rw [Double.unpack_one]
      nofun
    rw [Double.lt_iff_exact_lt hone, Double.exact_one, not_lt] at hlow
    rcases Extended.eq_ofRat_of_lt_top (hhigh.trans_lt (Extended.ofRat_lt_top _)) with hbot | ⟨q, hq⟩
    · rw [hbot] at hlow
      exact absurd hlow (Extended.bot_lt_ofRat 1).not_ge
    · rw [hq, Extended.ofRat_le_ofRat] at hlow hhigh
      exact ⟨q, hq, by linarith, hhigh⟩

def Forward (events : List Event) : Prop := ∀ seconds, .elapsed seconds ∈ events → 0 ≤ seconds

theorem moderate_onPenalty {event : Event} {fp : Fingerprint} {penalty : Option Float}
    (hforward : ∀ seconds, event = .elapsed seconds → 0 ≤ seconds)
    (h : ∀ x, penalty = some x → Moderate x) :
    ∀ x, event.onPenalty fp penalty = some x → Moderate x := by
  intro x hx
  cases event with
  | request r =>
    rw [Event.onPenalty] at hx
    split at hx
    · split at hx
      · cases hx
        cases penalty with
        | none => exact moderate_step (p := 0) (by rfl) le_rfl (by norm_num)
        | some y =>
          obtain ⟨p, hp, hpos, hle⟩ := h y rfl
          exact moderate_step hp hpos.le hle
      · exact h x hx
    · exact h x hx
  | elapsed seconds =>
    obtain ⟨y, hy, hleft⟩ := Option.bind_eq_some_iff.mp hx
    exact moderate_decayed (h y hy) (hforward seconds rfl) hleft

theorem moderate_penalties {events : List Event} (hforward : Forward events) (fp : Fingerprint) :
    ∀ x, penalties events fp = some x → Moderate x := by
  induction events using List.reverseRecOn with
  | nil => nofun
  | append_singleton events event ih =>
    have hbefore := ih fun seconds h => hforward seconds (List.mem_append_left _ h)
    rw [penalties, List.foldl_append]
    apply moderate_onPenalty _ hbefore
    rintro seconds rfl
    exact hforward seconds (by simp)

/-! ### Prices -/

/-- A whole number, or one that is at most `2 ^ N` away from zero. -/
def Limited (N : Nat) : Value → Prop
  | .integer _ => True
  | .number x => Double.Within N (Double.exact x)
  | _ => False

theorem within_ofInt64 (n : Int64) {N : Nat} (h : 63 ≤ N) :
    Double.Within N (Double.exact (Double.ofInt n.toInt)) := by
  have hlow := n.le_toInt
  have hhigh := n.toInt_lt
  have hsize : |n.toInt| ≤ 2 ^ 63 := abs_le.mpr ⟨hlow, hhigh.le⟩
  exact (Double.within_ofInt hsize (by decide)).mono h

theorem limited_addNumbers {a b : Value} {M N K : Nat} (ha : Limited N a) (hb : Limited M b)
    (hN : 63 ≤ N) (hM : 63 ≤ M) (hK : K ≤ 1023)
    (h : (2 ^ N + 2 ^ M) * 2 ^ 53 < 2 ^ K * (2 ^ 53 + 1)) : Limited K (addNumbers a b) := by
  cases a with
  | integer m =>
    cases b with
    | integer n => trivial
    | number y => exact Double.within_add (within_ofInt64 m hN) hb hK h
    | _ => exact hb.elim
  | number x =>
    cases b with
    | integer n => exact Double.within_add ha (within_ofInt64 n hM) hK h
    | number y => exact Double.within_add ha hb hK h
    | _ => exact hb.elim
  | _ => exact ha.elim

theorem limited_ofUnsigned (n : UInt64) : Limited 64 (ofUnsigned n) := by
  rw [ofUnsigned]
  split
  · trivial
  · rename_i hlarge
    have hmax : Int64.maxValue.toInt = 2 ^ 63 - 1 := by rfl
    have hlt := n.toNat_lt
    exact Double.within_ofScientific (by omega) (by omega) (by decide)

theorem limited_foldl (latency : List Nat) : Limited 120
    (latency.foldl (fun sum d => addNumbers sum (ofUnsigned (Duration.nanos d))) (.integer 0)) := by
  induction latency using List.reverseRecOn with
  | nil => trivial
  | append_singleton latency d ih =>
    rw [List.foldl_append]
    exact limited_addNumbers ih (limited_ofUnsigned _) (by decide) (by decide) (by decide)
      (by norm_num)

theorem limited_hops (p : Path) : Limited 120 (hops p) :=
  limited_foldl (p.metadata.elim [] Metadata.latency)

theorem limited_price {events : List Event} (hforward : Forward events) (p : Path) :
    Limited 121 (price (penalties events) p) := by
  have hpenalty : Limited 120 (penaltyValue (penalties events p.fingerprint)) := by
    have hmoderate := moderate_penalties hforward p.fingerprint
    cases hx : penalties events p.fingerprint with
    | none => trivial
    | some x =>
      obtain ⟨q, hq, hpos, hle⟩ := hmoderate x hx
      exact ⟨q, hq, by rwa [abs_of_pos hpos]⟩
  exact limited_addNumbers (limited_hops p) hpenalty (by decide) (by decide) (by decide)
    (by norm_num)

theorem cost_lt_top {events : List Event} (hforward : Forward events) (p : Path) :
    cost (penalties events) p < ⊤ := by
  have hprice := limited_price hforward p
  rw [cost]
  cases hv : price (penalties events) p with
  | integer n => exact Extended.ofRat_lt_top _
  | number x =>
    rw [hv] at hprice
    obtain ⟨q, hq, -⟩ := hprice
    rw [Value.exact, hq]
    exact Extended.ofRat_lt_top q
  | _ =>
    rw [hv] at hprice
    exact hprice.elim

theorem exists_preferred {events : List Event} (hforward : Forward events) {paths : List Path}
    (hne : paths ≠ []) : ∃ p ∈ paths, preferred (cost (penalties events)) paths = some p := by
  obtain ⟨p, hp⟩ := Option.ne_none_iff_exists'.mp
    (mt List.argmin_eq_none.mp hne : paths.argmin (cost (penalties events)) ≠ none)
  refine ⟨p, List.argmin_mem hp, ?_⟩
  rw [preferred, hp]
  exact Option.filter_some_pos (by simpa using cost_lt_top hforward p)

end PathPolicy.Policies.LowestLatency
