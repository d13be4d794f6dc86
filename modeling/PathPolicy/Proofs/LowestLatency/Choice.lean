import Mathlib.Data.List.MinMax
import PathPolicy.Policies.LowestLatency
import PathPolicy.Proofs.Vm.Numbers
import PathPolicy.Proofs.Vm.Tables

/-!
What the policy makes of a list of candidates: each of them has a price, and the first of least
price is selected if that is finite. The tables of candidates raise no error on the way.
-/
namespace PathPolicy.Policies.LowestLatency
open Vm

def Penalties.on (penalties : Penalties) (fp : Fingerprint) : Option Float :=
  penalties.find? (.text fp)

/-- The latency over all hops, added up as scripts add. -/
def hops (p : Path) : Value :=
  (p.metadata.elim [] Metadata.latency).foldl
    (fun sum d => addNumbers sum (ofUnsigned (Duration.nanos d))) (.integer 0)

def penaltyValue (penalty : Option Float) : Value := penalty.elim (.integer 0) .number

def price (penalties : Fingerprint → Option Float) (p : Path) : Value :=
  addNumbers (hops p) (penaltyValue (penalties p.fingerprint))

def cost (penalties : Fingerprint → Option Float) (p : Path) : Extended :=
  (price penalties p).exact

/-- The first of the candidates with the least cost, unless even that is infinite. -/
def preferred (cost : Path → Extended) (paths : List Path) : Option Path :=
  (paths.argmin cost).filter fun p => cost p < ⊤

/-! ### The price of a candidate -/

variable (path : String)

theorem entry_fingerprint (p : Path) (whose : String) :
    entry (ofScript p.toScript) "Fingerprint" whose = .ok (.text p.fingerprint) :=
  entry_ofFields (v := .text p.fingerprint) (by simp) (by simp) whose

theorem entry_metadata (p : Path) (whose : String) :
    entry (ofScript p.toScript) "Metadata" whose =
      .ok (ofScript (.ofOption Metadata.toScript p.metadata)) :=
  entry_ofFields (by simp) (by simp) whose

theorem entry_latency (m : Metadata) (whose : String) :
    entry (ofScript m.toScript) "Latency" whose =
      .ok (ofScript (.ofList (fun d => .ofUInt64 (Duration.nanos d)) m.latency)) :=
  entry_ofFields (by simp) (by simp) whose

theorem total_ofUInt64 (sum : Value) (latency : List Nat) :
    total path sum (latency.map fun d => ofScript (.ofUInt64 (Duration.nanos d))) =
      .ok (latency.foldl (fun sum d => addNumbers sum (ofUnsigned (Duration.nanos d))) sum) := by
  induction latency generalizing sum with
  | nil => rfl
  | cons d rest ih =>
    rw [List.map_cons, total, arithmetic?_ofUInt64]
    exact ih _

theorem visited_ofList {α : Type} {value : α → Script.Value} (h : ∀ x, (value x).isNil = false)
    (xs : List α) :
    visited (ofScript (.ofList value xs)) = .ok (xs.map fun x => ofScript (value x)) := by
  have hnil : ∀ v ∈ xs.map value, v.isNil = false := by
    intro v hv
    obtain ⟨x, -, rfl⟩ := List.mem_map.mp hv
    exact h x
  rw [Script.Value.ofList, ofScript, visited, sequenceOf_ofSequence hnil, List.map_map]
  rfl

theorem penalty_text (penalties : Penalties) (fp : Fingerprint) :
    penalty penalties (.text fp) = penaltyValue (penalties.on fp) := by
  rw [penalty, Subject.ofValue, Penalties.on]
  dsimp only
  cases penalties.find? (.text fp) <;> rfl

theorem latency_toScript (penalties : Penalties) (p : Path) :
    latency path penalties (ofScript p.toScript) = .ok (price penalties.on p) := by
  simp only [latency, entryAt, entry_metadata, entry_fingerprint, Except.mapError, bind,
    Except.bind, penalty_text, price, hops]
  cases p.metadata with
  | none => rfl
  | some m =>
    have hholds : (ofScript m.toScript).holds = true := rfl
    simp only [Script.Value.ofOption, hholds, if_true, entry_latency,
      visited_ofList fun d => Script.Value.isNil_ofUInt64 (Duration.nanos d), total_ofUInt64]
    rfl

/-! ### The scan -/

def held (penalties : Fingerprint → Option Float) : Option Path → Value × Value
  | none => (.nil, .number Maths.huge)
  | some p => (ofScript p.toScript, price penalties p)

def threshold (cost : Path → Extended) (best : Option Path) : Extended := best.elim ⊤ cost

def improve (cost : Path → Extended) (best : Option Path) (q : Path) : Option Path :=
  if cost q < threshold cost best then some q else best

theorem preferred_append_singleton (cost : Path → Extended) (paths : List Path) (q : Path) :
    preferred cost (paths ++ [q]) = improve cost (preferred cost paths) q := by
  rw [preferred, preferred, List.argmin_concat]
  cases paths.argmin cost with
  | none => by_cases hq : cost q < ⊤ <;> simp [improve, threshold, Option.filter, hq]
  | some p =>
    rcases lt_or_ge (cost p) ⊤ with hp | hp
    · by_cases hq : cost q < cost p
      · simp [improve, threshold, Option.filter, hp, hq, hq.trans hp]
      · simp [improve, threshold, Option.filter, hp, hq]
    · rw [top_le_iff] at hp
      by_cases hq : cost q < ⊤ <;> simp [improve, threshold, Option.filter, hp, hq]

theorem foldl_improve (cost : Path → Extended) (paths : List Path) :
    paths.foldl (improve cost) none = preferred cost paths := by
  induction paths using List.reverseRecOn with
  | nil => rfl
  | append_singleton paths q ih =>
    rw [List.foldl_append, ih, preferred_append_singleton]
    rfl

theorem lessNumbers_held {penalties : Fingerprint → Option Float} {best : Option Path}
    (h : ∀ p, best = some p → cost penalties p < ⊤) (v : Value) :
    lessNumbers v (held penalties best).2 ↔ v.exact < threshold (cost penalties) best := by
  cases best with
  | none =>
    rw [held, lessNumbers_iff comparable_huge, exact_huge]
    rfl
  | some p =>
    rw [held, lessNumbers_iff (Value.comparable_of_lt_top (h p rfl))]
    rfl

theorem cost_improve {cost : Path → Extended} {b : Option Path} {q : Path}
    (h : ∀ p, b = some p → cost p < ⊤) : ∀ p, improve cost b q = some p → cost p < ⊤ := by
  intro p hp
  rw [improve] at hp
  split at hp
  · rename_i hq
    cases hp
    exact hq.trans_le le_top
  · exact h p hp

theorem held_improve {penalties : Fingerprint → Option Float} {b : Option Path}
    (h : ∀ p, b = some p → cost penalties p < ⊤) (q : Path) :
    held penalties (improve (cost penalties) b q) =
      if lessNumbers (price penalties q) (held penalties b).2
      then (ofScript q.toScript, price penalties q) else held penalties b := by
  have hless := lessNumbers_held h (price penalties q)
  by_cases hq : cost penalties q < threshold (cost penalties) b
  · rw [improve, if_pos hq, if_pos (hless.mpr hq), held]
  · rw [improve, if_neg hq, if_neg (mt hless.mp hq)]

theorem best_toScript (penalties : Penalties) (paths : List Path) {b : Option Path}
    (h : ∀ p, b = some p → cost penalties.on p < ⊤) :
    best path penalties (held penalties.on b) (paths.map fun p => ofScript p.toScript) =
      .ok (held penalties.on (paths.foldl (improve (cost penalties.on)) b)).1 := by
  induction paths generalizing b with
  | nil => rfl
  | cons q rest ih =>
    have hbest := ih (cost_improve h (q := q))
    rw [held_improve h] at hbest
    have hsplit : held penalties.on b = ((held penalties.on b).1, (held penalties.on b).2) := rfl
    rw [List.map_cons, List.foldl_cons, ← hbest, hsplit, best, latency_toScript]
    simp only [bind, Except.bind]
    split <;> rfl

theorem key_text (l r : String) : key path (.text l) (.text r) = .ok (l ++ " " ++ r) := rfl

theorem select_of_entry {s : State} {l r : String} {e : Entry} {paths : List Path}
    (he : s.entries[l ++ " " ++ r]? = some e)
    (hpaths : e.paths = ofScript (Path.listToScript paths)) :
    select s (.text l) (.text r) =
      .ok ((preferred (cost s.penalties.on) paths).elim .nil fun p => .text p.fingerprint) := by
  have hbest := best_toScript s.path s.penalties paths (b := none) nofun
  rw [foldl_improve] at hbest
  have hvisited : visited e.paths = .ok (paths.map fun p => ofScript p.toScript) := by
    rw [hpaths]
    exact visited_ofList (fun _ => rfl) paths
  simp only [select, key_text, bind, Except.bind, he, hvisited]
  rw [held] at hbest
  rw [hbest]
  cases preferred (cost s.penalties.on) paths with
  | none => rfl
  | some p =>
    have hholds : (ofScript p.toScript).holds = true := rfl
    simp only [held, hholds, if_true, entryAt, entry_fingerprint]
    rfl

end PathPolicy.Policies.LowestLatency
