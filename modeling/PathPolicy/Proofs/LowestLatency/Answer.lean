import PathPolicy.Proofs.LowestLatency.Finite
import PathPolicy.Proofs.Selector.Selection

/-!
What a question for the path is answered with while this policy is loaded. The daemon gives up a
path reported down until the next list, whereas the policy only lowers its opinion of it; so the
preferred candidate may be one that the daemon does not hand out any more.
-/
namespace PathPolicy.Policies.LowestLatency
open Vm Selector

variable {events : List Event} {p : Pair} {paths : List Path}

theorem outcome_path {m : Machine State} {s : State} (hm : m.state = some s) {e : Entry}
    (he : s.entries[p.key]? = some e) (hpaths : e.paths = ofScript (Path.listToScript paths)) :
    (Machine.call policy (p.call .path [] []) m).1 =
      .ok [(preferred (cost s.penalties.on) paths).elim .nil fun c => .text c.fingerprint] := by
  have hcall := (call_of_definition hm (c := p.call .path [] []) (f := selectPath) rfl).1
  have hargs : (p.call .path [] []).args.map ofScript =
      [.text p.localAddress, .text p.remoteAddress] := rfl
  have hselect : selectPath s [.text p.localAddress, .text p.remoteAddress] =
      .ok ([(preferred (cost s.penalties.on) paths).elim .nil fun c => .text c.fingerprint], s) := by
    rw [selectPath]
    simp only [argument, List.getD_cons_succ, List.getD_cons_zero]
    rw [select_of_entry he hpaths]
    rfl
  rw [hcall, hargs, hselect]
  cases preferred (cost s.penalties.on) paths <;> rfl

theorem answer_of_entry {path : String} {m : Machine State} {r : Request} {s : State} {e : Entry}
    (hr : Operation.ofRequest r = .ok (p, .path))
    (hs : (run path m events).script.state = some s) (he : s.entries[p.key]? = some e)
    (hpaths : e.paths = ofScript (Path.listToScript paths))
    (hopen : (history events).Opened p.key) :
    (run path m events).answer (Machine.call policy) r = .ok (some (selectionValue
      (((preferred (cost s.penalties.on) paths).map Path.fingerprint).filter fun fp =>
        ((history events).sessions.resolve p.key fp).isSome))) := by
  have hsessions : (run path m events).sessions = (history events).sessions :=
    Selector.State.run_sessions _ _ _
  rw [Selector.State.answer, serve_path hr, hsessions,
    if_pos (((history events).contains_sessions p.key).mpr hopen), Script.Plan.run]
  dsimp only
  rw [outcome_path hs he hpaths]
  cases preferred (cost s.penalties.on) paths <;> rfl

theorem answer_of_offers (path : String) (m : Machine State) {r : Request}
    (hr : Operation.ofRequest r = .ok (p, .path)) (hoffers : (history events).Offers p.key paths) :
    (run path m events).answer (Machine.call policy) r = .ok (some (selectionValue
      (((preferred (cost (penalties events)) paths).map Path.fingerprint).filter fun fp =>
        ((history events).sessions.resolve p.key fp).isSome))) := by
  obtain ⟨s, hs, hmirrors⟩ := mirrors_run path m events
  obtain ⟨e, he, hpaths⟩ := hmirrors.entries p.key paths hoffers
  have hpenalties : s.penalties.on = penalties events := funext hmirrors.penalties
  rw [answer_of_entry hr hs he hpaths hoffers.opened, hpenalties]

/-- With a live candidate a question for the path is never answered with an error. It is answered
with the fingerprint of the candidate that the policy prefers if that candidate is live, and with
no path if it is not. Unless time runs backwards, the policy does prefer one. -/
theorem answer_preferred_if_live (path : String) (m : Machine State) (events : List Event)
    (r : Request) (p : Pair) (hr : Operation.ofRequest r = .ok (p, .path))
    (hlive : ∃ fp, (history events).Live p.key fp) :
    ∃ paths answer, (history events).Offers p.key paths ∧
      (run path m events).answer (Machine.call policy) r = .ok (some (selectionValue answer)) ∧
      (∀ fp, answer = some fp ↔
        (∃ c, preferred (cost (penalties events)) paths = some c ∧ c.fingerprint = fp) ∧
          (history events).Live p.key fp) ∧
      (Forward events → ∃ c ∈ paths, preferred (cost (penalties events)) paths = some c) := by
  obtain ⟨fp, hfp⟩ := hlive
  obtain ⟨paths, hoffers, hmem⟩ := hfp.offers
  refine ⟨paths, _, hoffers, answer_of_offers path m hr hoffers, ?_, ?_⟩
  · intro fp
    rw [Option.filter_eq_some_iff, Option.map_eq_some_iff, History.isSome_resolve_sessions]
  · intro hforward
    apply exists_preferred hforward
    rintro rfl
    exact absurd hmem List.not_mem_nil

/-! ### A preference for a path that is down -/

def sampleMetadata (latency : Nat) : Metadata := ⟨1500, [], [latency], [], [], [], [], []⟩

def sampleNear : Path := ⟨"here", "there", some (sampleMetadata 10000000), "near", ⟨5⟩⟩
def sampleFar : Path := ⟨"here", "there", some (sampleMetadata 2000000000), "far", ⟨5⟩⟩

def sampleEvents : List Event := [
  .request (sampleRequest .initialise
    { Message.empty with paths := some [sampleNear.toWire, sampleFar.toWire] }),
  .request (sampleRequest .pathDown
    { Message.empty with fingerprint := some "near", interface := some ⟨"1-1", 2⟩ })]

set_option maxRecDepth 8192 in
theorem history_sampleEvents : history sampleEvents =
    [(⟨"a", "b"⟩, .initialise ∅ [sampleNear, sampleFar]),
      (⟨"a", "b"⟩, .pathDown "near" ⟨"1-1", 2⟩)] := by rfl

set_option maxRecDepth 8192 in
theorem penalties_sampleEvents :
    penalties sampleEvents "near" = some (0 + penaltyStep) ∧
      penalties sampleEvents "far" = none := by
  constructor <;> rfl

theorem preferred_sampleEvents :
    preferred (cost (penalties sampleEvents)) [sampleNear, sampleFar] = some sampleNear := by
  have hnear : price (penalties sampleEvents) sampleNear =
      addNumbers (.integer 10000000) (.number (0 + penaltyStep)) := by
    rw [price, sampleNear, penalties_sampleEvents.1]
    rfl
  have hfar : price (penalties sampleEvents) sampleFar = .integer 2000000000 := by
    rw [price, sampleFar, penalties_sampleEvents.2]
    rfl
  have hfinite : cost (penalties sampleEvents) sampleNear < ⊤ := by
    rw [cost, hnear, ← exact_huge, ← lessNumbers_iff comparable_huge]
    decide +kernel
  have hnumber : (Value.integer 2000000000).Comparable := trivial
  have hless : cost (penalties sampleEvents) sampleNear <
      cost (penalties sampleEvents) sampleFar := by
    rw [cost, cost, hnear, hfar, ← lessNumbers_iff hnumber]
    decide +kernel
  rw [← foldl_improve]
  simp [improve, threshold, hfinite, hless.not_gt]

theorem live_sampleEvents (fp : Fingerprint) :
    (history sampleEvents).Live (Pair.key ⟨"a", "b"⟩) fp ↔ fp = "far" := by
  have hsplit : history sampleEvents =
      ([] ++ [(⟨"a", "b"⟩, .initialise ∅ [sampleNear, sampleFar])]) ++
        [(⟨"a", "b"⟩, .pathDown "near" ⟨"1-1", 2⟩)] := history_sampleEvents
  have hlists : Operation.Lists fp (.initialise ∅ [sampleNear, sampleFar]) ↔
      fp = "near" ∨ fp = "far" := by
    simp [Operation.Lists, Operation.listed?, sampleNear, sampleFar, eq_comm]
  have hspares : Operation.Spares fp (.pathDown "near" ⟨"1-1", 2⟩) ↔ fp ≠ "near" := by
    simp [Operation.Spares, Operation.listed?, eq_comm]
  have hdown : ¬Operation.Lists fp (.pathDown "near" ⟨"1-1", 2⟩) := by
    simp [Operation.Lists, Operation.listed?]
  rw [hsplit, History.Live, Since.append_singleton, Since.append_singleton]
  simp only [hlists, hspares, hdown, true_and, forall_const, false_or, Since.not_nil, and_false,
    or_false]
  constructor
  · rintro ⟨hne, rfl | rfl⟩
    · exact absurd rfl hne
    · rfl
  · rintro rfl
    exact ⟨by decide, Or.inr rfl⟩

/-- The policy prefers a candidate that the daemon has given up, although there is a live one. -/
theorem no_path_despite_live_candidate :
    Operation.ofRequest (sampleRequest .path .empty) = .ok (⟨"a", "b"⟩, .path) ∧
      (history sampleEvents).Live (Pair.key ⟨"a", "b"⟩) "far" ∧
      (run "default.lua" .start sampleEvents).answer (Machine.call policy)
        (sampleRequest .path .empty) = .ok (some (selectionValue none)) := by
  have hr : Operation.ofRequest (sampleRequest .path .empty) = .ok (⟨"a", "b"⟩, .path) := by rfl
  have hoffers : (history sampleEvents).Offers (Pair.key ⟨"a", "b"⟩) [sampleNear, sampleFar] := by
    rw [history_sampleEvents]
    refine ⟨[], _, _, rfl, ⟨rfl, rfl⟩, ?_⟩
    simp [Operation.listed?]
  have hdown : ¬((history sampleEvents).sessions.resolve (Pair.key ⟨"a", "b"⟩) "near").isSome := by
    rw [History.isSome_resolve_sessions, live_sampleEvents]
    decide
  refine ⟨hr, (live_sampleEvents "far").mpr rfl, ?_⟩
  rw [answer_of_offers "default.lua" .start hr hoffers, preferred_sampleEvents, Option.map_some,
    sampleNear, Option.filter_some, if_neg hdown]

theorem answer_preferred_if_live_sample :
    Operation.ofRequest (sampleRequest .path .empty) = .ok (⟨"a", "b"⟩, .path) ∧
      (∃ fp, (history sampleEvents).Live (Pair.key ⟨"a", "b"⟩) fp) ∧ Forward sampleEvents ∧
      ∃ paths answer, (run "default.lua" .start sampleEvents).answer (Machine.call policy)
        (sampleRequest .path .empty) = .ok (some (selectionValue answer)) ∧
        answer ≠ some "near" ∧
        ∃ c ∈ paths, preferred (cost (penalties sampleEvents)) paths = some c := by
  have hr : Operation.ofRequest (sampleRequest .path .empty) = .ok (⟨"a", "b"⟩, .path) := by rfl
  have hlive : ∃ fp, (history sampleEvents).Live (Pair.key ⟨"a", "b"⟩) fp :=
    ⟨"far", (live_sampleEvents "far").mpr rfl⟩
  have hforward : Forward sampleEvents := by simp [Forward, sampleEvents]
  obtain ⟨paths, answer, -, hanswer, hexact, hpreferred⟩ :=
    answer_preferred_if_live "default.lua" .start sampleEvents _ _ hr hlive
  refine ⟨hr, hlive, hforward, paths, answer, hanswer, ?_, hpreferred hforward⟩
  intro hnear
  have hdown := (live_sampleEvents "near").mp ((hexact "near").mp hnear).2
  exact absurd hdown (by decide)

end PathPolicy.Policies.LowestLatency
