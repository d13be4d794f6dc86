import PathPolicy.Daemon
import Mathlib.Tactic.Basic

/-!
A refused request touches nothing. Whatever is wrong with it, from its envelope to the registry's
answer, is found before a table changes and before the script is called; once the script is
called, only the script's own faults can follow.
-/
namespace PathPolicy.Script

/-- The faults that are the script's own: it raised an error, or it could not be run. -/
def Outcome.Own (outcome : Outcome) : Prop :=
  ∀ e, outcome = .error e → e.code = .policy ∨ e.code = .internal

/-- The caller is told that the request is at fault. -/
def Refused {α : Type} (result : Except Fault α) : Prop :=
  ∃ e, result = .error e ∧ e.isProtocol

theorem Outcome.Own.not_refused {outcome : Outcome} (h : outcome.Own) : ¬Refused outcome := by
  rintro ⟨e, he, hprotocol⟩
  rcases h e he with hcode | hcode <;> simp [Fault.isProtocol, hcode] at hprotocol

theorem refused_map {α β : Type} (f : α → β) (result : Except Fault α) :
    Refused (result.map f) ↔ Refused result := by
  cases result <;> simp [Refused, Except.map]

/-- A script that also notes its calls, the latest one last. -/
def noted {μ : Type} (script : Call → μ → Outcome × μ) (c : Call) (m : μ × List Call) :
    Outcome × μ × List Call :=
  let (outcome, next) := script c m.1
  (outcome, next, m.2 ++ [c])

namespace Plan
variable {σ τ ρ ρ' : Type}

/-- A result of the kind comes only without a call, and with the tables as they were given. -/
def Untouched (t : σ) (kind : ρ → Prop) : Plan σ ρ → Prop
  | answer tables result => kind result → tables = t
  | consult _ _ finish => ∀ outcome : Outcome, outcome.Own → ¬kind (finish outcome)

theorem Untouched.map {t : σ} {kind : ρ → Prop} {kind' : ρ' → Prop} {p : Plan σ ρ} {f : ρ → ρ'}
    (h : p.Untouched t kind) (hf : ∀ result, kind' (f result) → kind result) :
    (p.map f).Untouched t kind' := by
  cases p with
  | answer tables result => exact fun hkind => h (hf result hkind)
  | consult tables call finish =>
    exact fun outcome hown hkind => h outcome hown (hf (finish outcome) hkind)

theorem Untouched.within {t : σ} {kind : ρ → Prop} {p : Plan σ ρ} (h : p.Untouched t kind)
    (place : σ → τ) : (p.within place).Untouched (place t) kind := by
  cases p with
  | answer tables result => exact fun hkind => congrArg place (h hkind)
  | consult tables call finish => exact h

theorem untouched_notify {α : Type} (t tables : σ) (call : Call) (done : α) :
    (notify tables call done).Untouched t Refused := by
  intro outcome hown hrefused
  exact hown.not_refused ((refused_map _ outcome).mp hrefused)

theorem run_noted {μ : Type} (script : Call → μ → Outcome × μ) (m : μ) (calls : List Call)
    (p : Plan σ ρ) :
    p.run (noted script) (m, calls) =
      let (result, tables, next) := p.run script m
      (result, tables, next, calls ++ p.call?.toList) := by
  cases p with
  | answer tables result => simp [run, call?]
  | consult tables call finish => rfl

end Plan
end PathPolicy.Script

namespace PathPolicy.Selector
open Script

theorem namedFingerprint_not_refused (results : List Value) :
    ¬Refused (namedFingerprint results) := by
  rintro ⟨e, he, hprotocol⟩
  unfold namedFingerprint at he
  split at he
  case h_1 | h_2 | h_3 => cases he
  case h_4 =>
    split at he <;> cases he
    cases hprotocol
  case h_5 =>
    cases he
    cases hprotocol

theorem selection_not_refused (t : SessionTable) (key : String) {outcome : Outcome}
    (hown : outcome.Own) : ¬Refused (outcome.bind (selection t key)) := by
  cases outcome with
  | error e =>
    rintro ⟨e', he, hprotocol⟩
    cases he
    exact hown.not_refused ⟨e, rfl, hprotocol⟩
  | ok results =>
    rintro ⟨e, he, hprotocol⟩
    apply namedFingerprint_not_refused results
    cases h : namedFingerprint results with
    | ok named =>
      rw [Except.bind, selection, h] at he
      cases he
    | error e' =>
      rw [Except.bind, selection, h] at he
      cases he
      exact ⟨e, rfl, hprotocol⟩

theorem Operation.plan_untouched (p : Pair) (t : SessionTable) (operation : Operation) :
    (operation.plan p t).Untouched t Refused := by
  cases operation with
  | initialise _ _ | setPreferences _ | pathDown _ _ | refresh _ =>
    exact Plan.untouched_notify t _ _ _
  | path =>
    rw [plan]
    split
    · exact fun outcome hown => selection_not_refused t p.key hown
    · exact fun _ => rfl
  | close =>
    rw [plan]
    split
    · exact Plan.untouched_notify t _ _ _
    · exact fun _ => rfl

theorem serve_untouched (t : SessionTable) (r : Request) : (serve t r).Untouched t Refused := by
  rw [serve]
  split
  · exact fun _ => rfl
  · exact (Operation.plan_untouched _ t _).map fun result => (refused_map _ result).mp

end PathPolicy.Selector

namespace PathPolicy.Tracer
open Script

theorem Operation.plan_untouched (r : Registry) (operation : Operation) :
    (operation.plan r).Untouched r Refused := by
  cases operation with
  | register id perspective firstDestinationId => exact Plan.untouched_notify r _ _ _
  | event id localAddress remoteAddress e =>
    rw [plan]
    split
    · split
      · exact fun _ => rfl
      · exact fun ⟨_, he, _⟩ => nomatch he
      · exact Plan.untouched_notify r _ _ _
    · split
      · exact fun _ => rfl
      · exact Plan.untouched_notify r _ _ _

theorem serve_untouched (registry : Registry) (r : Request) :
    (serve registry r).Untouched registry Refused := by
  rw [serve]
  split
  · exact fun _ => rfl
  · exact (Operation.plan_untouched registry _).map fun result => (refused_map _ result).mp

end PathPolicy.Tracer

namespace PathPolicy.Daemon
open Script

theorem isProtocol_ofWire (e : Fault) : (Fault.ofWire e.code.name e.detail).isProtocol = e.isProtocol := by
  rw [Fault.ofWire, FaultCode.ofName_name]
  cases e <;> rfl

theorem refused_ofResult (id : UInt64) (result : Except Fault (Option Json.Value)) :
    Refused (Response.ofResult id result).result ↔ Refused result := by
  cases result with
  | ok data => simp [Response.ofResult, Response.success, Response.result, Refused]
  | error e =>
    simp [Response.ofResult, Response.failure, Response.result, Refused, isProtocol_ofWire]

theorem dispatch_untouched (t : Tables) (r : Request) : (dispatch t r).Untouched t Refused := by
  rw [dispatch]
  split
  · exact (Selector.serve_untouched t.sessions r).within fun sessions => { t with sessions }
  · split
    · exact (Tracer.serve_untouched t.tracers r).within fun tracers => { t with tracers }
    · exact fun _ => rfl

theorem respond_untouched (t : Tables) (body : Bytes) :
    (respond t body).Untouched t fun response => Refused response.result := by
  rw [respond]
  split
  · exact fun _ => rfl
  · exact (dispatch_untouched t _).map fun result => (refused_ofResult _ result).mp

variable {μ : Type}

/-- Whatever body arrives in whatever state, the script is called at most once, since no plan has room
for a second call. What depends on the handlers is the rest: if the answer is that the request is at
fault, then the script was not called at all, and both tables are what they were. The script may do
anything, only that its faults are its own. -/
theorem refused_request_touches_nothing (script : Call → μ → Outcome × μ)
    (hscript : ∀ c m, (script c m).1.Own) (t : Tables) (m : μ) (body : Bytes) :
    let (response, tables, next, calls) := (respond t body).run (noted script) (m, [])
    (respond t body).run script m = (response, tables, next) ∧
    calls.length ≤ 1 ∧
    ∀ e, response.result = .error e → e.isProtocol → calls = [] ∧ tables = t ∧ next = m := by
  have huntouched := respond_untouched t body
  rw [Plan.run_noted]
  refine ⟨rfl, ?_, ?_⟩
  · cases (respond t body).call? <;> simp
  · intro e he hprotocol
    cases h : respond t body with
    | answer tables response =>
      rw [h] at he huntouched
      exact ⟨rfl, huntouched ⟨e, he, hprotocol⟩, rfl⟩
    | consult tables call finish =>
      rw [h] at he huntouched
      exact absurd ⟨e, he, hprotocol⟩ (huntouched _ (hscript call m))

def failingScript (_ : Call) (m : Nat) : Outcome × Nat := (.error (.policy "raised"), m + 1)

set_option maxRecDepth 4096 in
/-- A request without an address, in a daemon with a session and a tracer in use. -/
theorem refused_request_touches_nothing_sample :
    let t : Tables := ⟨(∅ : Selector.SessionTable).insert "a b" .empty,
      (Tracer.Registry.empty 1).create 7 .client "00"⟩
    let body := Json.encode (Request.make 3 Selector.service Selector.Method.close.name
      { Selector.Message.empty with localAddress := some "a" })
    (∀ c m, (failingScript c m).1.Own) ∧
    ((respond t body).run failingScript 0).1.result = .error (.missingField "remote") ∧
    ((respond t body).run failingScript 0).2 = (t, 0) := by
  intro t body
  have hown : ∀ c m, (failingScript c m).1.Own := by
    rintro c m e he
    cases he
    exact .inl rfl
  have hrefused : ((respond t body).run failingScript 0).1.result
      = .error (.missingField "remote") := by rfl
  obtain ⟨hrun, -, htouch⟩ := refused_request_touches_nothing failingScript hown t 0 body
  rw [hrun] at hrefused ⊢
  obtain ⟨-, htables, hnext⟩ := htouch _ hrefused rfl
  exact ⟨hown, hrefused, Prod.ext htables hnext⟩

end PathPolicy.Daemon
