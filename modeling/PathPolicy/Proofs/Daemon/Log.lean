import Mathlib.Data.List.Induction
import PathPolicy.Proofs.Daemon.Isolation
import PathPolicy.Proofs.Daemon.Refusal

/-!
The calls of a run, in their order. Which call an event makes and what it does to the tables is
settled before the script has its say: it follows from the operation that a service accepts, if
there is one.
-/
namespace PathPolicy.Daemon
open Script
variable {μ : Type}

/-! ### Operations -/

inductive Operation
  | session (p : Selector.Pair) (o : Selector.Operation)
  | tracer (o : Tracer.Operation)

namespace Operation

/-- The operation that is accepted, if there is one. -/
def ofBody (body : Bytes) : Option Operation :=
  match Request.parse body with
  | .error _ => none
  | .ok r =>
    if r.service = Selector.service then
      match Selector.Operation.ofRequest r with
      | .ok (p, o) => some (session p o)
      | .error _ => none
    else if r.service = Tracer.service then
      match Tracer.Operation.ofRequest r with
      | .ok o => some (tracer o)
      | .error _ => none
    else none

def tables (t : Tables) : Operation → Tables
  | session p o => { t with sessions := (o.plan p t.sessions).tables }
  | tracer o => { t with tracers := (o.plan t.tracers).tables }

def call? (t : Tables) : Operation → Option Call
  | session p o => (o.plan p t.sessions).call?
  | tracer o => (o.plan t.tracers).call?

theorem ofBody_eq_session_iff {body : Bytes} {p : Selector.Pair} {o : Selector.Operation} :
    ofBody body = some (session p o) ↔ ∃ r, Request.parse body = .ok r ∧
      r.service = Selector.service ∧ Selector.Operation.ofRequest r = .ok (p, o) := by
  rw [ofBody]
  cases Request.parse body with
  | error e => simp
  | ok r =>
    simp only [Except.ok.injEq, exists_eq_left']
    split
    next h =>
      cases Selector.Operation.ofRequest r <;> simp [h, Prod.ext_iff]
    next h =>
      simp only [h, false_and, iff_false]
      split
      · cases Tracer.Operation.ofRequest r <;> simp
      · simp

theorem ofBody_eq_tracer_iff {body : Bytes} {o : Tracer.Operation} :
    ofBody body = some (tracer o) ↔ ∃ r, Request.parse body = .ok r ∧
      r.service = Tracer.service ∧ Tracer.Operation.ofRequest r = .ok o := by
  have hne : Selector.service ≠ Tracer.service := by decide
  rw [ofBody]
  cases Request.parse body with
  | error e => simp
  | ok r =>
    simp only [Except.ok.injEq, exists_eq_left']
    split
    next h =>
      cases Selector.Operation.ofRequest r <;> simp [h, hne]
    next h =>
      split
      next h => cases Tracer.Operation.ofRequest r <;> simp [h]
      next h => simp [h]

end Operation

theorem respond_of_none {body : Bytes} (h : Operation.ofBody body = none) (t : Tables) :
    ∃ response, respond t body = .answer t response := by
  rw [Operation.ofBody] at h
  rw [respond]
  cases hparse : Request.parse body with
  | error e => exact ⟨_, rfl⟩
  | ok r =>
    rw [hparse] at h
    dsimp only at h ⊢
    rw [dispatch]
    split at h
    next hselector =>
      rw [if_pos hselector, Selector.serve]
      split at h
      · cases h
      next e hrequest =>
        rw [hrequest]
        exact ⟨_, rfl⟩
    next hselector =>
      rw [if_neg hselector]
      split at h
      next htracer =>
        rw [if_pos htracer, Tracer.serve]
        split at h
        · cases h
        next e hrequest =>
          rw [hrequest]
          exact ⟨_, rfl⟩
      next htracer =>
        rw [if_neg htracer]
        exact ⟨_, rfl⟩

theorem respond_of_tracer {body : Bytes} {r : Request} (hparse : Request.parse body = .ok r)
    (hservice : r.service = Tracer.service) {o : Tracer.Operation}
    (hrequest : Tracer.Operation.ofRequest r = .ok o) (t : Tables) :
    respond t body = (((o.plan t.tracers).map (Except.map fun _ => none)).within
      fun tracers => { t with tracers }).map (Response.ofResult r.id) := by
  have hne : Tracer.service ≠ Selector.service := by decide
  rw [respond, hparse]
  simp only [dispatch, hservice, if_neg hne, if_pos, Tracer.serve, hrequest]

theorem respond_of_operation {body : Bytes} {o : Operation} (h : Operation.ofBody body = some o)
    (t : Tables) : (respond t body).tables = o.tables t ∧ (respond t body).call? = o.call? t := by
  cases o with
  | session p o =>
    obtain ⟨r, hparse, hservice, hrequest⟩ := Operation.ofBody_eq_session_iff.mp h
    simp [respond, hparse, dispatch, hservice, Selector.serve, hrequest, Operation.tables,
      Operation.call?]
  | tracer o =>
    obtain ⟨r, hparse, hservice, hrequest⟩ := Operation.ofBody_eq_tracer_iff.mp h
    simp [respond_of_tracer hparse hservice hrequest, Operation.tables, Operation.call?]

/-! ### Events -/

namespace Event

def operation? : Event → Option Operation
  | .arrival body => Operation.ofBody body
  | .ownCall _ => none

def call? (t : Tables) : Event → Option Call
  | .arrival body => (respond t body).call?
  | .ownCall c => some c

/-- On its own account the daemon calls the script only to say how much time went by. -/
def Timely : Event → Prop
  | .arrival _ => True
  | .ownCall c => ∃ elapsed, c = Selector.periodicCall elapsed

theorem call?_of_operation {e : Event} {o : Operation} (h : e.operation? = some o) (t : Tables) :
    e.call? t = o.call? t := by
  cases e with
  | arrival body => exact (respond_of_operation h t).2
  | ownCall c => cases h

theorem call?_of_none {e : Event} (h : e.operation? = none) (he : e.Timely) (t : Tables) :
    e.call? t = none ∨ ∃ elapsed, e.call? t = some (Selector.periodicCall elapsed) := by
  cases e with
  | arrival body =>
    obtain ⟨response, hrespond⟩ := respond_of_none h t
    exact .inl (by rw [call?, hrespond]; rfl)
  | ownCall c =>
    obtain ⟨elapsed, rfl⟩ := he
    exact .inr ⟨elapsed, rfl⟩

end Event

theorem tables_step (script : Call → μ → Outcome × μ) (d : State μ) (e : Event) :
    (d.step script e).state.tables
      = e.operation?.elim d.tables (Operation.tables d.tables) := by
  cases e with
  | ownCall c => rfl
  | arrival body =>
    simp only [State.step, Plan.tables_run, Event.operation?]
    cases h : Operation.ofBody body with
    | none =>
      obtain ⟨response, hrespond⟩ := respond_of_none h d.tables
      rw [hrespond]
      rfl
    | some o => exact (respond_of_operation h d.tables).1

/-! ### Runs -/

def State.noting (d : State μ) : State (μ × List Call) := ⟨d.tables, d.script, []⟩

def State.calls (d : State (μ × List Call)) : List Call := d.script.2

theorem calls_step_noted (script : Call → μ → Outcome × μ) (d : State (μ × List Call))
    (e : Event) :
    (d.step (noted script) e).state.calls = d.calls ++ (e.call? d.tables).toList := by
  obtain ⟨tables, m, calls⟩ := d
  cases e with
  | arrival body => simp only [State.step, State.calls, Plan.run_noted, Event.call?]
  | ownCall c => rfl

theorem State.run_append_singleton (script : Call → μ → Outcome × μ) (d : State μ)
    (events : List Event) (e : Event) :
    d.run script (events ++ [e]) = ((d.run script events).step script e).state := by
  simp [State.run]

/-- What the operations of both services and the calls about time keep, of the tables and the calls
that were made so far, holds after every run. -/
theorem State.noted_invariant (invariant : Tables → List Call → Prop)
    (hoperation : ∀ t calls o, invariant t calls →
      invariant (Operation.tables t o) (calls ++ (o.call? t).toList))
    (hperiodic : ∀ t calls elapsed, invariant t calls →
      invariant t (calls ++ [Selector.periodicCall elapsed]))
    (script : Call → μ → Outcome × μ) {d : State μ} (hstart : invariant d.tables [])
    {events : List Event} (htimely : ∀ e ∈ events, e.Timely) :
    invariant (d.noting.run (noted script) events).tables
      (d.noting.run (noted script) events).calls := by
  -- on the last event, whose call is noted behind all others
  induction events using List.reverseRecOn with
  | nil => exact hstart
  | append_singleton events e ih =>
    have hbefore := ih fun e he => htimely e (List.mem_append_left _ he)
    rw [State.run_append_singleton, calls_step_noted, tables_step]
    generalize d.noting.run (noted script) events = d' at hbefore ⊢
    cases h : e.operation? with
    | some o =>
      rw [Event.call?_of_operation h]
      exact hoperation _ _ o hbefore
    | none =>
      rcases Event.call?_of_none h (htimely e (by simp)) d'.tables with hcall | ⟨elapsed, hcall⟩
      · simpa [hcall] using hbefore
      · rw [hcall]
        exact hperiodic _ _ elapsed hbefore

end PathPolicy.Daemon
