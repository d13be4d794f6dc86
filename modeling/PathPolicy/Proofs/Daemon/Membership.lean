import PathPolicy.Proofs.Daemon.Tracing
import PathPolicy.Proofs.Selector.Calls

/-!
The session table and the script agree about which sessions exist: what the table holds can be told
from the calls that were made, whatever came of them. A request is taken up with the tables as they
are at that moment, and a session is there or not before the request's own call is made.
-/
namespace PathPolicy.Selector
open Script

/-- Every call that needs a session of the key was made when the calls before it attested one. -/
def Justified (key : String) (calls : List Call) : Prop :=
  ∀ before c method p, before ++ [c] <+: calls → addressed? c = some (method, p) → p.key = key →
    method.NeedsSession → Attested key before

theorem justified_nil (key : String) : Justified key [] := by
  intro before c method p hcut
  simp at hcut

theorem Justified.append_singleton {key : String} {calls : List Call} (h : Justified key calls)
    {c : Call} (hc : ∀ method p, addressed? c = some (method, p) → p.key = key →
      method.NeedsSession → Attested key calls) : Justified key (calls ++ [c]) := by
  intro before c' method p hcut haddressed hkey hneeds
  rcases List.prefix_concat_iff.mp hcut with heq | hcut
  · obtain ⟨rfl, hlast⟩ := List.append_inj' heq rfl
    cases hlast
    exact hc method p haddressed hkey hneeds
  · exact h before c' method p hcut haddressed hkey hneeds

theorem Justified.reopened {key : String} {calls before between : List Call} {c c' : Call}
    (h : Justified key calls) (hcut : before ++ c :: between ++ [c'] <+: calls)
    (hc : membership? key c = some .close) (hc' : membership? key c' = some .close) :
    ∃ opening ∈ between, ∃ method, membership? key opening = some method ∧ method ≠ .close := by
  obtain ⟨-, p, haddressed, hkey⟩ := membership?_eq_some_iff.mp hc'
  exact (h _ c' .close p hcut haddressed hkey (.inr rfl)).opened hc

end PathPolicy.Selector

namespace PathPolicy.Daemon
open Script
open Selector (Attested Justified Method Pair addressed? membership?)
variable {μ : Type}

namespace Operation
variable {key : String} {t : Tables} {calls : List Call}

theorem contains_of_call {o : Operation} {c : Call} {method : Method} {p : Pair}
    (h : o.call? t = some c) (haddressed : addressed? c = some (method, p))
    (hneeds : method.NeedsSession) : t.sessions.contains p.key := by
  cases o with
  | session p' o =>
    rw [call?, Selector.Operation.call?_plan] at h
    split at h
    next hmade =>
      cases h
      rw [Selector.addressed?_call] at haddressed
      cases haddressed
      exact hmade hneeds
    next => cases h
  | tracer o =>
    have hmodule := (Tracer.Operation.entry_of_plan h).1
    rw [Selector.addressed?_of_ne (by rw [hmodule]; decide)] at haddressed
    cases haddressed

theorem attested (h : t.sessions.contains key ↔ Attested key calls) (o : Operation) :
    (o.tables t).sessions.contains key ↔ Attested key (calls ++ (o.call? t).toList) := by
  cases o with
  | session p o => exact o.attested_plan h p
  | tracer o =>
    cases hcall : (tracer o).call? t with
    | none =>
      rw [Option.toList_none, List.append_nil]
      exact h
    | some c =>
      have hmodule := (Tracer.Operation.entry_of_plan hcall).1
      have hnone : addressed? c = none := Selector.addressed?_of_ne (by rw [hmodule]; decide)
      exact h.trans (Selector.attested_append_of_none hnone calls).symm

theorem justified (h : t.sessions.contains key ↔ Attested key calls) (hcalls : Justified key calls)
    (o : Operation) : Justified key (calls ++ (o.call? t).toList) := by
  cases hcall : o.call? t with
  | none => simpa using hcalls
  | some c =>
    refine hcalls.append_singleton fun method p haddressed hkey hneeds => h.mp ?_
    exact hkey ▸ contains_of_call hcall haddressed hneeds

end Operation

theorem Event.contains_of_call {e : Event} (he : e.Timely) {t : Tables} {c : Call}
    {method : Method} {p : Pair} (h : e.call? t = some c)
    (haddressed : addressed? c = some (method, p)) (hneeds : method.NeedsSession) :
    t.sessions.contains p.key := by
  cases hoperation : e.operation? with
  | some o =>
    rw [Event.call?_of_operation hoperation] at h
    exact Operation.contains_of_call h haddressed hneeds
  | none =>
    rcases Event.call?_of_none hoperation he t with hcall | ⟨elapsed, hcall⟩ <;>
      rw [hcall] at h <;> cases h
    rw [Selector.addressed?_periodicCall] at haddressed
    cases haddressed

/-- Whatever arrives, and whatever the script makes of its calls: a key has a session exactly if
the latest of the calls that open or close its session is not a closing. Questions for a path and
closings were put to the script only when the calls so far attested a session, and are put to it
only when the table has one; so between two closings of a key there is an opening. -/
theorem sessions_match_calls (script : Call → μ → Outcome × μ) (tracers : Tracer.Registry) (m : μ)
    (events : List Event) (htimely : ∀ e ∈ events, e.Timely) (key : String) :
    let d := (State.noting ⟨⟨∅, tracers⟩, m⟩).run (noted script) events
    (d.tables.sessions.contains key ↔ Attested key d.calls) ∧
    Justified key d.calls ∧
    (∀ before c between c', before ++ c :: between ++ [c'] <+: d.calls →
      membership? key c = some .close → membership? key c' = some .close →
      ∃ opening ∈ between, ∃ method, membership? key opening = some method ∧ method ≠ .close) ∧
    ∀ e : Event, e.Timely → ∀ c method p, e.call? d.tables = some c →
      addressed? c = some (method, p) → method.NeedsSession →
      d.tables.sessions.contains p.key := by
  intro d
  have hrun : (d.tables.sessions.contains key ↔ Attested key d.calls) ∧ Justified key d.calls := by
    refine State.noted_invariant
      (fun t calls => (t.sessions.contains key ↔ Attested key calls) ∧ Justified key calls)
      ?_ ?_ script ?_ htimely
    · exact fun t calls o h => ⟨Operation.attested h.1 o, Operation.justified h.1 h.2 o⟩
    · intro t calls elapsed h
      have hnone := Selector.addressed?_periodicCall elapsed
      refine ⟨h.1.trans (Selector.attested_append_of_none hnone calls).symm,
        h.2.append_singleton fun method p haddressed => ?_⟩
      rw [hnone] at haddressed
      cases haddressed
    · exact ⟨by simp, Selector.justified_nil key⟩
  exact ⟨hrun.1, hrun.2, fun before c between c' hcut => hrun.2.reopened hcut,
    fun e he c method p hcall haddressed hneeds => Event.contains_of_call he hcall haddressed hneeds⟩

set_option maxRecDepth 8192 in
/-- The script raises an error whenever it is called. The session is asked for before it is there,
opened, closed twice, opened again and closed. -/
theorem sessions_match_calls_sample :
    let events := [sampleArrival "a" .path, sampleArrival "a" .refresh,
      .ownCall (Selector.periodicCall 5), sampleArrival "a" .path, sampleArrival "a" .close,
      sampleArrival "a" .close, sampleArrival "a" .setPreferences, sampleArrival "a" .close]
    let d := (State.noting ⟨.start, 0⟩).run (noted failingScript) events
    (∀ e ∈ events, e.Timely) ∧
    d.calls.map Call.function = ["Refresh", "Periodic", "Path", "Close", "SetPreferences", "Close"] ∧
    ¬Attested "a b" d.calls ∧ Justified "a b" d.calls := by
  intro events d
  have htimely : ∀ e ∈ events, e.Timely := by simp [events, Event.Timely, sampleArrival]
  have hcontains : d.tables.sessions.contains "a b" = false := by rfl
  obtain ⟨hattested, hjustified, -⟩ := sessions_match_calls failingScript
    Tables.start.tracers 0 events htimely "a b"
  exact ⟨htimely, by rfl, fun h => Bool.noConfusion (hcontains.symm.trans (hattested.mpr h)),
    hjustified⟩

end PathPolicy.Daemon
