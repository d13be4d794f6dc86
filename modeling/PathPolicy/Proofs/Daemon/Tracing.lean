import PathPolicy.Proofs.Daemon.Log

/-!
Which tracing ids are active. An id is active once it is registered and until it is closed, whatever
else happens; an event reaches the script exactly if its id is active.
-/
namespace PathPolicy.Tracer
open Script

namespace Registry
variable {id other : UInt64} {r r' : Registry}

/-- The id is registered, and was not closed since. -/
def Active (r : Registry) (id : UInt64) : Prop := (r.get? id).isSome

instance (r : Registry) (id : UInt64) : Decidable (r.Active id) :=
  inferInstanceAs (Decidable (_ = true))

theorem active_iff : r.Active id ↔ ∃ t, r.slots[id]? = some (.active t) := by
  rw [Active, get?]
  split
  · rename_i t h
    simp [h]
  · rename_i h
    exact ⟨nofun, fun ⟨t, ht⟩ => absurd ht (h t)⟩

theorem active_create (r : Registry) (other : UInt64) (perspective : Perspective)
    (firstDestinationId : String) :
    (r.create other perspective firstDestinationId).Active id ↔ other = id ∨ r.Active id := by
  rw [active_iff, active_iff, getElem?_create]
  by_cases h : other = id <;> simp [h]

theorem active_record {events : UInt64} (h : r.record other = .ok (events, r')) :
    r'.Active id ↔ r.Active id := by
  rw [record] at h
  split at h
  · cases h
  · cases h
  · rename_i t ht
    cases h
    rw [active_iff, active_iff, Std.ExtTreeMap.getElem?_insert]
    by_cases hid : other = id
    · subst hid
      simp [ht]
    · simp [hid]

theorem active_trim : r.trim.Active id ↔ r.Active id := by
  have hfold (entries : List (UInt64 × Nat)) (t : Connection)
      (slots : Std.ExtTreeMap UInt64 Slot) :
      (entries.foldl forget slots)[id]? = some (Slot.active t)
        ↔ slots[id]? = some (Slot.active t) := by
    induction entries generalizing slots with
    | nil => rfl
    | cons entry entries ih =>
      rw [List.foldl_cons, ih, getElem?_forget]
      split
      · rename_i h
        simp [h.2]
      · rfl
  rw [active_iff, active_iff]
  exact exists_congr fun t => hfold _ t r.slots

theorem active_close (h : r.close other = .ok (.closed, r')) :
    r'.Active id ↔ other ≠ id ∧ r.Active id := by
  rw [close] at h
  split at h
  · cases h
  · cases h
  · cases h
    rw [active_trim, active_iff, active_iff, Std.ExtTreeMap.getElem?_insert]
    by_cases hid : other = id <;> simp [hid]

end Registry

namespace Operation
variable {id : UInt64} {r : Registry}

def Registers (id : UInt64) (o : Operation) : Prop :=
  ∃ perspective firstDestinationId, o = .register id perspective firstDestinationId

def Closes (id : UInt64) (o : Operation) : Prop :=
  ∃ localAddress remoteAddress, o = .event id localAddress remoteAddress .close

theorem plan_of_inactive (h : ¬r.Active id) (localAddress remoteAddress : String) (e : Event) :
    ∃ result, (event id localAddress remoteAddress e).plan r = .answer r result := by
  rw [Registry.active_iff, not_exists] at h
  simp only [plan, Registry.close, Registry.record]
  cases hslot : r.slots[id]? with
  | none => exact ⟨_, ite_self _⟩
  | some slot =>
    cases slot with
    | closed closing => split <;> exact ⟨_, rfl⟩
    | active t => exact absurd hslot (h t)

theorem plan_of_active (h : r.Active id) (localAddress remoteAddress : String) (e : Event) :
    ∃ r', (event id localAddress remoteAddress e).plan r
        = .notify r' (eventCall id localAddress remoteAddress e) () ∧
      ∀ other, r'.Active other ↔ (e = .close → id ≠ other) ∧ r.Active other := by
  obtain ⟨t, ht⟩ := Registry.active_iff.mp h
  by_cases he : e = .close
  · have hclose : ∃ r', r.close id = .ok (.closed, r') := by simp [Registry.close, ht]
    obtain ⟨r', hclose⟩ := hclose
    refine ⟨r', by rw [plan, if_pos he, hclose], fun other => ?_⟩
    simp [Registry.active_close hclose, he]
  · have hrecord : ∃ events r', r.record id = .ok (events, r') := by simp [Registry.record, ht]
    obtain ⟨events, r', hrecord⟩ := hrecord
    refine ⟨r', by rw [plan, if_neg he, hrecord], fun other => ?_⟩
    simp [Registry.active_record hrecord, he]

theorem call?_plan_event (r : Registry) (id : UInt64) (localAddress remoteAddress : String)
    (e : Event) : ((event id localAddress remoteAddress e).plan r).call?
      = if r.Active id then some (eventCall id localAddress remoteAddress e) else none := by
  split
  next h =>
    obtain ⟨r', hplan, -⟩ := plan_of_active h localAddress remoteAddress e
    rw [hplan]
    rfl
  next h =>
    obtain ⟨result, hplan⟩ := plan_of_inactive h localAddress remoteAddress e
    rw [hplan]
    rfl

theorem entry_of_plan {r : Registry} {o : Operation} {c : Call} (h : (o.plan r).call? = some c) :
    c.moduleName = scriptModule ∧ c.function ∈ entryPoints := by
  cases o with
  | register id perspective firstDestinationId =>
    cases h
    exact ⟨rfl, List.mem_cons_self⟩
  | event id localAddress remoteAddress e =>
    rw [call?_plan_event] at h
    split at h <;> cases h
    exact ⟨rfl, List.mem_cons_of_mem _ e.kind.name_mem_eventMethods⟩

theorem active_plan (r : Registry) (o : Operation) (id : UInt64) :
    (o.plan r).tables.Active id ↔ o.Registers id ∨ ¬o.Closes id ∧ r.Active id := by
  cases o with
  | register other perspective firstDestinationId =>
    have hplan : (r.create other perspective firstDestinationId).Active id
        ↔ other = id ∨ r.Active id := Registry.active_create ..
    simpa [plan, Plan.notify, Plan.tables, Registers, Closes] using hplan
  | event other localAddress remoteAddress e =>
    by_cases h : r.Active other
    · obtain ⟨r', hplan, hactive⟩ := plan_of_active h localAddress remoteAddress e
      rw [hplan]
      simp only [Plan.notify, Plan.tables, hactive, Registers, Closes]
      grind
    · obtain ⟨result, hplan⟩ := plan_of_inactive h localAddress remoteAddress e
      rw [hplan]
      simp only [Plan.tables, Registers, Closes]
      grind

end Operation

end PathPolicy.Tracer

namespace PathPolicy.Daemon
open Script
variable {μ : Type} {id : UInt64}

def Event.Closes (id : UInt64) : Event → Prop
  | .arrival body => ∃ r o, Request.parse body = .ok r ∧ r.service = Tracer.service ∧
      Tracer.Operation.ofRequest r = .ok o ∧ o.Closes id
  | .ownCall _ => False

theorem active_step (script : Call → μ → Outcome × μ) {e : Event} (he : ¬e.Closes id)
    {d : State μ} (h : d.tables.tracers.Active id) :
    (d.step script e).state.tables.tracers.Active id := by
  rw [tables_step]
  cases hoperation : e.operation? with
  | none => exact h
  | some o =>
    cases o with
    | session p o => exact h
    | tracer o =>
      refine (Tracer.Operation.active_plan _ o id).mpr (.inr ⟨fun hcloses => he ?_, h⟩)
      cases e with
      | ownCall c => cases hoperation
      | arrival body =>
        obtain ⟨r, hparse, hservice, hrequest⟩ := Operation.ofBody_eq_tracer_iff.mp hoperation
        exact ⟨r, o, hparse, hservice, hrequest, hcloses⟩

theorem call?_respond_event (t : Tables) {body : Bytes} {r : Request}
    (hparse : Request.parse body = .ok r) (hservice : r.service = Tracer.service)
    {localAddress remoteAddress : String} {e : Tracer.Event}
    (hrequest : Tracer.Operation.ofRequest r = .ok (.event id localAddress remoteAddress e)) :
    (respond t body).call? = if t.tracers.Active id
      then some (Tracer.Operation.eventCall id localAddress remoteAddress e) else none := by
  have hoperation := Operation.ofBody_eq_tracer_iff.mpr ⟨r, hparse, hservice, hrequest⟩
  rw [(respond_of_operation hoperation t).2, Operation.call?, Tracer.Operation.call?_plan_event]

end PathPolicy.Daemon
