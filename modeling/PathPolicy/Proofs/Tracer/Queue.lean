import PathPolicy.Proofs.Tracer.Refinement

/-!
The queue of remembered closings. It stays within the limit and in the order of its numbers, and it
holds one entry for every closed id, besides entries of ids that were used again since. So when the
oldest entry has to go, nothing is forgotten but the closing that it was made for.
-/
namespace PathPolicy.Tracer.Registry
variable {r r' : Registry} {id : UInt64} {popped : List (UInt64 × Nat)}

/-- The entries of the queue are in the order of their numbers, and every closed id has its own. -/
structure Linked (r : Registry) : Prop where
  increasing : (r.queue.map Prod.snd).Pairwise (· < ·)
  below : ∀ entry ∈ r.queue, entry.2 < r.nextClosing
  owned : ∀ id number, r.slots[id]? = some (.closed number) → (id, number) ∈ r.queue

structure Orderly (r : Registry) : Prop extends Linked r where
  bounded : r.queue.length ≤ r.limit

theorem Linked.nodup_numbers (h : Linked r) : (r.queue.map Prod.snd).Nodup :=
  h.increasing.imp Nat.ne_of_lt

theorem Linked.count_of_closed (h : Linked r) {number : Nat}
    (hs : r.slots[id]? = some (.closed number)) : r.queue.count (id, number) = 1 :=
  List.count_eq_one_of_mem h.nodup_numbers.of_map (h.owned id number hs)

/-! ### Forgetting the oldest -/

/-- The loop that makes room: while the queue is over the limit, its oldest entry is taken off and
forgotten. The list holds the entries that were taken off. -/
inductive MakesRoom : Registry → List (UInt64 × Nat) → Registry → Prop
  | done {r : Registry} (h : r.queue.length ≤ r.limit) : MakesRoom r [] r
  | turn {r r' : Registry} {entry : UInt64 × Nat} {rest popped : List (UInt64 × Nat)}
    (hover : r.limit < r.queue.length) (hqueue : r.queue = entry :: rest)
    (h : MakesRoom { r with slots := forget r.slots entry, queue := rest } popped r') :
    MakesRoom r (entry :: popped) r'

theorem slot_forget_iff {slots : Std.ExtTreeMap UInt64 Slot} {entry : UInt64 × Nat} {slot : Slot} :
    (forget slots entry)[id]? = some slot
      ↔ slots[id]? = some slot ∧ ∀ number, slot = .closed number → (id, number) ≠ entry := by
  obtain ⟨owner, own⟩ := entry
  rw [getElem?_forget]
  split
  next h =>
    obtain ⟨rfl, hs⟩ := h
    constructor
    · rintro ⟨⟩
    · rintro ⟨hslot, hne⟩
      exact absurd rfl (hne own (Option.some.inj (hslot.symm.trans hs)))
  next h =>
    simp only [iff_self_and]
    rintro hs number rfl ⟨⟩
    exact h ⟨rfl, hs⟩

theorem trim_of_le (h : r.queue.length ≤ r.limit) : r.trim = r := by
  simp [trim, Nat.sub_eq_zero_of_le h]

theorem trim_of_lt {entry : UInt64 × Nat} {rest : List (UInt64 × Nat)}
    (hover : r.limit < r.queue.length) (hqueue : r.queue = entry :: rest) :
    r.trim = trim { r with slots := forget r.slots entry, queue := rest } := by
  -- from the rest one entry fewer has to go
  have hexcess : rest.length + 1 - r.limit = rest.length - r.limit + 1 := by
    rw [hqueue] at hover
    exact Nat.succ_sub (Nat.le_of_lt_succ hover)
  simp [trim, hqueue, hexcess]

theorem makesRoom_trim (r : Registry) : ∃ popped, MakesRoom r popped r.trim := by
  obtain ⟨slots, nextClosing, queue, limit⟩ := r
  induction queue generalizing slots with
  | nil =>
    have hle : ([] : List (UInt64 × Nat)).length ≤ limit := Nat.zero_le limit
    exact ⟨[], by rw [trim_of_le hle]; exact .done hle⟩
  | cons entry rest ih =>
    by_cases hle : (entry :: rest).length ≤ limit
    · exact ⟨[], by rw [trim_of_le hle]; exact .done hle⟩
    · have hover : limit < (entry :: rest).length := Nat.lt_of_not_le hle
      obtain ⟨popped, h⟩ := ih (forget slots entry)
      exact ⟨entry :: popped, by rw [trim_of_lt hover rfl]; exact .turn hover rfl h⟩

namespace MakesRoom

theorem nextClosing_eq (h : MakesRoom r popped r') : r'.nextClosing = r.nextClosing := by
  induction h with
  | done => rfl
  | turn hover hqueue h ih => exact ih

theorem queue_eq (h : MakesRoom r popped r') : r.queue = popped ++ r'.queue := by
  induction h with
  | done => rfl
  | turn hover hqueue h ih => rw [hqueue, List.cons_append, ← ih]

theorem bounded (h : MakesRoom r popped r') : r'.queue.length ≤ r'.limit := by
  induction h with
  | done hle => exact hle
  | turn hover hqueue h ih => exact ih

theorem length_popped (h : MakesRoom r popped r') : popped.length = r.queue.length - r.limit := by
  induction h with
  | done hle => exact (Nat.sub_eq_zero_of_le hle).symm
  | turn hover hqueue h ih =>
    rw [hqueue] at hover ⊢
    rw [List.length_cons, ih]
    exact (Nat.succ_sub (Nat.le_of_lt_succ hover)).symm

theorem slot_iff (h : MakesRoom r popped r') (id : UInt64) (slot : Slot) :
    r'.slots[id]? = some slot
      ↔ r.slots[id]? = some slot ∧ ∀ number, slot = .closed number → (id, number) ∉ popped := by
  induction h with
  | done => simp
  | turn hover hqueue h ih =>
    rw [ih, slot_forget_iff, and_assoc]
    refine and_congr_right fun _ => ?_
    simp only [← forall_and, List.mem_cons, not_or, ne_eq]

theorem linked (h : MakesRoom r popped r') (hr : Linked r) : Linked r' := by
  have hqueue := h.queue_eq
  refine ⟨?_, ?_, ?_⟩
  · have hincreasing := hr.increasing
    rw [hqueue, List.map_append, List.pairwise_append] at hincreasing
    exact hincreasing.2.1
  · intro entry hentry
    rw [h.nextClosing_eq]
    exact hr.below entry (hqueue ▸ List.mem_append_right popped hentry)
  · intro id number hs
    obtain ⟨hbefore, hkept⟩ := (h.slot_iff id _).mp hs
    have howned := hr.owned id number hbefore
    rw [hqueue] at howned
    exact (List.mem_append.mp howned).resolve_left (hkept number rfl)

end MakesRoom

/-! ### One call, and any number of calls -/

def noteClosing (r : Registry) (id : UInt64) : Registry :=
  { r with
    slots := r.slots.insert id (.closed r.nextClosing)
    nextClosing := r.nextClosing + 1
    queue := r.queue ++ [(id, r.nextClosing)] }

theorem getElem?_noteClosing (r : Registry) (id other : UInt64) :
    (r.noteClosing id).slots[other]?
      = if id = other then some (.closed r.nextClosing) else r.slots[other]? := by
  simp [noteClosing, Std.ExtTreeMap.getElem?_insert]

theorem close_of_active {t : Connection} (h : r.slots[id]? = some (.active t)) :
    r.close id = .ok (.closed, (r.noteClosing id).trim) := by
  simp [close, noteClosing, h]

theorem Linked.noteClosing (h : Linked r) (id : UInt64) : Linked (r.noteClosing id) := by
  refine ⟨?_, ?_, ?_⟩
  · rw [Registry.noteClosing, List.map_append, List.pairwise_append]
    refine ⟨h.increasing, List.pairwise_singleton _ _, ?_⟩
    intro number hnumber last hlast
    obtain ⟨entry, hentry, rfl⟩ := List.mem_map.mp hnumber
    rw [List.mem_singleton.mp hlast]
    exact h.below entry hentry
  · intro entry hentry
    rcases List.mem_append.mp hentry with hold | hnew
    · exact Nat.lt_succ_of_lt (h.below entry hold)
    · rw [List.mem_singleton.mp hnew]
      exact Nat.lt_succ_self r.nextClosing
  · intro other number hs
    rw [getElem?_noteClosing] at hs
    split at hs
    next hid =>
      cases hs
      exact List.mem_append_right r.queue (List.mem_singleton.mpr (by rw [hid]))
    next => exact List.mem_append_left _ (h.owned other number hs)

namespace Orderly

theorem activate (h : Orderly r) (id : UInt64) (t : Connection) :
    Orderly { r with slots := r.slots.insert id (.active t) } := by
  refine ⟨⟨h.increasing, h.below, ?_⟩, h.bounded⟩
  intro other number hs
  rw [Std.ExtTreeMap.getElem?_insert] at hs
  split at hs
  · cases hs
  · exact h.owned other number hs

theorem trim_noteClosing (h : Orderly r) (id : UInt64) : Orderly (r.noteClosing id).trim := by
  obtain ⟨popped, hroom⟩ := makesRoom_trim (r.noteClosing id)
  exact ⟨hroom.linked (h.noteClosing id), hroom.bounded⟩

theorem perform (h : Orderly r) (act : Act) : Orderly (r.perform act).2 := by
  cases act with
  | create id perspective firstDestinationId => exact h.activate id _
  | record id =>
    cases hs : r.slots[id]? with
    | none => simpa [Registry.perform, Registry.record, hs] using h
    | some slot =>
      cases slot with
      | active t => simpa [Registry.perform, Registry.record, hs] using h.activate id _
      | closed number => simpa [Registry.perform, Registry.record, hs] using h
  | close id =>
    cases hs : r.slots[id]? with
    | none => simpa [Registry.perform, Registry.close, hs] using h
    | some slot =>
      cases slot with
      | active t => simpa [Registry.perform, close_of_active hs] using h.trim_noteClosing id
      | closed number => simpa [Registry.perform, Registry.close, hs] using h

end Orderly

theorem orderly_empty (limit : Nat) : Orderly (empty limit) := by
  refine ⟨⟨?_, ?_, ?_⟩, ?_⟩ <;> simp [empty]

theorem orderly_run (limit : Nat) (acts : List Act) : Orderly (run limit acts).1 := by
  induction acts using List.reverseRecOn with
  | nil => exact orderly_empty limit
  | append_singleton acts act ih =>
    rw [run_append_singleton]
    exact ih.perform act

/-- Before the closing number `2 ^ 64` no number is too large for the 64 bits of a counter. -/
theorem numbers_lt_size {limit : Nat} {acts : List Act}
    (h : (run limit acts).2.closed.length < UInt64.size) :
    let r := (run limit acts).1
    r.nextClosing < UInt64.size ∧ (∀ entry ∈ r.queue, entry.2 < UInt64.size) ∧
      ∀ (id : UInt64) (number : Nat), r.slots[id]? = some (.closed number) →
        number < UInt64.size := by
  intro r
  have horderly : Orderly r := orderly_run limit acts
  have hnext : r.nextClosing < UInt64.size := (refines_run limit acts).next_eq ▸ h
  have hqueue : ∀ entry ∈ r.queue, entry.2 < UInt64.size :=
    fun entry hentry => (horderly.below entry hentry).trans hnext
  exact ⟨hnext, hqueue, fun id number hs => hqueue _ (horderly.owned id number hs)⟩

/-- After any calls on an empty registry the queue is within the limit. Its numbers increase, no two
entries have the same one, and all are below the number of the next closing, which counts the
closings so far. A closed id has exactly one entry with the number of its closing. When an active id
is closed, at most one entry is taken off the queue, and every slot stays but that of a closing
whose entry it was: no active id goes, and no other closed one. -/
theorem queue_invariant (limit : Nat) (acts : List Act) :
    let r := (run limit acts).1
    r.queue.length ≤ limit ∧
    (r.queue.map Prod.snd).Pairwise (· < ·) ∧ (r.queue.map Prod.snd).Nodup ∧
    (∀ entry ∈ r.queue, entry.2 < r.nextClosing) ∧
    r.nextClosing = (run limit acts).2.closed.length ∧
    (∀ id number, r.slots[id]? = some (.closed number) → r.queue.count (id, number) = 1) ∧
    ∀ id t, r.slots[id]? = some (.active t) →
      ∃ popped r', r.close id = .ok (.closed, r') ∧ MakesRoom (r.noteClosing id) popped r' ∧
        popped.length ≤ 1 ∧ ∀ other slot, r'.slots[other]? = some slot ↔
          (r.noteClosing id).slots[other]? = some slot ∧
            ∀ number, slot = .closed number → (other, number) ∉ popped := by
  intro r
  have h : Orderly r := orderly_run limit acts
  have hrefines := refines_run limit acts
  have hlimit : r.limit = limit := hrefines.limit_eq
  refine ⟨hlimit ▸ h.bounded, h.increasing, h.nodup_numbers, h.below, hrefines.next_eq,
    fun id number => h.count_of_closed, ?_⟩
  intro id t hs
  obtain ⟨popped, hroom⟩ := makesRoom_trim (r.noteClosing id)
  refine ⟨popped, _, close_of_active hs, hroom, ?_, hroom.slot_iff⟩
  -- the queue was within the limit, and has one entry more
  have hlength : (r.noteClosing id).queue.length = r.queue.length + 1 := List.length_append
  have hsame : (r.noteClosing id).limit = r.limit := rfl
  have hbounded := h.bounded
  rw [hroom.length_popped, hlength, hsame]
  omega

/-- An id is closed, used again and closed again, so that its first entry is nobody's by now. -/
def reusedActs : List Act := [
  .create 7 .client "a", .close 7, .create 7 .server "b", .close 7, .create 8 .client "c"]

/-- There are two places. The next closing takes the first entry off, and the id stays closed. -/
theorem queue_invariant_reused :
    let r := (run 2 reusedActs).1
    r.slots[(7 : UInt64)]? = some (.closed 1) ∧ r.queue.count (7, 1) = 1 ∧
    r.slots[(8 : UInt64)]? = some (.active ⟨.client, "c", 0⟩) ∧
    ∃ r', r.close 8 = .ok (.closed, r') ∧ r'.slots[(7 : UInt64)]? = some (.closed 1) := by
  intro r
  have hclosed : r.slots[(7 : UInt64)]? = some (.closed 1) := by rfl
  have hactive : r.slots[(8 : UInt64)]? = some (.active ⟨.client, "c", 0⟩) := by rfl
  obtain ⟨-, -, -, -, -, hcount, hclose⟩ := queue_invariant 2 reusedActs
  refine ⟨hclosed, hcount 7 1 hclosed, hactive, ?_⟩
  obtain ⟨popped, r', hok, hroom, hone, hslots⟩ := hclose 8 _ hactive
  refine ⟨r', hok, (hslots 7 _).mpr ⟨?_, ?_⟩⟩
  · rw [getElem?_noteClosing, if_neg (by decide), hclosed]
  · intro number hnumber
    cases hnumber
    have hpopped : [(7, 0), (7, 1), (8, 2)] = popped ++ r'.queue := hroom.queue_eq
    match popped, hone with
    | [], _ => simp
    | [entry], _ =>
      cases (List.cons.inj hpopped).1
      simp

end PathPolicy.Tracer.Registry
