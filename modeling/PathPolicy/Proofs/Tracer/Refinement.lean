import PathPolicy.Proofs.Tracer.History
import Mathlib.Data.Set.Card

/-!
The registry refines its history: its slots hold what the history says of each id, and its queue
holds the latest closings with their numbers.
-/
namespace PathPolicy.Tracer.Registry

/-- How an id of a certain standing is kept, after `total` closings. -/
def Standing.slot? (limit total : Nat) : Standing → Option Slot
  | unknown => none
  | active p d events => some (.active ⟨p, d, UInt64.ofNat events⟩)
  | closed later => if later < limit then some (.closed (total - 1 - later)) else none

/-- The remembered closings, each with its number. -/
def History.remembered (history : History) (limit : Nat) : List (UInt64 × Nat) :=
  history.closed.zipIdx.drop (history.closed.length - limit)

structure Refines (limit : Nat) (r : Registry) (history : History) : Prop where
  limit_eq : r.limit = limit
  next_eq : r.nextClosing = history.closed.length
  queue_eq : r.queue = history.remembered limit
  slots_eq : ∀ id, r.slots[id]? = (history.standing id).slot? limit history.closed.length

theorem refines_empty (limit : Nat) : Refines limit (empty limit) [] where
  limit_eq := rfl
  next_eq := rfl
  queue_eq := by simp [empty, History.remembered, History.closed]
  slots_eq id := by simp [empty, History.standing, Standing.slot?]

variable {limit : Nat} {r r' : Registry} {history : History}

theorem Refines.unclosed {entry : Act × Answer} (h : Refines limit r history)
    (hc : closed? entry = none)
    (hr : r'.limit = r.limit ∧ r'.nextClosing = r.nextClosing ∧ r'.queue = r.queue)
    (hs : ∀ id, r'.slots[id]?
      = ((history.standing id).next id entry).slot? limit history.closed.length) :
    Refines limit r' (history ++ [entry]) := by
  have hclosed : History.closed (history ++ [entry]) = history.closed := by
    simp [History.closed_append_singleton, hc]
  obtain ⟨hlimit, hnext, hqueue⟩ := hr
  refine ⟨hlimit.trans h.limit_eq, ?_, ?_, ?_⟩
  · rw [hnext, h.next_eq, hclosed]
  · rw [hqueue, h.queue_eq, History.remembered, History.remembered, hclosed]
  · intro id
    rw [hs, History.standing_append_singleton, hclosed]

theorem Refines.create (h : Refines limit r history) (id : UInt64) (p : Perspective)
    (d : String) : Refines limit (r.create id p d) (history ++ [(.create id p d, .created)]) := by
  refine h.unclosed rfl ⟨rfl, rfl, rfl⟩ ?_
  intro other
  rw [getElem?_create, h.slots_eq]
  by_cases hid : id = other <;> simp [Standing.next, hid, Standing.slot?]

theorem Refines.idle {entry : Act × Answer} (h : Refines limit r history)
    (hc : closed? entry = none)
    (hn : ∀ id, (history.standing id).next id entry = history.standing id) :
    Refines limit r (history ++ [entry]) := by
  refine h.unclosed hc ⟨rfl, rfl, rfl⟩ ?_
  intro id
  rw [hn, h.slots_eq]

theorem Refines.slot_cases (h : Refines limit r history) (id : UInt64) :
    (r.slots[id]? = none ∧ (history.standing id = .unknown ∨
      ∃ later, history.standing id = .closed later ∧ limit ≤ later)) ∨
    (∃ p d events, history.standing id = .active p d events ∧
      r.slots[id]? = some (.active ⟨p, d, UInt64.ofNat events⟩)) ∨
    ∃ later, history.standing id = .closed later ∧ later < limit ∧
      r.slots[id]? = some (.closed (history.closed.length - 1 - later)) := by
  have hs := h.slots_eq id
  cases hst : history.standing id with
  | unknown => exact Or.inl ⟨by rw [hs, hst, Standing.slot?], Or.inl rfl⟩
  | active p d events =>
    exact Or.inr (Or.inl ⟨p, d, events, rfl, by rw [hs, hst, Standing.slot?]⟩)
  | closed later =>
    by_cases hl : later < limit
    · exact Or.inr (Or.inr ⟨later, rfl, hl, by rw [hs, hst, Standing.slot?, if_pos hl]⟩)
    · exact Or.inl ⟨by rw [hs, hst, Standing.slot?, if_neg hl],
        Or.inr ⟨later, rfl, Nat.le_of_not_lt hl⟩⟩

theorem Refines.record (h : Refines limit r history) (id : UInt64) :
    Refines limit (step (r, history) (.record id)).1 (step (r, history) (.record id)).2 := by
  have hidle (answer : Answer) (hcounted : (history.standing id).counted = history.standing id) :
      Refines limit r (history ++ [(.record id, answer)]) := by
    refine h.idle rfl ?_
    intro other
    by_cases hid : id = other
    · subst hid
      simpa [Standing.next] using hcounted
    · simp [Standing.next, hid]
  rcases h.slot_cases id with ⟨hs, hst⟩ | ⟨p, d, events, hst, hs⟩ | ⟨later, hst, -, hs⟩
  · simp only [step, perform, Registry.record, hs]
    refine hidle _ ?_
    rcases hst with hst | ⟨later, hst, -⟩ <;> simp [hst, Standing.counted]
  · simp only [step, perform, Registry.record, hs]
    refine h.unclosed rfl ⟨rfl, rfl, rfl⟩ ?_
    intro other
    rw [Std.ExtTreeMap.getElem?_insert]
    by_cases hid : id = other
    · subst hid
      simp [Standing.next, hst, Standing.counted, Standing.slot?]
    · simp [Standing.next, hid, h.slots_eq]
  · simp only [step, perform, Registry.record, hs]
    exact hidle _ (by simp [hst, Standing.counted])

/-! ### Closing -/

theorem History.remembered_append (history : History) (limit : Nat) (id : UInt64) :
    history.remembered limit ++ [(id, history.closed.length)]
      = (history.closed ++ [id]).zipIdx.drop (history.closed.length - limit) := by
  have hle : history.closed.length - limit ≤ history.closed.zipIdx.length := by simp
  rw [History.remembered, List.zipIdx_append, List.drop_append_of_le_length hle]
  simp

/-- Of the oldest closings at most one is forgotten: the one that the limit leaves no place for. -/
theorem slots_trim (slots : Std.ExtTreeMap UInt64 Slot) (ids : List UInt64) (next limit : Nat)
    (hids : ids.length = next + 1) (other : UInt64) :
    (trim ⟨slots, next + 1, ids.zipIdx.drop (next - limit), limit⟩).slots[other]?
      = if limit ≤ next ∧ ids[next - limit]? = some other ∧
          slots[other]? = some (Slot.closed (next - limit)) then none else slots[other]? := by
  have hlen : (ids.zipIdx.drop (next - limit)).length = next + 1 - (next - limit) := by simp [hids]
  by_cases hl : limit ≤ next
  · have hexcess : next + 1 - (next - limit) - limit = 1 := by omega
    have htake : (ids.zipIdx.drop (next - limit)).take 1
        = (ids[next - limit]?.map fun id => (id, next - limit)).toList := by
      simp [List.take_one, List.head?_drop, List.getElem?_zipIdx]
    simp only [trim, hlen, hexcess, htake, hl, true_and]
    cases ids[next - limit]? with
    | none => simp
    | some id => simp [getElem?_forget]
  · have hexcess : next + 1 - (next - limit) - limit = 0 := by omega
    simp [trim, hlen, hexcess, hl]

theorem Standing.next_close (s : Standing) (id other : UInt64) :
    s.next other (.close id, .closing (.ok .closed)) = if id = other then closed 0 else s.receded := by
  simp [next, closed?]

theorem Standing.slot?_receded {ids : List UInt64} {total later : Nat} {id : UInt64}
    (limit : Nat) (hlater : later < total) (hget : ids[total - 1 - later]? = some id) :
    (if limit ≤ total ∧ ids[total - limit]? = some id ∧
        (closed later).slot? limit total = some (.closed (total - limit)) then none
      else (closed later).slot? limit total)
      = (closed later).receded.slot? limit (total + 1) := by
  -- a closing keeps its place, gives it up now, or had none
  rcases Nat.lt_trichotomy (later + 1) limit with hlt | rfl | hgt
  · have hl : later < limit := by omega
    rw [if_neg]
    · simp [slot?, receded, hl, hlt]
      omega
    · rintro ⟨hle, -, he⟩
      simp only [slot?, if_pos hl, Option.some.injEq, Slot.closed.injEq] at he
      omega
  · have hplace : total - (later + 1) = total - 1 - later := by omega
    rw [if_pos ⟨by omega, by rw [hplace, hget], by simp [slot?, hplace]⟩]
    simp [slot?, receded]
  · have hl : ¬later < limit := by omega
    have hl' : ¬later + 1 < limit := by omega
    simp [slot?, receded, hl, hl']

theorem Refines.closed (h : Refines limit r history) (id : UInt64) :
    Refines limit
      (trim ⟨r.slots.insert id (.closed r.nextClosing), r.nextClosing + 1,
        r.queue ++ [(id, r.nextClosing)], r.limit⟩)
      (history ++ [(.close id, .closing (.ok .closed))]) := by
  have hclosed : History.closed (history ++ [(.close id, .closing (.ok .closed))])
      = history.closed ++ [id] := by
    simp [History.closed_append_singleton, closed?]
  rw [h.limit_eq, h.next_eq, h.queue_eq, History.remembered_append]
  refine ⟨rfl, by simp [hclosed, trim], ?_, ?_⟩
  · rw [History.remembered, hclosed]
    simp [trim, List.drop_drop]
    omega
  · intro other
    rw [slots_trim _ _ _ _ (by simp), Std.ExtTreeMap.getElem?_insert,
      History.standing_append_singleton, Standing.next_close, hclosed]
    by_cases hid : id = other
    · -- The new closing is the last one, so it goes only if none is remembered.
      subst hid
      by_cases hl : limit = 0
      · simp [hl, Standing.slot?]
      · have hne : history.closed.length ≠ history.closed.length - limit ∨
            ¬limit ≤ history.closed.length := by omega
        rcases hne with hne | hne <;> simp [hne, Standing.slot?, Nat.pos_of_ne_zero hl]
    · cases hst : history.standing other with
      | unknown => simp [hid, h.slots_eq, hst, Standing.receded, Standing.slot?]
      | active p d events => simp [hid, h.slots_eq, hst, Standing.receded, Standing.slot?]
      | closed later =>
        obtain ⟨hlater, hget⟩ := History.getElem?_closed_of_standing hst
        have hget' : (history.closed ++ [id])[history.closed.length - 1 - later]? = some other := by
          rw [List.getElem?_append_left (by omega), hget]
        simpa [hid, h.slots_eq, hst] using Standing.slot?_receded limit hlater hget'

theorem Refines.close (h : Refines limit r history) (id : UInt64) :
    Refines limit (step (r, history) (.close id)).1 (step (r, history) (.close id)).2 := by
  have hidle (answer : Except Fault Closing) (ha : answer ≠ .ok .closed) :
      Refines limit r (history ++ [(.close id, .closing answer)]) := by
    have hc : closed? (.close id, .closing answer) = none := by
      unfold closed?
      split <;> simp_all
    refine h.idle hc ?_
    intro other
    simp [Standing.next, hc]
  rcases h.slot_cases id with ⟨hs, -⟩ | ⟨p, d, events, -, hs⟩ | ⟨later, -, -, hs⟩
  · simpa only [step, perform, Registry.close, hs] using hidle _ (by simp)
  · simpa only [step, perform, Registry.close, hs] using h.closed id
  · simpa only [step, perform, Registry.close, hs] using hidle _ (by simp)

theorem refines_run (limit : Nat) (acts : List Act) :
    Refines limit (run limit acts).1 (run limit acts).2 := by
  induction acts using List.reverseRecOn with
  | nil => exact refines_empty limit
  | append_singleton acts act ih =>
    rw [run_append_singleton]
    cases act with
    | create id p d => exact ih.create id p d
    | record id => exact ih.record id
    | close id => exact ih.close id

/-! ### What the registry answers -/

/-- The registry answers as if the id had never been registered. -/
def Unknown (r : Registry) (id : UInt64) : Prop :=
  r.get? id = none ∧ r.isClosed id = false ∧
    r.record id = .error (.unknownTracer id) ∧ r.close id = .error (.unknownTracer id)

theorem unknown_of_slot {id : UInt64} (h : r.slots[id]? = none) : r.Unknown id := by
  simp [Unknown, get?, isClosed, record, Registry.close, h]

def History.IsActive (history : History) (id : UInt64) : Prop :=
  ∃ p d answer after, history.Latest id (.create id p d, answer) after

/-- The history closes the id last, and its closing is among the latest ones of all ids. -/
def History.IsRemembered (history : History) (limit : Nat) (id : UInt64) : Prop :=
  ∃ entry after, history.Latest id entry after ∧ closed? entry = some id ∧
    after.closed.length < limit

theorem History.isActive_iff (history : History) (id : UInt64) :
    history.IsActive id ↔ ∃ p d events, history.standing id = .active p d events := by
  constructor
  · rintro ⟨p, d, answer, after, hl⟩
    exact ⟨p, d, _, standing_of_created hl⟩
  · rintro ⟨p, d, events, h⟩
    rcases history.latest_cases id with hu | hl | ⟨entry, after, hl, hc⟩
    · rw [standing_of_unsettled hu] at h
      cases h
    · exact hl
    · rw [standing_of_closed hl hc] at h
      cases h

theorem History.isRemembered_iff (history : History) (limit : Nat) (id : UInt64) :
    history.IsRemembered limit id ↔ ∃ later < limit, history.standing id = .closed later := by
  constructor
  · rintro ⟨entry, after, hl, hc, hlt⟩
    exact ⟨_, hlt, standing_of_closed hl hc⟩
  · rintro ⟨later, hlt, h⟩
    rcases history.latest_cases id with hu | ⟨p, d, answer, after, hl⟩ | ⟨entry, after, hl, hc⟩
    · rw [standing_of_unsettled hu] at h
      cases h
    · rw [standing_of_created hl] at h
      cases h
    · rw [standing_of_closed hl hc] at h
      cases h
      exact ⟨entry, after, hl, hc, hlt⟩

theorem Refines.active_iff (h : Refines limit r history) (id : UInt64) :
    (∃ t, r.slots[id]? = some (.active t)) ↔ history.IsActive id := by
  rw [h.slots_eq, History.isActive_iff]
  cases history.standing id <;> simp [Standing.slot?]

theorem Refines.closed_iff (h : Refines limit r history) (id : UInt64) :
    (∃ n, r.slots[id]? = some (.closed n)) ↔ history.IsRemembered limit id := by
  rw [h.slots_eq, History.isRemembered_iff]
  cases history.standing id <;> simp [Standing.slot?]

/-! ### Counting -/

theorem countP_toList (slots : Std.ExtTreeMap UInt64 Slot) (f : Slot → Bool) (ids : Set UInt64)
    (hids : ∀ id, id ∈ ids ↔ ∃ s, slots[id]? = some s ∧ f s) :
    (slots.toList.countP fun e => f e.2) = ids.ncard := by
  have hkeys := slots.distinct_keys_toList.filter fun e => f e.2
  have hnodup : ((slots.toList.filter fun e => f e.2).map Prod.fst).Nodup := by
    rw [List.Nodup, List.pairwise_map]
    exact hkeys.imp fun h he => h (by simp [he])
  have hset : ids = (((slots.toList.filter fun e => f e.2).map Prod.fst).toFinset : Set UInt64) := by
    ext id
    rw [hids]
    simp [Std.ExtTreeMap.mem_toList_iff_getElem?_eq_some]
  rw [hset, Set.ncard_coe_finset, List.toFinset_card_of_nodup hnodup, List.length_map,
    List.countP_eq_length_filter]

def isActiveSlot : Slot → Bool
  | .active _ => true
  | .closed _ => false

def isClosedSlot : Slot → Bool
  | .active _ => false
  | .closed _ => true

theorem Refines.activeCount_eq (h : Refines limit r history) :
    r.activeCount = {id | history.IsActive id}.ncard := by
  refine countP_toList r.slots isActiveSlot _ fun id => ?_
  refine (h.active_iff id).symm.trans ⟨?_, ?_⟩
  · rintro ⟨t, ht⟩
    exact ⟨_, ht, rfl⟩
  · rintro ⟨s, hs, hactive⟩
    cases s with
    | active t => exact ⟨t, hs⟩
    | closed n => cases hactive

theorem Refines.closedCount_eq (h : Refines limit r history) :
    r.closedCount = {id | history.IsRemembered limit id}.ncard := by
  refine countP_toList r.slots isClosedSlot _ fun id => ?_
  refine (h.closed_iff id).symm.trans ⟨?_, ?_⟩
  · rintro ⟨n, hn⟩
    exact ⟨_, hn, rfl⟩
  · rintro ⟨s, hs, hclosed⟩
    cases s with
    | active t => cases hclosed
    | closed n => exact ⟨n, hs⟩

theorem Refines.size_eq (h : Refines limit r history) :
    r.size = {id | history.IsActive id ∨ history.IsRemembered limit id}.ncard := by
  rw [size, ← Std.ExtTreeMap.length_toList, ← List.countP_true]
  refine countP_toList r.slots (fun _ => true) _ fun id => ?_
  refine (or_congr (h.active_iff id) (h.closed_iff id)).symm.trans ⟨?_, ?_⟩
  · rintro (⟨t, ht⟩ | ⟨n, hn⟩)
    · exact ⟨_, ht, rfl⟩
    · exact ⟨_, hn, rfl⟩
  · rintro ⟨s, hs, -⟩
    cases s with
    | active t => exact Or.inl ⟨t, hs⟩
    | closed n => exact Or.inr ⟨n, hs⟩

/-! ### The whole refinement -/

theorem recorded_lt_length {id : UInt64} {entry : Act × Answer} {after : History} {acts : List Act}
    (h : (run limit acts).2.Latest id entry after) : after.recorded id < acts.length := by
  obtain ⟨⟨before, hb⟩, -⟩ := h
  have hlen := congrArg List.length (map_fst_history limit acts)
  rw [List.length_map, hb, List.length_append, List.length_cons] at hlen
  have hle : after.recorded id ≤ after.length := List.countP_le_length
  omega

/-- After any calls on an empty registry an id is what its latest step made of it: unknown without
one; active since a registration, with the events announced since then; closed since a successful
closing that is among the latest ones of all ids, and as good as unknown if it is an older one.
The counts are those of these ids. -/
theorem registry_refines_history (limit : Nat) (acts : List Act)
    (hlen : acts.length < UInt64.size) :
    let r := (run limit acts).1
    let history := (run limit acts).2
    (∀ id, (∀ e ∈ history, ¬Settles id e) → r.Unknown id) ∧
    (∀ id p d answer after, history.Latest id (.create id p d, answer) after →
      (∃ t, r.get? id = some t ∧ t.perspective = p ∧ t.firstDestinationId = d ∧
        t.events.toNat = after.recorded id) ∧
      (∃ events r', r.record id = .ok (events, r') ∧ events.toNat = after.recorded id + 1) ∧
      ∃ r', r.close id = .ok (.closed, r')) ∧
    (∀ id entry after, history.Latest id entry after → closed? entry = some id →
      if after.closed.length < limit then
        r.isClosed id = true ∧ r.record id = .error (.tracerClosed id) ∧
          r.close id = .ok (.alreadyClosed, r)
      else r.Unknown id) ∧
    r.activeCount = {id | history.IsActive id}.ncard ∧
    r.closedCount = {id | history.IsRemembered limit id}.ncard ∧
    r.size = {id | history.IsActive id ∨ history.IsRemembered limit id}.ncard := by
  intro r history
  have h : Refines limit r history := refines_run limit acts
  refine ⟨?_, ?_, ?_, h.activeCount_eq, h.closedCount_eq, h.size_eq⟩
  · intro id hu
    apply unknown_of_slot
    rw [h.slots_eq, History.standing_of_unsettled hu, Standing.slot?]
  · intro id p d answer after hl
    have hs := h.slots_eq id
    rw [History.standing_of_created hl, Standing.slot?] at hs
    have hlt := recorded_lt_length hl
    -- counters wrap around, but not in a run of so few calls
    have hevents : (UInt64.ofNat (after.recorded id)).toNat = after.recorded id := by
      rw [UInt64.toNat_ofNat']
      exact Nat.mod_eq_of_lt (by simp only [UInt64.size] at hlen; omega)
    have hnext : (UInt64.ofNat (after.recorded id) + 1).toNat = after.recorded id + 1 := by
      rw [UInt64.toNat_add, hevents]
      exact Nat.mod_eq_of_lt (by simp only [UInt64.size] at hlen; simp; omega)
    refine ⟨⟨⟨p, d, .ofNat (after.recorded id)⟩, by rw [get?, hs], rfl, rfl, hevents⟩, ?_, ?_⟩
    · rw [record, hs]
      exact ⟨_, _, rfl, hnext⟩
    · rw [Registry.close, hs]
      exact ⟨_, rfl⟩
  · intro id entry after hl hc
    have hs := h.slots_eq id
    rw [History.standing_of_closed hl hc, Standing.slot?] at hs
    split
    · rename_i hlt
      rw [if_pos hlt] at hs
      simp [isClosed, record, Registry.close, hs]
    · rename_i hlt
      rw [if_neg hlt] at hs
      exact unknown_of_slot hs

/-- An id is closed, used again and closed again; then another id takes the only place. -/
def sampleActs : List Act := [
  .create 7 .client "a", .close 7, .create 7 .server "b", .record 7, .close 7,
  .create 8 .client "c", .close 8]

theorem registry_refines_history_sample :
    sampleActs.length < UInt64.size ∧ (run 1 sampleActs).1.Unknown 7 := by
  have hlen : sampleActs.length < UInt64.size := by decide
  have hhistory : (run 1 sampleActs).2 = [(.create 7 .client "a", .created),
      (.close 7, .closing (.ok .closed)), (.create 7 .server "b", .created),
      (.record 7, .counted (.ok 1))] ++ (.close 7, .closing (.ok .closed)) ::
      [(.create 8 .client "c", .created), (.close 8, .closing (.ok .closed))] := by rfl
  refine ⟨hlen, ?_⟩
  have hlatest : (run 1 sampleActs).2.Latest 7 (.close 7, .closing (.ok .closed))
      [(.create 8 .client "c", .created), (.close 8, .closing (.ok .closed))] :=
    ⟨⟨_, hhistory⟩, Or.inr rfl, by simp [Settles, Creates, closed?]⟩
  exact (registry_refines_history 1 sampleActs hlen).2.2.1 7 _ _ hlatest rfl

end PathPolicy.Tracer.Registry
