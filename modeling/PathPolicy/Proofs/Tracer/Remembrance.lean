import PathPolicy.Proofs.Tracer.Refinement

/-!
How long a closed id is remembered. The places are taken by closings, not by ids: an id that is used
again and closed again takes one each time, so that a busy id pushes out another one that is still
among the ids closed last.
-/
namespace PathPolicy.Tracer.Registry

def AnswersClosed (r : Registry) (id : UInt64) : Prop :=
  r.isClosed id = true ∧ r.record id = .error (.tracerClosed id) ∧
    r.close id = .ok (.alreadyClosed, r)

section Closed
variable {limit : Nat} {acts : List Act} {id : UInt64} {entry : Act × Answer} {after : History}

theorem answersClosed_of_slot {r : Registry} {closing : Nat}
    (h : r.slots[id]? = some (.closed closing)) : r.AnswersClosed id := by
  simp [AnswersClosed, isClosed, record, close, h]

theorem Unknown.not_answersClosed {r : Registry} (h : r.Unknown id) : ¬r.AnswersClosed id := by
  intro hclosed
  cases h.2.1.symm.trans hclosed.1

theorem slot_of_closed (h : (run limit acts).2.Latest id entry after)
    (hclosed : closed? entry = some id) :
    (run limit acts).1.slots[id]? = if after.closed.length < limit then
      some (.closed ((run limit acts).2.closed.length - 1 - after.closed.length)) else none := by
  rw [(refines_run limit acts).slots_eq, History.standing_of_closed h hclosed, Standing.slot?]

theorem answersClosed_iff (h : (run limit acts).2.Latest id entry after)
    (hclosed : closed? entry = some id) :
    (run limit acts).1.AnswersClosed id ↔ after.closed.length < limit := by
  have hslot := slot_of_closed h hclosed
  by_cases hplace : after.closed.length < limit
  · rw [if_pos hplace] at hslot
    simp [answersClosed_of_slot hslot, hplace]
  · rw [if_neg hplace] at hslot
    simp [(unknown_of_slot hslot).not_answersClosed, hplace]

theorem unknown_iff (h : (run limit acts).2.Latest id entry after)
    (hclosed : closed? entry = some id) :
    (run limit acts).1.Unknown id ↔ limit ≤ after.closed.length := by
  constructor
  · intro hunknown
    exact Nat.not_lt.mp fun hplace =>
      hunknown.not_answersClosed ((answersClosed_iff h hclosed).mpr hplace)
  · intro hle
    apply unknown_of_slot
    rw [slot_of_closed h hclosed, if_neg (Nat.not_lt.mpr hle)]

end Closed

/-! ### Ids that are closed again and again -/

def History.closedIds (history : History) : Nat := history.closed.toFinset.card

/-- A closed id that is not used again is remembered while fewer other ids than the limit says were
closed since, however often. -/
def RemembersIds (limit : Nat) : Prop :=
  ∀ acts id entry after, (run limit acts).2.Latest id entry after → closed? entry = some id →
    after.closedIds < limit → (run limit acts).1.AnswersClosed id

def cycles (id : UInt64) : Nat → List Act
  | 0 => []
  | n + 1 => cycles id n ++ [.create id .client "", .close id]

def cyclesHistory (id : UInt64) : Nat → History
  | 0 => []
  | n + 1 => cyclesHistory id n ++
    [(.create id .client "", .created), (.close id, .closing (.ok .closed))]

theorem history_cycle (limit : Nat) (acts : List Act) (id : UInt64) :
    (run limit (acts ++ [.create id .client "", .close id])).2
      = (run limit acts).2 ++
        [(.create id .client "", .created), (.close id, .closing (.ok .closed))] := by
  have hslot (r : Registry) :
      (r.create id .client "").slots[id]? = some (.active ⟨.client, "", 0⟩) := by
    rw [getElem?_create, if_pos rfl]
  have htwo : acts ++ [.create id .client "", .close id]
      = acts ++ [.create id .client ""] ++ [.close id] := by simp
  rw [htwo, run_append_singleton, run_append_singleton]
  simp [step, perform, Registry.close, hslot]

theorem history_cycles (limit : Nat) (acts : List Act) (id : UInt64) (n : Nat) :
    (run limit (acts ++ cycles id n)).2 = (run limit acts).2 ++ cyclesHistory id n := by
  induction n with
  | zero => simp [cycles, cyclesHistory]
  | succ n ih =>
    rw [cycles, cyclesHistory, ← List.append_assoc, history_cycle, ih, List.append_assoc]

theorem closed_cyclesHistory (id : UInt64) (n : Nat) :
    (cyclesHistory id n).closed = List.replicate n id := by
  induction n with
  | zero => rfl
  | succ n ih =>
    have hcycle : History.closed
        [(.create id .client "", .created), (.close id, .closing (.ok .closed))] = [id] := rfl
    rw [cyclesHistory, List.replicate_succ', ← ih, ← hcycle]
    exact List.filterMap_append

theorem unsettled_cyclesHistory {id other : UInt64} (hne : other ≠ id) (n : Nat) :
    ∀ e ∈ cyclesHistory other n, ¬Settles id e := by
  induction n with
  | zero => simp [cyclesHistory]
  | succ n ih =>
    intro e he
    rcases List.mem_append.mp he with he | he
    · exact ih e he
    · rcases List.mem_pair.mp he with rfl | rfl <;> simp [Settles, Creates, closed?, hne]

def busyActs (n : Nat) : List Act := cycles 1 1 ++ cycles 2 n

theorem latest_busyActs (limit n : Nat) :
    (run limit (busyActs n)).2.Latest 1 (.close 1, .closing (.ok .closed)) (cyclesHistory 2 n) := by
  refine ⟨⟨[(.create 1 .client "", .created)], ?_⟩, Or.inr rfl,
    unsettled_cyclesHistory (by decide) n⟩
  rw [busyActs, history_cycles, ← List.nil_append (cycles 1 1), history_cycles]
  rfl

theorem closedIds_cyclesHistory_le (id : UInt64) (n : Nat) :
    (cyclesHistory id n).closedIds ≤ 1 := by
  rw [History.closedIds, closed_cyclesHistory]
  refine Finset.card_le_one.mpr ?_
  intro a ha b hb
  rw [List.eq_of_mem_replicate (List.mem_toFinset.mp ha),
    List.eq_of_mem_replicate (List.mem_toFinset.mp hb)]

theorem not_remembersIds {limit : Nat} (h : 2 ≤ limit) : ¬RemembersIds limit := by
  intro hids
  have hlatest := latest_busyActs limit limit
  have hfew : (cyclesHistory 2 limit).closedIds < limit :=
    (closedIds_cyclesHistory_le 2 limit).trans_lt h
  have hplace := (answersClosed_iff hlatest rfl).mp (hids _ 1 _ _ hlatest rfl hfew)
  rw [closed_cyclesHistory, List.length_replicate] at hplace
  exact Nat.lt_irrefl _ hplace

theorem remembersIds_of_le {limit : Nat} (h : limit ≤ 1) : RemembersIds limit := by
  intro acts id entry after hlatest hclosed hfew
  refine (answersClosed_iff hlatest hclosed).mpr ?_
  have hnone : after.closed = [] := by
    rw [← List.toFinset_eq_empty_iff, ← Finset.card_eq_zero]
    exact Nat.lt_one_iff.mp (hfew.trans_le h)
  rw [hnone]
  exact (Nat.zero_le _).trans_lt hfew

/-- A closed id that is not used again answers that it is closed as long as fewer closings than the
limit says followed, each of them counted; then it is as good as never seen. The other ids of these
closings are counted once each only with one place or none, or if none of them was closed twice. -/
theorem remembered_by_closings (limit : Nat) :
    (∀ acts id entry after, (run limit acts).2.Latest id entry after → closed? entry = some id →
      ((run limit acts).1.AnswersClosed id ↔ after.closed.length < limit) ∧
      ((run limit acts).1.Unknown id ↔ limit ≤ after.closed.length) ∧
      (after.closed.Nodup → after.closedIds < limit → (run limit acts).1.AnswersClosed id)) ∧
    (RemembersIds limit ↔ limit ≤ 1) := by
  refine ⟨?_, ?_, remembersIds_of_le⟩
  · intro acts id entry after hlatest hclosed
    have hanswers := answersClosed_iff hlatest hclosed
    refine ⟨hanswers, unknown_iff hlatest hclosed, ?_⟩
    intro hnodup hfew
    rw [History.closedIds, List.toFinset_card_of_nodup hnodup] at hfew
    exact hanswers.mpr hfew
  · intro hids
    exact Nat.lt_succ_iff.mp (Nat.lt_of_not_le fun h => not_remembersIds h hids)

/-- Of two places both are taken by the same id. -/
theorem remembered_by_closings_busy :
    (run 2 (busyActs 2)).2.Latest 1 (.close 1, .closing (.ok .closed)) (cyclesHistory 2 2) ∧
    (run 2 (busyActs 2)).1.Unknown 1 := by
  have hlatest := latest_busyActs 2 2
  refine ⟨hlatest, ?_⟩
  have hcount : (cyclesHistory 2 2).closed.length = 2 := rfl
  exact (((remembered_by_closings 2).1 _ 1 _ _ hlatest rfl).2.1).mpr hcount.ge

/-- The only other id that was closed takes both places, and the first one is forgotten. -/
theorem forgotten_with_one_other_closed :
    (cyclesHistory 2 2).closedIds = 1 ∧ (run 2 (busyActs 2)).1.Unknown 1 ∧ ¬RemembersIds 2 :=
  ⟨rfl, (unknown_iff (latest_busyActs 2 2) rfl).mpr (by decide), not_remembersIds le_rfl⟩

end PathPolicy.Tracer.Registry
