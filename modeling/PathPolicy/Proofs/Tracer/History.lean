import Mathlib.Data.List.Induction
import PathPolicy.Tracer.Registry

/-!
Histories of a registry: its calls with their answers, the latest one last. What an id is at the
end of a history is decided by the latest of its registrations and successful closings.
-/
namespace PathPolicy.Tracer.Registry

inductive Act
  | create (id : UInt64) (perspective : Perspective) (firstDestinationId : String)
  | record (id : UInt64)
  | close (id : UInt64)

inductive Answer
  | created
  | counted (events : Except Fault UInt64)
  | closing (closing : Except Fault Closing)

abbrev History := List (Act × Answer)

def perform (r : Registry) : Act → Answer × Registry
  | .create id perspective firstDestinationId =>
    (.created, r.create id perspective firstDestinationId)
  | .record id =>
    match r.record id with
    | .error e => (.counted (.error e), r)
    | .ok (events, r) => (.counted (.ok events), r)
  | .close id =>
    match r.close id with
    | .error e => (.closing (.error e), r)
    | .ok (closing, r) => (.closing (.ok closing), r)

def step (s : Registry × History) (act : Act) : Registry × History :=
  let (answer, r) := s.1.perform act
  (r, s.2 ++ [(act, answer)])

def run (limit : Nat) (acts : List Act) : Registry × History :=
  acts.foldl step (empty limit, [])

theorem run_append_singleton (limit : Nat) (acts : List Act) (act : Act) :
    run limit (acts ++ [act]) = step (run limit acts) act := by
  simp [run]

theorem map_fst_history (limit : Nat) (acts : List Act) :
    (run limit acts).2.map Prod.fst = acts := by
  induction acts using List.reverseRecOn with
  | nil => rfl
  | append_singleton acts act ih => simp [run_append_singleton, step, ih]

/-! ### The latest step of an id -/

def closed? : Act × Answer → Option UInt64
  | (.close id, .closing (.ok .closed)) => some id
  | _ => none

def History.closed (history : History) : List UInt64 := history.filterMap closed?

def Creates (id : UInt64) : Act × Answer → Prop
  | (.create other _ _, _) => other = id
  | _ => False

/-- The entry registers the id, or closes it successfully. -/
def Settles (id : UInt64) (entry : Act × Answer) : Prop :=
  Creates id entry ∨ closed? entry = some id

def History.recorded (id : UInt64) (history : History) : Nat :=
  history.countP fun entry => match entry.1 with | .record other => other = id | _ => false

/-- The entry settles the id, and nothing does after it. -/
def History.Latest (history : History) (id : UInt64) (entry : Act × Answer)
    (after : History) : Prop :=
  (∃ before, history = before ++ entry :: after) ∧ Settles id entry ∧ ∀ e ∈ after, ¬Settles id e

theorem History.unsettled_or_latest (history : History) (id : UInt64) :
    (∀ e ∈ history, ¬Settles id e) ∨ ∃ entry after, history.Latest id entry after := by
  induction history using List.reverseRecOn with
  | nil => exact Or.inl (by simp)
  | append_singleton history entry ih =>
    by_cases h : Settles id entry
    · exact Or.inr ⟨entry, [], ⟨history, rfl⟩, h, by simp⟩
    · rcases ih with ih | ⟨earlier, after, ⟨before, rfl⟩, hs, hafter⟩
      · refine Or.inl ?_
        intro e he
        rcases List.mem_append.mp he with he | he
        · exact ih e he
        · rwa [List.mem_singleton.mp he]
      · refine Or.inr ⟨earlier, after ++ [entry], ⟨before, by simp⟩, hs, ?_⟩
        intro e he
        rcases List.mem_append.mp he with he | he
        · exact hafter e he
        · rwa [List.mem_singleton.mp he]

/-! ### What an id is -/

/-- What a history makes of an id. -/
inductive Standing
  | unknown
  | active (perspective : Perspective) (firstDestinationId : String) (events : Nat)
  /-- With the number of successful closings since. -/
  | closed (later : Nat)

namespace Standing

def counted : Standing → Standing
  | active p d events => active p d (events + 1)
  | s => s

def receded : Standing → Standing
  | closed later => closed (later + 1)
  | s => s

def next (id : UInt64) (s : Standing) (entry : Act × Answer) : Standing :=
  match entry.1, closed? entry with
  | .create other p d, _ => if other = id then active p d 0 else s
  | .record other, _ => if other = id then s.counted else s
  | .close _, some other => if other = id then closed 0 else s.receded
  | .close _, none => s

end Standing

def History.standing (history : History) (id : UInt64) : Standing :=
  history.foldl (Standing.next id) .unknown

theorem History.standing_append_singleton (history : History) (entry : Act × Answer)
    (id : UInt64) :
    History.standing (history ++ [entry]) id = (history.standing id).next id entry := by
  simp [History.standing]

namespace Standing
variable {id : UInt64} {after : History}

theorem foldl_unknown (h : ∀ e ∈ after, ¬Settles id e) :
    after.foldl (next id) unknown = unknown := by
  induction after with
  | nil => rfl
  | cons entry after ih =>
    obtain ⟨he, hafter⟩ := List.forall_mem_cons.mp h
    have hn : next id unknown entry = unknown := by
      obtain ⟨act, answer⟩ := entry
      cases act with
      | create other p d => simpa [next, Settles, Creates, closed?] using he
      | record other => simp [next, counted]
      | close other =>
        simp only [next]
        split <;> simp_all [Settles, Creates, receded]
    rw [List.foldl_cons, hn, ih hafter]

theorem foldl_active (h : ∀ e ∈ after, ¬Settles id e) (p : Perspective) (d : String)
    (events : Nat) :
    after.foldl (next id) (active p d events) = active p d (events + after.recorded id) := by
  induction after generalizing events with
  | nil => rfl
  | cons entry after ih =>
    obtain ⟨he, hafter⟩ := List.forall_mem_cons.mp h
    obtain ⟨act, answer⟩ := entry
    rw [List.foldl_cons]
    cases act with
    | create other p d =>
      have hne : other ≠ id := by simpa [Settles, Creates, closed?] using he
      simp [next, hne, ih hafter, History.recorded]
    | record other =>
      by_cases hid : other = id
      · simp [next, hid, counted, ih hafter, History.recorded]
        omega
      · simp [next, hid, ih hafter, History.recorded]
    | close other =>
      have hn : next id (active p d events) (.close other, answer) = active p d events := by
        simp only [next]
        split <;> simp_all [Settles, Creates, receded]
      simp [hn, ih hafter, History.recorded]

theorem foldl_closed (h : ∀ e ∈ after, ¬Settles id e) (later : Nat) :
    after.foldl (next id) (closed later) = closed (later + after.closed.length) := by
  induction after generalizing later with
  | nil => rfl
  | cons entry after ih =>
    obtain ⟨he, hafter⟩ := List.forall_mem_cons.mp h
    rw [List.foldl_cons]
    cases hc : closed? entry with
    | none =>
      have hn : next id (closed later) entry = closed later := by
        obtain ⟨act, answer⟩ := entry
        cases act <;> simp_all [next, Settles, Creates, counted]
      simp [hn, ih hafter, History.closed, hc]
    | some other =>
      have hne : other ≠ id := by
        rintro rfl
        exact he (Or.inr hc)
      have hn : next id (closed later) entry = closed (later + 1) := by
        obtain ⟨act, answer⟩ := entry
        cases act <;> simp_all [next, closed?, receded]
      simp [hn, ih hafter, History.closed, hc]
      omega

end Standing

namespace History
variable {history after : History} {id : UInt64} {entry : Act × Answer}

theorem standing_of_unsettled (h : ∀ e ∈ history, ¬Settles id e) :
    history.standing id = .unknown :=
  Standing.foldl_unknown h

theorem standing_of_created {p : Perspective} {d : String} {answer : Answer}
    (h : history.Latest id (.create id p d, answer) after) :
    history.standing id = .active p d (after.recorded id) := by
  obtain ⟨⟨before, rfl⟩, -, hafter⟩ := h
  simp [standing, Standing.next, Standing.foldl_active hafter]

theorem standing_of_closed (h : history.Latest id entry after) (hc : closed? entry = some id) :
    history.standing id = .closed after.closed.length := by
  obtain ⟨⟨before, rfl⟩, -, hafter⟩ := h
  obtain ⟨act, answer⟩ := entry
  cases act <;> simp_all [standing, Standing.next, Standing.foldl_closed hafter, closed?]

theorem latest_cases (history : History) (id : UInt64) :
    (∀ e ∈ history, ¬Settles id e) ∨
    (∃ p d answer after, history.Latest id (.create id p d, answer) after) ∨
    ∃ entry after, history.Latest id entry after ∧ closed? entry = some id := by
  rcases history.unsettled_or_latest id with h | ⟨entry, after, h⟩
  · exact Or.inl h
  · rcases h.2.1 with hcreates | hcloses
    · obtain ⟨act, answer⟩ := entry
      cases act with
      | create other p d =>
        cases (show other = id from hcreates)
        exact Or.inr (Or.inl ⟨p, d, answer, after, h⟩)
      | _ => exact hcreates.elim
    · exact Or.inr (Or.inr ⟨entry, after, h, hcloses⟩)

theorem closed_append_singleton (history : History) (entry : Act × Answer) :
    closed (history ++ [entry]) = history.closed ++ (closed? entry).toList := by
  cases h : closed? entry <;> simp [closed, h]

theorem getElem?_closed_of_standing {later : Nat} (h : history.standing id = .closed later) :
    later < history.closed.length ∧
      history.closed[history.closed.length - 1 - later]? = some id := by
  rcases history.latest_cases id with hu | ⟨p, d, answer, after, hl⟩ | ⟨entry, after, hl, hc⟩
  · rw [standing_of_unsettled hu] at h
    cases h
  · rw [standing_of_created hl] at h
    cases h
  · rw [standing_of_closed hl hc] at h
    cases h
    obtain ⟨before, rfl⟩ := hl.1
    have hlen : closed (before ++ entry :: after) = closed before ++ id :: closed after := by
      simp [closed, hc]
    rw [hlen]
    simp
    omega

end History
end PathPolicy.Tracer.Registry
