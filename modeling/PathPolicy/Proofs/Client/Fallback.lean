import PathPolicy.Proofs.Client.Occasion
import PathPolicy.Proofs.Since

/-!
What a client falls back on, said by the history of its operations and of what their calls came to.
The calls are arbitrary: a daemon may reply with anything, or fail, or be lost.
-/
namespace PathPolicy.Client
open Json
open PathPolicy.Selector (Message)

/-! ### Histories -/

/-- The operations of a client with the outcomes of their calls, the latest one last. -/
abbrev History := List (Operation × Except Fault Message)

namespace History

def client (history : History) : Selector :=
  history.foldl (fun s e => (⟨s, e.1, e.2⟩ : Occasion).after) .start

def occasionsFrom : Selector → History → List Occasion
  | _, [] => []
  | s, (o, outcome) :: history =>
    ⟨s, o, outcome⟩ :: occasionsFrom (⟨s, o, outcome⟩ : Occasion).after history

def occasions (history : History) : List Occasion := occasionsFrom .start history

/-- The fingerprint was resolved by the latest question that resolved any, and every operation
since then retains it. -/
def Remembers (fp : Fingerprint) (history : History) : Prop :=
  Since (Occasion.Resolves fp)
    (fun x => x.operation.Retains fp ∧ ∀ other, ¬x.Resolves other) history.occasions

/-- The path is the last one with the fingerprint on the latest list since the client was last
closed, and the fingerprint was not reported down since. -/
def Candidate (fp : Fingerprint) (p : Path) : History → Prop :=
  Since (fun e => e.1.Lists fp p) fun e => e.1.Spares fp

/-- The path is on the latest list since the client was last closed, and its fingerprint was not
reported down since. -/
def Offers (p : Path) : History → Prop :=
  Since (fun e => ∃ paths, e.1.listed? = some paths ∧ p ∈ paths) fun e => e.1.Spares p.fingerprint

theorem client_append_singleton (history : History) (o : Operation)
    (outcome : Except Fault Message) :
    client (history ++ [(o, outcome)]) = (⟨history.client, o, outcome⟩ : Occasion).after := by
  simp [client]

theorem occasionsFrom_append_singleton (s : Selector) (history : History) (o : Operation)
    (outcome : Except Fault Message) :
    occasionsFrom s (history ++ [(o, outcome)]) = occasionsFrom s history ++
      [⟨history.foldl (fun s e => (⟨s, e.1, e.2⟩ : Occasion).after) s, o, outcome⟩] := by
  induction history generalizing s with
  | nil => rfl
  | cons e history ih => simp [occasionsFrom, ih]

theorem occasions_append_singleton (history : History) (o : Operation)
    (outcome : Except Fault Message) :
    occasions (history ++ [(o, outcome)])
      = history.occasions ++ [⟨history.client, o, outcome⟩] :=
  occasionsFrom_append_singleton ..

theorem coherent_client (history : History) : history.client.Coherent := by
  induction history using List.reverseRecOn with
  | nil => exact Selector.coherent_start
  | append_singleton history e ih =>
    rw [client_append_singleton]
    exact Selector.Coherent.after ih

theorem lastGood_client (history : History) (fp : Fingerprint) :
    history.client.lastGood = some fp ↔ history.Remembers fp := by
  induction history using List.reverseRecOn with
  | nil => simp [client, Selector.start, Remembers, occasions, occasionsFrom]
  | append_singleton history e ih =>
    rw [client_append_singleton, Occasion.lastGood_after, Remembers, occasions_append_singleton,
      Since.append_singleton, ih, Remembers]

theorem paths_client (history : History) (fp : Fingerprint) (p : Path) :
    history.client.paths[fp]? = some p ↔ history.Candidate fp p := by
  induction history using List.reverseRecOn with
  | nil => simp [client, Selector.start, Candidate]
  | append_singleton history e ih =>
    rw [client_append_singleton, Occasion.paths_after, Candidate, Since.append_singleton, ih,
      Candidate]

theorem Candidate.offers {history : History} {fp : Fingerprint} {p : Path}
    (h : history.Candidate fp p) : history.Offers p := by
  obtain ⟨before, e, after, rfl, ⟨paths, hlisted, hfind⟩, hafter⟩ := h
  obtain rfl : p.fingerprint = fp := by simpa using List.find?_some hfind
  exact ⟨before, e, after, rfl, ⟨paths, hlisted, by simpa using List.mem_of_find?_eq_some hfind⟩,
    hafter⟩

end History

/-! ### Runs over a channel -/

section Channel
variable {π : Type} (peer : Peer π)

namespace Selector

def outcome (c : Channel) (q : π) (s : Selector) (o : Operation) : Except Fault Message :=
  match s.step o with
  | .silent _ _ => .ok Message.empty
  | .ask _ method message _ =>
    (c.call peer q PathPolicy.Selector.service method.name message).1.bind
      (shaped Message.empty PathPolicy.Selector.service method.name)

theorem run_eq_settle (c : Channel) (q : π) (s : Selector) (o : Operation) :
    let x : Occasion := ⟨s, o, s.outcome peer c q o⟩
    (s.run peer c q o).1 = x.result ∧ (s.run peer c q o).2.1 = x.after := by
  simp only [run, outcome, Occasion.result, Occasion.after]
  cases s.step o <;> exact ⟨rfl, rfl⟩

def runAll : Channel → π → Selector → List Operation → List (Except Fault (Option Path)) × Selector
  | _, _, s, [] => ([], s)
  | c, q, s, o :: operations =>
    let (result, s, c, q) := s.run peer c q o
    let (results, s) := runAll c q s operations
    (result :: results, s)

/-- The operations with what their calls came to. -/
def transcript : Channel → π → Selector → List Operation → History
  | _, _, _, [] => []
  | c, q, s, o :: operations =>
    let outcome := s.outcome peer c q o
    let (_, s, c, q) := s.run peer c q o
    (o, outcome) :: transcript c q s operations

end Selector

theorem Selector.transcript_operations (c : Channel) (q : π) (s : Selector)
    (operations : List Operation) :
    (s.transcript peer c q operations).map Prod.fst = operations := by
  induction operations generalizing c q s with
  | nil => rfl
  | cons o operations ih => simp [transcript, ih]

theorem Selector.runAll_eq_transcript (c : Channel) (q : π) (s : Selector)
    (operations : List Operation) :
    s.runAll peer c q operations
      = ((History.occasionsFrom s (s.transcript peer c q operations)).map Occasion.result,
        (s.transcript peer c q operations).foldl
          (fun s e => (⟨s, e.1, e.2⟩ : Occasion).after) s) := by
  induction operations generalizing c q s with
  | nil => rfl
  | cons o operations ih =>
    obtain ⟨hresult, hafter⟩ := run_eq_settle peer c q s o
    simp only [runAll, transcript, ih, History.occasionsFrom, List.map_cons, List.foldl_cons,
      hresult, hafter]

end Channel

/-- Whatever the calls of a client came to, its fallback is the path under the fingerprint that the
latest question resolved, as long as every operation since then retains it; the table has the paths
of the latest list that were not reported down. A question gives the daemon's selection if it is in
the table, and after a failed call the fallback. So every path that is given is on the latest list
and was not reported down since. -/
theorem fallback_exact (history : History) :
    let s := history.client
    (∀ p, s.lastPath = some p ↔ ∃ fp, history.Remembers fp ∧ s.paths[fp]? = some p) ∧
    (∀ fp, history.Remembers fp → ∃ p, s.paths[fp]? = some p) ∧
    (∀ fp p, s.paths[fp]? = some p ↔ history.Candidate fp p) ∧
    (s.pair = none → s.lastPath = none ∧ ∀ o, o.Asks → s.step o = .silent s (.ok none)) ∧
    (s.pair.isSome →
      (∀ o reply, o.Asks → (⟨s, o, .ok reply⟩ : Occasion).result
        = .ok (reply.fingerprint.bind fun fp => s.paths[fp]?)) ∧
      ∀ e, (⟨s, .path, .error e⟩ : Occasion).result = .ok s.lastPath ∧
        (⟨s, .tryPath, .error e⟩ : Occasion).result = .error e) ∧
    (∀ p, (s.lastPath = some p ∨ ∃ o outcome, (⟨s, o, outcome⟩ : Occasion).result = .ok (some p)) →
      history.Offers p) ∧
    ∀ (π : Type) (peer : Peer π) (c : Channel) (q : π) (operations : List Operation),
      let played := Selector.start.transcript peer c q operations
      played.map Prod.fst = operations ∧
        Selector.start.runAll peer c q operations
          = (played.occasions.map Occasion.result, played.client) := by
  intro s
  have hlast (p : Path) :
      s.lastPath = some p ↔ ∃ fp, history.Remembers fp ∧ s.paths[fp]? = some p := by
    simp only [Selector.lastPath, Option.bind_eq_some_iff, s, history.lastGood_client]
  have hoffers {fp : Fingerprint} {p : Path} (h : s.paths[fp]? = some p) : history.Offers p :=
    ((history.paths_client fp p).mp h).offers
  refine ⟨hlast, fun fp hfp => ?_, history.paths_client, fun hnone => ⟨?_, fun o ho => ?_⟩,
    fun hsome => ⟨fun o reply ho => ?_, fun e => ⟨?_, ?_⟩⟩, fun p hp => ?_,
    fun π peer c q operations => ⟨?_, ?_⟩⟩
  · exact history.coherent_client.known fp ((history.lastGood_client fp).mpr hfp)
  · rw [Selector.lastPath, history.coherent_client.opened hnone]
    rfl
  · exact Occasion.step_asks_of_none ho hnone
  · exact Occasion.result_of_reply ho hsome reply
  · exact Occasion.result_path_of_error hsome e
  · exact Occasion.result_tryPath_of_error hsome e
  · rcases hp with hp | ⟨o, outcome, hresult⟩
    · obtain ⟨fp, -, hfp⟩ := (hlast p).mp hp
      exact hoffers hfp
    · obtain ⟨fp, hfp⟩ := Occasion.known_of_result hresult
      exact hoffers hfp
  · exact Selector.transcript_operations peer c q .start operations
  · exact Selector.runAll_eq_transcript peer c q .start operations

def versionOf (fp : Fingerprint) (version : Int) : Path := ⟨"", "", none, fp, ⟨version⟩⟩

/-- One of two candidates is selected, a list brings new versions of both, a fingerprint that is not
on it is returned, and the other candidate is reported down while the daemon is away. -/
def driftingHistory : History :=
  [(.initialise ⟨"a", "b"⟩ [versionOf "x" 0, versionOf "y" 0], .ok Message.empty),
    (.path, .ok { Message.empty with fingerprint := some "x" }),
    (.refresh [versionOf "y" 1, versionOf "x" 1], .error (.policy "raised")),
    (.tryPath, .ok { Message.empty with fingerprint := some "z" }),
    (.pathDown "y" ⟨"1-ff00:0:110", 1⟩, .error (.transport "connection lost"))]

theorem fallback_exact_drifting :
    let s := driftingHistory.client
    driftingHistory.Remembers "x" ∧ s.lastPath = some (versionOf "x" 1) ∧
      (⟨s, .path, .error (.transport "connection closed")⟩ : Occasion).result
        = .ok (some (versionOf "x" 1)) ∧
      driftingHistory.Offers (versionOf "x" 1) := by
  intro s
  obtain ⟨-, -, -, -, hasked, hgiven, -⟩ := fallback_exact driftingHistory
  have hpath : s.lastPath = some (versionOf "x" 1) := by rfl
  have hresult := ((hasked rfl).2 (.transport "connection closed")).1
  exact ⟨(driftingHistory.lastGood_client "x").mp rfl, hpath,
    hresult.trans (congrArg Except.ok hpath), hgiven _ (.inl hpath)⟩

end PathPolicy.Client
