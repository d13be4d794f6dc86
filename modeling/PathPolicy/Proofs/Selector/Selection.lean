import PathPolicy.Proofs.Selector.History

/-!
When a question for the path is answered with a fingerprint: exactly when the pair's session is
open, the script names the fingerprint, and the fingerprint is live.
-/
namespace PathPolicy.Selector
open Script

/-- The first result is the fingerprint as a text, or a table with it in the field for it. -/
def Names (fp : Fingerprint) (results : List Value) : Prop :=
  results.head? = some (.text fp) ∨
    ∃ t : Table, results.head? = some t.value ∧ t.get? "Fingerprint" = some (.text fp)

theorem namedFingerprint_eq_some_iff (results : List Value) (fp : Fingerprint) :
    namedFingerprint results = .ok (some fp) ↔ Names fp results := by
  cases results with
  | nil => simp [namedFingerprint, Names]
  | cons v rest =>
    cases v with
    | table sequence fields =>
      have ht : (∃ t : Table, Value.table sequence fields = t.value ∧
          t.get? "Fingerprint" = some (.text fp)) ↔
          (Table.mk sequence fields).get? "Fingerprint" = some (.text fp) := by
        constructor
        · rintro ⟨⟨_, _⟩, h, hf⟩
          cases h
          exact hf
        · intro h
          exact ⟨⟨sequence, fields⟩, rfl, h⟩
      simp only [namedFingerprint, Names, List.head?_cons, Option.some.injEq, reduceCtorEq,
        false_or, ht]
      split <;> simp_all
    | _ => simp [namedFingerprint, Names, Table.value]

theorem selection_eq_selected_iff (t : SessionTable) (key : String) (results : List Value)
    (fp : Fingerprint) :
    selection t key results = .ok (.selected (some fp))
      ↔ Names fp results ∧ (t.resolve key fp).isSome := by
  rw [← namedFingerprint_eq_some_iff, selection]
  cases namedFingerprint results with
  | error e => simp [bind, Except.bind]
  | ok named =>
    cases named <;> simp [bind, Except.bind, pure, Except.pure, Option.filter_eq_some_iff]

theorem selection_ne_done (t : SessionTable) (key : String) (results : List Value) :
    selection t key results ≠ .ok .done := by
  rw [selection]
  cases namedFingerprint results <;> simp [bind, Except.bind, pure, Except.pure]

theorem selectionValue_inj {a b : Option Fingerprint} :
    selectionValue a = selectionValue b ↔ a = b := by
  cases a <;> cases b <;> simp [selectionValue]

variable {μ : Type}

theorem serve_path {r : Request} {p : Pair} (hr : Operation.ofRequest r = .ok (p, .path))
    (t : SessionTable) :
    serve t r = if t.contains p.key then
        .consult t (p.call .path [] []) fun outcome =>
          (outcome.bind (selection t p.key)).map Reply.data
      else .answer t (.ok (some (selectionValue none))) := by
  rw [serve, hr]
  by_cases h : p.key ∈ t <;> simp [Operation.plan, h, Plan.map, Except.map, Reply.data]

theorem data_eq_selected_iff (t : SessionTable) (key : String) (outcome : Outcome)
    (fp : Fingerprint) :
    (outcome.bind (selection t key)).map Reply.data = .ok (some (selectionValue (some fp)))
      ↔ (∃ results, outcome = .ok results ∧ Names fp results) ∧ (t.resolve key fp).isSome := by
  cases outcome with
  | error e => simp [Except.bind, Except.map]
  | ok results =>
    simp only [Except.bind, Except.ok.injEq, exists_eq_left', ← selection_eq_selected_iff]
    cases h : selection t key results with
    | error e => simp [Except.map]
    | ok reply =>
      cases reply with
      | done => exact absurd h (selection_ne_done t key results)
      | selected named => simp [Except.map, Reply.data, selectionValue_inj]

theorem data_of_no_fingerprint (t : SessionTable) (key : String) (outcome : Outcome)
    (h : ∀ fp, (outcome.bind (selection t key)).map Reply.data
      ≠ .ok (some (selectionValue (some fp)))) :
    (outcome.bind (selection t key)).map Reply.data = .ok (some (selectionValue none)) ∨
      ∃ e, (outcome.bind (selection t key)).map Reply.data = .error e := by
  cases hs : outcome.bind (selection t key) with
  | error e => exact Or.inr ⟨e, rfl⟩
  | ok reply =>
    cases reply with
    | done =>
      cases outcome with
      | error e => cases hs
      | ok results => exact absurd hs (selection_ne_done t key results)
    | selected named =>
      cases named with
      | none => exact Or.inl rfl
      | some fp => exact absurd (by rw [hs]; rfl) (h fp)

/-- After any run against any script, a question for the path is answered with a fingerprint
exactly if the pair's session is open, the script's answer names the fingerprint and it is live;
all else is answered without a fingerprint, or with an error. Without an open session the script
is not asked. The sessions are those that the accepted operations say, whatever the script made
of its calls. -/
theorem path_answer_exact (script : Call → μ → Outcome × μ) (m : μ) (acts : List Act)
    (r : Request) (p : Pair) (hr : Operation.ofRequest r = .ok (p, .path)) :
    let s := State.run script ⟨∅, m⟩ acts
    let history := accepted acts
    let question := p.call .path [] []
    (∀ fp, s.answer script r = .ok (some (selectionValue (some fp))) ↔
      history.Opened p.key ∧
      (∃ results, (script question s.script).1 = .ok results ∧ Names fp results) ∧
      history.Live p.key fp) ∧
    ((∀ fp, s.answer script r ≠ .ok (some (selectionValue (some fp)))) →
      s.answer script r = .ok (some (selectionValue none)) ∨
        ∃ e, s.answer script r = .error e) ∧
    (history.Opened p.key → (serve s.sessions r).call? = some question) ∧
    (¬history.Opened p.key → (serve s.sessions r).call? = none) ∧
    (∀ key, s.sessions.contains key ↔ history.Opened key) ∧
    (∀ key fp, (s.sessions.resolve key fp).isSome ↔ history.Live key fp) ∧
    ∀ {ν : Type} (other : Call → ν → Outcome × ν) (n : ν),
      (State.run other ⟨∅, n⟩ acts).sessions = s.sessions := by
  intro s history question
  have hs : s.sessions = history.sessions := State.run_sessions script m acts
  have hopen (key : String) : s.sessions.contains key ↔ history.Opened key := by
    rw [hs, History.contains_sessions]
  have hlive (key : String) (fp : Fingerprint) :
      (s.sessions.resolve key fp).isSome ↔ history.Live key fp := by
    rw [hs, History.isSome_resolve_sessions]
  -- all clauses are read off the plan of the question
  have hserve := serve_path hr s.sessions
  refine ⟨?_, ?_, ?_, ?_, hopen, hlive, fun other n => (State.run_sessions other n acts).trans hs.symm⟩
  · intro fp
    rw [State.answer, hserve, ← hopen, ← hlive]
    split
    · rename_i h
      simp only [Plan.run, data_eq_selected_iff, h, true_and]
      exact Iff.rfl
    · rename_i h
      simp [Plan.run, h, selectionValue_inj]
  · rw [State.answer, hserve]
    split
    · exact data_of_no_fingerprint s.sessions p.key _
    · intro _
      exact Or.inl rfl
  · intro h
    rw [hserve, if_pos ((hopen p.key).mpr h)]
    rfl
  · intro h
    rw [hserve, if_neg (mt (hopen p.key).mp h)]
    rfl

def sampleRequest (method : Method) (m : Message) : Request :=
  .make 1 service method.name { m with localAddress := some "a", remoteAddress := some "b" }

def samplePath (fp : Fingerprint) : WirePath := ⟨"here", "there", none, fp, 0⟩

def sampleRefresh : Request :=
  sampleRequest .refresh { Message.empty with paths := some [samplePath "A", samplePath "B"] }

def samplePathDown : Request :=
  sampleRequest .pathDown
    { Message.empty with fingerprint := some "A", interface := some ⟨"1-1", 2⟩ }

def sampleScript (c : Call) (_ : Unit) : Outcome × Unit :=
  (if c.function = Method.path.name then .ok [.text "B"] else .error (.policy "raised"), ())

set_option maxRecDepth 4096 in
theorem path_answer_exact_sample :
    Operation.ofRequest (sampleRequest .path .empty) = .ok (⟨"a", "b"⟩, .path) ∧
    (State.run sampleScript ⟨∅, ()⟩ [.request sampleRefresh, .request samplePathDown]).answer
      sampleScript (sampleRequest .path .empty) = .ok (some (selectionValue (some "B"))) := by
  have hr : Operation.ofRequest (sampleRequest .path .empty) = .ok (⟨"a", "b"⟩, .path) := by rfl
  have hrefresh : Operation.ofRequest sampleRefresh = .ok (⟨"a", "b"⟩,
      .refresh [⟨"here", "there", none, "A", ⟨0⟩⟩, ⟨"here", "there", none, "B", ⟨0⟩⟩]) := by rfl
  have hdown : Operation.ofRequest samplePathDown
      = .ok (⟨"a", "b"⟩, .pathDown "A" ⟨"1-1", 2⟩) := by rfl
  refine ⟨hr, ((path_answer_exact sampleScript () _ _ _ hr).1 "B").mpr ⟨?_, ?_, ?_⟩⟩
  · simp only [accepted, Act.accepted?, List.filterMap_cons, hrefresh, hdown, Except.toOption]
    exact ⟨[], _, _, rfl, ⟨rfl, trivial⟩, by simp⟩
  · exact ⟨[.text "B"], rfl, Or.inl rfl⟩
  · simp only [accepted, Act.accepted?, List.filterMap_cons, hrefresh, hdown, Except.toOption]
    exact ⟨[], _, _, rfl, ⟨rfl, _, rfl, by simp⟩, by simp [Operation.Spares, Operation.listed?]⟩

end PathPolicy.Selector
