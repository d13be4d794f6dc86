import PathPolicy.Proofs.Selector.History
import PathPolicy.Daemon

/-!
Sessions do not interfere. What the daemon answers to the requests about one session, and what it
keeps of that session, is what a selector does that serves these requests alone, with the outcomes
that the script gave to their calls. Nothing else in a run has any part in it.
-/
namespace PathPolicy.Script
variable {σ τ ρ : Type}

/-- Two plans that come to the same, but for their tables, which are related. -/
inductive Plan.Alike (related : σ → τ → Prop) : Plan σ ρ → Plan τ ρ → Prop
  | answer {s : σ} {t : τ} (h : related s t) (result : ρ) :
    Alike related (.answer s result) (.answer t result)
  | consult {s : σ} {t : τ} (h : related s t) (call : Call) (finish : Outcome → ρ) :
    Alike related (.consult s call finish) (.consult t call finish)

theorem Plan.Alike.map {ρ' : Type} {related : σ → τ → Prop} {p : Plan σ ρ} {q : Plan τ ρ}
    (h : p.Alike related q) (f : ρ → ρ') : (p.map f).Alike related (q.map f) := by
  cases h with
  | answer h result => exact .answer h (f result)
  | consult h call finish => exact .consult h call fun outcome => f (finish outcome)

theorem Plan.Alike.within {σ' : Type} {related : σ → τ → Prop} {related' : σ' → τ → Prop}
    {p : Plan σ ρ} {q : Plan τ ρ} (h : p.Alike related q) {place : σ → σ'}
    (hplace : ∀ s t, related s t → related' (place s) t) : (p.within place).Alike related' q := by
  cases h with
  | answer h result => exact .answer (hplace _ _ h) result
  | consult h call finish => exact .consult (hplace _ _ h) call finish

end PathPolicy.Script

namespace PathPolicy.Selector
open Script

def SameAt (key : String) (s t : SessionTable) : Prop := s[key]? = t[key]?

/-- The pair that a request's message gives, if it can be read and gives both addresses. -/
def pair? (r : Request) : Option Pair :=
  match r.payload Message.empty with
  | .ok m => m.pair.toOption
  | .error _ => none

def Concerns (key : String) (r : Request) : Prop := (pair? r).map Pair.key = some key

instance (key : String) (r : Request) : Decidable (Concerns key r) :=
  inferInstanceAs (Decidable (_ = _))

theorem pair_of_ofMessage {method : Method} {m : Message} {p : Pair} {operation : Operation}
    (h : Operation.ofMessage method m = .ok (p, operation)) : m.pair = .ok p := by
  cases hp : m.pair with
  | error e =>
    simp only [Operation.ofMessage, hp, bind, Except.bind] at h
    cases h
  | ok q =>
    simp only [Operation.ofMessage, hp, bind, Except.bind] at h
    cases method with
    | initialise | refresh => cases hc : Operation.candidates m <;> rw [hc] at h <;> cases h; rfl
    | setPreferences | path | close =>
      cases h
      rfl
    | pathDown =>
      cases hf : required m.fingerprint "fingerprint" <;> rw [hf] at h
      · cases h
      · cases hi : required m.interface "path_interface" <;> simp only [hi] at h <;> cases h
        rfl

theorem concerns_of_ofRequest {r : Request} {p : Pair} {operation : Operation}
    (h : Operation.ofRequest r = .ok (p, operation)) (key : String) :
    Concerns key r ↔ p.key = key := by
  simp only [Operation.ofRequest, bind, Except.bind] at h
  cases hmethod : Method.ofName r.method with
  | error e =>
    rw [hmethod] at h
    cases h
  | ok method =>
    simp only [hmethod] at h
    cases hpayload : r.payload Message.empty with
    | error e =>
      rw [hpayload] at h
      cases h
    | ok m =>
      simp only [hpayload] at h
      simp [Concerns, pair?, hpayload, pair_of_ofMessage h, Except.toOption]

theorem sameAt_resolve {key : String} {s t : SessionTable} (h : SameAt key s t) :
    selection s key = selection t key := by
  funext results
  simp only [selection, SessionTable.resolve, show s[key]? = t[key]? from h]

theorem Operation.plan_alike {p : Pair} {s t : SessionTable} (h : SameAt p.key s t)
    (operation : Operation) :
    (operation.plan p s).Alike (SameAt p.key) (operation.plan p t) := by
  have htables : SameAt p.key (operation.plan p s).tables (operation.plan p t).tables := by
    rw [SameAt, getElem?_tables_plan, getElem?_tables_plan, show s[p.key]? = t[p.key]? from h]
  have hcontains : s.contains p.key = t.contains p.key := by
    rw [Std.ExtTreeMap.contains_eq_isSome_getElem?, Std.ExtTreeMap.contains_eq_isSome_getElem?,
      show s[p.key]? = t[p.key]? from h]
  cases operation with
  | initialise _ _ | setPreferences _ | pathDown _ _ | refresh _ =>
    exact .consult htables _ _
  | path =>
    rw [plan, plan, hcontains, sameAt_resolve h]
    split
    · exact .consult h _ _
    · exact .answer h _
  | close =>
    rw [plan, plan, hcontains] at htables ⊢
    split
    next hopen =>
      rw [if_pos hopen, if_pos hopen] at htables
      exact .consult htables _ _
    · exact .answer h _

theorem serve_alike {key : String} {r : Request} (hr : Concerns key r) {s t : SessionTable}
    (h : SameAt key s t) : (serve s r).Alike (SameAt key) (serve t r) := by
  rw [serve, serve]
  cases haccepted : Operation.ofRequest r with
  | error e => exact .answer h _
  | ok entry =>
    obtain ⟨p, operation⟩ := entry
    obtain rfl := (concerns_of_ofRequest haccepted key).mp hr
    exact (Operation.plan_alike h operation).map _

theorem sameAt_tables_serve {key : String} {r : Request} (hr : ¬Concerns key r)
    (t : SessionTable) : SameAt key (serve t r).tables t := by
  rw [serve]
  cases haccepted : Operation.ofRequest r with
  | error e => rfl
  | ok entry =>
    obtain ⟨p, operation⟩ := entry
    have hp : p.key ≠ key := fun hkey => hr ((concerns_of_ofRequest haccepted key).mpr hkey)
    simp only [SameAt, Plan.tables_map, Operation.getElem?_tables_plan, if_neg hp]

def answer (t : SessionTable) (r : Request) : Plan SessionTable Response :=
  (serve t r).map (Response.ofResult r.id)

/-- Serves requests alone. The calls that they make have the given outcomes, one after the other;
without an outcome for a call nothing more is served. -/
def replay : SessionTable → List Request → List Outcome → List Response × SessionTable
  | t, [], _ => ([], t)
  | t, r :: requests, outcomes =>
    match answer t r, outcomes with
    | .answer t response, outcomes =>
      let (responses, t) := replay t requests outcomes
      (response :: responses, t)
    | .consult t _ finish, outcome :: outcomes =>
      let (responses, t) := replay t requests outcomes
      (finish outcome :: responses, t)
    | .consult t _ _, [] => ([], t)

end PathPolicy.Selector

namespace PathPolicy.Daemon
open Script Selector

/-- What happens at the daemon: a frame's body arrives, whoever sent it, or the daemon calls the
script on its own account. -/
inductive Event
  | arrival (body : Bytes)
  | ownCall (c : Call)

def Event.request? (key : String) : Event → Option Request
  | .arrival body =>
    match Request.parse body with
    | .ok r => if r.service = Selector.service ∧ Concerns key r then some r else none
    | .error _ => none
  | .ownCall _ => none

def requestsAt (key : String) (events : List Event) : List Request :=
  events.filterMap (Event.request? key)

/-- What follows from an event: the response, if there is one, the script's outcome, if it was
called, and the state. -/
structure Aftermath (μ : Type) where
  response : Option Response
  outcome : Option Outcome
  state : State μ

variable {μ ν : Type}

def State.step (script : Call → μ → Outcome × μ) (d : State μ) : Event → Aftermath μ
  | .arrival body =>
    let plan := respond d.tables body
    let (response, tables, m) := plan.run script d.script
    ⟨some response, plan.call?.map fun c => (script c d.script).1, ⟨tables, m⟩⟩
  | .ownCall c =>
    let (outcome, m) := script c d.script
    ⟨none, some outcome, { d with script := m }⟩

def State.run (script : Call → μ → Outcome × μ) (d : State μ) (events : List Event) : State μ :=
  events.foldl (fun d event => (d.step script event).state) d

def State.aftermaths (script : Call → μ → Outcome × μ) (key : String) :
    State μ → List Event → List (Aftermath μ)
  | _, [] => []
  | d, event :: events =>
    let now := d.step script event
    let later := State.aftermaths script key now.state events
    if (event.request? key).isSome then now :: later else later

def State.responsesAt (script : Call → μ → Outcome × μ) (key : String) (d : State μ)
    (events : List Event) : List Response :=
  (d.aftermaths script key events).filterMap Aftermath.response

def State.outcomesAt (script : Call → μ → Outcome × μ) (key : String) (d : State μ)
    (events : List Event) : List Outcome :=
  (d.aftermaths script key events).filterMap Aftermath.outcome

theorem respond_of_request? {key : String} {body : Bytes} {r : Request}
    (h : Event.request? key (.arrival body) = some r) (t : Tables) :
    Concerns key r ∧ respond t body =
      (answer t.sessions r).within fun sessions => { t with sessions } := by
  simp only [Event.request?] at h
  split at h
  next hparse =>
    split at h
    next hr =>
      cases h
      refine ⟨hr.2, ?_⟩
      simp only [respond, hparse, dispatch, if_pos hr.1, answer]
      cases serve t.sessions r <;> rfl
    next => cases h
  next => cases h

theorem sameAt_step (script : Call → μ → Outcome × μ) {key : String} {event : Event}
    (h : event.request? key = none) (d : State μ) :
    SameAt key (d.step script event).state.tables.sessions d.tables.sessions := by
  cases event with
  | ownCall c => rfl
  | arrival body =>
    simp only [State.step, Plan.tables_run, respond]
    simp only [Event.request?] at h
    split
    next => rfl
    next r hparse =>
      rw [hparse] at h
      simp only [Plan.tables_map, dispatch]
      split
      next hservice =>
        rw [Plan.tables_within]
        refine sameAt_tables_serve (fun hr => ?_) d.tables.sessions
        simp [hservice, hr] at h
      next =>
        split
        · rw [Plan.tables_within]
          rfl
        · rfl

theorem replay_step (script : Call → μ → Outcome × μ) {key : String} {event : Event} {r : Request}
    (h : event.request? key = some r) {d : State μ} {t : SessionTable}
    (ht : SameAt key d.tables.sessions t) (requests : List Request) (outcomes : List Outcome) :
    let now := d.step script event
    ∃ response t', now.response = some response ∧ SameAt key now.state.tables.sessions t' ∧
      replay t (r :: requests) (now.outcome.toList ++ outcomes) =
        (response :: (replay t' requests outcomes).1, (replay t' requests outcomes).2) := by
  intro now
  cases event with
  | ownCall c => cases h
  | arrival body =>
    obtain ⟨hr, hrespond⟩ := respond_of_request? h d.tables
    have halike := (serve_alike hr ht).map (Response.ofResult r.id)
    simp only [now, State.step, hrespond, replay]
    change (answer d.tables.sessions r).Alike (SameAt key) (answer t r) at halike
    revert halike
    generalize answer d.tables.sessions r = p
    generalize answer t r = q
    intro halike
    cases halike with
    | answer h response => exact ⟨response, _, rfl, h, rfl⟩
    | consult h call finish => exact ⟨_, _, rfl, h, rfl⟩

/-- A run answers the requests about the session, and leaves the session, as if they were served
alone. -/
theorem replay_run (script : Call → μ → Outcome × μ) (key : String) (events : List Event)
    (d : State μ) (t : SessionTable) (ht : SameAt key d.tables.sessions t) :
    let alone := replay t (requestsAt key events) (d.outcomesAt script key events)
    d.responsesAt script key events = alone.1 ∧
      SameAt key (d.run script events).tables.sessions alone.2 := by
  -- the states themselves need not agree, only their sessions under the key
  induction events generalizing d t with
  | nil => exact ⟨rfl, ht⟩
  | cons event events ih =>
    cases h : event.request? key with
    | none =>
      have hnext := ih (d.step script event).state t ((sameAt_step script h d).trans ht)
      simpa [requestsAt, State.responsesAt, State.outcomesAt, State.aftermaths, State.run, h]
        using hnext
    | some r =>
      obtain ⟨response, t', hresponse, ht', hreplay⟩ := replay_step script h ht
        (requestsAt key events) ((d.step script event).state.outcomesAt script key events)
      obtain ⟨hresponses, hsession⟩ := ih (d.step script event).state t' ht'
      have houtcomes : d.outcomesAt script key (event :: events) =
          (d.step script event).outcome.toList ++
            (d.step script event).state.outcomesAt script key events := by
        cases ho : (d.step script event).outcome <;>
          simp [State.outcomesAt, State.aftermaths, h, ho]
      have hrequests : requestsAt key (event :: events) = r :: requestsAt key events := by
        simp [requestsAt, h]
      rw [houtcomes, hrequests, hreplay]
      refine ⟨?_, hsession⟩
      rw [← hresponses]
      simp [State.responsesAt, State.aftermaths, h, hresponse]

/-- Two runs, of any lengths, in states of any kind and against scripts of any kind, that begin
with the same session under the key, if any, and have the same requests about it, with the same
outcomes of the calls that were made for them: the responses to these requests are the same, and so
is the session in the end, whatever else happened in either run. -/
theorem sessions_do_not_interfere (key : String) (script : Call → μ → Outcome × μ)
    (other : Call → ν → Outcome × ν) (d : State μ) (e : State ν) (events others : List Event)
    (hstart : d.tables.sessions[key]? = e.tables.sessions[key]?)
    (hrequests : requestsAt key events = requestsAt key others)
    (houtcomes : d.outcomesAt script key events = e.outcomesAt other key others) :
    d.responsesAt script key events = e.responsesAt other key others ∧
      (d.run script events).tables.sessions[key]? = (e.run other others).tables.sessions[key]? := by
  obtain ⟨hresponses, hsession⟩ := replay_run script key events d e.tables.sessions hstart
  obtain ⟨hresponses', hsession'⟩ := replay_run other key others e e.tables.sessions rfl
  rw [hresponses, hresponses', ← hrequests, ← houtcomes]
  rw [← hrequests, ← houtcomes] at hsession'
  exact ⟨rfl, hsession.trans hsession'.symm⟩

def sampleArrival (localAddress : String) (method : Method) : Event :=
  .arrival (Json.encode (Request.make 1 Selector.service method.name
    (Message.ofPair ⟨localAddress, "b"⟩)))

def raisingScript (_ : Call) (m : Unit) : Outcome × Unit := (.error (.policy "raised"), m)

def pickyScript (c : Call) (m : Nat) : Outcome × Nat :=
  match c.args with
  | .text "a" :: _ => (.error (.policy "raised"), m + 1)
  | _ => (.ok [.text "x"], m + 1)

set_option maxRecDepth 8192 in
/-- A session is opened and asked for its path, once undisturbed, and once between another session's
requests, a malformed body and a call of the daemon's own. -/
theorem sessions_do_not_interfere_sample :
    let d : State Unit := ⟨.start, ()⟩
    let e : State Nat := ⟨.start, 0⟩
    let events := [sampleArrival "a" .refresh, sampleArrival "a" .path]
    let others := [sampleArrival "x" .refresh, sampleArrival "a" .refresh, .arrival [123],
      .ownCall (periodicCall 5), sampleArrival "x" .close, sampleArrival "a" .path]
    requestsAt "a b" events = requestsAt "a b" others ∧
      d.outcomesAt raisingScript "a b" events = e.outcomesAt pickyScript "a b" others ∧
      d.responsesAt raisingScript "a b" events = e.responsesAt pickyScript "a b" others := by
  intro d e events others
  have hrequests : requestsAt "a b" events = requestsAt "a b" others := by rfl
  have houtcomes : d.outcomesAt raisingScript "a b" events
      = e.outcomesAt pickyScript "a b" others := by rfl
  exact ⟨hrequests, houtcomes, (sessions_do_not_interfere "a b" raisingScript pickyScript d e
    events others rfl hrequests houtcomes).1⟩

end PathPolicy.Daemon
