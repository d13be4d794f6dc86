import PathPolicy.Proofs.Client.Agreement
import PathPolicy.Proofs.Client.Fallback
import PathPolicy.Proofs.Daemon.Log
import PathPolicy.Proofs.Selector.Calls
import PathPolicy.Proofs.Wire.Rejection

/-!
What a client leaves behind. The daemon keeps a session for each pair, but a client has one pair at
a time: when it starts anew with another pair, nobody closes the session of the one that it had.
-/
namespace PathPolicy.Client
open Json Script Daemon
open PathPolicy.Selector (Pair Method Message SessionTable)

/-! ### Calls that are answered -/

/-- The request of a call is sent, and a response under its id arrives while the stream goes on. -/
def Answered {π α : Type} [Codable α] (peer : Peer π) (c : Channel) (p : π)
    (service method : String) (data : α) : Prop :=
  ∃ sent after, c.send service method data = (.ok sent, after) ∧
    (peer.receive sent.frame p).2.1 = false ∧
    (after.receive (some sent.id) (peer.receive sent.frame p).1).1.isSome

variable {μ : Type}

theorem frameOf_cases (limit : Nat) (r : Response) :
    frameOf limit r = none ∨ ∃ body, body.length < UInt32.size ∧
      frameOf limit r = some (Frame.header body.length ++ body) := by
  cases hframe : frameOf limit r with
  | none => exact .inl rfl
  | some frame =>
    rw [frameOf] at hframe
    split at hframe
    next found hfound =>
      cases hframe
      obtain ⟨-, hsize, rfl⟩ := Frame.eq_of_encode hfound
      exact .inr ⟨_, hsize, rfl⟩
    next e _ =>
      cases hsubstitute : Frame.encode limit (encode (Response.failure r.id e)) with
      | error e' => rw [hsubstitute] at hframe; cases hframe
      | ok found =>
        rw [hsubstitute] at hframe
        cases hframe
        obtain ⟨-, hsize, rfl⟩ := Frame.eq_of_encode hsubstitute
        exact .inr ⟨_, hsize, rfl⟩

theorem fits_of_going (host : Host μ) {limit : Nat} {p : Served μ} (hp : p.connection = .opened)
    {body : Bytes} (hsize : body.length < UInt32.size)
    (hgoing : ((daemonPeer host limit).receive (Frame.header body.length ++ body) p).2.1 = false) :
    Frame.Fits limit body := by
  by_contra hnot
  obtain ⟨fault, hdrain⟩ := Frame.drain_of_not_fits hsize hnot
  have hopen : ¬Connection.opened.closed = true := by simp [Connection.opened]
  simp only [daemonPeer, hp, Connection.receive, if_neg hopen] at hgoing
  simp [Connection.opened, hdrain] at hgoing

theorem receive_of_isSome {c : Channel} (hgoing : c.closed = false) (hbuffer : c.buffer = [])
    {limit : Nat} {r : Response} {id : UInt64}
    (h : (c.receive (some id) (frameOf limit r).toList.flatten).1.isSome) :
    (c.receive (some id) (frameOf limit r).toList.flatten).2 = c := by
  obtain ⟨nextId, issued, climit, buffer, closed⟩ := c
  cases hgoing
  cases hbuffer
  rcases frameOf_cases limit r with hnone | ⟨body, hsize, hframe⟩
  · have hdrain : Frame.drain climit [] = ⟨[], [], none⟩ := Frame.drain_of_partially rfl
    simp [hnone, Channel.receive, hdrain, Channel.responseAmong] at h
  · rw [hframe] at h ⊢
    by_cases hfits : Frame.Fits climit body
    · simp [Channel.receive, Frame.drain_of_fits hfits]
    · obtain ⟨fault, hdrain⟩ := Frame.drain_of_not_fits hsize hfits
      simp [Channel.receive, hdrain, Channel.responseAmong] at h

theorem call_of_answered {α : Type} [Codable α] (host : Host μ) {limit : Nat} {c : Channel}
    {p : Served μ} (h : Idle c p) {service method : String} {data : α}
    (hanswered : Answered (daemonPeer host limit) c p service method data) :
    (c.call (daemonPeer host limit) p service method data).2
      = ({ c with nextId := c.nextId + 1, issued := c.issued + 1 },
        ⟨.opened, (p.daemon.step host.call
          (.arrival (encode (Request.make c.nextId service method data)))).state⟩) := by
  obtain ⟨sent, after, hsend, hgoing, hreceived⟩ := hanswered
  have hclient : Frame.Fits c.limit (encode (Request.make c.nextId service method data)) := by
    by_contra hnot
    obtain ⟨e, -, he⟩ := Frame.encode_of_not_fits hnot
    rw [Channel.send, he] at hsend
    cases hsend
  rw [send_of_fits h.going hclient] at hsend
  cases hsend
  have hdaemon := fits_of_going host h.connection hclient.2 hgoing
  rw [receive_request host h.connection hdaemon] at hreceived
  have hafter := @receive_of_isSome
    { c with nextId := c.nextId + 1, issued := c.issued + 1 } h.going h.nothingLeft _ _ _ hreceived
  simp only [Channel.call, send_of_fits h.going hclient, receive_request host h.connection hdaemon]
  exact Prod.ext hafter rfl

/-! ### Moves -/

namespace Operation

def leaves (current : Option Pair) : Operation → Option Pair
  | .initialise pair _ => some pair
  | .setPreferences _ | .path | .tryPath | .pathDown _ _ | .refresh _ => current
  | .close => none

/-- The operation brings a session about, if its message can be read. -/
def Opens : Operation → Prop
  | .initialise _ _ | .setPreferences _ | .refresh _ => True
  | .path | .tryPath | .pathDown _ _ | .close => False

def Readable (o : Operation) : Prop := ∀ p ∈ o.paths, p.FiniteCoordinates

theorem opens_served (preferences : Texts) (o : Operation) :
    (o.served preferences).Opens ↔ o.Opens := by
  cases o <;> rfl

theorem served_eq_close (preferences : Texts) (o : Operation) :
    o.served preferences = .close ↔ o = .close := by
  cases o <;> simp [served]

end Operation

structure Move where
  current : Option Pair
  operation : Operation

namespace Move

def Concerns (key : String) (m : Move) : Prop :=
  (m.operation.about m.current).map Pair.key = some key

instance (key : String) (m : Move) : Decidable (m.Concerns key) :=
  inferInstanceAs (Decidable (_ = some key))

def Opens (key : String) (m : Move) : Prop :=
  m.Concerns key ∧ m.operation.Opens ∧ m.operation.Readable

def Closes (key : String) (m : Move) : Prop := m.Concerns key ∧ m.operation = .close

/-- The client, with a pair of this key, starts anew with a pair of another key. -/
def Abandons (key : String) (m : Move) : Prop :=
  m.current.map Pair.key = some key ∧
    ∃ pair paths, m.operation = .initialise pair paths ∧ pair.key ≠ key

def Starts (key : String) (m : Move) : Prop :=
  ∃ pair paths, m.operation = .initialise pair paths ∧ pair.key = key

def ofActs : Option Pair → List Act → List Move
  | _, [] => []
  | current, .own o :: acts => ⟨current, o⟩ :: ofActs (o.leaves current) acts
  | current, .foreign _ :: acts => ofActs current acts

end Move

theorem Occasion.pair_after (x : Occasion) : x.after.pair = x.operation.leaves x.before.pair := by
  obtain ⟨s, o, outcome⟩ := x
  have hasks (ho : o.Asks) : (⟨s, o, outcome⟩ : Occasion).after.pair = s.pair := by
    cases hpair : s.pair with
    | none => rw [after_asks_of_none ho hpair, hpair]
    | some pair =>
      cases outcome with
      | error e => rw [after_asks_of_error ho, hpair]
      | ok reply => rw [after_asks_of_reply ho hpair, (s.sameTable_select reply).pair, hpair]
  cases o with
  | initialise pair paths => rfl
  | setPreferences preferences =>
    rw [after_setPreferences]
    rfl
  | path => exact hasks (.inl rfl)
  | tryPath => exact hasks (.inr rfl)
  | pathDown down interface =>
    rw [after_pathDown]
    rfl
  | refresh paths =>
    rw [after_refresh]
    rfl
  | close =>
    rw [after_close]
    rfl

namespace World
variable {host : Host μ} {limit : Nat} {w : World μ}

def Answers (host : Host μ) (limit : Nat) (w : World μ) : Step → Prop
  | .silent _ _ => True
  | .ask _ method message _ => Answered (daemonPeer host limit) w.channel w.served
      PathPolicy.Selector.service method.name message

theorem pair_own (w : World μ) (o : Operation) :
    (w.step host limit (.own o)).client.pair = o.leaves w.client.pair := by
  have hafter := (w.client.run_eq_settle (daemonPeer host limit) w.channel w.served o).2
  exact (congrArg Selector.pair hafter).trans (Occasion.pair_after _)

section Request
variable {o : Operation} {t : Selector} {method : Method} {message : Message}
  {finish : Except Fault Message → Selector × Except Fault (Option Path)}

theorem ofBody_of_readable (hstep : w.client.step o = .ask t method message finish)
    (h : o.Readable) : ∃ pair, o.about w.client.pair = some pair ∧
      Daemon.Operation.ofBody (w.request method message)
        = some (.session pair (o.served w.client.preferences)) := by
  have htells := tells_step w.client h
  rw [hstep] at htells
  cases htells with
  | @ask _ _ _ _ pair hpair hfinite hmessage _ =>
    refine ⟨pair, hpair, Daemon.Operation.ofBody_eq_session_iff.mpr
      ⟨Request.make w.channel.nextId PathPolicy.Selector.service method.name message, ?_, rfl, ?_⟩⟩
    · exact Request.parse_encode_make (PathPolicy.Selector.written_message message)
        (opens_record Message.record message) _ _ _
    · exact (ofRequest_make hfinite _).trans hmessage

theorem not_finiteCoordinates (hstep : w.client.step o = .ask t method message finish)
    (h : ¬o.Readable) : ¬message.FiniteCoordinates := by
  have hpaths {m : Message} {paths : List Path} (hm : m.paths = Selector.wirePaths paths)
      (hinfinite : ¬∀ p ∈ paths, p.FiniteCoordinates) : ¬m.FiniteCoordinates := by
    intro hfinite
    refine hinfinite fun p hp => .of_toWire ?_
    exact hfinite _ hm _ (List.mem_map_of_mem hp)
  cases o with
  | initialise pair paths =>
    cases hstep
    exact hpaths rfl h
  | refresh paths =>
    rw [Selector.step, Selector.tellPair] at hstep
    split at hstep
    · cases hstep
    · cases hstep
      exact hpaths rfl h
  | setPreferences _ | path | tryPath | pathDown _ _ | close =>
    exact absurd (by rintro p ⟨⟩) h

theorem ofBody_of_unreadable (hstep : w.client.step o = .ask t method message finish)
    (h : ¬o.Readable) : Daemon.Operation.ofBody (w.request method message) = none := by
  have hparse : Request.parse (w.request method message) = .ok _ :=
    Request.parse_encode_make (PathPolicy.Selector.written_message message)
      (opens_record Message.record message) _ _ _
  rw [Daemon.Operation.ofBody, hparse]
  dsimp only
  rw [if_pos (by rfl)]
  split
  next hrequest =>
    exact absurd hrequest
      (PathPolicy.Selector.ofRequest_ne_ok (not_finiteCoordinates hstep h) _ _ _ _)
  · rfl

end Request

def HasSession (key : String) (w : World μ) : Prop :=
  w.served.daemon.tables.sessions.contains key

instance (key : String) (w : World μ) : Decidable (w.HasSession key) :=
  inferInstanceAs (Decidable (_ = true))

/-- The daemon has a session after the move, which opens one, or does not close the one before. -/
def HasAfter (key : String) (w : World μ) (o : Operation) : Prop :=
  Move.Opens key ⟨w.client.pair, o⟩ ∨ ¬Move.Closes key ⟨w.client.pair, o⟩ ∧ w.HasSession key

theorem hasAfter_of_unconcerned {key : String} {o : Operation}
    (h : o.Readable → ¬Move.Concerns key ⟨w.client.pair, o⟩) :
    w.HasAfter key o ↔ w.HasSession key := by
  have hopens : ¬Move.Opens key ⟨w.client.pair, o⟩ := fun hopens => h hopens.2.2 hopens.1
  have hcloses : ¬Move.Closes key ⟨w.client.pair, o⟩ := by
    rintro ⟨hconcerns, rfl⟩
    exact h (by rintro p ⟨⟩) hconcerns
  simp [HasAfter, hopens, hcloses]

theorem hasAfter_of_about {key : String} {o : Operation} {pair : Pair}
    (hreadable : o.Readable) (hpair : o.about w.client.pair = some pair) :
    w.HasAfter key o ↔ if pair.key = key then o.Opens ∨ o ≠ .close ∧ w.HasSession key
      else w.HasSession key := by
  split <;> rename_i hkey <;>
    simp [HasAfter, Move.Opens, Move.Closes, Move.Concerns, hpair, hkey, hreadable]

theorem contains_request {o : Operation} {t : Selector} {method : Method} {message : Message}
    {finish : Except Fault Message → Selector × Except Fault (Option Path)}
    (hstep : w.client.step o = .ask t method message finish) (key : String) :
    (w.served.daemon.step host.call
      (.arrival (w.request method message))).state.tables.sessions.contains key
        ↔ w.HasAfter key o := by
  rw [tables_step, Event.operation?]
  by_cases hreadable : o.Readable
  · obtain ⟨pair, hpair, hbody⟩ := ofBody_of_readable hstep hreadable
    rw [hbody, hasAfter_of_about hreadable hpair, ← o.opens_served w.client.preferences, ne_eq,
      ← o.served_eq_close w.client.preferences]
    exact PathPolicy.Selector.Operation.contains_tables_plan pair _ _ key
  · rw [ofBody_of_unreadable hstep hreadable]
    exact (hasAfter_of_unconcerned fun h => absurd h hreadable).symm

theorem step_answered (hidle : Idle w.channel w.served) {o : Operation}
    (hanswers : w.Answers host limit (w.client.step o)) (key : String) :
    Idle (w.step host limit (.own o)).channel (w.step host limit (.own o)).served ∧
      ((w.step host limit (.own o)).HasSession key ↔ w.HasAfter key o) := by
  cases hstep : w.client.step o with
  | silent t result =>
    simp only [World.step, Selector.run, hstep]
    have hsame : w.HasAfter key o ↔ w.HasSession key := by
      refine hasAfter_of_unconcerned fun hreadable hconcerns => ?_
      have htells := tells_step w.client hreadable
      rw [hstep] at htells
      cases htells with
      | silent hnone _ => simp [Move.Concerns, hnone] at hconcerns
    exact ⟨hidle, hsame.symm⟩
  | ask t method message finish =>
    rw [hstep] at hanswers
    have hcall := call_of_answered host hidle hanswers
    generalize hcalled : w.channel.call (daemonPeer host limit) w.served
      PathPolicy.Selector.service method.name message = called at hcall
    obtain ⟨outcome, c, p⟩ := called
    cases hcall
    simp only [World.step, Selector.run, hstep, hcalled]
    exact ⟨⟨hidle.going, hidle.nothingLeft, rfl⟩, contains_request hstep key⟩

/-! ### Runs -/

def AllAnswered (host : Host μ) (limit : Nat) : World μ → List Act → Prop
  | _, [] => True
  | w, act :: acts => (∀ o, act = .own o → w.Answers host limit (w.client.step o)) ∧
      AllAnswered host limit (w.step host limit act) acts

/-- What a client's moves say of a session. -/
structure Accounted (key : String) (atFirst : Prop) (moves : List Move) (w : World μ) : Prop where
  idle : Idle w.channel w.served
  session : w.HasSession key ↔ Since (Move.Opens key) (fun m => ¬m.Closes key) moves ∨
    (∀ m ∈ moves, ¬m.Closes key) ∧ atFirst
  kept : (∃ m ∈ moves, m.Starts key) → w.HasSession key →
    w.client.pair.map Pair.key = some key ∨
      Since (Move.Abandons key) (fun m => ¬m.Starts key) moves

theorem kept_or_abandoned {key : String} {o : Operation}
    (hpair : w.client.pair.map Pair.key = some key) (hafter : w.HasAfter key o) :
    (o.leaves w.client.pair).map Pair.key = some key ∨ Move.Abandons key ⟨w.client.pair, o⟩ := by
  -- only starting and closing change the pair
  cases o with
  | initialise pair paths =>
    by_cases hkey : pair.key = key
    · exact .inl (congrArg some hkey)
    · exact .inr ⟨hpair, pair, paths, rfl, hkey⟩
  | close =>
    rcases hafter with ⟨-, hopens, -⟩ | ⟨hcloses, -⟩
    · exact hopens.elim
    · exact absurd ⟨hpair, rfl⟩ hcloses
  | setPreferences _ | path | tryPath | pathDown _ _ | refresh _ => exact .inl hpair

theorem not_concerns {key : String} {current : Option Pair} {o : Operation}
    (hpair : current.map Pair.key ≠ some key) (hstarts : ¬Move.Starts key ⟨current, o⟩) :
    ¬Move.Concerns key ⟨current, o⟩ := by
  intro hconcerns
  cases o with
  | initialise pair paths => exact hstarts ⟨pair, paths, rfl, Option.some.inj hconcerns⟩
  | setPreferences _ | path | tryPath | pathDown _ _ | refresh _ | close => exact hpair hconcerns

theorem Accounted.own {key : String} {atFirst : Prop} {moves : List Move}
    (h : w.Accounted key atFirst moves) {o : Operation}
    (hanswers : w.Answers host limit (w.client.step o)) :
    (w.step host limit (.own o)).Accounted key atFirst (moves ++ [⟨w.client.pair, o⟩]) := by
  obtain ⟨hidle, hsession⟩ := step_answered h.idle hanswers key
  refine ⟨hidle, ?_, ?_⟩
  · rw [hsession, HasAfter, h.session, Since.append_singleton]
    simp only [List.forall_mem_append, List.forall_mem_singleton]
    tauto
  · rw [hsession, pair_own, Since.append_singleton]
    intro hstarted hafter
    by_cases hstarts : Move.Starts key ⟨w.client.pair, o⟩
    · obtain ⟨pair, paths, rfl, rfl⟩ := hstarts
      exact .inl rfl
    by_cases hpair : w.client.pair.map Pair.key = some key
    · exact (kept_or_abandoned hpair hafter).imp_right .inl
    · have hbefore : w.HasSession key :=
        (hasAfter_of_unconcerned fun _ => not_concerns hpair hstarts).mp hafter
      have hearlier : ∃ m ∈ moves, m.Starts key := by
        obtain ⟨m, hm, hkey⟩ := hstarted
        rcases List.mem_append.mp hm with hm | hm
        · exact ⟨m, hm, hkey⟩
        · exact absurd (List.mem_singleton.mp hm ▸ hkey) hstarts
      exact .inr (.inr ⟨hstarts, (h.kept hearlier hbefore).resolve_left hpair⟩)

theorem Accounted.foreign {key : String} {atFirst : Prop} {moves : List Move}
    (h : w.Accounted key atFirst moves) {e : Event} (he : e.request? key = none) :
    (w.step host limit (.foreign e)).Accounted key atFirst moves := by
  have hsame : (w.step host limit (.foreign e)).HasSession key ↔ w.HasSession key := by
    have hget := sameAt_step host.call he w.served.daemon
    simp only [HasSession, Std.ExtTreeMap.contains_eq_isSome_getElem?]
    exact Iff.of_eq (congrArg (fun session => session.isSome = true) hget)
  refine ⟨⟨h.idle.going, h.idle.nothingLeft, h.idle.connection⟩, hsame.trans h.session, ?_⟩
  exact fun hstarted hsession => h.kept hstarted (hsame.mp hsession)

theorem run_concat (host : Host μ) (limit : Nat) (w : World μ) (acts : List Act) (act : Act) :
    w.run host limit (acts ++ [act]) = (w.run host limit acts).step host limit act := by
  simp [World.run]

theorem Accounted.run {key : String} {atFirst : Prop} {acts : List Act} {w : World μ}
    {moves : List Move} (h : w.Accounted key atFirst moves) (hanswered : w.AllAnswered host limit acts)
    (hforeign : ∀ e, .foreign e ∈ acts → e.request? key = none) :
    (w.run host limit acts).Accounted key atFirst (moves ++ Move.ofActs w.client.pair acts) := by
  induction acts generalizing w moves with
  | nil => simpa [World.run, Move.ofActs] using h
  | cons act acts ih =>
    obtain ⟨hanswers, hrest⟩ := hanswered
    have hlater (e : Event) (he : .foreign e ∈ acts) := hforeign e (List.mem_cons_of_mem _ he)
    cases act with
    | own o =>
      have hrun := ih (h.own (hanswers o rfl)) hrest hlater
      rwa [pair_own, List.append_assoc] at hrun
    | foreign e => exact ih (h.foreign (hforeign e List.mem_cons_self)) hrest hlater

/-- After every run in which the client's requests are answered and nobody else speaks for a
session, the daemon has it if an operation that it could read opened it and no close followed, or if
it was there at first and was never closed. A closed client has left only those sessions that it
gave up by starting anew with another pair, and did not start again. -/
theorem sessions_left (host : Host μ) (limit channelLimit : Nat) (d : State μ) (acts : List Act)
    (key : String) (hanswered : (start channelLimit d).AllAnswered host limit acts)
    (hforeign : ∀ e, .foreign e ∈ acts → e.request? key = none) :
    let w := (start channelLimit d).run host limit acts
    let moves := Move.ofActs none acts
    (w.HasSession key ↔ Since (Move.Opens key) (fun m => ¬m.Closes key) moves ∨
      (∀ m ∈ moves, ¬m.Closes key) ∧ d.tables.sessions.contains key) ∧
    (w.client.pair = none → (∃ m ∈ moves, m.Starts key) → w.HasSession key →
      Since (Move.Abandons key) (fun m => ¬m.Starts key) moves) ∧
    (∀ before, acts = before ++ [.own .close] → w.client.pair = none) := by
  intro w moves
  have hfirst : (start channelLimit d).Accounted key (d.tables.sessions.contains key) [] := by
    refine ⟨⟨rfl, rfl, rfl⟩, ?_, fun ⟨m, hm, _⟩ => absurd hm List.not_mem_nil⟩
    simp [HasSession, start]
  have haccounted : w.Accounted key (d.tables.sessions.contains key) moves :=
    hfirst.run hanswered hforeign
  refine ⟨haccounted.session, fun hpair hstarted hsession => ?_, ?_⟩
  · refine (haccounted.kept hstarted hsession).resolve_left ?_
    rw [hpair]
    exact nofun
  · rintro before rfl
    simp only [w, run_concat]
    exact pair_own _ _

/-! ### A session that is left -/

section Request
variable {o : PathPolicy.Selector.Operation} {t : Selector} {method : Method} {message : Message}
  {pair : Pair} {finish : Except Fault Message → Selector × Except Fault (Option Path)}

theorem answers_of_fits (hidle : Idle w.channel w.served) (hfinite : message.FiniteCoordinates)
    (hmessage : PathPolicy.Selector.Operation.ofMessage method message = .ok (pair, o))
    (hfits : w.Fits host limit (.ask t method message finish)) :
    w.Answers host limit (.ask t method message finish) := by
  obtain ⟨hrequest, hanswer⟩ := (fits_ask_iff hfinite hmessage).mp hfits
  have hresponse := (@step_request μ host w method message pair o hfinite hmessage).1
  have hpeer := receive_frame host hidle.connection hrequest.2 hresponse hanswer.2
  have hclient := receive_answer host hidle (PathPolicy.Selector.written_message message)
    (opens_record Message.record message) hresponse hanswer
  refine ⟨_, _, send_of_fits hidle.going hrequest.1, ?_, ?_⟩
  · exact congrArg (fun received => received.2.1) hpeer
  · rw [request] at hpeer
    dsimp only
    rw [hpeer]
    exact Option.isSome_of_mem (congrArg Prod.fst hclient)

theorem result_own {operation : Operation}
    (hstep : w.client.step operation = .ask t method message finish)
    (hidle : Idle w.channel w.served) (hfinite : message.FiniteCoordinates)
    (hmessage : PathPolicy.Selector.Operation.ofMessage method message = .ok (pair, o))
    (hfits : w.Fits host limit (.ask t method message finish)) :
    w.result host limit operation = (finish ((w.perform host pair o).1.result.bind
      (shaped Message.empty PathPolicy.Selector.service method.name))).2 := by
  simp only [result, Selector.run, hstep, call_message hidle hfinite hmessage hfits]

end Request

def silentHost : Host Unit where
  register _ _ m := (.ok (), m)
  load _ m := (.ok (), m)
  call _ m := (.ok [], m)

def sampleWorldOf (pair : Option Pair) (sent : Nat) (sessions : SessionTable) : World Unit :=
  ⟨⟨pair, ∅, ∅, none⟩,
    { Channel.opened 4096 with nextId := (sent + 1).toUInt64, issued := sent },
    ⟨.opened, ⟨{ Tables.start with sessions }, ()⟩⟩⟩

def oneSession : SessionTable := SessionTable.install ∅ "a b" ∅ []

def twoSessions : SessionTable := oneSession.install "c d" ∅ []

/-- The client starts twice. In between, a malformed body arrives from elsewhere. -/
def restart : List Act :=
  [.own (.initialise ⟨"a", "b"⟩ []), .foreign (.arrival [123]), .own (.initialise ⟨"c", "d"⟩ [])]

theorem fits_first_start : (start 4096 ⟨.start, ()⟩).Fits silentHost 4096
    ((start 4096 (⟨.start, ()⟩ : State Unit)).client.step (.initialise ⟨"a", "b"⟩ [])) := by
  refine (fits_ask_iff (finiteCoordinates_wirePaths rfl (List.forall_mem_nil _)) rfl).mpr ⟨?_, ?_⟩
  · decide +kernel
  · decide +kernel

theorem step_first_start :
    (start 4096 ⟨.start, ()⟩).step silentHost 4096 (.own (.initialise ⟨"a", "b"⟩ []))
      = sampleWorldOf (some ⟨"a", "b"⟩) 1 oneSession :=
  step_own rfl ⟨rfl, rfl, rfl⟩ (finiteCoordinates_wirePaths rfl (List.forall_mem_nil _)) rfl
    fits_first_start

theorem fits_second_start : (sampleWorldOf (some ⟨"a", "b"⟩) 1 oneSession).Fits silentHost 4096
    ((sampleWorldOf (some ⟨"a", "b"⟩) 1 oneSession).client.step (.initialise ⟨"c", "d"⟩ [])) := by
  refine (fits_ask_iff (finiteCoordinates_wirePaths rfl (List.forall_mem_nil _)) rfl).mpr ⟨?_, ?_⟩
  · decide +kernel
  · decide +kernel

theorem step_second_start :
    (sampleWorldOf (some ⟨"a", "b"⟩) 1 oneSession).step silentHost 4096
        (.own (.initialise ⟨"c", "d"⟩ []))
      = sampleWorldOf (some ⟨"c", "d"⟩) 2 twoSessions :=
  step_own rfl ⟨rfl, rfl, rfl⟩ (finiteCoordinates_wirePaths rfl (List.forall_mem_nil _)) rfl
    fits_second_start

theorem fits_only_close : (sampleWorldOf (some ⟨"c", "d"⟩) 2 twoSessions).Fits silentHost 4096
    ((sampleWorldOf (some ⟨"c", "d"⟩) 2 twoSessions).client.step .close) := by
  refine (fits_ask_iff (finiteCoordinates_of_none rfl) rfl).mpr ⟨?_, ?_⟩
  · decide +kernel
  · decide +kernel

theorem step_only_close :
    (sampleWorldOf (some ⟨"c", "d"⟩) 2 twoSessions).step silentHost 4096 (.own .close)
      = sampleWorldOf none 3 (twoSessions.erase "c d") :=
  step_own rfl ⟨rfl, rfl, rfl⟩ (finiteCoordinates_of_none rfl) rfl fits_only_close

theorem step_stray_body (w : World Unit) :
    w.step silentHost 4096 (.foreign (.arrival [123])) = w := by
  obtain ⟨client, channel, ⟨connection, ⟨tables, ⟨⟩⟩⟩⟩ := w
  rfl

theorem request?_restart {e : Event} (he : .foreign e ∈ restart) (key : String) :
    e.request? key = none := by
  obtain rfl : e = .arrival [123] := by simpa [restart] using he
  rfl

theorem allAnswered_restart :
    (start 4096 ⟨.start, ()⟩).AllAnswered silentHost 4096 (restart ++ [.own .close]) := by
  have hidle (pair : Option Pair) (sent : Nat) (sessions : SessionTable) :
      Idle (sampleWorldOf pair sent sessions).channel (sampleWorldOf pair sent sessions).served :=
    ⟨rfl, rfl, rfl⟩
  simp only [restart, List.cons_append, List.nil_append, AllAnswered, step_first_start,
    step_stray_body, step_second_start, Act.own.injEq, forall_eq', and_true]
  refine ⟨?_, nofun, ?_, ?_⟩
  · exact answers_of_fits (hidle _ _ _)
      (finiteCoordinates_wirePaths rfl (List.forall_mem_nil _)) rfl fits_first_start
  · exact answers_of_fits (hidle _ _ _)
      (finiteCoordinates_wirePaths rfl (List.forall_mem_nil _)) rfl fits_second_start
  · exact answers_of_fits (hidle _ _ _) (finiteCoordinates_of_none rfl) rfl fits_only_close

theorem run_restart : (start 4096 ⟨.start, ()⟩).run silentHost 4096 restart
    = sampleWorldOf (some ⟨"c", "d"⟩) 2 twoSessions := by
  simp only [World.run, restart, List.foldl_cons, List.foldl_nil, step_first_start,
    step_stray_body, step_second_start]

theorem run_restart_close :
    (start 4096 ⟨.start, ()⟩).run silentHost 4096 (restart ++ [.own .close])
      = sampleWorldOf none 3 (twoSessions.erase "c d") := by
  rw [run_concat, run_restart]
  exact step_only_close

theorem result_restart_close :
    ((start 4096 ⟨.start, ()⟩).run silentHost 4096 restart).result silentHost 4096 .close
      = .ok none := by
  have hstep : (sampleWorldOf (some ⟨"c", "d"⟩) 2 twoSessions).client.step .close
      = .ask _ _ _ _ := rfl
  rw [run_restart, result_own hstep ⟨rfl, rfl, rfl⟩ (finiteCoordinates_of_none rfl) rfl
    fits_only_close]
  rfl

/-- A close does not end the session of a pair that the client had before. -/
theorem close_leaves_session : ¬∀ (host : Host Unit) (limit channelLimit : Nat) (d : State Unit)
    (acts : List Act) (pair : Pair) (paths : List Path),
    (start channelLimit d).AllAnswered host limit (acts ++ [.own .close]) →
    (∀ e, .foreign e ∈ acts → e.request? pair.key = none) →
    ((start channelLimit d).run host limit acts).result host limit .close = .ok none →
    .own (.initialise pair paths) ∈ acts →
    ¬((start channelLimit d).run host limit (acts ++ [.own .close])).HasSession pair.key := by
  intro hends
  refine hends silentHost 4096 4096 ⟨.start, ()⟩ restart ⟨"a", "b"⟩ [] allAnswered_restart
    (fun e he => request?_restart he _) result_restart_close List.mem_cons_self ?_
  rw [run_restart_close]
  decide +kernel

/-- The client starts anew with another pair and closes that one. -/
theorem sessions_left_restart :
    let acts := restart ++ [.own .close]
    let w := (start 4096 ⟨.start, ()⟩).run silentHost 4096 acts
    (start 4096 ⟨.start, ()⟩).AllAnswered silentHost 4096 acts ∧
      (∀ e, .foreign e ∈ acts → e.request? "a b" = none) ∧ w.HasSession "a b" ∧
      ¬w.HasSession "c d" ∧
      Since (Move.Abandons "a b") (fun m => ¬m.Starts "a b") (Move.ofActs none acts) := by
  intro acts w
  have hforeign (key : String) : ∀ e, .foreign e ∈ acts → e.request? key = none :=
    fun e he => request?_restart (by simpa [acts] using he) key
  obtain ⟨hsession, hleft, hclosed⟩ := sessions_left silentHost 4096 4096 ⟨.start, ()⟩ acts "a b"
    allAnswered_restart (hforeign "a b")
  obtain ⟨hother, -, -⟩ := sessions_left silentHost 4096 4096 ⟨.start, ()⟩ acts "c d"
    allAnswered_restart (hforeign "c d")
  have hopened : w.HasSession "a b" := by
    refine hsession.mpr (.inl ⟨[], _, _, rfl, ⟨rfl, trivial, List.forall_mem_nil _⟩, ?_⟩)
    intro m hm
    fin_cases hm
    · exact fun h => nomatch h.2
    · exact fun h => absurd h.1 (by decide)
  have hended : ¬w.HasSession "c d" := by
    intro h
    have hcloses : Move.Closes "c d" ⟨some ⟨"c", "d"⟩, .close⟩ := ⟨rfl, rfl⟩
    rcases hother.mp h with hsince | ⟨hnever, -⟩
    · rcases (Since.append_singleton [_, _] _).mp hsince with hopens | ⟨hkept, -⟩
      · exact hopens.2.1
      · exact hkept hcloses
    · exact hnever _ (by simp [acts, restart, Move.ofActs, Operation.leaves]) hcloses
  refine ⟨allAnswered_restart, hforeign "a b", hopened, hended, ?_⟩
  exact hleft (hclosed restart rfl) ⟨_, List.mem_cons_self, _, _, rfl, rfl⟩ hopened

end World
end PathPolicy.Client
