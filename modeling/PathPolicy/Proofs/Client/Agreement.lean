import PathPolicy.Proofs.Client.Asking
import PathPolicy.Proofs.Client.Exchange

/-!
A client and the daemon keep the same candidates. The client changes its table before it sends, the
daemon before it calls the script, so that neither an error of the script nor what other clients do
sets the two tables apart.
-/
namespace PathPolicy.Client
open Json Script Daemon
open PathPolicy.Selector (Pair Method Message SessionTable Session)

variable {μ : Type}

/-! ### The two tables -/

structure Selector.Mirrored (s : Selector) (session : Session) : Prop where
  preferences : session.preferences = s.preferences
  paths : ∀ fp : Fingerprint, session.paths[fp]? = (s.paths[fp]?).map Path.clamped

/-- The daemon holds a session for the client's pair, which agrees with the client. -/
def Selector.Agrees (s : Selector) (t : SessionTable) : Prop :=
  ∀ pair, s.pair = some pair → ∃ session, t[pair.key]? = some session ∧ s.Mirrored session

theorem Selector.SameTable.agrees {s s' : Selector} (h : s.SameTable s') {t : SessionTable}
    (ht : s'.Agrees t) : s.Agrees t := by
  obtain ⟨hpair, hpreferences, hpaths⟩ := h
  intro pair hs
  obtain ⟨session, hsession, hmirrored⟩ := ht pair (hpair ▸ hs)
  exact ⟨session, hsession, hpreferences ▸ hmirrored.preferences, hpaths ▸ hmirrored.paths⟩

@[simp] theorem Selector.state_tellPair (s : Selector) (method : Method)
    (fill : Message → Message) : (s.tellPair method fill).state = s := by
  rw [tellPair]
  split <;> rfl

@[simp] theorem Selector.state_askPath (s : Selector)
    (onFault : Fault → Except Fault (Option Path)) : (s.askPath onFault).state = s := by
  rw [askPath]
  split <;> rfl

theorem pair_state_step (s : Selector) {o : Operation} {pair : Pair}
    (h : (s.step o).state.pair = some pair) : o.about s.pair = some pair := by
  cases o with
  | initialise pair paths => exact h
  | close =>
    rw [Selector.step] at h
    split at h <;> cases h
  | setPreferences _ | path | tryPath | pathDown _ _ | refresh _ =>
    simpa [Selector.step, Operation.about, Selector.rebuild] using h

theorem mirrored_onSession {s : Selector} {o : Operation} {t : SessionTable} {pair : Pair}
    (h : s.Agrees t) (habout : o.about s.pair = some pair)
    (hafter : (s.step o).state.pair.isSome) :
    ∃ session, (o.served s.preferences).onSession t[pair.key]? = some session ∧
      (s.step o).state.Mirrored session := by
  cases o with
  | initialise other paths =>
    exact ⟨_, rfl, rfl, PathPolicy.Selector.PathTable.getElem?_ofList_clamped paths⟩
  | close =>
    rw [Selector.step] at hafter
    split at hafter <;> cases hafter
  | path | tryPath =>
    simp only [Selector.step, Selector.state_askPath]
    exact h pair habout
  | setPreferences preferences =>
    obtain ⟨session, hsession, hmirrored⟩ := h pair habout
    simp only [Selector.step, Selector.state_tellPair, hsession]
    exact ⟨_, rfl, rfl, hmirrored.paths⟩
  | pathDown fp interface =>
    obtain ⟨session, hsession, hmirrored⟩ := h pair habout
    simp only [Selector.step, Selector.state_tellPair, hsession]
    refine ⟨_, rfl, hmirrored.preferences, fun other => ?_⟩
    simp only [Std.ExtTreeMap.getElem?_erase, hmirrored.paths other]
    split <;> rfl
  | refresh paths =>
    obtain ⟨session, hsession, hmirrored⟩ := h pair habout
    simp only [Selector.step, Selector.state_tellPair, hsession]
    exact ⟨_, rfl, hmirrored.preferences,
      PathPolicy.Selector.PathTable.getElem?_ofList_clamped paths⟩

/-! ### Runs -/

structure World (μ : Type) where
  client : Selector
  channel : Channel
  served : Served μ

/-- An operation of the client, or whatever else happens at the daemon. -/
inductive Act
  | own (o : Operation)
  | foreign (e : Event)

namespace World

def start (channelLimit : Nat) (d : State μ) : World μ :=
  ⟨.start, .opened channelLimit, ⟨.opened, d⟩⟩

def step (host : Host μ) (limit : Nat) (w : World μ) : Act → World μ
  | .own o =>
    let (_, client, channel, served) :=
      w.client.run (daemonPeer host limit) w.channel w.served o
    ⟨client, channel, served⟩
  | .foreign e =>
    { w with served := { w.served with daemon := (w.served.daemon.step host.call e).state } }

def run (host : Host μ) (limit : Nat) (w : World μ) (acts : List Act) : World μ :=
  acts.foldl (step host limit) w

def request (w : World μ) (method : Method) (message : Message) : Bytes :=
  encode (Request.make w.channel.nextId PathPolicy.Selector.service method.name message)

/-- The messages of a step are within the limits of both sides. -/
def Fits (host : Host μ) (limit : Nat) (w : World μ) : Step → Prop
  | .silent _ _ => True
  | .ask _ method message _ =>
    FitsBoth w.channel limit (w.request method message) ∧
      ∀ response ∈ (w.served.daemon.step host.call (.arrival (w.request method message))).response,
        FitsBoth w.channel limit (encode response)

/-- Operations bring paths with finite coordinates, and keep to the limits. Nobody else sends requests
about the client's session. -/
def Allows (host : Host μ) (limit : Nat) (w : World μ) : Act → Prop
  | .own o => (∀ p ∈ o.paths, p.FiniteCoordinates) ∧ w.Fits host limit (w.client.step o)
  | .foreign e => ∀ pair, w.client.pair = some pair → e.request? pair.key = none

def Smooth (host : Host μ) (limit : Nat) : World μ → List Act → Prop
  | _, [] => True
  | w, act :: acts => w.Allows host limit act ∧ Smooth host limit (w.step host limit act) acts

/-- The two sides agree, and nothing is under way between them. -/
structure InStep (w : World μ) : Prop where
  idle : Idle w.channel w.served
  agrees : w.client.Agrees w.served.daemon.tables.sessions

theorem inStep_start (channelLimit : Nat) (d : State μ) : (start channelLimit d).InStep :=
  ⟨⟨rfl, rfl, rfl⟩, by rintro pair ⟨⟩⟩

def perform (host : Host μ) (w : World μ) (pair : Pair) (o : PathPolicy.Selector.Operation) :
    Response × Served μ :=
  let (reply, sessions, script) :=
    (o.plan pair w.served.daemon.tables.sessions).run host.call w.served.daemon.script
  (.ofResult w.channel.nextId (reply.map PathPolicy.Selector.Reply.data),
    ⟨.opened, ⟨{ w.served.daemon.tables with sessions }, script⟩⟩)

section Message
variable {host : Host μ} {limit : Nat} {w : World μ} {method : Method} {message : Message}
  {pair : Pair} {o : PathPolicy.Selector.Operation} {t : Selector}
  {finish : Except Fault Message → Selector × Except Fault (Option Path)}

theorem step_request (hfinite : message.FiniteCoordinates)
    (hmessage : PathPolicy.Selector.Operation.ofMessage method message = .ok (pair, o)) :
    (w.served.daemon.step host.call (.arrival (w.request method message))).response
        = some (w.perform host pair o).1 ∧
      (w.served.daemon.step host.call (.arrival (w.request method message))).state
        = (w.perform host pair o).2.daemon :=
  step_of_accepted host.call w.served.daemon
    (Request.parse_encode_make (PathPolicy.Selector.written_message message)
      (opens_record Message.record message) w.channel.nextId PathPolicy.Selector.service method.name)
    rfl ((ofRequest_make hfinite _).trans hmessage)

theorem fits_ask_iff (hfinite : message.FiniteCoordinates)
    (hmessage : PathPolicy.Selector.Operation.ofMessage method message = .ok (pair, o)) :
    w.Fits host limit (.ask t method message finish) ↔
      FitsBoth w.channel limit (w.request method message) ∧
        FitsBoth w.channel limit (encode (w.perform host pair o).1) := by
  rw [Fits, (step_request hfinite hmessage).1]
  simp

theorem call_message (hidle : Idle w.channel w.served) (hfinite : message.FiniteCoordinates)
    (hmessage : PathPolicy.Selector.Operation.ofMessage method message = .ok (pair, o))
    (hfits : w.Fits host limit (.ask t method message finish)) :
    w.channel.call (daemonPeer host limit) w.served PathPolicy.Selector.service method.name message
      = ((w.perform host pair o).1.result,
        { w.channel with nextId := w.channel.nextId + 1, issued := w.channel.issued + 1 },
        (w.perform host pair o).2) := by
  obtain ⟨hresponse, hstate⟩ := @step_request μ host w method message pair o hfinite hmessage
  obtain ⟨hrequest, hanswer⟩ := (fits_ask_iff hfinite hmessage).mp hfits
  have hcall := call_daemon host hidle (PathPolicy.Selector.written_message message)
    (opens_record Message.record message) hrequest hresponse hanswer
  exact hcall.trans (by rw [← request, hstate]; rfl)

theorem step_own {operation : Operation} (hstep : w.client.step operation = .ask t method message finish)
    (hidle : Idle w.channel w.served) (hfinite : message.FiniteCoordinates)
    (hmessage : PathPolicy.Selector.Operation.ofMessage method message = .ok (pair, o))
    (hfits : w.Fits host limit (.ask t method message finish)) :
    w.step host limit (.own operation)
      = ⟨(finish ((w.perform host pair o).1.result.bind
            (shaped Message.empty PathPolicy.Selector.service method.name))).1,
          { w.channel with nextId := w.channel.nextId + 1, issued := w.channel.issued + 1 },
          (w.perform host pair o).2⟩ := by
  simp only [step, Selector.run, hstep, call_message hidle hfinite hmessage hfits]

end Message

theorem InStep.own {host : Host μ} {limit : Nat} {w : World μ} (h : w.InStep) {o : Operation}
    (hallowed : w.Allows host limit (.own o)) : (w.step host limit (.own o)).InStep := by
  obtain ⟨hfinite, hfits⟩ := hallowed
  have hmirrored (pair : Pair) := @mirrored_onSession w.client o _ pair h.agrees
  have hpair (pair : Pair) := @pair_state_step w.client o pair
  have htells := tells_step w.client hfinite
  generalize hstep : w.client.step o = step at hfits hmirrored hpair htells
  cases htells with
  | silent hnone hafter =>
    simp only [World.step, Selector.run, hstep]
    refine ⟨h.idle, fun pair hpair => ?_⟩
    cases hafter.symm.trans hpair
  | @ask t method message finish pair habout hmessageFinite hmessage hfinish =>
    rw [step_own hstep h.idle hmessageFinite hmessage hfits]
    refine ⟨⟨h.idle.going, h.idle.nothingLeft, rfl⟩, (hfinish _).agrees fun other hother => ?_⟩
    obtain rfl : pair = other := Option.some.inj (habout.symm.trans (hpair other hother))
    simp only [perform, Plan.tables_run, PathPolicy.Selector.Operation.getElem?_tables_plan, if_true]
    exact hmirrored pair habout (Option.isSome_of_mem hother)

theorem InStep.step {host : Host μ} {limit : Nat} {w : World μ} (h : w.InStep) {act : Act}
    (hallowed : w.Allows host limit act) : (w.step host limit act).InStep := by
  cases act with
  | own o => exact h.own hallowed
  | foreign e =>
    refine ⟨⟨h.idle.going, h.idle.nothingLeft, h.idle.connection⟩, fun pair hpair => ?_⟩
    obtain ⟨session, hsession, hmirrored⟩ := h.agrees pair hpair
    have hsame := sameAt_step host.call (hallowed pair hpair) w.served.daemon
    exact ⟨session, hsame.trans hsession, hmirrored⟩

theorem InStep.run {host : Host μ} {limit : Nat} {acts : List Act} {w : World μ} (h : w.InStep)
    (hsmooth : w.Smooth host limit acts) : (w.run host limit acts).InStep := by
  induction acts generalizing w with
  | nil => exact h
  | cons act acts ih => exact ih (h.step hsmooth.1) hsmooth.2

/-! ### Replies -/

def pathReply (host : Host μ) (limit : Nat) (w : World μ) (pair : Pair) : Except Fault Message :=
  (w.channel.call (daemonPeer host limit) w.served PathPolicy.Selector.service Method.path.name
    (Message.ofPair pair)).1.bind (shaped Message.empty PathPolicy.Selector.service Method.path.name)

def result (host : Host μ) (limit : Nat) (w : World μ) (o : Operation) : Except Fault (Option Path) :=
  (w.client.run (daemonPeer host limit) w.channel w.served o).1

theorem InStep.known {host : Host μ} {limit : Nat} {w : World μ} (h : w.InStep) {pair : Pair}
    (hpair : w.client.pair = some pair) (hallowed : w.Allows host limit (.own .tryPath))
    {reply : Message} (hreply : w.pathReply host limit pair = .ok reply) {fp : Fingerprint}
    (hfp : reply.fingerprint = some fp) : ∃ p, w.client.paths[fp]? = some p := by
  have hfits := hallowed.2
  simp only [Selector.step, Selector.askPath, hpair] at hfits
  rw [pathReply, call_message h.idle (finiteCoordinates_of_none rfl) rfl hfits] at hreply
  obtain ⟨data, hdata, hshaped⟩ := bind_eq_ok.mp hreply
  obtain ⟨answer, hanswer, rfl⟩ := map_eq_ok.mp (eq_ok_of_result_ofResult hdata)
  obtain ⟨named, rfl, hnamed⟩ := resolve_of_path host.call w.served.daemon.script hanswer
  rw [PathPolicy.Selector.Reply.data, shaped_selectionValue] at hshaped
  cases hshaped
  obtain ⟨session, hsession, hmirrored⟩ := h.agrees pair hpair
  have hresolve := hnamed fp hfp
  rw [SessionTable.resolve, hsession, Option.bind_some, hmirrored.paths, Option.isSome_map] at hresolve
  exact Option.isSome_iff_exists.mp hresolve

theorem result_of_reply {host : Host μ} {limit : Nat} {w : World μ} {pair : Pair}
    (hpair : w.client.pair = some pair) {reply : Message}
    (hreply : w.pathReply host limit pair = .ok reply) {fp : Fingerprint}
    (hfp : reply.fingerprint = some fp) {p : Path} (hp : w.client.paths[fp]? = some p) {o : Operation}
    (ho : o = .path ∨ o = .tryPath) : w.result host limit o = .ok (some p) := by
  have hselect : (w.client.select reply).2 = some p := by
    simp [Selector.select, hfp, hp]
  rcases ho with rfl | rfl <;>
  · simp only [result, Selector.run, Selector.step, Selector.askPath, hpair]
    rw [pathReply] at hreply
    simp only [hreply, hselect]

/-- After every run in which nobody else speaks for the client's session and all messages are within
the limits, the daemon holds a session for the client's pair with the client's preferences and, as
they arrive, the client's candidates, whatever the script did. So what the daemon selects is a
candidate that the client knows and takes. -/
theorem tables_agree (host : Host μ) (limit channelLimit : Nat) (d : State μ) (acts : List Act)
    (hsmooth : (start channelLimit d).Smooth host limit acts) :
    let w := (start channelLimit d).run host limit acts
    let sessions := w.served.daemon.tables.sessions
    ∀ pair, w.client.pair = some pair →
      sessions.contains pair.key ∧
      sessions.preferences pair.key = some w.client.preferences ∧
      (∀ fp, sessions.resolve pair.key fp = (w.client.paths[fp]?).map Path.clamped) ∧
      (w.Allows host limit (.own .tryPath) →
        ∀ reply fp, w.pathReply host limit pair = .ok reply → reply.fingerprint = some fp →
          ∃ p, w.client.paths[fp]? = some p ∧ w.result host limit .path = .ok (some p) ∧
            w.result host limit .tryPath = .ok (some p)) := by
  intro w sessions pair hpair
  have hinStep : w.InStep := (inStep_start channelLimit d).run hsmooth
  obtain ⟨session, hsession, hmirrored⟩ := hinStep.agrees pair hpair
  refine ⟨?_, ?_, fun fp => ?_, fun hallowed reply fp hreply hfp => ?_⟩
  · rw [Std.ExtTreeMap.contains_eq_isSome_getElem?, hsession]
    rfl
  · rw [SessionTable.preferences, hsession]
    exact congrArg some hmirrored.preferences
  · rw [SessionTable.resolve, hsession]
    exact hmirrored.paths fp
  · obtain ⟨p, hp⟩ := hinStep.known hpair hallowed hreply hfp
    exact ⟨p, hp, result_of_reply hpair hreply hfp hp (.inl rfl),
      result_of_reply hpair hreply hfp hp (.inr rfl)⟩

def pickyHost : Host Unit where
  register _ _ m := (.ok (), m)
  load _ m := (.ok (), m)
  call c m :=
    (if c.function = Method.path.name then .ok [.text "x"] else .error (.policy "raised"), m)

/-- A path with a latency that is too long for its wire form. -/
def samplePath : Path where
  source := ""
  destination := ""
  metadata := some ⟨0, [], [2 ^ 70], [], [], [], [], [⟨47.5, -8.25, ""⟩]⟩
  fingerprint := "x"
  expiry := .ofUnixNanos 0

theorem finiteCoordinates_sample : ∀ p ∈ [samplePath], p.FiniteCoordinates := by
  have hlocation : Location.FiniteCoordinates ⟨47.5, -8.25, ""⟩ := ⟨by rfl, by rfl⟩
  simpa [Path.FiniteCoordinates, samplePath] using hlocation

def sampleClient : Selector := ⟨some ⟨"a", "b"⟩, ∅, .ofList [samplePath], none⟩

def sampleTables : Tables :=
  { Tables.start with sessions := SessionTable.install ∅ "a b" ∅ [samplePath.clamped] }

def sampleWorld : World Unit :=
  ⟨sampleClient, { Channel.opened 4096 with nextId := 2, issued := 1 }, ⟨.opened, ⟨sampleTables, ()⟩⟩⟩

theorem fits_initialise_sample : (start 4096 ⟨.start, ()⟩).Fits pickyHost 4096
    ((start 4096 (⟨.start, ()⟩ : State Unit)).client.step (.initialise ⟨"a", "b"⟩ [samplePath])) := by
  refine (fits_ask_iff (finiteCoordinates_wirePaths rfl finiteCoordinates_sample) rfl).mpr ⟨?_, ?_⟩
  · decide +kernel
  · decide +kernel

theorem step_initialise_sample :
    (start 4096 ⟨.start, ()⟩).step pickyHost 4096 (.own (.initialise ⟨"a", "b"⟩ [samplePath]))
      = sampleWorld :=
  step_own rfl ⟨rfl, rfl, rfl⟩ (finiteCoordinates_wirePaths rfl finiteCoordinates_sample) rfl
    fits_initialise_sample

theorem fits_path_sample : sampleWorld.Fits pickyHost 4096 (sampleWorld.client.step .tryPath) := by
  refine (fits_ask_iff (finiteCoordinates_of_none rfl) rfl).mpr ⟨?_, ?_⟩
  · decide +kernel
  · decide +kernel

set_option maxRecDepth 8192 in
theorem pathReply_sample : sampleWorld.pathReply pickyHost 4096 ⟨"a", "b"⟩
    = .ok { Message.empty with fingerprint := some "x" } := by
  rw [pathReply, call_message ⟨rfl, rfl, rfl⟩ (finiteCoordinates_of_none rfl) rfl fits_path_sample]
  rfl

def sampleActs : List Act :=
  [.own (.initialise ⟨"a", "b"⟩ [samplePath]), .foreign (.arrival [123])]

theorem run_sample : (start 4096 ⟨.start, ()⟩).run pickyHost 4096 sampleActs = sampleWorld := by
  rw [run, sampleActs, List.foldl_cons, step_initialise_sample]
  rfl

/-- The script raises an error when the candidates are brought, a malformed body arrives from
elsewhere, and then one of the candidates is selected. -/
theorem tables_agree_sample :
    let w := (start 4096 ⟨.start, ()⟩).run pickyHost 4096 sampleActs
    (start 4096 ⟨.start, ()⟩).Smooth pickyHost 4096 sampleActs ∧
      w.client.pair = some ⟨"a", "b"⟩ ∧
      w.served.daemon.tables.sessions.resolve "a b" "x" = some samplePath.clamped ∧
      samplePath.clamped ≠ samplePath ∧ w.result pickyHost 4096 .path = .ok (some samplePath) := by
  have hsmooth : (start 4096 ⟨.start, ()⟩).Smooth pickyHost 4096 sampleActs :=
    ⟨⟨finiteCoordinates_sample, fits_initialise_sample⟩, fun _ _ => rfl, trivial⟩
  have hagree := tables_agree pickyHost 4096 4096 ⟨.start, ()⟩ sampleActs hsmooth
  simp only [run_sample] at hagree ⊢
  obtain ⟨-, -, hresolve, hknown⟩ := hagree ⟨"a", "b"⟩ rfl
  obtain ⟨p, hp, hpath, -⟩ := hknown ⟨by rintro p ⟨⟩, fits_path_sample⟩ _ "x" pathReply_sample rfl
  cases hp
  exact ⟨hsmooth, rfl, hresolve "x", by decide, hpath⟩

end World
end PathPolicy.Client
