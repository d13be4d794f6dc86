import PathPolicy.Proofs.Client.Asking
import PathPolicy.Proofs.Client.Fallback

/-!
The requests of a client, said by its operations alone. What its calls come to, and what others do
with the channel and the peer in between, has no say in them.
-/
namespace PathPolicy.Client
open Json
open PathPolicy.Selector (Pair Method Message service)

variable {π α : Type} [Codable α]

/-! ### What is sent -/

/-- A peer that also notes what it receives, the latest last. -/
def Peer.noting (peer : Peer π) : Peer (π × List Bytes) where
  receive frame p :=
    let (chunk, ended, q) := peer.receive frame p.1
    (chunk, ended, q, p.2 ++ [frame])

/-- The frames of a call: one, unless the channel is closed or the request is too long for it. -/
def Channel.frames (c : Channel) (service method : String) (data : α) : List Bytes :=
  if c.closed then []
  else (Frame.encode c.limit (encode (Request.make c.nextId service method data))).toOption.toList

theorem Channel.length_frames_le (c : Channel) (service method : String) (data : α) :
    (c.frames service method data).length ≤ 1 := by
  rw [frames]
  split
  · exact Nat.zero_le 1
  · exact Option.length_toList_le

theorem Channel.issued_receive (c : Channel) (awaited : Option UInt64) (chunk : Bytes) :
    (c.receive awaited chunk).2.issued = c.issued := by
  rw [receive]
  split <;> rfl

theorem call_noting (peer : Peer π) (c : Channel) (p : π) (notes : List Bytes)
    (service method : String) (data : α) :
    let plain := c.call peer p service method data
    c.call peer.noting (p, notes) service method data
        = (plain.1, plain.2.1, plain.2.2, notes ++ c.frames service method data) ∧
      plain.2.1.issued = c.issued + (c.frames service method data).length := by
  simp only [Channel.call, Channel.send, Channel.frames, Peer.noting]
  cases hframe : Frame.encode c.limit (encode (Request.make c.nextId service method data)) with
  | error e => simp [Except.toOption]
  | ok frame =>
    by_cases hclosed : c.closed
    · simp [hclosed]
    · by_cases hended : (peer.receive frame p).2.1 <;>
        simp [hclosed, hended, Except.toOption, Channel.issued_receive, Channel.hangUp]

/-- An operation with the channel and the peer that it meets, which others may have used since the
operation before it. -/
structure Attempt (π : Type) where
  operation : Operation
  channel : Channel
  peer : π

namespace Selector
variable (peer : Peer π)

def afterAll (attempts : List (Attempt π)) : Selector :=
  attempts.foldl (fun s a => (s.run peer a.channel a.peer a.operation).2.1) .start

def sent (s : Selector) (a : Attempt π) : List Bytes :=
  (s.run peer.noting a.channel (a.peer, []) a.operation).2.2.2.2

end Selector

/-! ### What the operations say -/

namespace Operation

def Initialises : Operation → Prop
  | .initialise _ _ => True
  | .setPreferences _ | .path | .tryPath | .pathDown _ _ | .refresh _ | .close => False

def Opened : List Operation → Prop := Since Initialises (· ≠ .close)

def Latest (pair : Pair) : List Operation → Prop :=
  Since (fun o => ∃ paths, o = .initialise pair paths) fun o => ¬o.Initialises

/-- The preferences that were set last, and none before they are set for the first time. -/
def Preferred (preferences : Texts) (operations : List Operation) : Prop :=
  Since (· = .setPreferences preferences) (fun o => ∀ other, o ≠ .setPreferences other) operations ∨
    preferences = ∅ ∧ ∀ o ∈ operations, ∀ other, o ≠ .setPreferences other

def method : Operation → Method
  | .initialise _ _ => .initialise
  | .setPreferences _ => .setPreferences
  | .path | .tryPath => .path
  | .pathDown _ _ => .pathDown
  | .refresh _ => .refresh
  | .close => .close

end Operation

open Operation (Opened Latest Preferred)

/-! ### One operation -/

/-- An operation that is about no pair is over without a request. Any other one has its request,
which names the pair, and the client's preferences if it is to initialise. -/
inductive Step.Requests (s : Selector) (o : Operation) : Step → Prop
  | silent {t : Selector} (hpair : o.about s.pair = none) : Requests s o (.silent t (.ok none))
  | ask {t : Selector} {message : Message} {pair : Pair}
    {finish : Except Fault Message → Selector × Except Fault (Option Path)}
    (hpair : o.about s.pair = some pair) (hmessage : message.pair = .ok pair)
    (hpreferences : o.Initialises → message.preferences = some s.preferences) :
    Requests s o (.ask t o.method message finish)

theorem requests_tellPair {s t : Selector} {o : Operation} {fill : Message → Message}
    (ho : ¬o.Initialises) (hpair : o.about s.pair = t.pair)
    (hfill : ∀ pair, (fill (Message.ofPair pair)).pair = .ok pair) :
    (t.tellPair o.method fill).Requests s o := by
  rw [Selector.tellPair]
  split
  next hnone => exact .silent (hpair.trans hnone)
  next pair hsome => exact .ask (hpair.trans hsome) (hfill pair) fun h => absurd h ho

theorem requests_askPath {s : Selector} {o : Operation} (ho : o.Asks)
    (onFault : Fault → Except Fault (Option Path)) : (s.askPath onFault).Requests s o := by
  have hplain : ¬o.Initialises ∧ o.about s.pair = s.pair ∧ o.method = .path := by
    rcases ho with rfl | rfl <;> exact ⟨id, rfl, rfl⟩
  obtain ⟨hother, hpair, hmethod⟩ := hplain
  rw [Selector.askPath, ← hmethod]
  split
  next hnone => exact .silent (hpair.trans hnone)
  next pair hsome => exact .ask (hpair.trans hsome) rfl fun h => absurd h hother

theorem requests_step (s : Selector) (o : Operation) : (s.step o).Requests s o := by
  cases o with
  | initialise pair paths => exact .ask rfl rfl fun _ => rfl
  | setPreferences preferences =>
    rw [Selector.step]
    exact requests_tellPair (o := .setPreferences preferences) id rfl fun _ => rfl
  | path => exact requests_askPath (.inl rfl) _
  | tryPath => exact requests_askPath (.inr rfl) _
  | pathDown fp interface =>
    rw [Selector.step]
    exact requests_tellPair (o := .pathDown fp interface) id rfl fun _ => rfl
  | refresh paths =>
    rw [Selector.step]
    exact requests_tellPair (o := .refresh paths) id rfl fun _ => rfl
  | close =>
    rw [Selector.step]
    split
    next hnone => exact .silent hnone
    next pair hsome => exact .ask hsome rfl False.elim

namespace Occasion

theorem kept_after (x : Occasion) : (x.after.pair, x.after.preferences) =
    match x.operation with
    | .initialise pair _ => (some pair, x.before.preferences)
    | .setPreferences preferences => (x.before.pair, preferences)
    | .close => (none, x.before.preferences)
    | .path | .tryPath | .pathDown _ _ | .refresh _ => (x.before.pair, x.before.preferences) := by
  by_cases hasks : x.operation.Asks
  · obtain ⟨lastGood, hafter⟩ := after_asks hasks
    rw [hafter]
    rcases hasks with h | h <;> rw [h]
  · obtain ⟨s, o, outcome⟩ := x
    cases o with
    | initialise pair paths => rw [after_initialise]
    | setPreferences preferences => rw [after_setPreferences]
    | path => exact absurd (.inl rfl) hasks
    | tryPath => exact absurd (.inr rfl) hasks
    | pathDown fp interface => rw [after_pathDown]
    | refresh paths =>
      rw [after_refresh]
      rfl
    | close => rw [after_close]

end Occasion

/-! ### All operations -/

structure Selector.Keeps (operations : List Operation) (s : Selector) : Prop where
  opened : s.pair.isSome ↔ Opened operations
  latest : ∀ pair, s.pair = some pair → Latest pair operations
  preferred : Preferred s.preferences operations

theorem Operation.preferred_of_other {operations : List Operation} {preferences : Texts}
    (h : Preferred preferences operations) {o : Operation}
    (ho : ∀ other, o ≠ .setPreferences other) : Preferred preferences (operations ++ [o]) := by
  rcases h with h | ⟨rfl, hnone⟩
  · exact .inl ((Since.append_singleton ..).mpr (.inr ⟨ho, h⟩))
  · refine .inr ⟨rfl, fun x hx => ?_⟩
    rcases List.mem_append.mp hx with hx | hx
    · exact hnone x hx
    · rwa [List.mem_singleton.mp hx]

namespace Selector
variable {operations : List Operation}

theorem keeps_start : start.Keeps [] :=
  ⟨by simp [start, Opened], nofun, .inr ⟨rfl, nofun⟩⟩

theorem Keeps.latest_about {s : Selector} (h : s.Keeps operations) {o : Operation} {pair : Pair}
    (hpair : o.about s.pair = some pair) : Latest pair (operations ++ [o]) := by
  rw [Latest, Since.append_singleton]
  cases o with
  | initialise own paths =>
    cases hpair
    exact .inl ⟨paths, rfl⟩
  | _ => exact .inr ⟨id, h.latest pair hpair⟩

theorem Keeps.about_eq_none_iff {s : Selector} (h : s.Keeps operations) (o : Operation) :
    o.about s.pair = none ↔ ¬Opened operations ∧ ¬o.Initialises := by
  rw [← h.opened, Option.not_isSome_iff_eq_none]
  cases o with
  | initialise pair paths => exact ⟨nofun, fun hnone => absurd trivial hnone.2⟩
  | _ => exact ⟨fun hnone => ⟨hnone, id⟩, And.left⟩

theorem Keeps.after {x : Occasion} (h : x.before.Keeps operations) :
    x.after.Keeps (operations ++ [x.operation]) := by
  have hpair : x.after.pair = _ := congrArg Prod.fst x.kept_after
  have hpreferences : x.after.preferences = _ := congrArg Prod.snd x.kept_after
  obtain ⟨s, o, outcome⟩ := x
  refine ⟨?_, fun pair hsome => h.latest_about ?_, ?_⟩
  · rw [hpair, Opened, Since.append_singleton]
    cases o with
    | initialise pair paths => simp [Operation.Initialises]
    | close => simp [Operation.Initialises]
    | _ => simpa [Operation.Initialises, Opened] using h.opened
  · rw [hpair] at hsome
    cases o with
    | close => cases hsome
    | _ => exact hsome
  · rw [hpreferences]
    cases o with
    | setPreferences preferences => exact .inl ((Since.append_singleton ..).mpr (.inl rfl))
    | _ => exact Operation.preferred_of_other h.preferred nofun

theorem keeps_afterAll (peer : Peer π) (attempts : List (Attempt π)) :
    (afterAll peer attempts).Keeps (attempts.map Attempt.operation) := by
  induction attempts using List.reverseRecOn with
  | nil => exact keeps_start
  | append_singleton attempts a ih =>
    rw [afterAll, List.foldl_append, List.map_append, List.foldl_cons, List.foldl_nil]
    rw [(run_eq_settle peer a.channel a.peer _ a.operation).2]
    exact Keeps.after (x := ⟨_, a.operation, _⟩) ih

theorem run_of_silent {s t : Selector} {o : Operation} {result : Except Fault (Option Path)}
    (h : s.step o = .silent t result) (peer : Peer π) (c : Channel) (p : π) :
    s.run peer c p o = (result, t, c, p) := by
  rw [run, h]

theorem sent_of_ask {s t : Selector} {a : Attempt π} {method : Method} {message : Message}
    {finish : Except Fault Message → Selector × Except Fault (Option Path)}
    (h : s.step a.operation = .ask t method message finish) (peer : Peer π) :
    s.sent peer a = a.channel.frames service method.name message ∧
      (s.run peer a.channel a.peer a.operation).2.2.1.issued =
        a.channel.issued + (a.channel.frames service method.name message).length := by
  obtain ⟨hcall, hissued⟩ := call_noting peer a.channel a.peer [] service method.name message
  simp only [sent, run, h, hcall, List.nil_append]
  exact ⟨trivial, hissued⟩

end Selector

/-- While no pair is initialised, all other operations succeed without a request and give no path.
Otherwise an operation has one request, which the channel sends or not: for the pair of the latest
initialisation, and with the preferences that were set last if it is to initialise. -/
theorem requests_said_by_operations (peer : Peer π) (attempts : List (Attempt π))
    (next : Attempt π) :
    let operations := attempts.map Attempt.operation
    let s := Selector.afterAll peer attempts
    let played := s.run peer next.channel next.peer next.operation
    let frames := s.sent peer next
    (¬Opened operations → ¬next.operation.Initialises →
      played.1 = .ok none ∧ frames = [] ∧ played.2.2 = (next.channel, next.peer)) ∧
    (Opened operations ∨ next.operation.Initialises →
      ∃ (pair : Pair) (message : Message),
        Latest pair (operations ++ [next.operation]) ∧ message.pair = .ok pair ∧
        frames = next.channel.frames service next.operation.method.name message ∧
        (next.operation.Initialises → ∃ preferences, Preferred preferences operations ∧
          message.preferences = some preferences)) ∧
    frames.length ≤ 1 ∧ played.2.2.1.issued = next.channel.issued + frames.length := by
  intro operations s played frames
  have hkeeps : s.Keeps operations := Selector.keeps_afterAll peer attempts
  have hstep := requests_step s next.operation
  -- a step is silent exactly if no pair is known for it
  cases h : s.step next.operation with
  | silent t result =>
    rw [h] at hstep
    cases hstep with
    | silent hpair =>
      have hnone := (hkeeps.about_eq_none_iff next.operation).mp hpair
      have hplayed : played = (.ok none, t, next.channel, next.peer) :=
        Selector.run_of_silent h peer next.channel next.peer
      have hframes : frames = [] := by
        simp only [frames, Selector.sent, Selector.run_of_silent h]
      rw [hplayed, hframes]
      exact ⟨fun _ _ => ⟨rfl, rfl, rfl⟩, fun hsome => absurd hsome (not_or.mpr hnone),
        Nat.zero_le 1, rfl⟩
  | ask t method message finish =>
    rw [h] at hstep
    cases hstep with
    | ask hpair hmessage hpreferences =>
      obtain ⟨hframes, hissued⟩ := Selector.sent_of_ask h peer
      have hsome : ¬(¬Opened operations ∧ ¬next.operation.Initialises) := by
        rw [← hkeeps.about_eq_none_iff, hpair]
        nofun
      refine ⟨fun hclosed hother => absurd ⟨hclosed, hother⟩ hsome, fun _ => ?_, ?_, ?_⟩
      · exact ⟨_, message, hkeeps.latest_about hpair, hmessage, hframes,
          fun ho => ⟨s.preferences, hkeeps.preferred, hpreferences ho⟩⟩
      · rw [show frames = _ from hframes]
        exact next.channel.length_frames_le service _ message
      · rw [show frames = _ from hframes]
        exact hissued

def vanishing : Peer Unit := ⟨fun _ q => ([], true, q)⟩

def Operation.alone (o : Operation) : Attempt Unit := ⟨o, .opened Frame.defaultLimit, ()⟩

def reopening : List (Attempt Unit) :=
  [.setPreferences {("profile", "fast")}, .initialise ⟨"a", "b"⟩ [], .close,
    .setPreferences {("profile", "safe")}].map Operation.alone

/-- Though all connections are lost: a list is not sent then, and the next initialisation is sent
with the latter preferences. -/
theorem requests_said_by_operations_reopening :
    (Selector.afterAll vanishing reopening).sent vanishing (Operation.refresh []).alone = [] ∧
      ∃ message : Message, message.pair = .ok ⟨"c", "d"⟩ ∧
        message.preferences = some {("profile", "safe")} ∧
        (Selector.afterAll vanishing reopening).sent vanishing
            (Operation.initialise ⟨"c", "d"⟩ []).alone =
          (Channel.opened Frame.defaultLimit).frames service "Initialize" message := by
  have hsilent := (requests_said_by_operations vanishing reopening (Operation.refresh []).alone).1
  have hasked := (requests_said_by_operations vanishing reopening
    (Operation.initialise ⟨"c", "d"⟩ []).alone).2.1
  have hoperations : reopening.map Attempt.operation =
      ([.setPreferences {("profile", "fast")}, .initialise ⟨"a", "b"⟩ []] ++ [.close]) ++
        [.setPreferences {("profile", "safe")}] := rfl
  have hclosed : ¬Opened (reopening.map Attempt.operation) := by
    rw [hoperations, Opened, Since.append_singleton, Since.append_singleton]
    simp [Operation.Initialises]
  refine ⟨(hsilent hclosed id).2.1, ?_⟩
  obtain ⟨pair, message, hpair, hmessage, hframes, hpreferences⟩ := hasked (.inr trivial)
  obtain ⟨preferences, hlatest, hsent⟩ := hpreferences trivial
  rw [Latest, Since.append_singleton] at hpair
  rw [Preferred, hoperations, Since.append_singleton] at hlatest
  refine ⟨message, ?_, ?_, hframes⟩
  · rcases hpair with ⟨paths, h⟩ | ⟨hother, -⟩
    · cases h
      exact hmessage
    · exact absurd trivial hother
  · rcases hlatest with (h | ⟨hother, -⟩) | ⟨-, hnone⟩
    · cases h
      exact hsent
    · exact absurd rfl (hother _)
    · exact absurd rfl (hnone _ (List.mem_append_right _ List.mem_cons_self) _)

end PathPolicy.Client
