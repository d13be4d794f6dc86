import PathPolicy.Proofs.Frame.Chunks

/-!
Calls over a stream. A client calls, chunks of the peer's stream arrive, cut anywhere, and the
stream may end. What becomes of the calls is decided by what these come to: the calls, the bodies of
the frames as they are complete, and the loss of the connection.
-/
namespace PathPolicy.Client
open Json

structure Question where
  service : String
  method : String
  data : Raw
deriving DecidableEq

def Question.body (q : Question) (id : UInt64) : Bytes :=
  encode (Request.make id q.service q.method q.data)

def Question.frame (q : Question) (limit : Nat) (id : UInt64) : Except Fault Bytes :=
  Frame.encode limit (q.body id)

def Question.lost (q : Question) : Fault :=
  .transport (q.service ++ "." ++ q.method ++ ": connection lost")

def connectionClosed : Fault := .transport "connection closed"

structure Calls (σ : Type) where
  link : σ
  /-- The call that waits, with its id. -/
  waiting : Option (UInt64 × Question)
  /-- For each call the frame that was sent for it, if one was. -/
  sent : List (Option Bytes)
  /-- The outcomes of the calls that have one. -/
  answers : List (Except Fault (Option Value))

def answer? (id : UInt64) (body : Bytes) : Option Response :=
  match Response.parse body with
  | .ok r => if r.id = id then some r else none
  | .error _ => none

def callId (earlier : Nat) : UInt64 := UInt64.ofNat (earlier + 1)

namespace Calls
variable {σ τ : Type}

def start (link : σ) : Calls σ := ⟨link, none, [], []⟩

def onto (w : Calls σ) (link : τ) : Calls τ := ⟨link, w.waiting, w.sent, w.answers⟩

/-- The call that waits has its outcome. -/
def settle (w : Calls σ) (response : Option Response) : Calls σ :=
  match w.waiting with
  | none => w
  | some (_, q) =>
    { w with
      waiting := none
      answers := w.answers ++ [Channel.outcome q.service q.method response] }

def hear (w : Calls σ) : Option Response → Calls σ
  | some r => w.settle (some r)
  | none => w

def refuse (w : Calls σ) (e : Fault) : Calls σ :=
  { w with sent := w.sent ++ [none], answers := w.answers ++ [.error e] }

def await (w : Calls σ) (id : UInt64) (q : Question) (frame : Bytes) : Calls σ :=
  { w with waiting := some (id, q), sent := w.sent ++ [some frame] }

end Calls

/-! ### Over a channel -/

/-- What happens at a channel. -/
inductive Line.Act
  | ask (q : Question)
  | chunk (bytes : Bytes)
  | ended

/-- A channel with its calls. -/
abbrev Line := Calls Channel

namespace Line

def step (w : Line) : Act → Line
  | .ask q =>
    match w.link.send q.service q.method q.data with
    | (.error e, c) => (w.onto c).refuse e
    | (.ok sent, c) => (w.onto c).await sent.id q sent.frame
  | .chunk bytes =>
    let (response, c) := w.link.receive (w.waiting.map Prod.fst) bytes
    let heard := (w.onto c).hear response
    if c.closed then heard.settle none else heard
  | .ended => (w.onto w.link.hangUp).settle none

def run (w : Line) (acts : List Act) : Line := acts.foldl step w

end Line

/-! ### By what arrives -/

/-- What the acts come to. -/
inductive Incident
  | asked (q : Question)
  | arrived (body : Bytes)
  /-- The stream has ended, or was refused. -/
  | lost
deriving DecidableEq

namespace Calls

/-- An incident, over a link of which only is known whether it is lost. -/
def meet (limit : Nat) (s : Calls Bool) : Incident → Calls Bool
  | .asked q =>
    let id := callId s.sent.length
    match q.frame limit id with
    | .error e => s.refuse e
    | .ok frame => if s.link then s.refuse connectionClosed else s.await id q frame
  | .arrived body => s.hear (s.waiting.bind fun call => answer? call.1 body)
  | .lost => (s.onto true).settle none

def meetAll (limit : Nat) (s : Calls Bool) (incidents : List Incident) : Calls Bool :=
  incidents.foldl (meet limit) s

end Calls

def Channel.incidents (c : Channel) : Line.Act → List Incident
  | .ask q => [.asked q]
  | .chunk bytes =>
    if c.closed then []
    else
      let drained := Frame.drain c.limit (c.buffer ++ bytes)
      drained.bodies.map .arrived ++ if drained.stop.isSome then [.lost] else []
  | .ended => [.lost]

def Line.trace : Line → List Act → List Incident
  | _, [] => []
  | w, act :: acts => w.link.incidents act ++ Line.trace (w.step act) acts

/-! ### The two agree -/

namespace Calls
variable {σ τ : Type}

@[simp] theorem link_onto (w : Calls σ) (link : τ) : (w.onto link).link = link := rfl

@[simp] theorem waiting_onto (w : Calls σ) (link : τ) : (w.onto link).waiting = w.waiting := rfl

@[simp] theorem sent_onto (w : Calls σ) (link : τ) : (w.onto link).sent = w.sent := rfl

@[simp] theorem onto_onto {ρ : Type} (w : Calls σ) (link : τ) (other : ρ) :
    (w.onto link).onto other = w.onto other := rfl

theorem settle_onto (w : Calls σ) (link : τ) (response : Option Response) :
    (w.onto link).settle response = (w.settle response).onto link := by
  obtain ⟨_, waiting, _, _⟩ := w
  cases waiting <;> rfl

@[simp] theorem link_settle (w : Calls σ) (response : Option Response) :
    (w.settle response).link = w.link := by
  rw [settle]
  split <;> rfl

@[simp] theorem waiting_settle (w : Calls σ) (response : Option Response) :
    (w.settle response).waiting = none := by
  rw [settle]
  split
  · assumption
  · rfl

@[simp] theorem sent_settle (w : Calls σ) (response : Option Response) :
    (w.settle response).sent = w.sent := by
  rw [settle]
  split <;> rfl

theorem settle_of_waiting_none {w : Calls σ} (h : w.waiting = none) (response : Option Response) :
    w.settle response = w := by
  rw [settle, h]

theorem meetAll_cons (limit : Nat) (s : Calls Bool) (i : Incident) (incidents : List Incident) :
    s.meetAll limit (i :: incidents) = (s.meet limit i).meetAll limit incidents := rfl

theorem meetAll_append (limit : Nat) (s : Calls Bool) (xs ys : List Incident) :
    s.meetAll limit (xs ++ ys) = (s.meetAll limit xs).meetAll limit ys := by
  simp [meetAll]

theorem hear_onto (w : Calls σ) (link : τ) (response : Option Response) :
    (w.onto link).hear response = (w.hear response).onto link := by
  cases response with
  | none => rfl
  | some r => exact w.settle_onto link (some r)

@[simp] theorem link_hear (w : Calls σ) (response : Option Response) :
    (w.hear response).link = w.link := by
  cases response with
  | none => rfl
  | some r => exact w.link_settle (some r)

@[simp] theorem sent_hear (w : Calls σ) (response : Option Response) :
    (w.hear response).sent = w.sent := by
  cases response with
  | none => rfl
  | some r => exact w.sent_settle (some r)

theorem meetAll_arrived_of_none (limit : Nat) {s : Calls Bool} (h : s.waiting = none)
    (bodies : List Bytes) : s.meetAll limit (bodies.map .arrived) = s := by
  induction bodies with
  | nil => rfl
  | cons body bodies ih =>
    have hbody : s.meet limit (.arrived body) = s := by simp [meet, h, hear]
    rw [List.map_cons, meetAll_cons, hbody, ih]

theorem meetAll_arrived (limit : Nat) (s : Calls Bool) (bodies : List Bytes) :
    s.meetAll limit (bodies.map .arrived)
      = s.hear ((s.waiting.map Prod.fst).bind fun id => Channel.responseAmong id bodies) := by
  cases h : s.waiting with
  | none => exact meetAll_arrived_of_none limit h bodies
  | some call =>
    obtain ⟨id, q⟩ := call
    change _ = s.hear (bodies.findSome? (answer? id))
    induction bodies with
    | nil => rfl
    | cons body bodies ih =>
      have hbody : s.meet limit (.arrived body) = s.hear (answer? id body) := by simp [meet, h]
      rw [List.map_cons, meetAll_cons, hbody, List.findSome?_cons]
      cases answer? id body with
      | none => exact ih
      | some r => exact meetAll_arrived_of_none limit (waiting_settle s (some r)) bodies

end Calls

theorem callId_succ (earlier : Nat) : callId (earlier + 1) = callId earlier + 1 := by
  rw [callId, callId, UInt64.ofNat_add]
  rfl

theorem send_eq (c : Channel) (q : Question) :
    c.send q.service q.method q.data =
      match q.frame c.limit c.nextId with
      | .error e => (.error e, { c with nextId := c.nextId + 1 })
      | .ok frame =>
        if c.closed then (.error connectionClosed, { c with nextId := c.nextId + 1 })
        else
          (.ok ⟨c.nextId, frame⟩, { c with nextId := c.nextId + 1, issued := c.issued + 1 }) := by
  rw [Channel.send, Question.frame, Question.body]
  cases Frame.encode c.limit (encode (Request.make c.nextId q.service q.method q.data)) <;> rfl

namespace Line

/-- The ids are counted, and over a closed channel no call waits. -/
structure Sound (limit : Nat) (w : Line) : Prop where
  limit_eq : w.link.limit = limit
  nextId : w.link.nextId = callId w.sent.length
  closed : w.link.closed → w.waiting = none

def view (w : Line) : Calls Bool := w.onto w.link.closed

theorem sound_start (limit : Nat) : Sound limit (Calls.start (.opened limit)) :=
  ⟨rfl, rfl, nofun⟩

section Step
variable {limit : Nat} {w : Line} {q : Question}

theorem step_ask_of_error {e : Fault} (h : q.frame w.link.limit w.link.nextId = .error e) :
    w.step (.ask q) = (w.onto { w.link with nextId := w.link.nextId + 1 }).refuse e := by
  simp only [step, send_eq, h]

theorem step_ask_of_closed {frame : Bytes} (h : q.frame w.link.limit w.link.nextId = .ok frame)
    (hclosed : w.link.closed) :
    w.step (.ask q)
      = (w.onto { w.link with nextId := w.link.nextId + 1 }).refuse connectionClosed := by
  simp only [step, send_eq, h, hclosed, if_true]

theorem step_ask_of_open {frame : Bytes} (h : q.frame w.link.limit w.link.nextId = .ok frame)
    (hopen : w.link.closed = false) :
    w.step (.ask q)
      = (w.onto { w.link with nextId := w.link.nextId + 1, issued := w.link.issued + 1 }).await
          w.link.nextId q frame := by
  simp only [step, send_eq, h, hopen, Bool.false_eq_true, if_false]

theorem Sound.ask (h : w.Sound limit) (q : Question) :
    (w.step (.ask q)).Sound limit ∧
      (w.step (.ask q)).view = w.view.meetAll limit [.asked q] := by
  obtain ⟨rfl, hid, hwaiting⟩ := h
  have hnext (entry : Option Bytes) :
      w.link.nextId + 1 = callId (w.sent ++ [entry]).length := by
    rw [List.length_append, List.length_singleton, callId_succ, hid]
  have hmeet : w.view.meetAll w.link.limit [.asked q]
      = match q.frame w.link.limit w.link.nextId with
        | .error e => w.view.refuse e
        | .ok frame =>
          if w.link.closed then w.view.refuse connectionClosed
          else w.view.await w.link.nextId q frame := by
    rw [hid]
    rfl
  rw [hmeet]
  cases hframe : q.frame w.link.limit w.link.nextId with
  | error e =>
    rw [step_ask_of_error hframe]
    exact ⟨⟨rfl, hnext none, hwaiting⟩, rfl⟩
  | ok frame =>
    cases hclosed : w.link.closed with
    | true =>
      rw [step_ask_of_closed hframe hclosed]
      exact ⟨⟨rfl, hnext none, hwaiting⟩, rfl⟩
    | false =>
      rw [step_ask_of_open hframe hclosed]
      exact ⟨⟨rfl, hnext (some frame), fun hlost => absurd (hclosed.symm.trans hlost) nofun⟩, rfl⟩

theorem Sound.ended (h : w.Sound limit) :
    (w.step .ended).Sound limit ∧ (w.step .ended).view = w.view.meetAll limit [.lost] := by
  refine ⟨⟨?_, ?_, fun _ => Calls.waiting_settle _ _⟩, ?_⟩
  · rw [step, Calls.link_settle]
    exact h.limit_eq
  · rw [step, Calls.link_settle, Calls.sent_settle]
    exact h.nextId
  · change (step w .ended).view = w.view.meet limit .lost
    rw [view, step, Calls.link_settle, Calls.settle_onto]
    simp [Calls.meet, view, Calls.settle_onto, Channel.hangUp]

theorem step_chunk_of_open (hopen : w.link.closed = false) (bytes : Bytes) :
    let drained := Frame.drain w.link.limit (w.link.buffer ++ bytes)
    let c := { w.link with buffer := drained.buffer, closed := drained.stop.isSome }
    let heard := (w.onto c).hear
      ((w.waiting.map Prod.fst).bind fun id => Channel.responseAmong id drained.bodies)
    w.step (.chunk bytes) = (if drained.stop.isSome then heard.settle none else heard) ∧
      w.link.incidents (.chunk bytes)
        = drained.bodies.map .arrived ++ if drained.stop.isSome then [.lost] else [] := by
  simp only [step, Channel.receive, Channel.incidents, hopen, Bool.false_eq_true, if_false]
  exact ⟨trivial, trivial⟩

theorem step_chunk_of_closed (hclosed : w.link.closed) (hwaiting : w.waiting = none)
    (bytes : Bytes) :
    w.step (.chunk bytes) = w ∧ w.link.incidents (.chunk bytes) = [] := by
  simp only [step, Channel.receive, Channel.incidents, hclosed, if_true]
  exact ⟨Calls.settle_of_waiting_none hwaiting none, trivial⟩

theorem Sound.chunk (h : w.Sound limit) (bytes : Bytes) :
    (w.step (.chunk bytes)).Sound limit ∧
      (w.step (.chunk bytes)).view
        = w.view.meetAll limit (w.link.incidents (.chunk bytes)) := by
  obtain ⟨rfl, hid, hwaiting⟩ := h
  cases hclosed : w.link.closed with
  | true =>
    obtain ⟨hstep, hincidents⟩ := step_chunk_of_closed hclosed (hwaiting hclosed) bytes
    rw [hstep, hincidents]
    exact ⟨⟨rfl, hid, hwaiting⟩, rfl⟩
  | false =>
    obtain ⟨hstep, hincidents⟩ := step_chunk_of_open hclosed bytes
    rw [hstep, hincidents, Calls.meetAll_append, Calls.meetAll_arrived]
    -- of the chunk only what it was drained to matters from here on
    generalize Frame.drain w.link.limit (w.link.buffer ++ bytes) = drained
    change _ ∧ _ = (w.view.hear ((w.waiting.map Prod.fst).bind fun id =>
      Channel.responseAmong id drained.bodies)).meetAll w.link.limit _
    generalize (w.waiting.map Prod.fst).bind (fun id => Channel.responseAmong id drained.bodies)
      = response
    cases hstop : drained.stop.isSome with
    | true =>
      simp only [if_true]
      refine ⟨⟨?_, ?_, fun _ => Calls.waiting_settle _ _⟩, ?_⟩
      · simp
      · simpa using hid
      · change _ = ((w.view.hear response).onto true).settle none
        simp [view, Calls.hear_onto, Calls.settle_onto]
    | false =>
      simp only [Bool.false_eq_true, if_false]
      refine ⟨⟨?_, ?_, ?_⟩, ?_⟩
      · simp
      · simpa using hid
      · simp
      · simp [view, Calls.hear_onto, Calls.meetAll, hclosed]

theorem Sound.step (h : w.Sound limit) (act : Act) :
    (w.step act).Sound limit ∧
      (w.step act).view = w.view.meetAll limit (w.link.incidents act) := by
  cases act with
  | ask q => exact h.ask q
  | chunk bytes => exact h.chunk bytes
  | ended => exact h.ended

theorem Sound.run (h : w.Sound limit) (acts : List Act) :
    (w.run acts).Sound limit ∧ (w.run acts).view = w.view.meetAll limit (w.trace acts) := by
  induction acts generalizing w with
  | nil => exact ⟨h, rfl⟩
  | cons act acts ih =>
    obtain ⟨hsound, hview⟩ := h.step act
    obtain ⟨hlater, hrun⟩ := ih hsound
    refine ⟨hlater, hrun.trans ?_⟩
    rw [hview, trace, Calls.meetAll_append]

end Step
end Line
end PathPolicy.Client
