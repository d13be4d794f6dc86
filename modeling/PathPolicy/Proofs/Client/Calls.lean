import PathPolicy.Proofs.Client.Exchange
import PathPolicy.Proofs.Client.Line

/-!
Calls and responses are matched by id. Whatever a peer sends, a call has the outcome of the first
response under its id that arrives while it waits, or fails once the stream is lost; all else that
arrives changes nothing.
-/
namespace PathPolicy.Client
open Json

/-! ### What is said of incidents -/

namespace Incident

def question? : Incident → Option Question
  | asked q => some q
  | arrived _ | lost => none

def body? : Incident → Option Bytes
  | arrived body => some body
  | asked _ | lost => none

/-- The incident decides the call that waits under the id. -/
def Decides (id : UInt64) : Incident → Prop
  | asked _ => False
  | arrived body => ∃ r, Response.parse body = .ok r ∧ r.id = id
  | lost => True

end Incident

def questions (incidents : List Incident) : List Question := incidents.filterMap Incident.question?

def Undecided (id : UInt64) (incidents : List Incident) : Prop := ∀ i ∈ incidents, ¬i.Decides id

/-- The outcome of a call whose request was sent, by what happens after it: that of the first
response under its id, or a fault if the stream is lost before, or none yet. -/
structure Fate (id : UInt64) (q : Question) (after : List Incident)
    (answer : Option (Except Fault (Option Value))) : Prop where
  response : ∀ mid body r rest, after = mid ++ .arrived body :: rest → Undecided id mid →
    Response.parse body = .ok r → r.id = id → answer = some r.result
  lost : ∀ mid rest, after = mid ++ .lost :: rest → Undecided id mid →
    answer = some (.error q.lost)
  waiting : Undecided id after → answer = none

theorem answer?_eq_some_iff {id : UInt64} {body : Bytes} {r : Response} :
    answer? id body = some r ↔ Response.parse body = .ok r ∧ r.id = id := by
  rw [answer?]
  cases Response.parse body with
  | error e => simp
  | ok r' =>
    by_cases h : r'.id = id
    · simp only [if_pos h, Option.some.injEq, Except.ok.injEq]
      exact ⟨fun heq => ⟨heq, heq ▸ h⟩, And.left⟩
    · simp only [if_neg h, Except.ok.injEq]
      exact ⟨nofun, fun ⟨heq, hid⟩ => absurd (heq ▸ hid) h⟩

theorem answer?_eq_none_iff {id : UInt64} {body : Bytes} :
    answer? id body = none ↔ ¬(Incident.arrived body).Decides id := by
  rw [← Option.not_isSome_iff_eq_none, Option.isSome_iff_exists]
  exact not_congr (exists_congr fun r => answer?_eq_some_iff)

theorem callId_ne {j k : Nat} (hjk : j < k) (hk : k < j + UInt64.size) : callId j ≠ callId k := by
  intro h
  have hmod : (j + 1) % UInt64.size = (k + 1) % UInt64.size := congrArg UInt64.toNat h
  simp only [UInt64.size] at hk hmod
  omega

theorem frame_of_fits {q : Question} {limit : Nat} {id : UInt64}
    (h : Frame.Fits limit (q.body id)) :
    q.frame limit id = .ok (Frame.header (q.body id).length ++ q.body id) :=
  Frame.encode_of_fits h

theorem frame_of_not_fits {q : Question} {limit : Nat} {id : UInt64}
    (h : ¬Frame.Fits limit (q.body id)) :
    ∃ e : Fault, e.code = .badRequest ∧ q.frame limit id = .error e :=
  Frame.encode_of_not_fits h

instance (id : UInt64) : (i : Incident) → Decidable (i.Decides id)
  | .asked _ => isFalse not_false
  | .arrived body => decidable_of_iff ((answer? id body).isSome) (by
      rw [Option.isSome_iff_exists]
      exact exists_congr fun r => answer?_eq_some_iff)
  | .lost => isTrue trivial

instance (id : UInt64) (incidents : List Incident) : Decidable (Undecided id incidents) :=
  inferInstanceAs (Decidable (∀ i ∈ incidents, _))

/-! ### One call -/

namespace Calls
variable {limit : Nat} {s : Calls Bool}

/-- A call is made only while none waits. -/
def Orderly (limit : Nat) : Calls Bool → List Incident → Prop
  | _, [] => True
  | s, i :: incidents =>
    (i.question?.isSome → s.waiting = none) ∧ Orderly limit (s.meet limit i) incidents

theorem orderly_append (xs ys : List Incident) :
    s.Orderly limit (xs ++ ys) ↔ s.Orderly limit xs ∧ (s.meetAll limit xs).Orderly limit ys := by
  induction xs generalizing s with
  | nil => simp [Orderly, meetAll]
  | cons i xs ih =>
    simp only [List.cons_append, Orderly, ih, and_assoc]
    rfl

theorem meet_asked_of_error {q : Question} {e : Fault}
    (h : q.frame limit (callId s.sent.length) = .error e) :
    s.meet limit (.asked q) = s.refuse e := by
  simp only [meet, h]

theorem meet_asked_of_lost {q : Question} {frame : Bytes}
    (h : q.frame limit (callId s.sent.length) = .ok frame) (hlost : s.link = true) :
    s.meet limit (.asked q) = s.refuse connectionClosed := by
  simp only [meet, h, hlost, if_true]

theorem meet_asked_of_open {q : Question} {frame : Bytes}
    (h : q.frame limit (callId s.sent.length) = .ok frame) (hopen : s.link = false) :
    s.meet limit (.asked q) = s.await (callId s.sent.length) q frame := by
  simp only [meet, h, hopen, Bool.false_eq_true, if_false]

theorem meet_asked_cases (limit : Nat) (s : Calls Bool) (q : Question) :
    (∃ e, s.meet limit (.asked q) = s.refuse e) ∨
      ∃ frame, s.meet limit (.asked q) = s.await (callId s.sent.length) q frame := by
  cases hframe : q.frame limit (callId s.sent.length) with
  | error e => exact .inl ⟨e, meet_asked_of_error hframe⟩
  | ok frame =>
    cases hlink : s.link with
    | true => exact .inl ⟨connectionClosed, meet_asked_of_lost hframe hlink⟩
    | false => exact .inr ⟨frame, meet_asked_of_open hframe hlink⟩

theorem meet_arrived_cases (limit : Nat) (s : Calls Bool) (body : Bytes) :
    s.meet limit (.arrived body) = s ∨
      ∃ r, s.meet limit (.arrived body) = s.settle (some r) := by
  rw [meet]
  cases s.waiting.bind fun call => answer? call.1 body with
  | none => exact .inl rfl
  | some r => exact .inr ⟨r, rfl⟩

/-- All calls but the one that waits have an outcome. -/
def Balanced (s : Calls Bool) : Prop :=
  s.sent.length = s.answers.length + s.waiting.toList.length

theorem balanced_settle (h : s.Balanced) (response : Option Response) :
    (s.settle response).Balanced := by
  obtain ⟨link, waiting, sent, answers⟩ := s
  cases waiting with
  | none => exact h
  | some call => simpa [Balanced, settle] using h

theorem balanced_refuse (h : s.Balanced) (e : Fault) : (s.refuse e).Balanced := by
  simp only [Balanced, refuse, List.length_append, List.length_singleton] at h ⊢
  omega

theorem balanced_meet (h : s.Balanced) {i : Incident} (hi : i.question?.isSome → s.waiting = none) :
    (s.meet limit i).Balanced := by
  cases i with
  | arrived body =>
    obtain hmeet | ⟨r, hmeet⟩ := meet_arrived_cases limit s body
    · rwa [hmeet]
    · rw [hmeet]
      exact balanced_settle h (some r)
  | lost => exact balanced_settle (s := s.onto true) h none
  | asked q =>
    obtain ⟨e, hmeet⟩ | ⟨frame, hmeet⟩ := meet_asked_cases limit s q
    · rw [hmeet]
      exact balanced_refuse h e
    · have hnone : s.waiting = none := hi rfl
      rw [hmeet]
      simpa [Balanced, await, hnone] using h

theorem balanced_meetAll (h : s.Balanced) {incidents : List Incident}
    (horderly : s.Orderly limit incidents) : (s.meetAll limit incidents).Balanced := by
  induction incidents generalizing s with
  | nil => exact h
  | cons i incidents ih => exact ih (balanced_meet h horderly.1) horderly.2

theorem prefix_meet (limit : Nat) (s : Calls Bool) (i : Incident) :
    s.sent <+: (s.meet limit i).sent ∧ s.answers <+: (s.meet limit i).answers := by
  have hsettle (response : Option Response) : s.answers <+: (s.settle response).answers := by
    rw [settle]
    split
    · exact List.prefix_refl _
    · exact List.prefix_append _ _
  cases i with
  | arrived body =>
    obtain hmeet | ⟨r, hmeet⟩ := meet_arrived_cases limit s body
    · rw [hmeet]
      exact ⟨List.prefix_refl _, List.prefix_refl _⟩
    · rw [hmeet]
      exact ⟨by simp, hsettle (some r)⟩
  | lost =>
    rw [meet, settle_onto]
    exact ⟨by simp, hsettle none⟩
  | asked q =>
    obtain ⟨e, hmeet⟩ | ⟨frame, hmeet⟩ := meet_asked_cases limit s q
    · rw [hmeet]
      exact ⟨List.prefix_append _ _, List.prefix_append _ _⟩
    · rw [hmeet]
      exact ⟨List.prefix_append _ _, List.prefix_refl _⟩

theorem prefix_meetAll (limit : Nat) (s : Calls Bool) (incidents : List Incident) :
    s.sent <+: (s.meetAll limit incidents).sent ∧
      s.answers <+: (s.meetAll limit incidents).answers := by
  induction incidents generalizing s with
  | nil => exact ⟨List.prefix_refl _, List.prefix_refl _⟩
  | cons i incidents ih =>
    have hfirst := prefix_meet limit s i
    have hrest := ih (s.meet limit i)
    exact ⟨hfirst.1.trans hrest.1, hfirst.2.trans hrest.2⟩

theorem getElem?_of_isPrefix {α : Type} {xs ys : List α} (h : xs <+: ys) {k : Nat} {x : α}
    (hx : xs[k]? = some x) : ys[k]? = some x := by
  obtain ⟨hk, rfl⟩ := List.getElem?_eq_some_iff.mp hx
  exact List.prefix_iff_getElem?.mp h k hk

theorem meetAll_of_undecided {id : UInt64} {q : Question} (h : s.waiting = some (id, q))
    {incidents : List Incident} (hundecided : Undecided id incidents)
    (horderly : s.Orderly limit incidents) : s.meetAll limit incidents = s := by
  induction incidents with
  | nil => rfl
  | cons i incidents ih =>
    have hi := hundecided i List.mem_cons_self
    have hmeet : s.meet limit i = s := by
      cases i with
      | asked q' =>
        have hnone := horderly.1 rfl
        rw [h] at hnone
        cases hnone
      | arrived body => simp [meet, h, answer?_eq_none_iff.mpr hi, hear]
      | lost => exact absurd trivial hi
    rw [Orderly, hmeet] at horderly
    rw [meetAll_cons, hmeet]
    exact ih (fun j hj => hundecided j (List.mem_cons_of_mem i hj)) horderly.2

/-- A call that waits has the outcome that the incidents after it decide. -/
theorem fate_of_waiting {id : UInt64} {q : Question} (h : s.waiting = some (id, q))
    {after : List Incident} (horderly : s.Orderly limit after) :
    Fate id q after (s.meetAll limit after).answers[s.answers.length]? := by
  -- up to the deciding incident nothing happens to the call, and after it its answer stays
  have hdecided {mid rest : List Incident} {i : Incident} (response : Option Response)
      (hafter : after = mid ++ i :: rest) (hundecided : Undecided id mid)
      (hi : (s.meet limit i).answers = (s.settle response).answers) :
      (s.meetAll limit after).answers[s.answers.length]?
        = some (Channel.outcome q.service q.method response) := by
    subst hafter
    have hmid : s.meetAll limit mid = s :=
      meetAll_of_undecided h hundecided ((orderly_append mid _).mp horderly).1
    rw [meetAll_append, hmid]
    refine getElem?_of_isPrefix (prefix_meetAll limit (s.meet limit i) rest).2 ?_
    rw [hi, settle, h]
    exact List.getElem?_concat_length
  refine ⟨fun mid body r rest hafter hundecided hparse hid => ?_,
    fun mid rest hafter hundecided => ?_, fun hundecided => ?_⟩
  · refine hdecided (some r) hafter hundecided ?_
    simp [meet, h, answer?_eq_some_iff.mpr ⟨hparse, hid⟩, hear]
  · refine hdecided none hafter hundecided ?_
    rw [meet, settle_onto]
    rfl
  · rw [meetAll_of_undecided h hundecided horderly]
    exact List.getElem?_eq_none (Nat.le_refl _)

theorem refused_meetAll (hlength : s.sent.length = s.answers.length) (e : Fault)
    (after : List Incident) :
    ((s.refuse e).meetAll limit after).sent[s.sent.length]? = some none ∧
      ((s.refuse e).meetAll limit after).answers[s.sent.length]? = some (.error e) := by
  obtain ⟨hsent, hanswers⟩ := prefix_meetAll limit (s.refuse e) after
  refine ⟨getElem?_of_isPrefix hsent List.getElem?_concat_length, getElem?_of_isPrefix hanswers ?_⟩
  rw [hlength]
  exact List.getElem?_concat_length

/-- What becomes of the call with the number `k`: it fails at once if its request does not fit or
the link is lost, and otherwise is sent and has its fate. -/
theorem call_of_asked {q : Question} {after : List Incident} {k : Nat} (hk : s.sent.length = k)
    (hbalanced : s.Balanced) (horderly : s.Orderly limit (.asked q :: after)) :
    let request := q.body (callId k)
    let s' := s.meetAll limit (.asked q :: after)
    (¬Frame.Fits limit request → ∃ e : Fault, e.code = .badRequest ∧
      s'.sent[k]? = some none ∧ s'.answers[k]? = some (.error e)) ∧
    (Frame.Fits limit request → s.link = true →
      s'.sent[k]? = some none ∧ s'.answers[k]? = some (.error connectionClosed)) ∧
    (Frame.Fits limit request → s.link = false →
      s'.sent[k]? = some (some (Frame.header request.length ++ request)) ∧
      Fate (callId k) q after s'.answers[k]?) := by
  subst hk
  obtain ⟨hnone, hafter⟩ := horderly
  have hlength : s.sent.length = s.answers.length := by
    simpa [Balanced, hnone rfl] using hbalanced
  simp only [meetAll_cons]
  refine ⟨fun hfits => ?_, fun hfits hlost => ?_, fun hfits hopen => ?_⟩
  · obtain ⟨e, hcode, hframe⟩ := frame_of_not_fits hfits
    rw [meet_asked_of_error hframe]
    exact ⟨e, hcode, refused_meetAll hlength e after⟩
  · rw [meet_asked_of_lost (frame_of_fits hfits) hlost]
    exact refused_meetAll hlength connectionClosed after
  · rw [meet_asked_of_open (frame_of_fits hfits) hopen] at hafter ⊢
    generalize hawaits : s.await (callId s.sent.length) q _ = awaits at hafter ⊢
    have hsent := (prefix_meetAll limit awaits after).1
    have hfate := fate_of_waiting (s := awaits) (by rw [← hawaits]; rfl) hafter
    subst hawaits
    refine ⟨getElem?_of_isPrefix hsent List.getElem?_concat_length, ?_⟩
    rwa [show (s.await _ q _).answers.length = s.sent.length from hlength.symm] at hfate

theorem meetAll_ignored {earlier later : List Incident} {body : Bytes}
    (h : ∀ id q, (s.meetAll limit earlier).waiting = some (id, q) →
      ¬(Incident.arrived body).Decides id) :
    s.meetAll limit (earlier ++ .arrived body :: later) = s.meetAll limit (earlier ++ later) := by
  rw [meetAll_append, meetAll_append, meetAll_cons]
  refine congrArg (meetAll limit · later) ?_
  generalize s.meetAll limit earlier = t at h
  cases hwaiting : t.waiting with
  | none => simp [meet, hwaiting, hear]
  | some call => simp [meet, hwaiting, answer?_eq_none_iff.mpr (h call.1 call.2 hwaiting), hear]

/-! ### A whole run -/

theorem link_meetAll (limit : Nat) (s : Calls Bool) (incidents : List Incident) :
    (s.meetAll limit incidents).link = true ↔ s.link = true ∨ .lost ∈ incidents := by
  induction incidents generalizing s with
  | nil => simp [meetAll]
  | cons i incidents ih =>
    have hmeet : (s.meet limit i).link = true ↔ s.link = true ∨ i = .lost := by
      cases i with
      | arrived body => simp [meet]
      | lost => simp [meet]
      | asked q =>
        obtain ⟨e, hasked⟩ | ⟨frame, hasked⟩ := meet_asked_cases limit s q
        · simp [hasked, refuse]
        · simp [hasked, await]
    rw [meetAll_cons, ih, hmeet, List.mem_cons, or_assoc, eq_comm (a := i)]

theorem length_sent_meetAll (limit : Nat) (s : Calls Bool) (incidents : List Incident) :
    (s.meetAll limit incidents).sent.length = s.sent.length + (questions incidents).length := by
  induction incidents generalizing s with
  | nil => rfl
  | cons i incidents ih =>
    rw [meetAll_cons, ih]
    cases i with
    | arrived body => simp [meet, questions, List.filterMap_cons, Incident.question?]
    | lost => simp [meet, questions, List.filterMap_cons, Incident.question?]
    | asked q =>
      have hmeet : (s.meet limit (.asked q)).sent.length = s.sent.length + 1 := by
        obtain ⟨e, hasked⟩ | ⟨frame, hasked⟩ := meet_asked_cases limit s q
        · simp [hasked, refuse]
        · simp [hasked, await]
      rw [hmeet]
      simp [questions, Incident.question?]
      omega

theorem orderly_of_no_question {incidents : List Incident} (h : questions incidents = [])
    (s : Calls Bool) : s.Orderly limit incidents := by
  rw [questions, List.filterMap_eq_nil_iff] at h
  induction incidents generalizing s with
  | nil => trivial
  | cons i incidents ih =>
    obtain ⟨hi, hrest⟩ := List.forall_mem_cons.mp h
    exact ⟨fun hsome => absurd hsome (by simp [hi]), ih hrest _⟩

end Calls

/-! ### What a channel's acts come to -/

def Line.Act.question? : Act → Option Question
  | ask q => some q
  | chunk _ | ended => none

/-- The chunks that arrive before the stream ends. -/
def stream : List Line.Act → List Bytes
  | [] | .ended :: _ => []
  | .ask _ :: acts => stream acts
  | .chunk bytes :: acts => bytes :: stream acts

def bodies (incidents : List Incident) : List Bytes := incidents.filterMap Incident.body?

theorem bodies_append (xs ys : List Incident) : bodies (xs ++ ys) = bodies xs ++ bodies ys :=
  List.filterMap_append

theorem bodies_arrived (arrived : List Bytes) : bodies (arrived.map .arrived) = arrived := by
  simp [bodies, List.filterMap_map, Function.comp_def, Incident.body?]

namespace Line
variable {limit : Nat} {w : Line}

/-- A call is made only while none waits. -/
def Sequential : Line → List Act → Prop
  | _, [] => True
  | w, act :: acts => (act.question?.isSome → w.waiting = none) ∧ Sequential (w.step act) acts

instance decidableSequential : (w : Line) → (acts : List Act) → Decidable (Sequential w acts)
  | _, [] => isTrue trivial
  | w, act :: acts =>
    have := decidableSequential (w.step act) acts
    inferInstanceAs (Decidable (_ ∧ _))

theorem questions_incidents (c : Channel) (act : Act) :
    questions (c.incidents act) = act.question?.toList := by
  cases act with
  | ask q => rfl
  | ended => rfl
  | chunk bytes =>
    simp only [Channel.incidents]
    split
    · rfl
    · rw [questions, List.filterMap_append, List.filterMap_map]
      split <;> simp [Incident.question?, Act.question?, Function.comp_def]

theorem questions_trace (w : Line) (acts : List Act) :
    questions (w.trace acts) = acts.filterMap Act.question? := by
  induction acts generalizing w with
  | nil => rfl
  | cons act acts ih =>
    rw [trace, questions, List.filterMap_append, ← questions, ← questions, questions_incidents, ih]
    cases h : act.question? <;> simp [h]

theorem Sequential.orderly {acts : List Act} (h : w.Sequential acts) (hsound : w.Sound limit) :
    w.view.Orderly limit (w.trace acts) := by
  induction acts generalizing w with
  | nil => trivial
  | cons act acts ih =>
    obtain ⟨hact, hrest⟩ := h
    obtain ⟨hnext, hview⟩ := hsound.step act
    rw [trace, Calls.orderly_append, ← hview]
    refine ⟨?_, ih hrest hnext⟩
    cases act with
    | ask q => exact ⟨fun _ => hact rfl, trivial⟩
    | chunk bytes =>
      exact Calls.orderly_of_no_question (questions_incidents w.link (.chunk bytes)) _
    | ended => exact Calls.orderly_of_no_question (questions_incidents w.link .ended) _

theorem Sound.trace_of_closed (h : w.Sound limit) (hclosed : w.link.closed) (acts : List Act) :
    bodies (w.trace acts) = [] ∧ (.lost ∈ w.trace acts ↔ .ended ∈ acts) := by
  induction acts generalizing w with
  | nil => exact ⟨rfl, by simp [trace]⟩
  | cons act acts ih =>
    have hnext : (w.step act).link.closed := by
      have hview := (Calls.link_meetAll limit w.view (w.link.incidents act)).mpr (.inl hclosed)
      rw [← (h.step act).2] at hview
      exact hview
    obtain ⟨hbodies, hlost⟩ := ih (h.step act).1 hnext
    rw [trace, bodies_append, hbodies, List.mem_append, hlost]
    cases act with
    | ask q => exact ⟨rfl, by simp [Channel.incidents]⟩
    | ended => exact ⟨rfl, by simp [Channel.incidents]⟩
    | chunk bytes => simp [(step_chunk_of_closed hclosed (h.closed hclosed) bytes).2, bodies]

theorem foldl_receive_of_stopped {d : Frame.Drained} {fault : Fault} (h : d.stop = some fault)
    (chunks : List Bytes) : chunks.foldl (Frame.Drained.receive limit) d = d := by
  induction chunks with
  | nil => rfl
  | cons chunk chunks ih => rw [List.foldl_cons, Frame.receive_of_stopped h, ih]

theorem link_step_ask (w : Line) (q : Question) :
    (w.step (.ask q)).link.buffer = w.link.buffer ∧
      (w.step (.ask q)).link.closed = w.link.closed := by
  cases hframe : q.frame w.link.limit w.link.nextId with
  | error e =>
    rw [step_ask_of_error hframe]
    exact ⟨rfl, rfl⟩
  | ok frame =>
    cases hclosed : w.link.closed with
    | true =>
      rw [step_ask_of_closed hframe hclosed]
      exact ⟨rfl, hclosed⟩
    | false =>
      rw [step_ask_of_open hframe hclosed]
      exact ⟨rfl, hclosed⟩

theorem link_step_chunk (hopen : w.link.closed = false) (bytes : Bytes) :
    (w.step (.chunk bytes)).link =
      let drained := Frame.drain w.link.limit (w.link.buffer ++ bytes)
      { w.link with buffer := drained.buffer, closed := drained.stop.isSome } := by
  rw [(step_chunk_of_open hopen bytes).1]
  split
  · rw [Calls.link_settle, Calls.link_hear]
    rfl
  · rw [Calls.link_hear]
    rfl

theorem Sound.trace_of_open (h : w.Sound limit) (hopen : w.link.closed = false) (acts : List Act)
    (before : List Bytes) :
    let d := (stream acts).foldl (Frame.Drained.receive limit) ⟨before, w.link.buffer, none⟩
    d.bodies = before ++ bodies (w.trace acts) ∧
      (.lost ∈ w.trace acts ↔ d.stop.isSome ∨ .ended ∈ acts) := by
  induction acts generalizing w before with
  | nil => simp [stream, trace, bodies]
  | cons act acts ih =>
    rw [trace, bodies_append, List.mem_append]
    cases act with
    | ended =>
      have hclosed : (w.step .ended).link.closed := by
        rw [Line.step, Calls.link_settle]
        rfl
      obtain ⟨hbodies, -⟩ := h.ended.1.trace_of_closed hclosed acts
      rw [hbodies]
      exact ⟨by simp [stream, Channel.incidents, bodies, List.filterMap_cons, Incident.body?],
        by simp [Channel.incidents]⟩
    | ask q =>
      obtain ⟨hbuffer, hclosed⟩ := w.link_step_ask q
      have hrest := ih (h.ask q).1 (hclosed.trans hopen) before
      rw [hbuffer] at hrest
      exact ⟨hrest.1, by simpa [Channel.incidents, stream] using hrest.2⟩
    | chunk bytes =>
      have hlink := link_step_chunk hopen bytes
      rw [(step_chunk_of_open hopen bytes).2, stream, List.foldl_cons, bodies_append,
        bodies_arrived]
      simp only [Frame.Drained.receive, ← h.limit_eq]
      simp only at hlink
      generalize Frame.drain w.link.limit (w.link.buffer ++ bytes) = drained at hlink ⊢
      obtain ⟨arrived, buffer, stop⟩ := drained
      have hsound := (h.chunk bytes).1
      -- a refusal closes the channel, and nothing arrives from there on
      cases stop with
      | some fault =>
        obtain ⟨hbodies, -⟩ := hsound.trace_of_closed (by rw [hlink]; rfl) acts
        rw [foldl_receive_of_stopped rfl, hbodies]
        exact ⟨by simp [bodies, List.filterMap_cons, Incident.body?], by simp⟩
      | none =>
        obtain ⟨hbodies, hlost⟩ := ih hsound (by rw [hlink]; rfl) (before ++ arrived)
        rw [hlink, ← h.limit_eq] at hbodies hlost
        refine ⟨by simpa [bodies] using hbodies, ?_⟩
        simpa using hlost

theorem view_run (limit : Nat) (acts : List Act) :
    (Line.run (.start (.opened limit)) acts).view
      = (Calls.start false).meetAll limit (Line.trace (.start (.opened limit)) acts) :=
  ((sound_start limit).run acts).2

theorem step_ask_of_not_fits {q : Question}
    (h : ¬Frame.Fits w.link.limit (q.body w.link.nextId)) :
    ∃ e : Fault, e.code = .badRequest ∧
      w.step (.ask q) = (w.onto { w.link with nextId := w.link.nextId + 1 }).refuse e := by
  obtain ⟨e, hcode, hframe⟩ := frame_of_not_fits h
  exact ⟨e, hcode, step_ask_of_error hframe⟩

end Line

theorem Calls.answers_hear {σ : Type} {w : Calls σ} {id : UInt64} {q : Question}
    (h : w.waiting = some (id, q)) (response : Option Response) :
    ((w.hear response).settle none).answers
        = w.answers ++ [Channel.outcome q.service q.method response] ∧
      ((w.hear response).waiting = none →
        (w.hear response).answers
          = w.answers ++ [Channel.outcome q.service q.method response]) := by
  have hsettle (response : Option Response) : (w.settle response).answers
      = w.answers ++ [Channel.outcome q.service q.method response] := by
    simp only [settle, h]
  cases response with
  | none =>
    refine ⟨hsettle none, fun hnone => ?_⟩
    rw [hear, h] at hnone
    cases hnone
  | some r =>
    have hwaiting := waiting_settle w (some r)
    refine ⟨?_, fun _ => hsettle (some r)⟩
    rw [hear, settle_of_waiting_none hwaiting, hsettle]

theorem Line.exchange {w : Line} {q : Question} {sent : Channel.Sent} {c c' : Channel}
    {chunk : Bytes} {response : Option Response}
    (hsend : w.link.send q.service q.method q.data = (.ok sent, c))
    (hreceive : c.receive (some sent.id) chunk = (response, c')) :
    let v := w.run [.ask q, .chunk chunk]
    let outcome := Channel.outcome q.service q.method response
    v.link = c' ∧ (v.settle none).answers = w.answers ++ [outcome] ∧
      (v.waiting = none → v.answers = w.answers ++ [outcome]) := by
  let asked : Line := (w.onto c').await sent.id q sent.frame
  have hchunk : w.run [.ask q, .chunk chunk]
      = if c'.closed then (asked.hear response).settle none else asked.hear response := by
    simp only [Line.run, List.foldl_cons, List.foldl_nil, Line.step, hsend]
    simp only [Calls.await, Option.map_some, Calls.onto, hreceive]
    rfl
  obtain ⟨hsettled, hanswers⟩ := Calls.answers_hear (w := asked) rfl response
  simp only [hchunk]
  split
  · rw [Calls.settle_of_waiting_none (Calls.waiting_settle _ none)]
    exact ⟨by simp [asked, Calls.await], hsettled, fun _ => hsettled⟩
  · exact ⟨by simp [asked, Calls.await], hsettled, hanswers⟩

/-- A call to a peer is a call on the line, with what the peer sends for it. -/
theorem call_eq_run {π α : Type} [Codable α] (peer : Peer π) (p : π) (w : Line)
    (service method : String) (data : α) :
    let called := w.link.call peer p service method data
    ∃ rest : List Line.Act, rest.filterMap Line.Act.question? = [] ∧
      let v := w.run (.ask ⟨service, method, ⟨encode data⟩⟩ :: rest)
      v.link = called.2.1 ∧ (v.waiting = none → v.answers = w.answers ++ [called.1]) := by
  let q : Question := ⟨service, method, ⟨encode data⟩⟩
  intro called
  -- a call is refused, or it is sent and meets one chunk and perhaps the stream's end
  rcases hsend : w.link.send q.service q.method q.data with ⟨e | sent, c⟩
  · have hcalled : called = (.error e, c, p) := by
      simp only [called, Channel.call, show w.link.send service method data = _ from hsend]
    rw [hcalled]
    refine ⟨[], rfl, ?_⟩
    simp [Line.run, Line.step, hsend, Calls.refuse, Calls.onto, q]
  · rcases hpeer : peer.receive sent.frame p with ⟨chunk, ended, p'⟩
    rcases hreceive : c.receive (some sent.id) chunk with ⟨response, c'⟩
    have hcalled : called = (Channel.outcome service method response,
        if ended then c'.hangUp else c', p') := by
      simp only [called, Channel.call, show w.link.send service method data = _ from hsend, hpeer,
        hreceive]
    obtain ⟨hlink, hsettled, hanswers⟩ := Line.exchange hsend hreceive
    rw [hcalled]
    cases ended with
    | false => exact ⟨[.chunk chunk], rfl, hlink, hanswers⟩
    | true =>
      refine ⟨[.chunk chunk, .ended], rfl, ?_⟩
      have hended : w.run [.ask q, .chunk chunk, .ended]
          = ((w.run [.ask q, .chunk chunk]).onto c'.hangUp).settle none := by
        rw [← hlink]
        rfl
      simp only [q] at hended
      rw [hended, Calls.settle_onto]
      exact ⟨rfl, fun _ => hsettled⟩

/-- Over every sequence of calls, each made while none waits, and whatever a peer sends, in chunks
cut anywhere: a call fails at once if its request does not fit or the connection is lost, and
otherwise has the outcome of the first response under its id among the bodies after it, or fails if
the connection is lost before. What arrives otherwise might as well not have arrived. A request that
does not fit takes nothing but an id, and an id comes again only after all the others. -/
theorem calls_match_responses (limit : Nat) (acts : List Line.Act)
    (hsequential : Line.Sequential (.start (.opened limit)) acts) :
    let start : Line := .start (.opened limit)
    let w := start.run acts
    let heard := start.trace acts
    questions heard = acts.filterMap Line.Act.question? ∧
    bodies heard = (Frame.received limit (stream acts)).bodies ∧
    (.lost ∈ heard ↔ (Frame.received limit (stream acts)).stop.isSome ∨ .ended ∈ acts) ∧
    (∀ before q after, heard = before ++ .asked q :: after →
      let k := (questions before).length
      let request := q.body (callId k)
      (¬Frame.Fits limit request → ∃ e : Fault, e.code = .badRequest ∧
        w.sent[k]? = some none ∧ w.answers[k]? = some (.error e)) ∧
      (Frame.Fits limit request → .lost ∈ before →
        w.sent[k]? = some none ∧ w.answers[k]? = some (.error connectionClosed)) ∧
      (Frame.Fits limit request → .lost ∉ before →
        w.sent[k]? = some (some (Frame.header request.length ++ request)) ∧
        Fate (callId k) q after w.answers[k]?)) ∧
    (∀ more earlier body later, heard = earlier ++ .arrived body :: later →
      (∀ id q, ((Calls.start false).meetAll limit earlier).waiting = some (id, q) →
        ¬(Incident.arrived body).Decides id) →
      start.trace more = earlier ++ later → (start.run more).view = w.view) ∧
    (∀ (v : Line) (q : Question), ¬Frame.Fits v.link.limit (q.body v.link.nextId) →
      ∃ e : Fault, e.code = .badRequest ∧
        v.step (.ask q) = (v.onto { v.link with nextId := v.link.nextId + 1 }).refuse e) ∧
    (∀ j k, j < k → k < j + UInt64.size → callId j ≠ callId k) ∧
    ∀ (π α : Type) [Codable α] (peer : Peer π) (p : π) (v : Line) (service method : String)
      (data : α),
      let called := v.link.call peer p service method data
      ∃ rest : List Line.Act, rest.filterMap Line.Act.question? = [] ∧
        let v' := v.run (.ask ⟨service, method, ⟨encode data⟩⟩ :: rest)
        v'.link = called.2.1 ∧ (v'.waiting = none → v'.answers = v.answers ++ [called.1]) := by
  intro start w heard
  have hsound := Line.sound_start limit
  -- of the channel the calls know no more than what it has heard
  have hview : w.view = (Calls.start false).meetAll limit heard := Line.view_run limit acts
  have horderly : (Calls.start false).Orderly limit heard := hsequential.orderly hsound
  obtain ⟨hbodies, hlost⟩ := hsound.trace_of_open rfl acts []
  refine ⟨start.questions_trace acts, hbodies.symm, hlost, fun before q after hheard => ?_,
    fun more earlier body later hheard hignored hmore => ?_, fun v q => Line.step_ask_of_not_fits,
    fun j k => callId_ne, fun π α _ => call_eq_run⟩
  · -- what comes before the call fixes its id, and whether the link is lost
    rw [hheard, Calls.orderly_append] at horderly
    obtain ⟨hbefore, hasked⟩ := horderly
    have hlength : ((Calls.start false).meetAll limit before).sent.length
        = (questions before).length := by
      rw [Calls.length_sent_meetAll]
      exact Nat.zero_add _
    have hlink : ((Calls.start false).meetAll limit before).link = true ↔ .lost ∈ before := by
      simp [Calls.link_meetAll, Calls.start]
    have hbalanced := Calls.balanced_meetAll (s := .start false) rfl hbefore
    have hcall := Calls.call_of_asked hlength hbalanced hasked
    rw [← Calls.meetAll_append, ← hheard, ← hview, hlink, ← Bool.not_eq_true, hlink] at hcall
    exact hcall
  · rw [hview, hheard, Calls.meetAll_ignored hignored, ← hmore]
    exact Line.view_run limit more

namespace Line

def sampleQuestion : Question := ⟨Selector.service, "Path", ⟨encode Selector.Message.empty⟩⟩

def sampleOutsized : Question :=
  ⟨Selector.service, "Path", ⟨encode (String.ofList (List.replicate 256 'a'))⟩⟩

def sampleResponse (id : UInt64) : Response :=
  .success id (some (Selector.selectionValue (some "a")))

def sampleFrame (body : Bytes) : Bytes := Frame.header body.length ++ body

/-- The response to the first call arrives in two pieces, after the response to the second call, and
once more. The second call does not fit. The stream ends before the response to the third. -/
def sampleActs (first : Bytes) : List Act :=
  let response := sampleFrame (encode (sampleResponse 1))
  [.ask sampleQuestion,
    .chunk (first ++ sampleFrame (encode (sampleResponse 2)) ++ response.take 7),
    .chunk (response.drop 7 ++ response), .ask sampleOutsized,
    .ask sampleQuestion, .chunk (sampleFrame (encode (sampleResponse 2))), .ended,
    .ask sampleQuestion]

def sampleHeard : List Incident :=
  [.asked sampleQuestion, .arrived [123], .arrived (encode (sampleResponse 2)),
    .arrived (encode (sampleResponse 1)), .arrived (encode (sampleResponse 1)),
    .asked sampleOutsized, .asked sampleQuestion, .arrived (encode (sampleResponse 2)), .lost,
    .asked sampleQuestion]

theorem trace_sample :
    trace (.start (.opened 256)) (sampleActs (sampleFrame [123])) = sampleHeard ∧
      trace (.start (.opened 256)) (sampleActs []) = sampleHeard.eraseIdx 1 := by
  decide +kernel

end Line

open Line in
theorem calls_match_responses_sample :
    let start : Line := .start (.opened 256)
    let w := start.run (sampleActs (sampleFrame [123]))
    start.Sequential (sampleActs (sampleFrame [123])) ∧
      w.answers[0]? = some (.ok (some (Selector.selectionValue (some "a")))) ∧
      (∃ e : Fault, e.code = .badRequest ∧ w.sent[1]? = some none ∧
        w.answers[1]? = some (.error e)) ∧
      w.answers[2]? = some (.error sampleQuestion.lost) ∧
      w.answers[3]? = some (.error connectionClosed) ∧
      (start.run (sampleActs [])).view = w.view := by
  intro start w
  have hsequential : start.Sequential (sampleActs (sampleFrame [123])) := by decide +kernel
  obtain ⟨-, -, -, hcalls, hignored, -⟩ :=
    calls_match_responses 256 (sampleActs (sampleFrame [123])) hsequential
  rw [trace_sample.1] at hcalls hignored
  obtain ⟨-, -, hfirst⟩ := hcalls [] sampleQuestion (sampleHeard.drop 1) rfl
  obtain ⟨hunfit, -⟩ := hcalls (sampleHeard.take 5) sampleOutsized (sampleHeard.drop 6) rfl
  obtain ⟨-, -, hthird⟩ := hcalls (sampleHeard.take 6) sampleQuestion (sampleHeard.drop 7) rfl
  obtain ⟨-, hclosed, -⟩ := hcalls (sampleHeard.take 9) sampleQuestion [] rfl
  refine ⟨hsequential, ?_, hunfit (by decide +kernel), ?_, ?_, ?_⟩
  · have hplain : (sampleResponse 1).Plain := fun v hv => ⟨some "a", (Option.some.inj hv).symm⟩
    exact (hfirst (by decide +kernel) nofun).2.response [.arrived [123], .arrived _] _
      (sampleResponse 1) _ rfl (by decide +kernel) (Response.parse_encode hplain) rfl
  · exact (hthird (by decide +kernel) (by decide +kernel)).2.lost [.arrived _] _ rfl
      (by decide +kernel)
  · exact (hclosed (by decide +kernel) (by decide +kernel)).2
  · refine hignored (sampleActs []) [.asked sampleQuestion] [123] (sampleHeard.drop 2) rfl
      (fun id q hwaiting => ?_) trace_sample.2
    rintro ⟨r, hparse, -⟩
    cases hparse

end PathPolicy.Client
