import PathPolicy.Proofs.Client.Agreement

/-!
The caller learns what the daemon made of its call. A fault arrives as the fault that it was, and
from the selection of a path comes a message with the fingerprint and nothing else.
-/
namespace PathPolicy
open Json

/-! ### Faults -/

theorem Fault.unsigned?_idText (id : UInt64) : Decimal.unsigned? (idText id) = some id := by
  rw [idText, Decimal.unsigned?_ofNat id.toNat_lt, UInt64.ofNat_toNat]

theorem Fault.ofWire_detail (e : Fault) : ofWire e.code.name e.detail = e := by
  cases e with
  | unknownTracer id | tracerClosed id =>
    simp [ofWire, FaultCode.ofName_name, code, detail, unsigned?_idText]
  | missingField s | badRequest s | unknownMethod s | policy s | transport s | config s
  | internal s => rfl

theorem Response.result_ofResult (id : UInt64) (result : Except Fault (Option Value)) :
    (Response.ofResult id result).result = result := by
  cases result with
  | ok data => rfl
  | error e => exact congrArg Except.error e.ofWire_detail

theorem Response.id_ofResult (id : UInt64) (result : Except Fault (Option Value)) :
    (Response.ofResult id result).id = id := by
  cases result <;> rfl

theorem plainResult_error (e : Fault) : Daemon.PlainResult (.error e) := by
  rintro data ⟨⟩

theorem Response.parse_ofResult (id : UInt64) {result : Except Fault (Option Value)}
    (h : Daemon.PlainResult result) :
    ∃ r, Response.parse (encode (Response.ofResult id result)) = .ok r ∧ r.id = id ∧
      r.result = result :=
  ⟨_, Response.parse_encode (Daemon.plain_ofResult id h), id_ofResult id result,
    result_ofResult id result⟩

/-! ### Replies -/

namespace Selector

def Reply.message : Reply → Message
  | done => .empty
  | selected fp => { Message.empty with fingerprint := fp }

theorem Reply.plain (reply : Reply) : Daemon.PlainResult (.ok reply.data) := by
  rintro data ⟨⟩ v hv
  cases reply with
  | done => cases hv
  | selected fp =>
    cases hv
    exact ⟨fp, rfl⟩

/-- The members of the message with a selection, in the order in which they are written. -/
def selectionMembers (selected : Option Fingerprint) : List (String × Value) := [
  ("local", .null),
  ("remote", .null),
  ("fingerprint", match selected with | some fp => .text fp | none => .null),
  ("path_interface", .null),
  ("preferences", .null),
  ("paths", .null)]

theorem ofList_selectionMembers (selected : Option Fingerprint) :
    .object (Members.ofList (selectionMembers selected)) = selectionValue selected := by
  cases selected <;> rfl

theorem decode_selected (selected : Option Fingerprint) :
    decode (encode (Reply.selected selected).message) = .ok (selectionValue selected) := by
  have hwritten : encode (Reply.selected selected).message
      = writeObject (writeFields (selectionMembers selected)) := by
    cases selected <;> rfl
  have hmembers : ∀ m ∈ selectionMembers selected, m.2.ReadsBack 0 := by
    simp only [selectionMembers, List.forall_mem_cons, List.not_mem_nil, false_imp_iff,
      implies_true, and_true, readsBack_null, true_and]
    cases selected with
    | none => exact readsBack_null 0
    | some fp => exact readsBack_text 0 fp
  have hfirst : ∀ m ∈ (selectionMembers selected).head?, m.1 ≠ embeddedName := by
    rintro m ⟨⟩
    decide
  have htakes : Takes Codable.read 1 (writeObject (writeFields (selectionMembers selected)))
      (Value.object (Members.ofList (selectionMembers selected))) :=
    fun budget => takes_object hfirst hmembers (readEmbedded budget.steps) budget
  rw [hwritten, ← ofList_selectionMembers]
  exact decode_of_takes htakes (by decide)

end Selector

namespace Client
open Script Daemon
open PathPolicy.Selector (Message Reply)

theorem shaped_data (reply : Reply) (service method : String) :
    shaped Message.empty service method reply.data = .ok reply.message := by
  cases reply with
  | done => rfl
  | selected fp => exact shaped_selectionValue fp service method

/-! ### Calls -/

variable {μ : Type}

theorem outcome_call {α : Type} [Codable α] (host : Host μ) {limit : Nat} {c : Channel}
    {p : Served μ} (h : Idle c p) {service method : String} {data : α}
    (hwritten : Written (encode data)) (hopens : Opens (encode data))
    (hrequest : FitsBoth c limit (encode (Request.make c.nextId service method data)))
    (hresponse : FitsBoth c limit (encode (Response.ofResult c.nextId ((dispatch p.daemon.tables
      (Request.make c.nextId service method data)).run host.call p.daemon.script).1))) :
    (c.call (daemonPeer host limit) p service method data).1
      = ((dispatch p.daemon.tables (Request.make c.nextId service method data)).run host.call
          p.daemon.script).1 := by
  have hparse := Request.parse_encode_make hwritten hopens c.nextId service method
  have hstep : (p.daemon.step host.call
      (.arrival (encode (Request.make c.nextId service method data)))).response
        = some (.ofResult c.nextId ((dispatch p.daemon.tables
            (Request.make c.nextId service method data)).run host.call p.daemon.script).1) := by
    simp only [State.step, respond, hparse, Plan.run_map]
    rfl
  rw [call_daemon host h hwritten hopens hrequest hstep hresponse]
  exact Response.result_ofResult _ _

/-- Every fault, with every detail and every id, is read back under the id of its call. The reply
with a selection is the message with that fingerprint alone, and is read as this message; an empty
success is read as the message without any field. Over a channel the caller thereby gets what the
dispatch of its request resulted in. -/
theorem caller_sees_outcome (host : Host μ) (limit : Nat) :
    (∀ id e, ∃ r, Response.parse (encode (Response.failure id e)) = .ok r ∧ r.id = id ∧
      r.result = .error e) ∧
    (∀ id fp service method, ∃ v r, (Reply.selected fp).data = some v ∧
      decode (encode { Message.empty with fingerprint := fp }) = .ok v ∧
      Response.parse (encode (Response.success id (some v))) = .ok r ∧ r.id = id ∧
      r.result.bind (shaped Message.empty service method)
        = .ok { Message.empty with fingerprint := fp }) ∧
    (∀ id service method, ∃ r, Response.parse (encode (Response.success id none)) = .ok r ∧
      r.id = id ∧ ∀ (α : Type) [Codable α] (absent : α),
        r.result.bind (shaped absent service method) = .ok absent) ∧
    ∀ (α : Type) [Codable α] (data : α) (service method : String) (c : Channel) (p : Served μ),
      Idle c p → Written (encode data) → Opens (encode data) →
      let request := Request.make c.nextId service method data
      let result := ((dispatch p.daemon.tables request).run host.call p.daemon.script).1
      FitsBoth c limit (encode request) →
      FitsBoth c limit (encode (Response.ofResult c.nextId result)) →
      let outcome := (c.call (daemonPeer host limit) p service method data).1
      outcome = result ∧ ∀ reply : Reply, result = .ok reply.data →
        outcome.bind (shaped Message.empty service method) = .ok reply.message := by
  refine ⟨fun id e => ?_, fun id fp service method => ?_, fun id service method => ?_, ?_⟩
  · exact @Response.parse_ofResult id (.error e) (plainResult_error e)
  · obtain ⟨r, hparse, hid, hresult⟩ := Response.parse_ofResult id (Reply.selected fp).plain
    refine ⟨_, r, rfl, PathPolicy.Selector.decode_selected fp, hparse, hid, ?_⟩
    rw [hresult]
    exact shaped_data (.selected fp) service method
  · obtain ⟨r, hparse, hid, hresult⟩ := Response.parse_ofResult id Reply.done.plain
    refine ⟨r, hparse, hid, fun α _ absent => ?_⟩
    rw [hresult]
    rfl
  · intro α _ data service method c p hidle hwritten hopens request result hrequest hresponse
      outcome
    have houtcome : outcome = result := outcome_call host hidle hwritten hopens hrequest hresponse
    refine ⟨houtcome, fun reply hreply => ?_⟩
    rw [houtcome, hreply]
    exact shaped_data reply service method

set_option maxRecDepth 8192 in
/-- The question for the path of a session with one candidate, which the script selects. -/
theorem caller_sees_outcome_sample :
    let w := World.sampleWorld
    Idle w.channel w.served ∧
      (w.channel.call (daemonPeer World.pickyHost 4096) w.served PathPolicy.Selector.service
        Selector.Method.path.name (Message.ofPair ⟨"a", "b"⟩)).1.bind
          (shaped Message.empty PathPolicy.Selector.service Selector.Method.path.name)
        = .ok { Message.empty with fingerprint := some "x" } := by
  intro w
  have hidle : Idle w.channel w.served := ⟨rfl, rfl, rfl⟩
  let request := Request.make w.channel.nextId PathPolicy.Selector.service
    Selector.Method.path.name (Message.ofPair ⟨"a", "b"⟩)
  have hservice : request.service = PathPolicy.Selector.service := rfl
  have hrequest : PathPolicy.Selector.Operation.ofRequest request = .ok (⟨"a", "b"⟩, .path) :=
    @ofRequest_make .path _ (finiteCoordinates_of_none rfl) _
  have hresult : ((dispatch w.served.daemon.tables request).run World.pickyHost.call
      w.served.daemon.script).1 = .ok (Reply.selected (some "x")).data := by
    rw [dispatch, if_pos hservice, PathPolicy.Selector.serve, hrequest]
    rfl
  have hresponse : FitsBoth w.channel 4096 (encode (Response.ofResult w.channel.nextId
      ((dispatch w.served.daemon.tables request).run World.pickyHost.call
        w.served.daemon.script).1)) := by
    rw [hresult]
    decide +kernel
  obtain ⟨-, -, -, hcalls⟩ := caller_sees_outcome World.pickyHost 4096
  obtain ⟨-, hreply⟩ := hcalls Message (Message.ofPair ⟨"a", "b"⟩) PathPolicy.Selector.service
    Selector.Method.path.name w.channel w.served hidle (PathPolicy.Selector.written_message _)
    (opens_record Message.record _) (by decide +kernel) hresponse
  exact ⟨hidle, hreply _ hresult⟩

end Client
end PathPolicy
