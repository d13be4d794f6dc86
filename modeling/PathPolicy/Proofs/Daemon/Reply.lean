import Mathlib.Data.Nat.Digits.Defs
import Mathlib.Tactic.IntervalCases
import PathPolicy.Config
import PathPolicy.Daemon
import PathPolicy.Proofs.Daemon.Address
import PathPolicy.Proofs.Json.Tree

/-!
Every frame is answered by one frame that the client can read, under the id of its request. A
response that is too long gives way to a fault that always fits.
-/
namespace PathPolicy.Script.Plan
variable {σ τ ρ ρ' : Type}

/-- The result is of the kind, whatever the script does. -/
def Always (kind : ρ → Prop) : Plan σ ρ → Prop
  | answer _ result => kind result
  | consult _ _ finish => ∀ outcome, kind (finish outcome)

theorem Always.map {kind : ρ → Prop} {kind' : ρ' → Prop} {p : Plan σ ρ} {f : ρ → ρ'}
    (h : p.Always kind) (hf : ∀ result, kind result → kind' (f result)) :
    (p.map f).Always kind' := by
  cases p with
  | answer tables result => exact hf result h
  | consult tables call finish => exact fun outcome => hf _ (h outcome)

theorem Always.within {kind : ρ → Prop} {p : Plan σ ρ} (h : p.Always kind) (place : σ → τ) :
    (p.within place).Always kind := by
  cases p with
  | answer tables result => exact h
  | consult tables call finish => exact h

theorem Always.run {kind : ρ → Prop} {p : Plan σ ρ} (h : p.Always kind) {μ : Type}
    (script : Call → μ → Outcome × μ) (m : μ) : kind (p.run script m).1 := by
  cases p with
  | answer tables result => exact h
  | consult tables call finish => exact h _

theorem always_map {kind : ρ' → Prop} {f : ρ → ρ'} (h : ∀ result, kind (f result)) (p : Plan σ ρ) :
    (p.map f).Always kind := by
  cases p with
  | answer tables result => exact h result
  | consult tables call finish => exact fun outcome => h _

end PathPolicy.Script.Plan

namespace PathPolicy
open Json

/-! ### Responses are read back -/

theorem roundTrips_wireFault (e : WireFault) : RoundTrips 1 e :=
  takes_record (by decide) <|
    .of (roundTrips_string e.code) <| .of (roundTrips_string e.detail) <| .nil e

theorem readsBack_selectionValue (fp : Option Fingerprint) :
    (Selector.selectionValue fp).ReadsBack 1 := by
  have hnames : ["fingerprint", "local", "path_interface", "paths", "preferences", "remote"].Pairwise
      (· < ·) := by decide
  have hfirst : "fingerprint" ≠ embeddedName := by decide
  refine readsBack_object hnames (by rintro m ⟨⟩; exact hfirst) ?_
  simp only [List.forall_mem_cons, List.not_mem_nil, false_imp_iff, implies_true, and_true,
    readsBack_null]
  cases fp with
  | none => exact readsBack_null 0
  | some fp => exact readsBack_text 0 fp

/-- The data are absent, or the selection of a path. -/
def Response.Plain (r : Response) : Prop :=
  ∀ v ∈ r.data, ∃ fp, v = Selector.selectionValue fp

theorem roundTrips_response {r : Response} (h : r.Plain) : RoundTrips 2 r := by
  have hdata : RoundTrips 1 r.data := by
    cases hd : r.data with
    | none => exact roundTrips_none 1
    | some v =>
      obtain ⟨fp, rfl⟩ := h v hd
      exact roundTrips_some (readsBack_selectionValue fp).roundTrips ⟨123, _, rfl, by decide⟩
  have hfault : RoundTrips 1 r.fault :=
    roundTrips_option (fun e _ => roundTrips_wireFault e) fun e => opens_record WireFault.record e
  exact takes_record (by decide) <|
    .of ((roundTrips_uint8 r.version).mono (Nat.zero_le 1)) <|
    .of ((roundTrips_uint64 r.id).mono (Nat.zero_le 1)) <|
    .of hdata <| .of hfault <| .nil r

theorem plain_failure (id : UInt64) (e : Fault) : (Response.failure id e).Plain := by
  rintro v ⟨⟩

theorem Response.parse_encode {r : Response} (h : r.Plain) : Response.parse (encode r) = .ok r := by
  rw [Response.parse, decode_encode (roundTrips_response h) (by decide)]
  rfl

/-! ### The fault that stands for a response that is too long -/

def quotedLength (s : String) : Nat := ((Bytes.ofText s).flatMap escape).length

theorem length_writeText (s : String) : (writeText s).length = quotedLength s + 2 := by
  simp [writeText, quotedLength]

theorem quotedLength_append (s t : String) :
    quotedLength (s ++ t) = quotedLength s + quotedLength t := by
  simp [quotedLength, Bytes.ofText_eq_flatMap]

theorem length_digit {c : Char} (h : c.isDigit) :
    ((String.utf8EncodeChar c).flatMap escape).length = 1 := by
  simp only [Char.isDigit, Bool.and_eq_true, decide_eq_true_eq, ge_iff_le, UInt32.le_iff_toNat_le] at h
  have hlow : 48 ≤ c.toNat := h.1
  have hhigh : c.toNat ≤ 57 := h.2
  rw [← Char.ofNat_toNat c]
  generalize c.toNat = n at hlow hhigh
  interval_cases n <;> rfl

theorem quotedLength_numberText (n : Nat) :
    quotedLength (Frame.numberText n) = (Decimal.ofNat n).length := by
  have general (cs : List Char) (h : ∀ c ∈ cs, c.isDigit) :
      ((cs.flatMap String.utf8EncodeChar).flatMap escape).length = cs.length := by
    induction cs with
    | nil => rfl
    | cons c cs ih =>
      simp only [List.flatMap_cons, List.flatMap_append, List.length_append, List.length_cons,
        length_digit (h c List.mem_cons_self), ih fun d hd => h d (List.mem_cons_of_mem c hd)]
      omega
  rw [quotedLength, Frame.numberText, Bytes.ofText_eq_flatMap, String.toList_ofList]
  exact general _ fun c => Decimal.isDigit_of_mem_ofNat

theorem length_ofNat_le {n : Nat} (h : n < UInt64.size) : (Decimal.ofNat n).length ≤ 20 :=
  Nat.toDigits_length 10 n 20 (by decide) (Nat.lt_of_lt_of_le h (by decide))

theorem encode_failure (id : UInt64) (e : Fault) :
    encode (Response.failure id e) = writeObject [
      ("v", writeNat 1), ("id", writeNat id.toNat), ("data", writeNull),
      ("error", writeObject [("code", writeText e.code.name), ("msg", writeText e.detail)])] :=
  rfl

/-- The id and the two lengths have at most twenty digits each, and the rest is fixed. -/
theorem length_failure_tooLong (id : UInt64) {n limit : Nat} (hn : n < UInt64.size)
    (hlimit : limit < UInt64.size) :
    (encode (Response.failure id (Frame.tooLong n limit))).length ≤ Config.minFrameBytes := by
  have hid : (writeNat id.toNat).length ≤ 20 := by
    simpa [writeNat, ofChars] using length_ofNat_le id.toNat_lt
  have hdetail : quotedLength (Frame.tooLong n limit).detail ≤ 73 := by
    have hlong := length_ofNat_le hn
    have hshort := length_ofNat_le hlimit
    have hfixed : quotedLength "frame of " + quotedLength " bytes exceeds limit of " = 33 := by decide
    rw [Frame.tooLong, Fault.detail, quotedLength_append, quotedLength_append, quotedLength_append,
      quotedLength_numberText, quotedLength_numberText]
    omega
  have hnames : quotedLength "v" + quotedLength "id" + quotedLength "data" + quotedLength "error"
      + quotedLength "code" + quotedLength "msg" + quotedLength "BAD_REQUEST" = 30 := by decide
  have hcode : (Frame.tooLong n limit).code.name = "BAD_REQUEST" := rfl
  have hone : (writeNat 1).length = 1 := by decide
  simp only [encode_failure, hcode, length_writeObject, writeMembers, List.map_cons, List.map_nil,
    separated, writeMember, List.length_append, List.length_cons, length_writeText, hone, writeNull,
    List.length_nil, Config.minFrameBytes]
  omega

/-! ### What is answered -/

namespace Daemon
open Script

def PlainResult (result : Except Fault (Option Json.Value)) : Prop :=
  ∀ data, result = .ok data → ∀ v ∈ data, ∃ fp, v = Selector.selectionValue fp

theorem plain_ofResult (id : UInt64) {result : Except Fault (Option Json.Value)}
    (h : PlainResult result) : (Response.ofResult id result).Plain := by
  cases result with
  | error e => exact plain_failure id e
  | ok data => exact h data rfl

theorem always_serve_selector (t : Selector.SessionTable) (r : Request) :
    (Selector.serve t r).Always PlainResult := by
  rw [Selector.serve]
  split
  · rintro data ⟨⟩
  · refine Plan.always_map (fun result => ?_) _
    rintro data hdata v hv
    obtain ⟨reply, -, rfl⟩ := map_eq_ok.mp hdata
    cases reply with
    | done => cases hv
    | selected fp =>
      cases hv
      exact ⟨fp, rfl⟩

theorem always_serve_tracer (t : Tracer.Registry) (r : Request) :
    (Tracer.serve t r).Always PlainResult := by
  rw [Tracer.serve]
  split
  · rintro data ⟨⟩
  · refine Plan.always_map (fun result => ?_) _
    rintro data hdata v hv
    obtain ⟨_, -, rfl⟩ := map_eq_ok.mp hdata
    cases hv

theorem always_dispatch (t : Tables) (r : Request) : (dispatch t r).Always PlainResult := by
  rw [dispatch]
  split
  · exact (always_serve_selector t.sessions r).within _
  split
  · exact (always_serve_tracer t.tracers r).within _
  · rintro data ⟨⟩

/-- What holds of every response to a body: it is of the current version and can be read back, it
goes to the sender of the request, and a refused body is answered by a fault. -/
structure Addressed (body : Bytes) (r : Response) : Prop where
  version : r.version = protocolVersion
  plain : r.Plain
  id_of_accepted : ∀ request, Request.parse body = .ok request → r.id = request.id
  of_rejected : ∀ e, Request.parse body = .error e →
    (∃ fault, r.result = .error fault) ∧ r.id = Address.ofBody body

theorem always_respond (t : Tables) (body : Bytes) : (respond t body).Always (Addressed body) := by
  rw [respond]
  split
  · rename_i e hparse
    refine ⟨rfl, plain_failure _ e, fun request h => ?_, fun _ _ => ⟨⟨_, rfl⟩, rfl⟩⟩
    cases hparse.symm.trans h
  · rename_i request hparse
    refine (always_dispatch t request).map fun result hplain => ?_
    refine ⟨?_, plain_ofResult request.id hplain, fun other h => ?_, fun e h => ?_⟩
    · cases result <;> rfl
    · cases hparse.symm.trans h
      cases result <;> rfl
    · cases hparse.symm.trans h

/-- A response that fits its frame is sent; another one gives way to the fault that says so. -/
def fitted (limit : Nat) (r : Response) : Response :=
  if (encode r).length ≤ limit then r
  else .failure r.id (Frame.tooLong (encode r).length limit)

def Addressable (bytes : Bytes) : Prop := bytes.length < UInt64.size

theorem addressed_fitted {body : Bytes} {r : Response} (h : Addressed body r) (limit : Nat) :
    Addressed body (fitted limit r) := by
  rw [fitted]
  split
  · exact h
  · exact ⟨rfl, plain_failure _ _, h.id_of_accepted,
      fun e he => ⟨⟨_, rfl⟩, (h.of_rejected e he).2⟩⟩

theorem length_fitted {limit : Nat} (hmin : Config.minFrameBytes ≤ limit)
    (hmax : limit ≤ Config.maxFrameLimit) {r : Response} (haddressable : Addressable (encode r)) :
    (encode (fitted limit r)).length ≤ limit := by
  rw [fitted]
  split
  · assumption
  · have hlimit : limit < UInt64.size := Nat.lt_of_le_of_lt hmax (by decide)
    exact Nat.le_trans (length_failure_tooLong r.id haddressable hlimit) hmin

theorem frame_encode {limit : Nat} (hmax : limit ≤ Config.maxFrameLimit) {body : Bytes}
    (hfits : body.length ≤ limit) :
    Frame.encode limit body = .ok (Frame.header body.length ++ body) := by
  have hsize : body.length < UInt32.size :=
    Nat.lt_of_le_of_lt (Nat.le_trans hfits hmax) (by decide)
  simp [Frame.encode, Nat.not_lt.mpr hfits, Nat.not_le.mpr hsize]

theorem frameOf_eq {limit : Nat} (hmin : Config.minFrameBytes ≤ limit)
    (hmax : limit ≤ Config.maxFrameLimit) {r : Response} (haddressable : Addressable (encode r)) :
    frameOf limit r = some (Frame.header (encode (fitted limit r)).length
      ++ encode (fitted limit r)) := by
  have hfits := length_fitted hmin hmax haddressable
  by_cases h : (encode r).length ≤ limit
  · rw [frameOf, frame_encode hmax h, fitted, if_pos h]
  · have htooLong : Frame.encode limit (encode r)
        = .error (Frame.tooLong (encode r).length limit) := by
      simp [Frame.encode, Nat.lt_of_not_le h]
    rw [fitted, if_neg h] at hfits ⊢
    rw [frameOf, htooLong]
    dsimp only
    rw [frame_encode hmax hfits]
    rfl

theorem check_eq_ok {c : Config} (h : c.check = .ok ()) :
    Config.minFrameBytes ≤ c.maxFrameBytes ∧ c.maxFrameBytes ≤ Config.maxFrameLimit := by
  unfold Config.check at h
  split at h
  · cases h
  split at h
  · cases h
  split at h
  · cases h
  · rename_i hrange
    omega

variable {μ : Type}

theorem answer_singleton (host : Host μ) (limit : Nat) (d : State μ) (body : Bytes) :
    (d.answer host limit [body]).1
      = (frameOf limit ((respond d.tables body).run host.call d.script).1).toList := by
  simp [State.answer, reply, Plan.run_map]

/-- Whatever the state and the script, a body is answered by exactly one frame within the checked
limit. The client reads it as a response of the current version under the id of the request: that of
the accepted envelope, or, where the envelope is refused, with a fault, the only id in the text of
the body, if that is an object with an unsigned number for an id. -/
theorem every_frame_answered (host : Host μ) {c : Config} (hc : c.check = .ok ()) (d : State μ)
    (body : Bytes)
    (haddressable : Addressable (encode ((respond d.tables body).run host.call d.script).1)) :
    let answer := fitted c.maxFrameBytes ((respond d.tables body).run host.call d.script).1
    (d.answer host c.maxFrameBytes [body]).1
        = [Frame.header (encode answer).length ++ encode answer] ∧
      (encode answer).length ≤ c.maxFrameBytes ∧
      Response.parse (encode answer) = .ok answer ∧ answer.version = 1 ∧
      (∀ request, Request.parse body = .ok request → answer.id = request.id) ∧
      ∀ e, Request.parse body = .error e →
        (∃ fault, answer.result = .error fault) ∧
        ∀ members, decode body = .ok (Json.Value.object members) →
          ∃ entries, entriesOf body = .ok entries ∧
            ∀ id, Address.ids entries = [some (.natural id)] → answer.id = id := by
  obtain ⟨hmin, hmax⟩ := check_eq_ok hc
  have hresponse := (always_respond d.tables body).run host.call d.script
  rw [answer_singleton]
  generalize ((respond d.tables body).run host.call d.script).1 = response
    at hresponse haddressable ⊢
  obtain ⟨hversion, hplain, hid, hfault⟩ := addressed_fitted hresponse c.maxFrameBytes
  refine ⟨?_, length_fitted hmin hmax haddressable, Response.parse_encode hplain, hversion, hid, ?_⟩
  · rw [frameOf_eq hmin hmax haddressable]
    rfl
  · intro e he
    obtain ⟨hresult, haddress⟩ := hfault e he
    refine ⟨hresult, fun members hmembers => ?_⟩
    obtain ⟨entries, hentries⟩ := exists_entriesOf hmembers
    exact ⟨entries, hentries, fun id hids =>
      haddress.trans (Address.ofBody_of_entries hentries hids)⟩

def leastConfig : Config where
  version := 1
  socketPath := "socket"
  maxFrameBytes := Config.minFrameBytes
  backend := .lua
  script := "policy"
  periodicInterval := 1000

def absentScript : Host Unit where
  register _ _ m := (.ok (), m)
  load _ m := (.ok (), m)
  call _ m := (.error (.internal "absent"), m)

set_option maxRecDepth 8192 in
/-- A body with a member that no request has, in front of its id. -/
theorem every_frame_answered_sample :
    let d : State Unit := ⟨.start, ()⟩
    let body := writeObject [("more", writeNull), ("id", writeNat 7)]
    let response := ((respond d.tables body).run absentScript.call d.script).1
    leastConfig.check = .ok () ∧ Addressable (encode response) ∧
      (fitted leastConfig.maxFrameBytes response).id = 7 := by
  intro d body response
  have haddressable : Addressable (encode response) := by
    have hlength : (encode response).length < UInt64.size := by decide +kernel
    exact hlength
  have hdecode : decode body
      = .ok (Json.Value.object [("id", .number (.natural 7)), ("more", .null)]) := by rfl
  have hentries : entriesOf body = .ok [("more", none), ("id", some (.natural 7))] := by rfl
  have hparse : ∃ e, Request.parse body = .error e := ⟨_, rfl⟩
  obtain ⟨e, he⟩ := hparse
  obtain ⟨-, -, -, -, -, hrejected⟩ :=
    every_frame_answered absentScript (c := leastConfig) rfl d body haddressable
  obtain ⟨entries, h, hid⟩ := (hrejected e he).2 _ hdecode
  cases hentries.symm.trans h
  exact ⟨rfl, haddressable, hid 7 rfl⟩

end Daemon
end PathPolicy
