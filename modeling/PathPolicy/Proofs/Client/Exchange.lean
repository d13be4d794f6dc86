import PathPolicy.Client.Peer
import PathPolicy.Proofs.Daemon.Isolation
import PathPolicy.Proofs.Daemon.Reply
import PathPolicy.Proofs.Frame.Chunks
import PathPolicy.Proofs.Wire.Message

/-!
A call over a channel to the daemon comes to what the daemon does with its request. Nothing is left
over on either side, so that the next call finds the channel as this one did.
-/
namespace PathPolicy.Frame

def Fits (limit : Nat) (body : Bytes) : Prop := body.length ≤ limit ∧ body.length < UInt32.size

instance (limit : Nat) (body : Bytes) : Decidable (Fits limit body) :=
  inferInstanceAs (Decidable (_ ∧ _))

theorem encode_of_fits {limit : Nat} {body : Bytes} (h : Fits limit body) :
    encode limit body = .ok (header body.length ++ body) := by
  simp [encode, Nat.not_lt.mpr h.1, Nat.not_le.mpr h.2]

theorem encode_of_not_fits {limit : Nat} {body : Bytes} (h : ¬Fits limit body) :
    ∃ e : Fault, e.code = .badRequest ∧ encode limit body = .error e := by
  rw [encode]
  by_cases hlimit : limit < body.length
  · exact ⟨_, rfl, if_pos hlimit⟩
  · have hsize : UInt32.size ≤ body.length :=
      Nat.not_lt.mp fun hlt => h ⟨Nat.not_lt.mp hlimit, hlt⟩
    exact ⟨_, rfl, (if_neg hlimit).trans (if_pos hsize)⟩

theorem drain_of_fits {limit : Nat} {body : Bytes} (h : Fits limit body) :
    drain limit (header body.length ++ body) = ⟨[body], [], none⟩ := by
  simpa using drain_flatten_of_encoded (Nat.le_refl limit) (.cons (encode_of_fits h) .nil)

theorem drain_of_not_fits {limit : Nat} {body : Bytes} (hsize : body.length < UInt32.size)
    (h : ¬Fits limit body) : ∃ fault, drain limit (header body.length ++ body)
      = ⟨[], header body.length ++ body, some fault⟩ := by
  have hlimit : limit < body.length := Nat.not_le.mp fun hle => h ⟨hle, hsize⟩
  exact ⟨_, drain_of_refused (front_eq_refused_iff.mpr
    ⟨body.length, hlimit, hsize, List.prefix_append _ _, rfl⟩)⟩

end PathPolicy.Frame

namespace PathPolicy.Client
open Json Script Daemon

variable {μ : Type}

/-- Between two calls: neither side has closed the stream or waits for the rest of a frame. -/
structure Idle (c : Channel) (p : Served μ) : Prop where
  going : c.closed = false
  nothingLeft : c.buffer = []
  connection : p.connection = .opened

def FitsBoth (c : Channel) (limit : Nat) (body : Bytes) : Prop :=
  Frame.Fits c.limit body ∧ Frame.Fits limit body

instance (c : Channel) (limit : Nat) (body : Bytes) : Decidable (FitsBoth c limit body) :=
  inferInstanceAs (Decidable (_ ∧ _))

theorem answer_arrival (host : Host μ) (limit : Nat) (d : State μ) (body : Bytes) :
    d.answer host limit [body]
      = ((frameOf limit ((respond d.tables body).run host.call d.script).1).toList,
        (d.step host.call (.arrival body)).state) :=
  Prod.ext (answer_singleton host limit d body)
    (by simp [State.answer, reply, Plan.run_map, State.step])

theorem receive_request (host : Host μ) {limit : Nat} {p : Served μ} (hp : p.connection = .opened)
    {body : Bytes} (hbody : Frame.Fits limit body) :
    (daemonPeer host limit).receive (Frame.header body.length ++ body) p
      = ((frameOf limit
            ((respond p.daemon.tables body).run host.call p.daemon.script).1).toList.flatten, false,
          ⟨.opened, (p.daemon.step host.call (.arrival body)).state⟩) := by
  have hopen : ¬Connection.opened.closed = true := by simp [Connection.opened]
  simp only [daemonPeer, hp, Connection.receive, if_neg hopen]
  simp only [Connection.opened, List.nil_append, Frame.drain_of_fits hbody, answer_arrival]

theorem frameOf_of_fits {limit : Nat} {r : Response} (h : Frame.Fits limit (encode r)) :
    frameOf limit r = some (Frame.header (encode r).length ++ encode r) := by
  rw [frameOf, Frame.encode_of_fits h]

theorem receive_frame (host : Host μ) {limit : Nat} {p : Served μ} (hp : p.connection = .opened)
    {body : Bytes} (hbody : Frame.Fits limit body) {response : Response}
    (h : (p.daemon.step host.call (.arrival body)).response = some response)
    (hfits : Frame.Fits limit (encode response)) :
    (daemonPeer host limit).receive (Frame.header body.length ++ body) p
      = (Frame.header (encode response).length ++ encode response, false,
        ⟨.opened, (p.daemon.step host.call (.arrival body)).state⟩) := by
  have hrespond : ((respond p.daemon.tables body).run host.call p.daemon.script).1 = response :=
    Option.some.inj h
  simp [receive_request host hp hbody, hrespond, frameOf_of_fits hfits]

theorem responseAmong_singleton {body : Bytes} {r : Response} (h : Response.parse body = .ok r) :
    Channel.responseAmong r.id [body] = some r := by
  simp [Channel.responseAmong, h]

theorem send_of_fits {α : Type} [Codable α] {c : Channel} (hc : c.closed = false)
    {service method : String} {data : α}
    (hfits : Frame.Fits c.limit (encode (Request.make c.nextId service method data))) :
    c.send service method data
      = (.ok ⟨c.nextId, Frame.header (encode (Request.make c.nextId service method data)).length
          ++ encode (Request.make c.nextId service method data)⟩,
        { c with nextId := c.nextId + 1, issued := c.issued + 1 }) := by
  rw [Channel.send, Frame.encode_of_fits hfits]
  simp [hc]

theorem receive_response {c : Channel} (hc : c.closed = false) (hbuffer : c.buffer = [])
    {r : Response} (hplain : r.Plain) (hfits : Frame.Fits c.limit (encode r)) :
    c.receive (some r.id) (Frame.header (encode r).length ++ encode r) = (some r, c) := by
  obtain ⟨nextId, issued, limit, buffer, closed⟩ := c
  cases hc
  cases hbuffer
  have hamong := responseAmong_singleton (Response.parse_encode hplain)
  simp [Channel.receive, Frame.drain_of_fits hfits, hamong]

theorem call_of_receive {π α : Type} [Codable α] {peer : Peer π} {c after : Channel} {p q : π}
    {service method : String} {data : α} {sent : Channel.Sent} {chunk : Bytes} {r : Response}
    (hsend : c.send service method data = (.ok sent, after))
    (hpeer : peer.receive sent.frame p = (chunk, false, q))
    (hreceive : after.receive (some sent.id) chunk = (some r, after)) :
    c.call peer p service method data = (r.result, after, q) := by
  simp [Channel.call, hsend, hpeer, hreceive, Channel.outcome]

theorem receive_answer {α : Type} [Codable α] (host : Host μ) {limit : Nat} {c : Channel}
    {p : Served μ} (h : Idle c p) {service method : String} {data : α}
    (hwritten : Written (encode data)) (hopens : Opens (encode data)) {response : Response}
    (hresponse : (p.daemon.step host.call
      (.arrival (encode (Request.make c.nextId service method data)))).response = some response)
    (hfits : FitsBoth c limit (encode response)) :
    { c with nextId := c.nextId + 1, issued := c.issued + 1 }.receive (some c.nextId)
        (Frame.header (encode response).length ++ encode response)
      = (some response, { c with nextId := c.nextId + 1, issued := c.issued + 1 }) := by
  have haddressed : Addressed (encode (Request.make c.nextId service method data)) response := by
    cases hresponse
    exact (always_respond p.daemon.tables _).run host.call p.daemon.script
  have hid : response.id = c.nextId :=
    haddressed.id_of_accepted _ (Request.parse_encode_make hwritten hopens c.nextId service method)
  have hreceive := @receive_response { c with nextId := c.nextId + 1, issued := c.issued + 1 }
    h.going h.nothingLeft response haddressed.plain hfits.1
  rwa [hid] at hreceive

/-- The outcome of a call is that of the daemon's response, and the daemon is left as the request
leaves it. -/
theorem call_daemon {α : Type} [Codable α] (host : Host μ) {limit : Nat} {c : Channel}
    {p : Served μ} (h : Idle c p) {service method : String} {data : α}
    (hwritten : Written (encode data)) (hopens : Opens (encode data)) {response : Response}
    (hrequest : FitsBoth c limit (encode (Request.make c.nextId service method data)))
    (hresponse : (p.daemon.step host.call
      (.arrival (encode (Request.make c.nextId service method data)))).response = some response)
    (hfits : FitsBoth c limit (encode response)) :
    c.call (daemonPeer host limit) p service method data
      = (response.result, { c with nextId := c.nextId + 1, issued := c.issued + 1 },
        ⟨.opened, (p.daemon.step host.call
          (.arrival (encode (Request.make c.nextId service method data)))).state⟩) :=
  call_of_receive (send_of_fits h.going hrequest.1)
    (receive_frame host h.connection hrequest.2 hresponse hfits.2)
    (receive_answer host h hwritten hopens hresponse hfits)

end PathPolicy.Client
