import PathPolicy.Proofs.Client.Exchange
import PathPolicy.Proofs.Daemon.Log

/-!
What the script hears of a client. A request that fits the frames of both sides reaches the daemon
as it was made, and the daemon's calls are noted.
-/
namespace PathPolicy.Script

/-- A host that also notes its calls, the latest one last. -/
def Host.noting {μ : Type} (host : Host μ) : Host (μ × List Call) where
  register moduleName entryPoints m :=
    let (result, next) := host.register moduleName entryPoints m.1
    (result, next, m.2)
  load path m :=
    let (result, next) := host.load path m.1
    (result, next, m.2)
  call := noted host.call

end PathPolicy.Script

namespace PathPolicy.Daemon
open Script
variable {μ : Type}

theorem calls_step (host : Host μ) (d : State (μ × List Call)) (body : Bytes) :
    (d.step host.noting.call (.arrival body)).state.calls
      = d.calls ++ (respond d.tables body).call?.toList :=
  calls_step_noted host.call d (.arrival body)

end PathPolicy.Daemon

namespace PathPolicy.Client
open Json Script Daemon
variable {μ α : Type} [Codable α]

theorem served_call (host : Host μ) {limit : Nat} {c : Channel} {p : Served μ}
    (hopen : c.closed = false) (hp : p.connection = .opened) {service method : String} {data : α}
    (hfits : FitsBoth c limit (encode (Request.make c.nextId service method data))) :
    (c.call (daemonPeer host limit) p service method data).2.2
      = ⟨.opened, (p.daemon.step host.call
          (.arrival (encode (Request.make c.nextId service method data)))).state⟩ := by
  obtain ⟨connection, d⟩ := p
  cases hp
  simp only [Channel.call, send_of_fits hopen hfits.1, daemonPeer, Connection.receive,
    Connection.opened, Bool.false_eq_true, if_false, List.nil_append, Frame.drain_of_fits hfits.2]
  simp [State.answer, reply, Plan.run_map, State.step]

/-- A call whose request does not get through leaves the daemon as it is: the channel is closed, or
the frame is too long for one side. -/
theorem unserved_call (host : Host μ) {limit : Nat} {c : Channel} {p : Served μ}
    (hp : p.connection = .opened) {service method : String} {data : α}
    (h : ¬(c.closed = false ∧ FitsBoth c limit (encode (Request.make c.nextId service method data)))) :
    (c.call (daemonPeer host limit) p service method data).2.2.daemon = p.daemon := by
  generalize hbody : encode (Request.make c.nextId service method data) = body at h
  by_cases hfits : Frame.Fits c.limit body
  · by_cases hopen : c.closed = false
    · have hlimit : limit < body.length := by
        by_contra hle
        exact h ⟨hopen, hfits, Nat.le_of_not_lt hle, hfits.2⟩
      have hfront : Frame.front limit (Frame.header body.length ++ body)
          = .refused (Frame.tooLong body.length limit) :=
        Frame.front_eq_refused_iff.mpr
          ⟨body.length, hlimit, hfits.2, List.prefix_append _ _, rfl⟩
      subst hbody
      simp [Channel.call, send_of_fits hopen hfits, daemonPeer, Connection.receive, hp,
        Connection.opened, Frame.drain_of_refused hfront, State.answer]
    · have hsend : c.send service method data
          = (.error (.transport "connection closed"), { c with nextId := c.nextId + 1 }) := by
        simp [Channel.send, hbody, Frame.encode_of_fits hfits, hopen]
      simp [Channel.call, hsend]
  · obtain ⟨e, -, he⟩ := Frame.encode_of_not_fits hfits
    have hsend : c.send service method data = (.error e, { c with nextId := c.nextId + 1 }) := by
      simp [Channel.send, hbody, he]
    simp [Channel.call, hsend]

def raisingHost : Host Unit where
  register _ _ m := (.ok (), m)
  load _ m := (.ok (), m)
  call _ m := (.error (.policy "raised"), m)

end PathPolicy.Client
