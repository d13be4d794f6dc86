import PathPolicy.Client.Tracer
import PathPolicy.Proofs.Client.Heard
import PathPolicy.Proofs.Daemon.Tracing
import PathPolicy.Proofs.Wire.Tracing

/-!
What a client traces is what the script sees. Each event that an enabled tracer reports becomes one
call, with the addresses that were told last before it or by it.
-/
namespace PathPolicy.Tracer
open Script

def Event.addresses? : Event → Option (String × String)
  | .startedConnection localAddress remoteAddress _ _ => some (localAddress, remoteAddress)
  | _ => none

/-- The addresses that some events told last, or two empty texts. -/
def latestAddresses (events : List Event) : String × String :=
  (events.reverse.findSome? Event.addresses?).getD ("", "")

theorem latestAddresses_append_singleton (events : List Event) (e : Event) :
    latestAddresses (events ++ [e]) = e.addresses?.getD (latestAddresses events) := by
  rw [latestAddresses, List.reverse_append, List.reverse_singleton, List.singleton_append,
    List.findSome?_cons]
  cases e.addresses? <;> rfl

end PathPolicy.Tracer

namespace PathPolicy.Client
open Json Script Daemon
open PathPolicy.Tracer (latestAddresses)

variable {μ : Type}

namespace Tracer

theorem addresses_learn (t : Tracer) (e : PathPolicy.Tracer.Event) :
    ((t.learn e).localAddress, (t.learn e).remoteAddress)
      = e.addresses?.getD (t.localAddress, t.remoteAddress) := by
  cases e <;> rfl

@[simp] theorem id_learn (t : Tracer) (e : PathPolicy.Tracer.Event) : (t.learn e).id = t.id := by
  cases e <;> rfl

@[simp] theorem enabled_learn (t : Tracer) (e : PathPolicy.Tracer.Event) :
    (t.learn e).enabled = t.enabled := by
  cases e <;> rfl

theorem ofMessage_message (t : Tracer) (e : PathPolicy.Tracer.Event) :
    PathPolicy.Tracer.Operation.ofMessage e.kind.name ((t.learn e).message e)
      = .ok (.event t.id (t.learn e).localAddress (t.learn e).remoteAddress e.arrived) := by
  have hevent : PathPolicy.Tracer.Event.ofMessage e.kind.name ((t.learn e).message e)
      = .ok e.arrived := by
    rw [PathPolicy.Tracer.Event.ofMessage, PathPolicy.Tracer.Kind.ofName_name]
    exact PathPolicy.Tracer.Event.ofFields_writeInto _ e
  have hid : ((t.learn e).message e).tracingId = some t.id := by cases e <;> rfl
  have hlocal : ((t.learn e).message e).localAddress = some (t.learn e).localAddress := by
    cases e <;> rfl
  have hremote : ((t.learn e).message e).remoteAddress = some (t.learn e).remoteAddress := by
    cases e <;> rfl
  simp only [PathPolicy.Tracer.Operation.ofMessage,
    if_neg (PathPolicy.Tracer.Kind.name_ne_registerMethod e.kind), hevent,
    PathPolicy.Tracer.Message.requiredId, hid, hlocal, hremote, bind, Except.bind]
  rfl

end Tracer

structure Traced (μ : Type) where
  tracer : Tracer
  channel : Channel
  served : Served μ

namespace Traced

inductive Act
  | own (e : PathPolicy.Tracer.Event)
  | foreign (e : Event)

def start (id : UInt64) (c : Channel) (d : State μ) : Traced (μ × List Call) :=
  ⟨⟨id, true, "", ""⟩, c, ⟨.opened, d.noting⟩⟩

def step (host : Host μ) (limit : Nat) (w : Traced μ) : Act → Traced μ
  | .own e =>
    let (tracer, channel, served) := w.tracer.trace (daemonPeer host limit) w.channel w.served e
    ⟨tracer, channel, served⟩
  | .foreign e =>
    { w with served := { w.served with daemon := (w.served.daemon.step host.call e).state } }

/-- The calls that follow from the tracer's events. -/
def heard (host : Host μ) (limit : Nat) : Traced (μ × List Call) → List Act → List Call
  | _, [] => []
  | w, .own e :: acts =>
    let next := w.step host.noting limit (.own e)
    next.served.daemon.calls.drop w.served.daemon.calls.length ++ heard host limit next acts
  | w, .foreign e :: acts => heard host limit (w.step host.noting limit (.foreign e)) acts

def request (w : Traced μ) (e : PathPolicy.Tracer.Event) : Bytes :=
  encode (Request.make w.channel.nextId PathPolicy.Tracer.service e.kind.name
    ((w.tracer.learn e).message e))

/-- The connection is up and the request within the limits of both sides. Nobody else closes the
tracing id. -/
def Allows (limit : Nat) (w : Traced μ) : Act → Prop
  | .own e => w.channel.closed = false ∧ FitsBoth w.channel limit (w.request e)
  | .foreign e => ¬e.Closes w.tracer.id

def Smooth (host : Host μ) (limit : Nat) : Traced μ → List Act → Prop
  | _, [] => True
  | w, act :: acts => w.Allows limit act ∧ Smooth host limit (w.step host limit act) acts

/-- The tracer has reported the events, and none of them closed its id. -/
structure Reports (id : UInt64) (events : List PathPolicy.Tracer.Event) (w : Traced μ) : Prop where
  enabled : w.tracer.enabled = true
  id_eq : w.tracer.id = id
  addresses : (w.tracer.localAddress, w.tracer.remoteAddress) = latestAddresses events
  connection : w.served.connection = .opened
  active : w.served.daemon.tables.tracers.Active id

section Step
variable {id : UInt64} {events : List PathPolicy.Tracer.Event} {host : Host μ} {limit : Nat}

theorem parse_request (w : Traced μ) (e : PathPolicy.Tracer.Event) :
    Request.parse (w.request e) = .ok (Request.make w.channel.nextId PathPolicy.Tracer.service
      e.kind.name ((w.tracer.learn e).message e)) :=
  Request.parse_encode_make (PathPolicy.Tracer.written_message _)
    (opens_record PathPolicy.Tracer.Message.record _) _ _ _

theorem Reports.ofRequest {w : Traced μ} (h : w.Reports id events) (e : PathPolicy.Tracer.Event) :
    PathPolicy.Tracer.Operation.ofRequest (Request.make w.channel.nextId PathPolicy.Tracer.service
        e.kind.name ((w.tracer.learn e).message e))
      = .ok (.event id (latestAddresses (events ++ [e])).1 (latestAddresses (events ++ [e])).2
          e.arrived) := by
  rw [PathPolicy.Tracer.Operation.ofRequest_make, Tracer.ofMessage_message,
    PathPolicy.Tracer.latestAddresses_append_singleton, ← h.addresses, ← Tracer.addresses_learn,
    h.id_eq]

theorem Reports.step_own (host : Host μ) {w : Traced μ} (h : w.Reports id events)
    {e : PathPolicy.Tracer.Event} (hallowed : w.Allows limit (.own e)) :
    (w.step host limit (.own e)).tracer = w.tracer.learn e ∧
      (w.step host limit (.own e)).served
        = ⟨.opened, (w.served.daemon.step host.call (.arrival (w.request e))).state⟩ := by
  have hserved := served_call host hallowed.1 h.connection hallowed.2
  simp only [step, Tracer.trace, h.enabled, if_true]
  exact ⟨trivial, hserved⟩

theorem Reports.not_closes {w : Traced μ} (h : w.Reports id events) {e : PathPolicy.Tracer.Event}
    (he : e ≠ .close) : ¬Event.Closes id (.arrival (w.request e)) := by
  rintro ⟨r, o, hparse, -, hrequest, localAddress, remoteAddress, rfl⟩
  cases (w.parse_request e).symm.trans hparse
  have hoperation := (h.ofRequest e).symm.trans hrequest
  simp only [Except.ok.injEq, PathPolicy.Tracer.Operation.event.injEq] at hoperation
  exact he ((PathPolicy.Tracer.Event.arrived_eq_close_iff e).mp hoperation.2.2.2)

theorem Reports.own {w : Traced μ} (h : w.Reports id events) {e : PathPolicy.Tracer.Event}
    (hallowed : w.Allows limit (.own e)) (he : e ≠ .close) :
    (w.step host limit (.own e)).Reports id (events ++ [e]) := by
  obtain ⟨htracer, hserved⟩ := h.step_own host hallowed
  refine ⟨?_, ?_, ?_, ?_, ?_⟩
  · rw [htracer, Tracer.enabled_learn, h.enabled]
  · rw [htracer, Tracer.id_learn, h.id_eq]
  · rw [htracer, Tracer.addresses_learn, h.addresses,
      PathPolicy.Tracer.latestAddresses_append_singleton]
  · rw [hserved]
  · rw [hserved]
    exact active_step host.call (h.not_closes he) h.active

theorem Reports.foreign {w : Traced μ} (h : w.Reports id events) {e : Event}
    (hallowed : w.Allows limit (.foreign e)) :
    (w.step host limit (.foreign e)).Reports id events :=
  ⟨h.enabled, h.id_eq, h.addresses, h.connection,
    active_step host.call (h.id_eq ▸ hallowed) h.active⟩

end Step

/-- A timer is set before the connection has started, for an instant before the epoch and between
two microseconds; a malformed body arrives from elsewhere before the tracer closes. -/
def sampleActs : List Act :=
  [.own (.setLossTimer "loss" "1RTT" ⟨-1500⟩), .own (.startedConnection "a" "b" "s" "d"),
    .foreign (.arrival [123]), .own .close]

end Traced
end PathPolicy.Client
