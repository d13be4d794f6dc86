import PathPolicy.Client.Tracer
import PathPolicy.Proofs.Client.Heard
import PathPolicy.Proofs.Daemon.Lifecycle
import PathPolicy.Proofs.Wire.Tracing

/-!
Registrations that fail. One that is refused leaves nothing behind; one that reaches the script is
kept whatever the script makes of it, since the registry changes before the script has its say. The
client whose registration failed traces nothing, and so does not close what it left either.
-/
namespace PathPolicy.Tracer
open Script

theorem Operation.ofRequest_registration {r : Request} (h : r.method = registerMethod) :
    (∃ e, ofRequest r = .error e ∧ e.isProtocol) ∨
      ∃ id perspective firstDestinationId,
        ofRequest r = .ok (.register id perspective firstDestinationId) := by
  have hmissing (name : String) : (Fault.missingField name).isProtocol := rfl
  have hpayload : ∀ e, r.payload Message.empty = .error e → e.isProtocol := by
    intro e he
    rw [Request.payload] at he
    split at he
    · cases he
    next raw _ =>
      cases hdecode : Json.decode (α := Message) raw.text <;> rw [hdecode] at he <;> cases he
      rfl
  simp only [ofRequest, bind, Except.bind]
  cases hm : r.payload Message.empty with
  | error e => exact .inl ⟨e, rfl, hpayload e hm⟩
  | ok m =>
    dsimp only
    rw [ofMessage, if_pos h]
    obtain ⟨tracingId, perspective, firstDestinationId, _⟩ := m
    cases tracingId with
    | none => exact .inl ⟨_, rfl, hmissing "tracing_id"⟩
    | some id =>
      cases perspective with
      | none => exact .inl ⟨_, rfl, hmissing "perspective"⟩
      | some perspective =>
        cases firstDestinationId with
        | none => exact .inl ⟨_, rfl, hmissing "odcid"⟩
        | some firstDestinationId => exact .inr ⟨id, perspective, firstDestinationId, rfl⟩

end PathPolicy.Tracer

namespace PathPolicy.Daemon
open Script
variable {μ : Type}

/-- The tables with a tracer that begins anew. -/
def Tables.withTracer (t : Tables) (id : UInt64) (perspective : Tracer.Perspective)
    (firstDestinationId : String) : Tables :=
  { t with tracers := t.tracers.create id perspective firstDestinationId }

section Registration
variable {body : Bytes} {r : Request}

theorem respond_of_refused (hparse : Request.parse body = .ok r) (hservice : r.service = Tracer.service)
    {e : Fault} (hrequest : Tracer.Operation.ofRequest r = .error e) (t : Tables) :
    respond t body = .answer t (.failure r.id e) := by
  have hne : Tracer.service ≠ Selector.service := by decide
  rw [respond, hparse]
  simp only [dispatch, hservice, if_neg hne, if_pos, Tracer.serve, hrequest]
  rfl

theorem respond_of_registration (hparse : Request.parse body = .ok r)
    (hservice : r.service = Tracer.service) {id : UInt64} {perspective : Tracer.Perspective}
    {firstDestinationId : String}
    (hrequest : Tracer.Operation.ofRequest r = .ok (.register id perspective firstDestinationId))
    (t : Tables) : respond t body
      = .consult (t.withTracer id perspective firstDestinationId)
          (Tracer.registerCall id perspective firstDestinationId)
          fun outcome => .ofResult r.id ((outcome.map fun _ => ()).map fun _ => none) := by
  rw [respond_of_tracer hparse hservice hrequest]
  rfl

/-- A registration whose answer is a fault: the tables are as they were if the request is at fault.
Otherwise they are those that the same registration leaves when a script lets it succeed. -/
theorem tables_of_failed_registration (script : Call → μ → Outcome × μ)
    (hscript : ∀ c m, (script c m).1.Own) (t : Tables) (m : μ)
    (hparse : Request.parse body = .ok r) (hservice : r.service = Tracer.service)
    (hmethod : r.method = Tracer.registerMethod) {e : Fault}
    (he : ((respond t body).run script m).1.result = .error e) :
    (e.isProtocol → ((respond t body).run script m).2 = (t, m)) ∧
    (¬e.isProtocol → ∃ id perspective firstDestinationId,
      Tracer.Operation.ofRequest r = .ok (.register id perspective firstDestinationId) ∧
      ((respond t body).run script m).2.1 = t.withTracer id perspective firstDestinationId ∧
      ∀ (ν : Type) (other : Call → ν → Outcome × ν) (n : ν) (results : List Value),
        (other (Tracer.registerCall id perspective firstDestinationId) n).1 = .ok results →
        ((respond t body).run other n).1.result = .ok none ∧
          ((respond t body).run other n).2.1 = ((respond t body).run script m).2.1) := by
  constructor
  · intro hprotocol
    have huntouched := respond_untouched t body
    cases hrespond : respond t body with
    | answer tables response =>
      rw [hrespond] at he huntouched
      rw [show tables = t from huntouched ⟨e, he, hprotocol⟩]
      rfl
    | consult tables call finish =>
      rw [hrespond] at he huntouched
      exact absurd ⟨e, he, hprotocol⟩ (huntouched _ (hscript call m))
  · intro hown
    -- what cannot be read as a registration is refused, and that is the request's own fault
    rcases Tracer.Operation.ofRequest_registration hmethod with
      ⟨e', hrequest, hprotocol⟩ | ⟨id, perspective, firstDestinationId, hrequest⟩
    · rw [respond_of_refused hparse hservice hrequest] at he
      obtain ⟨e'', he'', hrefused⟩ := (refused_ofResult r.id (.error e')).mpr ⟨e', rfl, hprotocol⟩
      cases he.symm.trans he''
      exact absurd hrefused hown
    · have hrespond := respond_of_registration hparse hservice hrequest t
      refine ⟨id, perspective, firstDestinationId, hrequest, ?_, ?_⟩
      · rw [hrespond]
        rfl
      · intro ν other n results hother
        rw [hrespond]
        refine ⟨?_, rfl⟩
        simp only [Plan.run, hother]
        rfl

end Registration
end PathPolicy.Daemon

namespace PathPolicy.Client
open Json Script Daemon
variable {μ π : Type}

namespace Tracer

def traceAll (peer : Peer π) (s : Tracer × Channel × π) (events : List PathPolicy.Tracer.Event) :
    Tracer × Channel × π :=
  events.foldl (fun (t, c, p) e => t.trace peer c p e) s

theorem traceAll_of_disabled (peer : Peer π) {s : Tracer × Channel × π} (h : s.1.enabled = false)
    (events : List PathPolicy.Tracer.Event) : traceAll peer s events = s := by
  obtain ⟨t, c, p⟩ := s
  have htrace (e : PathPolicy.Tracer.Event) : t.trace peer c p e = (t, c, p) := by
    exact if_neg (Bool.eq_false_iff.mp h)
  induction events with
  | nil => rfl
  | cons e events ih =>
    change traceAll peer (t.trace peer c p e) events = (t, c, p)
    rw [htrace, ih]

def registrationBody (c : Channel) (id : UInt64) (perspective : PathPolicy.Tracer.Perspective)
    (connectionId : Bytes) : Bytes :=
  encode (Request.make c.nextId PathPolicy.Tracer.service PathPolicy.Tracer.registerMethod
    (registration id perspective connectionId))

theorem tables_register (host : Host μ) {limit : Nat} {c : Channel} {p : Served μ}
    (hp : p.connection = .opened) (id : UInt64) (perspective : PathPolicy.Tracer.Perspective)
    (connectionId : Bytes) :
    (register (daemonPeer host limit) c p id perspective connectionId).2.2.daemon.tables
      = if c.closed = false ∧ FitsBoth c limit (registrationBody c id perspective connectionId)
        then p.daemon.tables.withTracer id perspective connectionId.hex else p.daemon.tables := by
  have hregister : (register (daemonPeer host limit) c p id perspective connectionId).2.2
      = (c.call (daemonPeer host limit) p PathPolicy.Tracer.service
        PathPolicy.Tracer.registerMethod (registration id perspective connectionId)).2.2 := rfl
  rw [hregister]
  split
  next h =>
    have hparse := Request.parse_encode_make
      (PathPolicy.Tracer.written_message (registration id perspective connectionId))
      (opens_record PathPolicy.Tracer.Message.record _) c.nextId PathPolicy.Tracer.service
      PathPolicy.Tracer.registerMethod
    have hrequest : PathPolicy.Tracer.Operation.ofRequest (Request.make c.nextId
        PathPolicy.Tracer.service PathPolicy.Tracer.registerMethod
        (registration id perspective connectionId))
        = .ok (.register id perspective connectionId.hex) :=
      PathPolicy.Tracer.Operation.ofRequest_make ..
    rw [served_call host h.1 hp h.2]
    simp only [State.step, respond_of_registration hparse rfl hrequest, Plan.run]
  next h => rw [unserved_call host hp h]

/-- A registration that the daemon answers with a fault leaves everything as it was if the request
is at fault. Otherwise it was the script that failed, and the registry has the id begun anew: the same
registration, put to a script that does not fail, is answered with success and leaves the same
tables. So it is with a client: whatever the answer, its tracer has begun at the daemon exactly if the
request got through; and if it is disabled, then nothing that is reported to it, closing included,
changes anything. -/
theorem registration_kept_unless_refused (host : Host μ)
    (hhost : ∀ c m, (host.call c m).1.Own) :
    (∀ (t : Tables) (m : μ) (body : Bytes) (r : Request) (e : Fault),
      Request.parse body = .ok r → r.service = PathPolicy.Tracer.service →
      r.method = PathPolicy.Tracer.registerMethod →
      ((respond t body).run host.call m).1.result = .error e →
      (e.isProtocol → ((respond t body).run host.call m).2 = (t, m)) ∧
      (¬e.isProtocol → ∃ id perspective firstDestinationId,
        PathPolicy.Tracer.Operation.ofRequest r
          = .ok (.register id perspective firstDestinationId) ∧
        ((respond t body).run host.call m).2.1
          = t.withTracer id perspective firstDestinationId ∧
        ∀ (ν : Type) (other : Call → ν → Outcome × ν) (n : ν) (results : List Script.Value),
          (other (PathPolicy.Tracer.registerCall id perspective firstDestinationId) n).1
            = .ok results →
          ((respond t body).run other n).1.result = .ok none ∧
            ((respond t body).run other n).2.1 = ((respond t body).run host.call m).2.1)) ∧
    ∀ (limit : Nat) (c : Channel) (p : Served μ), p.connection = .opened →
      ∀ (id : UInt64) (perspective : PathPolicy.Tracer.Perspective) (connectionId : Bytes),
      let left := register (daemonPeer host limit) c p id perspective connectionId
      (left.2.2.daemon.tables
        = if c.closed = false ∧ FitsBoth c limit (registrationBody c id perspective connectionId)
          then p.daemon.tables.withTracer id perspective connectionId.hex
          else p.daemon.tables) ∧
      (left.1.enabled = false → ∀ events, traceAll (daemonPeer host limit) left events = left) := by
  constructor
  · intro t m body r e hparse hservice hmethod he
    exact tables_of_failed_registration host.call hhost t m hparse hservice hmethod he
  · intro limit c p hp id perspective connectionId
    exact ⟨tables_register host hp id perspective connectionId,
      fun h => traceAll_of_disabled _ h⟩

def quietScript (_ : Call) (m : Unit) : Outcome × Unit := (.ok [], m)

set_option maxRecDepth 8192 in
/-- The script raises an error. The answer says so, and the client's tracer is disabled, but the
daemon keeps it, as it does when the script is quiet; a message without a perspective is refused and
leaves nothing. -/
theorem registration_kept_unless_refused_sample :
    let served : Served Unit := ⟨.opened, ⟨.start, ()⟩⟩
    let left := register (daemonPeer raisingHost 4096) (.opened 4096) served 7 .client []
    let body := registrationBody (.opened 4096) 7 .client []
    let failed := (respond .start body).run raisingHost.call ()
    let unclear := encode (Request.make 1 PathPolicy.Tracer.service
      PathPolicy.Tracer.registerMethod { PathPolicy.Tracer.Message.empty with tracingId := some 7 })
    (∀ c m, (raisingHost.call c m).1.Own) ∧
    left.1.enabled = false ∧
    (traceAll (daemonPeer raisingHost 4096) left [.close]).2.2.daemon.tables
      = Tables.start.withTracer 7 .client "" ∧
    failed.1.result = .error (.policy "raised") ∧
    ((respond .start body).run quietScript ()).1.result = .ok none ∧
    ((respond .start body).run quietScript ()).2.1 = failed.2.1 ∧
    ((respond .start unclear).run raisingHost.call ()).1.result
      = .error (.missingField "perspective") ∧
    ((respond .start unclear).run raisingHost.call ()).2 = (.start, ()) := by
  intro served left body failed unclear
  have hown : ∀ c m, (raisingHost.call c m).1.Own := by
    rintro c m e he
    cases he
    exact .inl rfl
  obtain ⟨hdaemon, hclient⟩ := registration_kept_unless_refused raisingHost hown
  obtain ⟨htables, htraces⟩ := hclient 4096 (.opened 4096) served rfl 7 .client []
  have hdisabled : left.1.enabled = false := by decide +kernel
  have hfits : FitsBoth (.opened 4096) 4096 body := by decide +kernel
  have hfailed : failed.1.result = .error (.policy "raised") := by rfl
  have hrefused : ((respond .start unclear).run raisingHost.call ()).1.result
      = .error (.missingField "perspective") := by rfl
  obtain ⟨-, hkept⟩ := hdaemon .start () body _ _ rfl rfl rfl hfailed
  obtain ⟨_, _, _, -, -, hquiet⟩ := hkept (by decide)
  obtain ⟨hsuccess, hsame⟩ := hquiet Unit quietScript () [] rfl
  rw [if_pos ⟨rfl, hfits⟩] at htables
  refine ⟨hown, hdisabled, ?_, hfailed, hsuccess, hsame, hrefused,
    (hdaemon .start () unclear _ _ rfl rfl rfl hrefused).1 rfl⟩
  rw [htraces hdisabled]
  exact htables

set_option maxRecDepth 8192 in
/-- A registration in a daemon without any tracer. The script raises an error, the answer says so,
and the tracer is active afterwards. -/
theorem failed_registration_stays_active :
    let answered := (respond .start sampleRegistration).run failingScript 0
    ((Request.parse sampleRegistration).map fun r => (r.service, r.method))
      = .ok ("Tracer", "NewTracerForConnection") ∧
    answered.1.result = .error (.policy "raised") ∧
    ¬Tables.start.tracers.Active 7 ∧ answered.2.1.tracers.Active 7 ∧
    answered.2.1.tracers ≠ Tables.start.tracers := by
  intro answered
  have hbefore : ¬Tables.start.tracers.Active 7 := by decide
  have hafter : answered.2.1.tracers.Active 7 := by rfl
  exact ⟨by rfl, by rfl, hbefore, hafter, fun h => hbefore (h ▸ hafter)⟩

end Tracer
end PathPolicy.Client
