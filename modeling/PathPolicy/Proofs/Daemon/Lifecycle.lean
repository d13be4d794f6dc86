import PathPolicy.Proofs.Daemon.Tracing
import PathPolicy.Proofs.Selector.Calls

/-!
The life of a tracer as the script sees it. The calls about a tracing id come in lives: a
registration, then events, and at most one closing, which ends the life. An id that is registered
while it is active begins another life; the last life is not closed exactly if the id is active.
-/
namespace PathPolicy.Tracer
open Script

/-- The tracing id that a call is about: the first argument of a call into the tracer's module. -/
def tracingId? (c : Call) : Option UInt64 :=
  if c.moduleName = scriptModule then c.args.head?.bind Value.unsigned? else none

def callsAbout (id : UInt64) (calls : List Call) : List Call :=
  calls.filter fun c => tracingId? c = some id

def registerCall (id : UInt64) (perspective : Perspective) (firstDestinationId : String) : Call :=
  ⟨scriptModule, registerFunction, [.ofUInt64 id, .text perspective.name, .text firstDestinationId]⟩

theorem tracingId?_of_ne {c : Call} (h : c.moduleName ≠ scriptModule) : tracingId? c = none :=
  if_neg h

@[simp] theorem tracingId?_registerCall (id : UInt64) (perspective : Perspective)
    (firstDestinationId : String) :
    tracingId? (registerCall id perspective firstDestinationId) = some id := by
  simp [tracingId?, registerCall]

@[simp] theorem tracingId?_eventCall (id : UInt64) (localAddress remoteAddress : String)
    (e : Event) :
    tracingId? (Operation.eventCall id localAddress remoteAddress e) = some id := by
  simp [tracingId?, Operation.eventCall, Event.arguments]

/-! ### Lives -/

structure Notice where
  localAddress : String
  remoteAddress : String
  event : Event

def Notice.call (id : UInt64) (n : Notice) : Call :=
  Operation.eventCall id n.localAddress n.remoteAddress n.event

/-- A registration, the events that follow it, and the closing, if there is one. -/
structure Life where
  perspective : Perspective
  firstDestinationId : String
  notices : List Notice
  closing : Option (String × String)
  ne_close : ∀ n ∈ notices, n.event ≠ .close

namespace Life

def closingCalls (id : UInt64) (closing : Option (String × String)) : List Call :=
  closing.toList.map fun (localAddress, remoteAddress) =>
    Operation.eventCall id localAddress remoteAddress .close

def calls (id : UInt64) (l : Life) : List Call :=
  registerCall id l.perspective l.firstDestinationId ::
    (l.notices.map (Notice.call id) ++ closingCalls id l.closing)

def born (perspective : Perspective) (firstDestinationId : String) : Life :=
  ⟨perspective, firstDestinationId, [], none, nofun⟩

def extended (l : Life) (n : Notice) (hn : n.event ≠ .close) : Life :=
  { l with
    notices := l.notices ++ [n]
    ne_close := by
      intro n' hn'
      rcases List.mem_append.mp hn' with h | h
      · exact l.ne_close n' h
      · exact List.mem_singleton.mp h ▸ hn }

def closed (l : Life) (localAddress remoteAddress : String) : Life :=
  { l with closing := some (localAddress, remoteAddress) }

variable {l : Life}

theorem calls_extended (id : UInt64) (h : l.closing = none) (n : Notice) (hn : n.event ≠ .close) :
    (l.extended n hn).calls id = l.calls id ++ [n.call id] := by
  simp [calls, extended, closingCalls, h]

theorem calls_closed (id : UInt64) (h : l.closing = none) (localAddress remoteAddress : String) :
    (l.closed localAddress remoteAddress).calls id
      = l.calls id ++ [Operation.eventCall id localAddress remoteAddress .close] := by
  simp [calls, closed, closingCalls, h]

end Life

def Living (lives : List Life) : Prop := ∃ life, lives.getLast? = some life ∧ life.closing = none

@[simp] theorem living_append_singleton (lives : List Life) (life : Life) :
    Living (lives ++ [life]) ↔ life.closing = none := by
  simp [Living]

theorem Living.split {lives : List Life} (h : Living lives) :
    ∃ before life, lives = before ++ [life] ∧ life.closing = none := by
  obtain ⟨life, hlast, hopen⟩ := h
  obtain ⟨before, rfl⟩ := List.getLast?_eq_some_iff.mp hlast
  exact ⟨before, life, rfl, hopen⟩

/-- The calls are those of some lives, one after the other, and the last of them goes on exactly if
the id is active. -/
def Lives (id : UInt64) (calls : List Call) (active : Prop) : Prop :=
  ∃ lives : List Life, calls = lives.flatMap (Life.calls id) ∧ (active ↔ Living lives)

namespace Lives
variable {id : UInt64} {calls : List Call} {active : Prop}

theorem nil (id : UInt64) : Lives id [] False := ⟨[], rfl, by simp [Living]⟩

theorem register (h : Lives id calls active) (perspective : Perspective)
    (firstDestinationId : String) :
    Lives id (calls ++ [registerCall id perspective firstDestinationId]) True := by
  obtain ⟨lives, rfl, -⟩ := h
  refine ⟨lives ++ [.born perspective firstDestinationId], ?_, by simp [Life.born]⟩
  simp [Life.calls, Life.born, Life.closingCalls]

theorem event (h : Lives id calls active) (hactive : active) (n : Notice) :
    Lives id (calls ++ [n.call id]) (n.event ≠ .close) := by
  obtain ⟨lives, rfl, hlives⟩ := h
  obtain ⟨before, life, rfl, hopen⟩ := (hlives.mp hactive).split
  by_cases hn : n.event = .close
  · refine ⟨before ++ [life.closed n.localAddress n.remoteAddress], ?_, by simp [hn, Life.closed]⟩
    simp [Life.calls_closed id hopen, Notice.call, hn]
  · refine ⟨before ++ [life.extended n hn], ?_, by simp [hn, Life.extended, hopen]⟩
    simp [Life.calls_extended id hopen]

theorem plan {r : Registry} (h : Lives id calls (r.Active id)) (o : Operation) :
    Lives id (calls ++ callsAbout id (o.plan r).call?.toList) ((o.plan r).tables.Active id) := by
  cases o with
  | register other perspective firstDestinationId =>
    change Lives id (calls ++ callsAbout id [registerCall other perspective firstDestinationId])
      ((r.create other perspective firstDestinationId).Active id)
    rw [Registry.active_create]
    by_cases hid : other = id
    · subst hid
      simpa [callsAbout] using h.register perspective firstDestinationId
    · simpa [callsAbout, hid] using h
  | event other localAddress remoteAddress e =>
    rw [Operation.active_plan, Operation.call?_plan_event]
    by_cases hid : other = id
    · subst hid
      by_cases hactive : r.Active other
      · have hnext := h.event hactive ⟨localAddress, remoteAddress, e⟩
        simpa [callsAbout, Operation.Registers, Operation.Closes, hactive, Notice.call] using hnext
      · simpa [callsAbout, Operation.Registers, hactive] using h
    · have hforeign : callsAbout id (if r.Active other
          then some (Operation.eventCall other localAddress remoteAddress e) else none).toList
          = [] := by
        split <;> simp [callsAbout, hid]
      simpa [hforeign, Operation.Registers, Operation.Closes, hid] using h

end Lives

theorem Operation.plan_close_again {id : UInt64} {r : Registry} (h : r.isClosed id)
    (localAddress remoteAddress : String) :
    (event id localAddress remoteAddress .close).plan r = .answer r (.ok ()) := by
  rw [plan, if_pos rfl, Registry.close]
  rw [Registry.isClosed] at h
  split at h
  next closing hslot => rw [hslot]
  next => cases h

end PathPolicy.Tracer

namespace PathPolicy.Daemon
open Script
open Tracer (Registry Lives callsAbout)
variable {μ : Type}

theorem callsAbout_of_ne {id : UInt64} {c : Call} (h : c.moduleName ≠ Tracer.scriptModule) :
    callsAbout id [c] = [] := by
  simp [callsAbout, Tracer.tracingId?_of_ne h]

theorem callsAbout_append (id : UInt64) (calls further : List Call) :
    callsAbout id (calls ++ further) = callsAbout id calls ++ callsAbout id further :=
  List.filter_append _ _

theorem callsAbout_session (id : UInt64) (t : Tables) (p : Selector.Pair)
    (o : Selector.Operation) : callsAbout id ((Operation.session p o).call? t).toList = [] := by
  cases h : (Operation.session p o).call? t with
  | none => rfl
  | some c =>
    have hmodule := (Selector.Operation.entry_of_plan h).1
    exact callsAbout_of_ne (by rw [hmodule]; decide)

theorem lives_operation {id : UInt64} {t : Tables} {calls : List Call}
    (h : Lives id (callsAbout id calls) (t.tracers.Active id)) (o : Operation) :
    Lives id (callsAbout id (calls ++ (o.call? t).toList)) ((o.tables t).tracers.Active id) := by
  rw [callsAbout_append]
  cases o with
  | session p o => simpa [callsAbout_session, Operation.tables] using h
  | tracer o => exact h.plan o

/-- Whatever arrives, and whatever the script makes of its calls: the calls about a tracing id are
lives, one after the other, and the id is active exactly if the last one goes on. At any time an
accepted event makes its call exactly if its id is active, be it a closing or not; and a closing of
an id that is remembered as closed succeeds, without a call and with the tables as they are. -/
theorem script_sees_lives (script : Call → μ → Outcome × μ) (sessions : Selector.SessionTable)
    (limit : Nat) (m : μ) (events : List Event) (htimely : ∀ e ∈ events, e.Timely) (id : UInt64) :
    let d := (State.noting ⟨⟨sessions, .empty limit⟩, m⟩).run (noted script) events
    Lives id (callsAbout id d.calls) (d.tables.tracers.Active id) ∧
    ∀ body r, Request.parse body = .ok r → r.service = Tracer.service →
      ∀ localAddress remoteAddress e,
        Tracer.Operation.ofRequest r = .ok (.event id localAddress remoteAddress e) →
        (respond d.tables body).call? = (if d.tables.tracers.Active id
          then some (Tracer.Operation.eventCall id localAddress remoteAddress e) else none) ∧
        (e = .close → d.tables.tracers.isClosed id →
          respond d.tables body = .answer d.tables (.success r.id none)) := by
  intro d
  refine ⟨?_, fun body r hparse hservice localAddress remoteAddress e hrequest => ⟨?_, ?_⟩⟩
  · have hempty : ¬(Registry.empty limit).Active id := by simp [Registry.active_iff, Registry.empty]
    refine State.noted_invariant
      (fun t calls => Lives id (callsAbout id calls) (t.tracers.Active id))
      (fun t calls o h => lives_operation h o) ?_ script ?_ htimely
    · intro t calls elapsed h
      have htime : callsAbout id [Selector.periodicCall elapsed] = [] :=
        callsAbout_of_ne (show Selector.scriptModule ≠ Tracer.scriptModule by decide)
      rw [callsAbout_append, htime, List.append_nil]
      exact h
    · simpa [hempty, callsAbout] using Lives.nil id
  · exact call?_respond_event d.tables hparse hservice hrequest
  · rintro rfl hclosed
    rw [respond_of_tracer hparse hservice hrequest, Tracer.Operation.plan_close_again hclosed]
    rfl

def sampleRegistration : Bytes :=
  Json.encode (Request.make 1 Tracer.service Tracer.registerMethod { Tracer.Message.empty with
    tracingId := some 7, perspective := some .client, firstDestinationId := some "00" })

def sampleClosing : Bytes :=
  Json.encode (Request.make 2 Tracer.service Tracer.Kind.close.name { Tracer.Message.empty with
    tracingId := some 7, localAddress := some "a", remoteAddress := some "b" })

set_option maxRecDepth 8192 in
/-- The script raises an error whenever it is called. An id is closed and registered again, twice
in a row, and then closed twice. -/
theorem script_sees_lives_sample :
    let events : List Event := [.arrival sampleClosing, .arrival sampleRegistration,
      .arrival sampleClosing, .ownCall (Selector.periodicCall 5), .arrival sampleRegistration,
      .arrival sampleRegistration, .arrival sampleClosing, .arrival sampleClosing]
    let d := (State.noting ⟨⟨∅, .empty 1⟩, 0⟩).run (noted failingScript) events
    (∀ e ∈ events, e.Timely) ∧
    (callsAbout 7 d.calls).map Call.function = ["TracerForConnection", "Close",
      "TracerForConnection", "TracerForConnection", "Close"] ∧
    Lives 7 (callsAbout 7 d.calls) (d.tables.tracers.Active 7) ∧
    respond d.tables sampleClosing = .answer d.tables (.success 2 none) := by
  intro events d
  have htimely : ∀ e ∈ events, e.Timely := by simp [events, Event.Timely]
  obtain ⟨hlives, hrequests⟩ := script_sees_lives failingScript ∅ 1 0 events htimely 7
  have hclosed : d.tables.tracers.isClosed 7 := by rfl
  exact ⟨htimely, by rfl, hlives, (hrequests sampleClosing _ rfl rfl "a" "b" .close rfl).2 rfl hclosed⟩

end PathPolicy.Daemon
