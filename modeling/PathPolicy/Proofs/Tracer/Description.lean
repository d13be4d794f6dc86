import PathPolicy.Proofs.Wire.Tracing

/-!
A message describes the event that was written into it, whatever it held before, and an event that is
read from a message is described by every message into which it is written. A message that describes
no event of its kind lacks a field, and the fault names the first one that it lacks.
-/
namespace PathPolicy.Tracer

/-! ### Kinds by their names -/

theorem Kind.ofName_eq_ok_iff {method : String} {k : Kind} :
    ofName method = .ok k ↔ k.name = method := by
  constructor
  · intro h
    unfold ofName at h
    split at h <;> cases h <;> rfl
  · rintro rfl
    exact ofName_name k

theorem Kind.name_inj {k l : Kind} : k.name = l.name ↔ k = l := by
  rw [← ofName_eq_ok_iff, ofName_name, Except.ok.injEq, eq_comm]

theorem Kind.mem_eventMethods_iff {method : String} :
    method ∈ eventMethods ↔ ∃ k : Kind, k.name = method := by
  constructor
  · intro h
    rw [eventMethods_eq] at h
    obtain ⟨k, -, hk⟩ := List.mem_map.mp h
    exact ⟨k, hk⟩
  · rintro ⟨k, rfl⟩
    exact name_mem_eventMethods k

theorem Kind.ofName_of_not_mem {method : String} (h : method ∉ eventMethods) :
    ofName method = .error (.unknownMethod (service ++ "." ++ method)) := by
  cases hname : ofName method with
  | error e =>
    unfold ofName at hname
    split at hname <;> cases hname
    rfl
  | ok k => exact absurd (mem_eventMethods_iff.mpr ⟨k, ofName_eq_ok_iff.mp hname⟩) h

/-! ### What an event needs -/

/-- Fields that are looked for one after the other, each with whether it is there. -/
abbrev Needs := List (String × Bool)

def Needs.firstAbsent (needs : Needs) : Option String :=
  (needs.find? fun need => !need.2).map Prod.fst

/-- What a message has of the fields that a kind of event needs. -/
def Message.needs (m : Message) : Kind → Needs
  | .startedConnection =>
    [("local", m.localAddress.isSome), ("remote", m.remoteAddress.isSome),
      ("src_conn_id", m.sourceId.isSome), ("dest_conn_id", m.destinationId.isSome)]
  | .negotiatedVersion => [("chosen", m.chosen.isSome)]
  | .sentTransportParameters | .receivedTransportParameters | .restoredTransportParameters =>
    [("parameters", m.parameters.isSome)]
  | .sentPacket | .receivedPacket =>
    [("packet_type", m.packetType.isSome), ("packet_number", m.packetNumber.isSome),
      ("byte_count", m.byteCount.isSome)]
  | .receivedRetry => [("src_conn_id", m.sourceId.isSome)]
  | .bufferedPacket => [("packet_type", m.packetType.isSome)]
  | .droppedPacket =>
    [("packet_type", m.packetType.isSome), ("byte_count", m.byteCount.isSome),
      ("reason", m.reason.isSome)]
  | .updatedMetrics =>
    [("rtt_stats", m.rtt.isSome), ("cwnd", m.congestionWindow.isSome),
      ("bytes_in_flight", m.bytesInFlight.isSome), ("packets_in_flight", m.packetsInFlight.isSome)]
  | .acknowledgedPacket =>
    [("encryption_level", m.encryptionLevel.isSome), ("packet_number", m.packetNumber.isSome)]
  | .lostPacket =>
    [("encryption_level", m.encryptionLevel.isSome), ("packet_number", m.packetNumber.isSome),
      ("reason", m.reason.isSome)]
  | .updatedCongestionState => [("congestion_state", m.congestionState.isSome)]
  | .updatedProbeCount => [("pto_count", m.probeCount.isSome)]
  | .updatedKeyFromHandshake =>
    [("encryption_level", m.encryptionLevel.isSome), ("perspective", m.perspective.isSome)]
  | .updatedKey | .droppedKey => [("generation", m.generation.isSome)]
  | .droppedEncryptionLevel => [("encryption_level", m.encryptionLevel.isSome)]
  | .setLossTimer =>
    [("timer_type", m.timerType.isSome), ("encryption_level", m.encryptionLevel.isSome),
      ("time_unix_micros", m.timeMicros.isSome)]
  | .lossTimerExpired =>
    [("timer_type", m.timerType.isSome), ("encryption_level", m.encryptionLevel.isSome)]
  | .debug => [("debug_name", m.debugName.isSome)]
  | .closedConnection | .receivedVersionNegotiationPacket | .lossTimerCanceled | .close => []

/-- If all needed fields are there, the reading gives a result of the kind; if not, it names the
first one that is not. -/
def Needing {α : Type} (needs : Needs) (kind : α → Prop) (result : Except Fault α) : Prop :=
  match needs.firstAbsent with
  | some name => result = .error (.missingField name)
  | none => ∃ x, result = .ok x ∧ kind x

namespace Needing
variable {α β : Type} {needs : Needs} {kind : α → Prop} {result : Except Fault α}

theorem nothing {x : α} (h : kind x) : Needing [] kind (.ok x) := ⟨x, rfl, h⟩

theorem field {o : Option β} {name : String} {f : β → Except Fault α}
    (h : ∀ x, Needing needs kind (f x)) :
    Needing ((name, o.isSome) :: needs) kind (required o name >>= f) := by
  cases o with
  | none => rfl
  | some x => exact h x

theorem error_iff (h : Needing needs kind result) {fault : Fault} :
    result = .error fault ↔ ∃ name, needs.firstAbsent = some name ∧ fault = .missingField name := by
  rw [Needing] at h
  split at h
  next name hname => simp [h, hname, eq_comm]
  next hnone =>
    obtain ⟨x, rfl, -⟩ := h
    simp [hnone]

theorem of_ok (h : Needing needs kind result) {x : α} (hx : result = .ok x) : kind x := by
  rw [Needing] at h
  split at h
  next => cases hx.symm.trans h
  next =>
    obtain ⟨y, hy, hkind⟩ := h
    cases hx.symm.trans hy
    exact hkind

end Needing

theorem Event.needing_ofFields (m : Message) (k : Kind) :
    Needing (m.needs k) (fun e => e.kind = k ∧ e.arrived = e) (ofFields m k) := by
  cases k with
  | closedConnection | receivedVersionNegotiationPacket | lossTimerCanceled | close =>
    exact .nothing ⟨rfl, rfl⟩
  | negotiatedVersion | sentTransportParameters | receivedTransportParameters
  | restoredTransportParameters | receivedRetry | bufferedPacket | updatedCongestionState
  | updatedProbeCount | updatedKey | droppedEncryptionLevel | droppedKey | debug =>
    exact .field fun _ => .nothing ⟨rfl, rfl⟩
  | acknowledgedPacket | updatedKeyFromHandshake | lossTimerExpired =>
    exact .field fun _ => .field fun _ => .nothing ⟨rfl, rfl⟩
  | droppedPacket | lostPacket =>
    exact .field fun _ => .field fun _ => .field fun _ => .nothing ⟨rfl, rfl⟩
  | setLossTimer =>
    refine .field fun _ => .field fun _ => .field fun micros => .nothing ⟨rfl, ?_⟩
    rw [arrived, Instant.unixMicros_ofUnixMicros]
  | startedConnection | updatedMetrics =>
    exact .field fun _ => .field fun _ => .field fun _ => .field fun _ => .nothing ⟨rfl, rfl⟩
  | sentPacket | receivedPacket =>
    simp only [ofFields, packetOf, bind_assoc]
    exact .field fun _ => .field fun _ => .field fun _ => .nothing ⟨rfl, rfl⟩

/-! ### Messages and events -/

namespace Event

theorem ofMessage_of_name (k : Kind) (m : Message) : ofMessage k.name m = ofFields m k := by
  rw [ofMessage, Kind.ofName_name]
  rfl

theorem ofMessage_of_not_mem {method : String} (h : method ∉ eventMethods) (m : Message) :
    ofMessage method m = .error (.unknownMethod (service ++ "." ++ method)) := by
  rw [ofMessage, Kind.ofName_of_not_mem h]
  rfl

theorem ofMessage_writeInto (m : Message) (e : Event) :
    ofMessage e.kind.name (e.writeInto m) = .ok e.arrived := by
  rw [ofMessage_of_name, ofFields_writeInto]

theorem header_writeInto (m : Message) (e : Event) :
    (e.writeInto m).tracingId = m.tracingId ∧
      (e.writeInto m).firstDestinationId = m.firstDestinationId := by
  cases e <;> exact ⟨rfl, rfl⟩

/-- An event is read back from every message into which it is written, with its deadline in whole
microseconds, and the message keeps its tracing id and its first destination id. A method whose name
no kind of event has is unknown. Under the other names a message either describes an event of this
kind, which every message describes into which it is written, or it lacks a field, and the fault
names the first of the needed fields that is not there. -/
theorem message_describes_event :
    (∀ (e : Event) (m : Message), ofMessage e.kind.name (e.writeInto m) = .ok e.arrived ∧
      (e.writeInto m).tracingId = m.tracingId ∧
      (e.writeInto m).firstDestinationId = m.firstDestinationId) ∧
    ∀ (method : String) (m : Message),
      ((∃ detail, ofMessage method m = .error (.unknownMethod detail)) ↔
        method ∉ eventMethods) ∧
      (∀ k : Kind, k.name = method → ∀ fault, ofMessage method m = .error fault ↔
        ∃ name, (m.needs k).firstAbsent = some name ∧ fault = .missingField name) ∧
      ∀ e, ofMessage method m = .ok e →
        e.kind.name = method ∧ ∀ other, ofMessage method (e.writeInto other) = .ok e := by
  refine ⟨fun e m => ⟨ofMessage_writeInto m e, header_writeInto m e⟩,
    fun method m => ⟨⟨?_, fun h => ⟨_, ofMessage_of_not_mem h m⟩⟩, ?_, ?_⟩⟩
  · rintro ⟨detail, h⟩ hmethod
    obtain ⟨k, rfl⟩ := Kind.mem_eventMethods_iff.mp hmethod
    rw [ofMessage_of_name] at h
    obtain ⟨name, -, hfault⟩ := (needing_ofFields m k).error_iff.mp h
    cases hfault
  · rintro k rfl fault
    rw [ofMessage_of_name]
    exact (needing_ofFields m k).error_iff
  · intro e he
    have hmethod : method ∈ eventMethods := by
      by_contra h
      rw [ofMessage_of_not_mem h] at he
      cases he
    obtain ⟨k, rfl⟩ := Kind.mem_eventMethods_iff.mp hmethod
    rw [ofMessage_of_name] at he
    obtain ⟨rfl, harrived⟩ := (needing_ofFields m k).of_ok he
    exact ⟨rfl, fun other => by rw [ofMessage_writeInto, harrived]⟩

/-- A deadline before the epoch, written over a lost packet, of which all but the encryption level is
left in the message. In a new message the packet number is the first that is lacking. -/
theorem message_describes_event_leftover :
    let timer := setLossTimer "pto" "Initial" ⟨-1500⟩
    let lost := lostPacket "Initial" 7 "threshold"
    let m := timer.writeInto ((lostPacket "1RTT" 7 "threshold").writeInto .empty)
    ofMessage "SetLossTimer" m = .ok (setLossTimer "pto" "Initial" ⟨-1000⟩) ∧
      ofMessage "LostPacket" m = .ok lost ∧
      ofMessage "LostPacket" (lost.writeInto .empty) = .ok lost ∧
      ofMessage "LostPacket" (timer.writeInto .empty) = .error (.missingField "packet_number") ∧
      ∃ detail, ofMessage "Lost" m = .error (.unknownMethod detail) := by
  intro timer lost m
  obtain ⟨hwritten, hread⟩ := message_describes_event
  obtain ⟨htimer, -⟩ := hwritten timer ((lostPacket "1RTT" 7 "threshold").writeInto .empty)
  obtain ⟨-, -, hstable⟩ := hread "LostPacket" m
  obtain ⟨-, hlacks, -⟩ := hread "LostPacket" (timer.writeInto .empty)
  obtain ⟨hunknown, -⟩ := hread "Lost" m
  have hlost : ofMessage "LostPacket" m = .ok lost := by rfl
  refine ⟨htimer, hlost, (hstable lost hlost).2 _, ?_, ?_⟩
  · exact (hlacks .lostPacket rfl _).mpr ⟨"packet_number", rfl, rfl⟩
  · exact hunknown.mpr (by decide)

end Event
end PathPolicy.Tracer
