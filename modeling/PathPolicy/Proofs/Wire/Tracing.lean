import PathPolicy.Proofs.Time
import PathPolicy.Proofs.Wire.Message
import PathPolicy.Tracer.Service

/-!
Messages of the connection tracer are read back from what is sent, and the event that one describes
is the event that was written into it. Only a deadline loses what is less than a microsecond, which
scripts are not told anyway.
-/
namespace PathPolicy.Tracer
open Json

/-! ### Messages -/

theorem roundTrips_roundTrip (r : RoundTrip) : RoundTrips 1 r :=
  takes_record (by decide) <|
    .of (roundTrips_uint64 r.latest) <| .of (roundTrips_uint64 r.smoothed) <|
    .of (roundTrips_uint64 r.meanDeviation) <| .of (roundTrips_uint64 r.minimum) <|
    .of (roundTrips_uint64 r.maxAckDelay) <| .of (roundTrips_uint64 r.probeTimeout) <| .nil r

theorem written_roundTrip (r : RoundTrip) : Written (Codable.write r) :=
  written_record <| .of (written_uint64 r.latest) <| .of (written_uint64 r.smoothed) <|
    .of (written_uint64 r.meanDeviation) <| .of (written_uint64 r.minimum) <|
    .of (written_uint64 r.maxAckDelay) <| .of (written_uint64 r.probeTimeout) .nil

theorem roundTrips_parameters (p : TransportParameters) : RoundTrips 1 p := by
  have hstring (o : Option String) : RoundTrips 0 o :=
    roundTrips_option (fun s _ => roundTrips_string s) opens_string
  exact takes_record (by decide) <|
    .of (roundTrips_uint64 p.initialMaxData) <|
    .of (roundTrips_uint64 p.initialMaxStreamDataBidiLocal) <|
    .of (roundTrips_uint64 p.initialMaxStreamDataBidiRemote) <|
    .of (roundTrips_uint64 p.initialMaxStreamDataUni) <|
    .of (roundTrips_uint64 p.maxIdleTimeout) <| .of (roundTrips_uint64 p.maxAckDelay) <|
    .of (roundTrips_uint8 p.ackDelayExponent) <| .of (roundTrips_uint64 p.maxBidiStreams) <|
    .of (roundTrips_uint64 p.maxUniStreams) <| .of (roundTrips_uint64 p.maxPayloadSize) <|
    .of (roundTrips_boolean p.disableActiveMigration) <|
    .of (roundTrips_uint64 p.activeConnectionIdLimit) <|
    .of (roundTrips_uint64 p.maxDatagramFrameSize) <| .of (hstring p.statelessResetToken) <|
    .of (hstring p.firstDestinationId) <| .of (hstring p.initialSourceId) <|
    .of (hstring p.retrySourceId) <| .nil p

theorem written_parameters (p : TransportParameters) : Written (Codable.write p) :=
  written_record <| .of (written_uint64 p.initialMaxData) <|
    .of (written_uint64 p.initialMaxStreamDataBidiLocal) <|
    .of (written_uint64 p.initialMaxStreamDataBidiRemote) <|
    .of (written_uint64 p.initialMaxStreamDataUni) <| .of (written_uint64 p.maxIdleTimeout) <|
    .of (written_uint64 p.maxAckDelay) <| .of (written_uint8 p.ackDelayExponent) <|
    .of (written_uint64 p.maxBidiStreams) <| .of (written_uint64 p.maxUniStreams) <|
    .of (written_uint64 p.maxPayloadSize) <| .of (.boolean p.disableActiveMigration) <|
    .of (written_uint64 p.activeConnectionIdLimit) <|
    .of (written_uint64 p.maxDatagramFrameSize) <|
    .of (written_option .text p.statelessResetToken) <|
    .of (written_option .text p.firstDestinationId) <|
    .of (written_option .text p.initialSourceId) <|
    .of (written_option .text p.retrySourceId) .nil

theorem roundTrips_perspective (p : Perspective) : RoundTrips 0 p :=
  takes_variant Perspective.variants (by cases p <;> decide)

theorem roundTrips_message (m : Message) : RoundTrips 3 m := by
  have htext (o : Option String) : RoundTrips 2 o :=
    roundTrips_option (fun s _ => (roundTrips_string s).mono (by decide)) opens_string
  have htexts (o : Option (List String)) : RoundTrips 2 o :=
    roundTrips_option (fun xs _ => (roundTrips_list fun s _ =>
      ⟨opens_string s, roundTrips_string s⟩).mono (by decide)) opens_list
  have hnumber (o : Option UInt64) : RoundTrips 2 o :=
    roundTrips_option (fun n _ => (roundTrips_uint64 n).mono (by decide)) fun n => opens_nat n.toNat
  have hsigned (o : Option Int64) : RoundTrips 2 o :=
    roundTrips_option (fun n _ => (roundTrips_int64 n).mono (by decide)) fun n => opens_int n.toInt
  have hflag (o : Option Bool) : RoundTrips 2 o :=
    roundTrips_option (fun b _ => (roundTrips_boolean b).mono (by decide)) opens_boolean
  have hperspective : RoundTrips 2 m.perspective :=
    roundTrips_option (fun p _ => (roundTrips_perspective p).mono (by decide))
      fun p => opens_string p.name
  have hparameters : RoundTrips 2 m.parameters :=
    roundTrips_option (fun p _ => (roundTrips_parameters p).mono (by decide))
      fun p => opens_record TransportParameters.record p
  have hrtt : RoundTrips 2 m.rtt :=
    roundTrips_option (fun r _ => (roundTrips_roundTrip r).mono (by decide))
      fun r => opens_record RoundTrip.record r
  have hcount : RoundTrips 2 m.probeCount :=
    roundTrips_option (fun n _ => (roundTrips_uint32 n).mono (by decide)) fun n => opens_nat n.toNat
  exact takes_record (by decide) <|
    .sparse (hnumber m.tracingId) rfl <| .sparse hperspective rfl <|
    .sparse (htext m.firstDestinationId) rfl <| .sparse (htext m.localAddress) rfl <|
    .sparse (htext m.remoteAddress) rfl <| .sparse (htext m.sourceId) rfl <|
    .sparse (htext m.destinationId) rfl <| .sparse (htext m.chosen) rfl <|
    .sparse (htexts m.versions) rfl <| .sparse (htexts m.clientVersions) rfl <|
    .sparse (htexts m.serverVersions) rfl <| .sparse (htext m.errorText) rfl <|
    .sparse hparameters rfl <| .sparse (htext m.packetType) rfl <|
    .sparse (hsigned m.packetNumber) rfl <| .sparse (hnumber m.byteCount) rfl <|
    .sparse (htexts m.frames) rfl <| .sparse (hflag m.hasAck) rfl <|
    .sparse (htext m.reason) rfl <| .sparse hrtt rfl <|
    .sparse (hnumber m.congestionWindow) rfl <| .sparse (hnumber m.bytesInFlight) rfl <|
    .sparse (hnumber m.packetsInFlight) rfl <| .sparse (htext m.encryptionLevel) rfl <|
    .sparse (htext m.congestionState) rfl <| .sparse hcount rfl <|
    .sparse (hnumber m.generation) rfl <| .sparse (hflag m.remoteKey) rfl <|
    .sparse (htext m.timerType) rfl <| .sparse (hsigned m.timeMicros) rfl <|
    .sparse (htext m.debugName) rfl <| .sparse (htext m.debugText) rfl <| .nil m

theorem written_message (m : Message) : Written (Codable.write m) := by
  have htexts : ∀ xs : List String, Written (Codable.write xs) := written_list .text
  exact written_record <|
    .sparse written_uint64 <| .sparse (fun p => .text p.name) <| .sparse .text <|
    .sparse .text <| .sparse .text <| .sparse .text <| .sparse .text <| .sparse .text <|
    .sparse htexts <| .sparse htexts <| .sparse htexts <| .sparse .text <|
    .sparse written_parameters <| .sparse .text <| .sparse written_int64 <|
    .sparse written_uint64 <| .sparse htexts <| .sparse .boolean <| .sparse .text <|
    .sparse written_roundTrip <| .sparse written_uint64 <| .sparse written_uint64 <|
    .sparse written_uint64 <| .sparse .text <| .sparse .text <| .sparse written_uint32 <|
    .sparse written_uint64 <| .sparse .boolean <| .sparse .text <| .sparse written_int64 <|
    .sparse .text <| .sparse .text .nil

theorem Operation.ofRequest_make (id : UInt64) (method : String) (m : Message) :
    ofRequest (Request.make id service method m) = ofMessage method m := by
  have hpayload := Request.payload_make (roundTrips_message m) (by decide) Message.empty id service
    method
  simp only [ofRequest, hpayload, bind, Except.bind]
  rfl

/-! ### Events -/

namespace Event

/-- The event as it arrives: a deadline in whole microseconds. -/
def arrived : Event → Event
  | setLossTimer timerType encryptionLevel deadline =>
    setLossTimer timerType encryptionLevel (.ofUnixMicros deadline.unixMicros)
  | e => e

theorem arrived_eq_close_iff (e : Event) : e.arrived = close ↔ e = close := by
  cases e <;> simp [arrived]

theorem ofFields_writeInto (m : Message) (e : Event) :
    ofFields (e.writeInto m) e.kind = .ok e.arrived := by
  cases e <;> rfl

end Event

theorem Kind.name_ne_registerMethod (k : Kind) : k.name ≠ registerMethod := by
  cases k <;> decide

end PathPolicy.Tracer
