import PathPolicy.Script.Value
import PathPolicy.Tracer.Event

/-! What a script is told of an event: the tracing id, the two addresses, and the event's own
fields in a fixed order. -/

namespace PathPolicy.Tracer
open Script

def secondsOfMicros (micros : UInt64) : Value := .number (Duration.seconds (micros.toNat * 1000))

def RoundTrip.toScript (r : RoundTrip) : Value :=
  (Table.ofFields [
    ("LatestRTT", secondsOfMicros r.latest),
    ("SmoothedRTT", secondsOfMicros r.smoothed),
    ("MeanDeviation", secondsOfMicros r.meanDeviation),
    ("MinRTT", secondsOfMicros r.minimum),
    ("MaxAckDelay", secondsOfMicros r.maxAckDelay),
    ("PTO", secondsOfMicros r.probeTimeout)]).value

def TransportParameters.toScript (p : TransportParameters) : Value :=
  (Table.ofFields [
    ("InitialMaxData", .ofUInt64 p.initialMaxData),
    ("InitialMaxStreamDataBidiLocal", .ofUInt64 p.initialMaxStreamDataBidiLocal),
    ("InitialMaxStreamDataBidiRemote", .ofUInt64 p.initialMaxStreamDataBidiRemote),
    ("InitialMaxStreamDataUni", .ofUInt64 p.initialMaxStreamDataUni),
    ("MaxIdleTimeout", .ofUInt64 p.maxIdleTimeout),
    ("MaxAckDelay", .ofUInt64 p.maxAckDelay),
    ("AckDelayExponent", .ofNat p.ackDelayExponent.toNat),
    ("MaxBidiStreamNum", .ofUInt64 p.maxBidiStreams),
    ("MaxUniStreamNum", .ofUInt64 p.maxUniStreams),
    ("MaxUDPPayloadSize", .ofUInt64 p.maxPayloadSize),
    ("DisableActiveMigration", .boolean p.disableActiveMigration),
    ("ActiveConnectionIDLimit", .ofUInt64 p.activeConnectionIdLimit),
    ("MaxDatagramFrameSize", .ofUInt64 p.maxDatagramFrameSize),
    ("StatelessResetToken", .ofOption .text p.statelessResetToken),
    ("OriginalDestinationConnectionID", .ofOption .text p.firstDestinationId),
    ("InitialSourceConnectionID", .ofOption .text p.initialSourceId),
    ("RetrySourceConnectionID", .ofOption .text p.retrySourceId)]).value

namespace Event

def textsToScript (texts : List String) : Value := .ofList .text texts

/-- The event's own fields. The addresses of a started connection are not among them, since
every call has addresses. -/
def fieldsToScript : Event → List Value
  | startedConnection _ _ sourceId destinationId => [.text sourceId, .text destinationId]
  | negotiatedVersion chosen clientVersions serverVersions =>
    [.text chosen, textsToScript clientVersions, textsToScript serverVersions]
  | closedConnection error => [.ofOption .text error]
  | sentTransportParameters p => [p.toScript]
  | receivedTransportParameters p => [p.toScript]
  | restoredTransportParameters p => [p.toScript]
  | sentPacket packet size hasAck frames =>
    [.text packet.kind, .integer packet.number, .ofUInt64 size, .boolean hasAck,
      textsToScript frames]
  | receivedVersionNegotiationPacket versions => [textsToScript versions]
  | receivedRetry sourceId => [.text sourceId]
  | receivedPacket packet size frames =>
    [.text packet.kind, .integer packet.number, .ofUInt64 size, textsToScript frames]
  | bufferedPacket packetType => [.text packetType]
  | droppedPacket packetType size reason => [.text packetType, .ofUInt64 size, .text reason]
  | updatedMetrics rtt congestionWindow bytesInFlight packetsInFlight =>
    [rtt.toScript, .ofUInt64 congestionWindow, .ofUInt64 bytesInFlight,
      .ofUInt64 packetsInFlight]
  | acknowledgedPacket encryptionLevel packetNumber =>
    [.text encryptionLevel, .integer packetNumber]
  | lostPacket encryptionLevel packetNumber reason =>
    [.text encryptionLevel, .integer packetNumber, .text reason]
  | updatedCongestionState state => [.text state]
  | updatedProbeCount value => [.ofUInt32 value]
  | updatedKeyFromHandshake encryptionLevel perspective =>
    [.text encryptionLevel, .text perspective.name]
  | updatedKey generation isRemote => [.ofUInt64 generation, .boolean isRemote]
  | droppedEncryptionLevel encryptionLevel => [.text encryptionLevel]
  | droppedKey generation => [.ofUInt64 generation]
  | setLossTimer timerType encryptionLevel deadline =>
    [.text timerType, .text encryptionLevel, .integer deadline.unixMicros]
  | lossTimerExpired timerType encryptionLevel => [.text timerType, .text encryptionLevel]
  | lossTimerCanceled => []
  | debug name text => [.text name, .text text]
  | close => []

def arguments (id : UInt64) (localAddress remoteAddress : String) (e : Event) : List Value :=
  .ofUInt64 id :: .text localAddress :: .text remoteAddress :: e.fieldsToScript

end Event
end PathPolicy.Tracer
