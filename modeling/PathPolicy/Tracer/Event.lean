import PathPolicy.Tracer.Message

/-!
Events in the life of a connection. Each kind of event is a method of the tracer and a function
of the script. An event is written into a message and read back from it; absent lists, flags
and debug texts read as empty.
-/

namespace PathPolicy.Tracer

def eventMethods : List String :=
  ["StartedConnection", "NegotiatedVersion", "ClosedConnection", "SentTransportParameters",
    "ReceivedTransportParameters", "RestoredTransportParameters", "SentPacket",
    "ReceivedVersionNegotiationPacket", "ReceivedRetry", "ReceivedPacket", "BufferedPacket",
    "DroppedPacket", "UpdatedMetrics", "AcknowledgedPacket", "LostPacket", "UpdatedCongestionState",
    "UpdatedPTOCount", "UpdatedKeyFromTLS", "UpdatedKey", "DroppedEncryptionLevel", "DroppedKey",
    "SetLossTimer", "LossTimerExpired", "LossTimerCanceled", "Debug", "Close"]

inductive Kind
  | startedConnection
  | negotiatedVersion
  | closedConnection
  | sentTransportParameters
  | receivedTransportParameters
  | restoredTransportParameters
  | sentPacket
  | receivedVersionNegotiationPacket
  | receivedRetry
  | receivedPacket
  | bufferedPacket
  | droppedPacket
  | updatedMetrics
  | acknowledgedPacket
  | lostPacket
  | updatedCongestionState
  | updatedProbeCount
  | updatedKeyFromHandshake
  | updatedKey
  | droppedEncryptionLevel
  | droppedKey
  | setLossTimer
  | lossTimerExpired
  | lossTimerCanceled
  | debug
  | close
deriving DecidableEq

namespace Kind

def all : List Kind :=
  [startedConnection, negotiatedVersion, closedConnection, sentTransportParameters,
    receivedTransportParameters, restoredTransportParameters, sentPacket,
    receivedVersionNegotiationPacket, receivedRetry, receivedPacket, bufferedPacket,
    droppedPacket, updatedMetrics, acknowledgedPacket, lostPacket, updatedCongestionState,
    updatedProbeCount, updatedKeyFromHandshake, updatedKey, droppedEncryptionLevel, droppedKey,
    setLossTimer, lossTimerExpired, lossTimerCanceled, debug, close]

def name : Kind → String
  | startedConnection => "StartedConnection"
  | negotiatedVersion => "NegotiatedVersion"
  | closedConnection => "ClosedConnection"
  | sentTransportParameters => "SentTransportParameters"
  | receivedTransportParameters => "ReceivedTransportParameters"
  | restoredTransportParameters => "RestoredTransportParameters"
  | sentPacket => "SentPacket"
  | receivedVersionNegotiationPacket => "ReceivedVersionNegotiationPacket"
  | receivedRetry => "ReceivedRetry"
  | receivedPacket => "ReceivedPacket"
  | bufferedPacket => "BufferedPacket"
  | droppedPacket => "DroppedPacket"
  | updatedMetrics => "UpdatedMetrics"
  | acknowledgedPacket => "AcknowledgedPacket"
  | lostPacket => "LostPacket"
  | updatedCongestionState => "UpdatedCongestionState"
  | updatedProbeCount => "UpdatedPTOCount"
  | updatedKeyFromHandshake => "UpdatedKeyFromTLS"
  | updatedKey => "UpdatedKey"
  | droppedEncryptionLevel => "DroppedEncryptionLevel"
  | droppedKey => "DroppedKey"
  | setLossTimer => "SetLossTimer"
  | lossTimerExpired => "LossTimerExpired"
  | lossTimerCanceled => "LossTimerCanceled"
  | debug => "Debug"
  | close => "Close"

def ofName : String → Except Fault Kind
  | "StartedConnection" => .ok startedConnection
  | "NegotiatedVersion" => .ok negotiatedVersion
  | "ClosedConnection" => .ok closedConnection
  | "SentTransportParameters" => .ok sentTransportParameters
  | "ReceivedTransportParameters" => .ok receivedTransportParameters
  | "RestoredTransportParameters" => .ok restoredTransportParameters
  | "SentPacket" => .ok sentPacket
  | "ReceivedVersionNegotiationPacket" => .ok receivedVersionNegotiationPacket
  | "ReceivedRetry" => .ok receivedRetry
  | "ReceivedPacket" => .ok receivedPacket
  | "BufferedPacket" => .ok bufferedPacket
  | "DroppedPacket" => .ok droppedPacket
  | "UpdatedMetrics" => .ok updatedMetrics
  | "AcknowledgedPacket" => .ok acknowledgedPacket
  | "LostPacket" => .ok lostPacket
  | "UpdatedCongestionState" => .ok updatedCongestionState
  | "UpdatedPTOCount" => .ok updatedProbeCount
  | "UpdatedKeyFromTLS" => .ok updatedKeyFromHandshake
  | "UpdatedKey" => .ok updatedKey
  | "DroppedEncryptionLevel" => .ok droppedEncryptionLevel
  | "DroppedKey" => .ok droppedKey
  | "SetLossTimer" => .ok setLossTimer
  | "LossTimerExpired" => .ok lossTimerExpired
  | "LossTimerCanceled" => .ok lossTimerCanceled
  | "Debug" => .ok debug
  | "Close" => .ok close
  | other => .error (.unknownMethod (service ++ "." ++ other))

theorem ofName_name (k : Kind) : ofName k.name = .ok k := by
  cases k <;> rfl

theorem eventMethods_eq : eventMethods = all.map name := rfl

theorem name_mem_eventMethods (k : Kind) : k.name ∈ eventMethods := by
  cases k <;> decide

end Kind

structure Packet where
  kind : String
  number : Int64
deriving DecidableEq

inductive Event
  | startedConnection (localAddress remoteAddress sourceId destinationId : String)
  | negotiatedVersion (chosen : String) (clientVersions serverVersions : List String)
  | closedConnection (error : Option String)
  | sentTransportParameters (p : TransportParameters)
  | receivedTransportParameters (p : TransportParameters)
  | restoredTransportParameters (p : TransportParameters)
  | sentPacket (packet : Packet) (size : UInt64) (hasAck : Bool) (frames : List String)
  | receivedVersionNegotiationPacket (versions : List String)
  | receivedRetry (sourceId : String)
  | receivedPacket (packet : Packet) (size : UInt64) (frames : List String)
  | bufferedPacket (packetType : String)
  | droppedPacket (packetType : String) (size : UInt64) (reason : String)
  | updatedMetrics (rtt : RoundTrip) (congestionWindow bytesInFlight packetsInFlight : UInt64)
  | acknowledgedPacket (encryptionLevel : String) (packetNumber : Int64)
  | lostPacket (encryptionLevel : String) (packetNumber : Int64) (reason : String)
  | updatedCongestionState (state : String)
  | updatedProbeCount (value : UInt32)
  | updatedKeyFromHandshake (encryptionLevel : String) (perspective : Perspective)
  | updatedKey (generation : UInt64) (isRemote : Bool)
  | droppedEncryptionLevel (encryptionLevel : String)
  | droppedKey (generation : UInt64)
  | setLossTimer (timerType encryptionLevel : String) (deadline : Instant)
  | lossTimerExpired (timerType encryptionLevel : String)
  | lossTimerCanceled
  | debug (name text : String)
  | close
deriving DecidableEq

namespace Event

def kind : Event → Kind
  | startedConnection .. => .startedConnection
  | negotiatedVersion .. => .negotiatedVersion
  | closedConnection _ => .closedConnection
  | sentTransportParameters _ => .sentTransportParameters
  | receivedTransportParameters _ => .receivedTransportParameters
  | restoredTransportParameters _ => .restoredTransportParameters
  | sentPacket .. => .sentPacket
  | receivedVersionNegotiationPacket _ => .receivedVersionNegotiationPacket
  | receivedRetry _ => .receivedRetry
  | receivedPacket .. => .receivedPacket
  | bufferedPacket _ => .bufferedPacket
  | droppedPacket .. => .droppedPacket
  | updatedMetrics .. => .updatedMetrics
  | acknowledgedPacket .. => .acknowledgedPacket
  | lostPacket .. => .lostPacket
  | updatedCongestionState _ => .updatedCongestionState
  | updatedProbeCount _ => .updatedProbeCount
  | updatedKeyFromHandshake .. => .updatedKeyFromHandshake
  | updatedKey .. => .updatedKey
  | droppedEncryptionLevel _ => .droppedEncryptionLevel
  | droppedKey _ => .droppedKey
  | setLossTimer .. => .setLossTimer
  | lossTimerExpired .. => .lossTimerExpired
  | lossTimerCanceled => .lossTimerCanceled
  | debug .. => .debug
  | close => .close

/-- Puts the event's own fields into a message, which keeps the others. -/
def writeInto (m : Message) : Event → Message
  | startedConnection localAddress remoteAddress sourceId destinationId =>
    { m with
      localAddress := some localAddress, remoteAddress := some remoteAddress,
      sourceId := some sourceId, destinationId := some destinationId }
  | negotiatedVersion chosen clientVersions serverVersions =>
    { m with
      chosen := some chosen, clientVersions := some clientVersions,
      serverVersions := some serverVersions }
  | closedConnection error => { m with errorText := error }
  | sentTransportParameters p => { m with parameters := some p }
  | receivedTransportParameters p => { m with parameters := some p }
  | restoredTransportParameters p => { m with parameters := some p }
  | sentPacket packet size hasAck frames =>
    { m with
      packetType := some packet.kind, packetNumber := some packet.number,
      byteCount := some size, hasAck := some hasAck, frames := some frames }
  | receivedVersionNegotiationPacket versions => { m with versions := some versions }
  | receivedRetry sourceId => { m with sourceId := some sourceId }
  | receivedPacket packet size frames =>
    { m with
      packetType := some packet.kind, packetNumber := some packet.number,
      byteCount := some size, frames := some frames }
  | bufferedPacket packetType => { m with packetType := some packetType }
  | droppedPacket packetType size reason =>
    { m with packetType := some packetType, byteCount := some size, reason := some reason }
  | updatedMetrics rtt congestionWindow bytesInFlight packetsInFlight =>
    { m with
      rtt := some rtt, congestionWindow := some congestionWindow,
      bytesInFlight := some bytesInFlight, packetsInFlight := some packetsInFlight }
  | acknowledgedPacket encryptionLevel packetNumber =>
    { m with encryptionLevel := some encryptionLevel, packetNumber := some packetNumber }
  | lostPacket encryptionLevel packetNumber reason =>
    { m with
      encryptionLevel := some encryptionLevel, packetNumber := some packetNumber,
      reason := some reason }
  | updatedCongestionState state => { m with congestionState := some state }
  | updatedProbeCount value => { m with probeCount := some value }
  | updatedKeyFromHandshake encryptionLevel perspective =>
    { m with encryptionLevel := some encryptionLevel, perspective := some perspective }
  | updatedKey generation isRemote =>
    { m with generation := some generation, remoteKey := some isRemote }
  | droppedEncryptionLevel encryptionLevel => { m with encryptionLevel := some encryptionLevel }
  | droppedKey generation => { m with generation := some generation }
  | setLossTimer timerType encryptionLevel deadline =>
    { m with
      timerType := some timerType, encryptionLevel := some encryptionLevel,
      timeMicros := some deadline.unixMicros }
  | lossTimerExpired timerType encryptionLevel =>
    { m with timerType := some timerType, encryptionLevel := some encryptionLevel }
  | lossTimerCanceled => m
  | debug name text => { m with debugName := some name, debugText := some text }
  | close => m

def packetOf (m : Message) : Except Fault Packet := do
  let kind ← required m.packetType "packet_type"
  let number ← required m.packetNumber "packet_number"
  return ⟨kind, number⟩

/-- The event of a kind that a message describes. The first required field that is absent is
named. -/
def ofFields (m : Message) : Kind → Except Fault Event
  | .startedConnection => do
    let localAddress ← required m.localAddress "local"
    let remoteAddress ← required m.remoteAddress "remote"
    let sourceId ← required m.sourceId "src_conn_id"
    let destinationId ← required m.destinationId "dest_conn_id"
    return startedConnection localAddress remoteAddress sourceId destinationId
  | .negotiatedVersion => do
    let chosen ← required m.chosen "chosen"
    return negotiatedVersion chosen (m.clientVersions.getD []) (m.serverVersions.getD [])
  | .closedConnection => return closedConnection m.errorText
  | .sentTransportParameters => do
    return sentTransportParameters (← required m.parameters "parameters")
  | .receivedTransportParameters => do
    return receivedTransportParameters (← required m.parameters "parameters")
  | .restoredTransportParameters => do
    return restoredTransportParameters (← required m.parameters "parameters")
  | .sentPacket => do
    let packet ← packetOf m
    let size ← required m.byteCount "byte_count"
    return sentPacket packet size (m.hasAck.getD false) (m.frames.getD [])
  | .receivedVersionNegotiationPacket =>
    return receivedVersionNegotiationPacket (m.versions.getD [])
  | .receivedRetry => do return receivedRetry (← required m.sourceId "src_conn_id")
  | .receivedPacket => do
    let packet ← packetOf m
    let size ← required m.byteCount "byte_count"
    return receivedPacket packet size (m.frames.getD [])
  | .bufferedPacket => do return bufferedPacket (← required m.packetType "packet_type")
  | .droppedPacket => do
    let packetType ← required m.packetType "packet_type"
    let size ← required m.byteCount "byte_count"
    let reason ← required m.reason "reason"
    return droppedPacket packetType size reason
  | .updatedMetrics => do
    let rtt ← required m.rtt "rtt_stats"
    let congestionWindow ← required m.congestionWindow "cwnd"
    let bytesInFlight ← required m.bytesInFlight "bytes_in_flight"
    let packetsInFlight ← required m.packetsInFlight "packets_in_flight"
    return updatedMetrics rtt congestionWindow bytesInFlight packetsInFlight
  | .acknowledgedPacket => do
    let encryptionLevel ← required m.encryptionLevel "encryption_level"
    let packetNumber ← required m.packetNumber "packet_number"
    return acknowledgedPacket encryptionLevel packetNumber
  | .lostPacket => do
    let encryptionLevel ← required m.encryptionLevel "encryption_level"
    let packetNumber ← required m.packetNumber "packet_number"
    let reason ← required m.reason "reason"
    return lostPacket encryptionLevel packetNumber reason
  | .updatedCongestionState => do
    return updatedCongestionState (← required m.congestionState "congestion_state")
  | .updatedProbeCount => do return updatedProbeCount (← required m.probeCount "pto_count")
  | .updatedKeyFromHandshake => do
    let encryptionLevel ← required m.encryptionLevel "encryption_level"
    let perspective ← required m.perspective "perspective"
    return updatedKeyFromHandshake encryptionLevel perspective
  | .updatedKey => do
    let generation ← required m.generation "generation"
    return updatedKey generation (m.remoteKey.getD false)
  | .droppedEncryptionLevel => do
    return droppedEncryptionLevel (← required m.encryptionLevel "encryption_level")
  | .droppedKey => do return droppedKey (← required m.generation "generation")
  | .setLossTimer => do
    let timerType ← required m.timerType "timer_type"
    let encryptionLevel ← required m.encryptionLevel "encryption_level"
    let micros ← required m.timeMicros "time_unix_micros"
    return setLossTimer timerType encryptionLevel (.ofUnixMicros micros)
  | .lossTimerExpired => do
    let timerType ← required m.timerType "timer_type"
    let encryptionLevel ← required m.encryptionLevel "encryption_level"
    return lossTimerExpired timerType encryptionLevel
  | .lossTimerCanceled => return lossTimerCanceled
  | .debug => do
    let name ← required m.debugName "debug_name"
    return debug name (m.debugText.getD "")
  | .close => return close

def ofMessage (method : String) (m : Message) : Except Fault Event := do
  ofFields m (← Kind.ofName method)

end Event
end PathPolicy.Tracer
