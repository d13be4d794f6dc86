import PathPolicy.Envelope
import PathPolicy.Time

/-!
The message that serves every method of the connection tracer. Identifiers, versions and frames
arrive as texts; a field that is absent is left out when the message is written.
-/

namespace PathPolicy.Tracer
open Json

def service : String := "Tracer"

def registerMethod : String := "NewTracerForConnection"

inductive Perspective
  | client
  | server
deriving DecidableEq

namespace Perspective

def name : Perspective → String
  | client => "client"
  | server => "server"

def variants : List (String × Perspective) := [("client", client), ("server", server)]

instance : Codable Perspective :=
  ⟨readVariant variants, variantOfValue variants, fun p => writeText p.name⟩

end Perspective

/-- Round-trip times in microseconds. -/
structure RoundTrip where
  latest : UInt64
  smoothed : UInt64
  meanDeviation : UInt64
  minimum : UInt64
  maxAckDelay : UInt64
  probeTimeout : UInt64
deriving DecidableEq

namespace RoundTrip

def ofDurations (latest smoothed meanDeviation minimum maxAckDelay probeTimeout : Nat) :
    RoundTrip where
  latest := Duration.micros latest
  smoothed := Duration.micros smoothed
  meanDeviation := Duration.micros meanDeviation
  minimum := Duration.micros minimum
  maxAckDelay := Duration.micros maxAckDelay
  probeTimeout := Duration.micros probeTimeout

def record : Record RoundTrip where
  name := "RttStats"
  start := ⟨0, 0, 0, 0, 0, 0⟩
  fields := [
    .of "latest_rtt_us" .refused (·.latest) fun r x => { r with latest := x },
    .of "smoothed_rtt_us" .refused (·.smoothed) fun r x => { r with smoothed := x },
    .of "mean_deviation_us" .refused (·.meanDeviation) fun r x => { r with meanDeviation := x },
    .of "min_rtt_us" .refused (·.minimum) fun r x => { r with minimum := x },
    .of "max_ack_delay_us" .refused (·.maxAckDelay) fun r x => { r with maxAckDelay := x },
    .of "pto_us" .refused (·.probeTimeout) fun r x => { r with probeTimeout := x }]
  lenient := false

instance : Codable RoundTrip := record.codable

end RoundTrip

structure TransportParameters where
  initialMaxData : UInt64
  initialMaxStreamDataBidiLocal : UInt64
  initialMaxStreamDataBidiRemote : UInt64
  initialMaxStreamDataUni : UInt64
  maxIdleTimeout : UInt64
  maxAckDelay : UInt64
  ackDelayExponent : UInt8
  maxBidiStreams : UInt64
  maxUniStreams : UInt64
  maxPayloadSize : UInt64
  disableActiveMigration : Bool
  activeConnectionIdLimit : UInt64
  /-- Zero if the end takes no datagrams. -/
  maxDatagramFrameSize : UInt64
  statelessResetToken : Option String
  firstDestinationId : Option String
  initialSourceId : Option String
  retrySourceId : Option String
deriving DecidableEq

namespace TransportParameters

def record : Record TransportParameters where
  name := "TransportParameters"
  start := ⟨0, 0, 0, 0, 0, 0, 0, 0, 0, 0, false, 0, 0, none, none, none, none⟩
  fields := [
    .of "initial_max_data" .defaulted (·.initialMaxData) fun p x => { p with initialMaxData := x },
    .of "initial_max_stream_data_bidi_local" .defaulted (·.initialMaxStreamDataBidiLocal)
      fun p x => { p with initialMaxStreamDataBidiLocal := x },
    .of "initial_max_stream_data_bidi_remote" .defaulted (·.initialMaxStreamDataBidiRemote)
      fun p x => { p with initialMaxStreamDataBidiRemote := x },
    .of "initial_max_stream_data_uni" .defaulted (·.initialMaxStreamDataUni)
      fun p x => { p with initialMaxStreamDataUni := x },
    .of "max_idle_timeout_ms" .defaulted (·.maxIdleTimeout)
      fun p x => { p with maxIdleTimeout := x },
    .of "max_ack_delay_ms" .defaulted (·.maxAckDelay) fun p x => { p with maxAckDelay := x },
    .of "ack_delay_exponent" .defaulted (·.ackDelayExponent)
      fun p x => { p with ackDelayExponent := x },
    .of "max_bidi_streams" .defaulted (·.maxBidiStreams) fun p x => { p with maxBidiStreams := x },
    .of "max_uni_streams" .defaulted (·.maxUniStreams) fun p x => { p with maxUniStreams := x },
    .of "max_udp_payload_size" .defaulted (·.maxPayloadSize)
      fun p x => { p with maxPayloadSize := x },
    .of "disable_active_migration" .defaulted (·.disableActiveMigration)
      fun p x => { p with disableActiveMigration := x },
    .of "active_connection_id_limit" .defaulted (·.activeConnectionIdLimit)
      fun p x => { p with activeConnectionIdLimit := x },
    .of "max_datagram_frame_size" .defaulted (·.maxDatagramFrameSize)
      fun p x => { p with maxDatagramFrameSize := x },
    .of "stateless_reset_token" .defaulted (·.statelessResetToken)
      fun p x => { p with statelessResetToken := x },
    .of "original_dest_conn_id" .defaulted (·.firstDestinationId)
      fun p x => { p with firstDestinationId := x },
    .of "initial_src_conn_id" .defaulted (·.initialSourceId)
      fun p x => { p with initialSourceId := x },
    .of "retry_src_conn_id" .defaulted (·.retrySourceId) fun p x => { p with retrySourceId := x }]
  lenient := false

instance : Codable TransportParameters := record.codable

end TransportParameters

structure Message where
  tracingId : Option UInt64
  perspective : Option Perspective
  firstDestinationId : Option String
  localAddress : Option String
  remoteAddress : Option String
  sourceId : Option String
  destinationId : Option String
  chosen : Option String
  versions : Option (List String)
  clientVersions : Option (List String)
  serverVersions : Option (List String)
  errorText : Option String
  parameters : Option TransportParameters
  packetType : Option String
  packetNumber : Option Int64
  byteCount : Option UInt64
  frames : Option (List String)
  hasAck : Option Bool
  reason : Option String
  rtt : Option RoundTrip
  congestionWindow : Option UInt64
  bytesInFlight : Option UInt64
  packetsInFlight : Option UInt64
  encryptionLevel : Option String
  congestionState : Option String
  probeCount : Option UInt32
  generation : Option UInt64
  remoteKey : Option Bool
  timerType : Option String
  timeMicros : Option Int64
  debugName : Option String
  debugText : Option String
deriving DecidableEq

namespace Message

def empty : Message where
  tracingId := none
  perspective := none
  firstDestinationId := none
  localAddress := none
  remoteAddress := none
  sourceId := none
  destinationId := none
  chosen := none
  versions := none
  clientVersions := none
  serverVersions := none
  errorText := none
  parameters := none
  packetType := none
  packetNumber := none
  byteCount := none
  frames := none
  hasAck := none
  reason := none
  rtt := none
  congestionWindow := none
  bytesInFlight := none
  packetsInFlight := none
  encryptionLevel := none
  congestionState := none
  probeCount := none
  generation := none
  remoteKey := none
  timerType := none
  timeMicros := none
  debugName := none
  debugText := none

def record : Record Message where
  name := "ConnectionTracerMsg"
  start := empty
  fields := [
    .sparse "tracing_id" (·.tracingId) fun m x => { m with tracingId := x },
    .sparse "perspective" (·.perspective) fun m x => { m with perspective := x },
    .sparse "odcid" (·.firstDestinationId) fun m x => { m with firstDestinationId := x },
    .sparse "local" (·.localAddress) fun m x => { m with localAddress := x },
    .sparse "remote" (·.remoteAddress) fun m x => { m with remoteAddress := x },
    .sparse "src_conn_id" (·.sourceId) fun m x => { m with sourceId := x },
    .sparse "dest_conn_id" (·.destinationId) fun m x => { m with destinationId := x },
    .sparse "chosen" (·.chosen) fun m x => { m with chosen := x },
    .sparse "versions" (·.versions) fun m x => { m with versions := x },
    .sparse "client_versions" (·.clientVersions) fun m x => { m with clientVersions := x },
    .sparse "server_versions" (·.serverVersions) fun m x => { m with serverVersions := x },
    .sparse "error_msg" (·.errorText) fun m x => { m with errorText := x },
    .sparse "parameters" (·.parameters) fun m x => { m with parameters := x },
    .sparse "packet_type" (·.packetType) fun m x => { m with packetType := x },
    .sparse "packet_number" (·.packetNumber) fun m x => { m with packetNumber := x },
    .sparse "byte_count" (·.byteCount) fun m x => { m with byteCount := x },
    .sparse "frames" (·.frames) fun m x => { m with frames := x },
    .sparse "has_ack" (·.hasAck) fun m x => { m with hasAck := x },
    .sparse "reason" (·.reason) fun m x => { m with reason := x },
    .sparse "rtt_stats" (·.rtt) fun m x => { m with rtt := x },
    .sparse "cwnd" (·.congestionWindow) fun m x => { m with congestionWindow := x },
    .sparse "bytes_in_flight" (·.bytesInFlight) fun m x => { m with bytesInFlight := x },
    .sparse "packets_in_flight" (·.packetsInFlight) fun m x => { m with packetsInFlight := x },
    .sparse "encryption_level" (·.encryptionLevel) fun m x => { m with encryptionLevel := x },
    .sparse "congestion_state" (·.congestionState) fun m x => { m with congestionState := x },
    .sparse "pto_count" (·.probeCount) fun m x => { m with probeCount := x },
    .sparse "generation" (·.generation) fun m x => { m with generation := x },
    .sparse "remote_key" (·.remoteKey) fun m x => { m with remoteKey := x },
    .sparse "timer_type" (·.timerType) fun m x => { m with timerType := x },
    .sparse "time_unix_micros" (·.timeMicros) fun m x => { m with timeMicros := x },
    .sparse "debug_name" (·.debugName) fun m x => { m with debugName := x },
    .sparse "debug_msg" (·.debugText) fun m x => { m with debugText := x }]
  lenient := false

instance : Codable Message := record.codable

def ofHeader (id : UInt64) (localAddress remoteAddress : String) : Message :=
  { empty with
    tracingId := some id, localAddress := some localAddress, remoteAddress := some remoteAddress }

def requiredId (m : Message) : Except Fault UInt64 := required m.tracingId "tracing_id"

end Message
end PathPolicy.Tracer
