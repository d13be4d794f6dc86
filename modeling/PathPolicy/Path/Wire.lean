import PathPolicy.Fault
import PathPolicy.Json.Record
import PathPolicy.Path

/-!
The form in which paths are sent. Absent metadata is null, and empty lists are written out.
Only link type codes can be out of range in it, so they alone can fail to decode.
-/

namespace PathPolicy
open Json

structure WireMetadata where
  mtu : UInt16
  interfaces : List Interface
  latencyNanos : List UInt64
  bandwidth : List UInt64
  linkTypes : List UInt8
  internalHops : List UInt32
  notes : List String
  locations : List Location
deriving DecidableEq

structure WirePath where
  source : String
  destination : String
  metadata : Option WireMetadata
  fingerprint : Fingerprint
  expiryNanos : UInt64
deriving DecidableEq

/-! ### JSON forms -/

def Interface.record : Record Interface where
  name := "PathInterface"
  start := ⟨"", 0⟩
  fields := [
    .of "ia" .refused (·.area) fun i x => { i with area := x },
    .of "if_id" .refused (·.id) fun i x => { i with id := x }]
  lenient := false

instance : Codable Interface := Interface.record.codable

def Location.record : Record Location where
  name := "GeoCoordinates"
  start := ⟨0, 0, ""⟩
  fields := [
    .of "latitude" .refused (·.latitude) fun l x => { l with latitude := x },
    .of "longitude" .refused (·.longitude) fun l x => { l with longitude := x },
    .of "address" .refused (·.address) fun l x => { l with address := x }]
  lenient := false

instance : Codable Location := Location.record.codable

def WireMetadata.record : Record WireMetadata where
  name := "WireMetadata"
  start := ⟨0, [], [], [], [], [], [], []⟩
  fields := [
    .of "mtu" .refused (·.mtu) fun m x => { m with mtu := x },
    .of "interfaces" .refused (·.interfaces) fun m x => { m with interfaces := x },
    .of "latency_nanos" .refused (·.latencyNanos) fun m x => { m with latencyNanos := x },
    .of "bandwidth_kbps" .refused (·.bandwidth) fun m x => { m with bandwidth := x },
    .of "link_type" .refused (·.linkTypes) fun m x => { m with linkTypes := x },
    .of "internal_hops" .refused (·.internalHops) fun m x => { m with internalHops := x },
    .of "notes" .refused (·.notes) fun m x => { m with notes := x },
    .of "geo" .refused (·.locations) fun m x => { m with locations := x }]
  lenient := false

instance : Codable WireMetadata := WireMetadata.record.codable

def WirePath.record : Record WirePath where
  name := "WirePath"
  start := ⟨"", "", none, "", 0⟩
  fields := [
    .of "source" .refused (·.source) fun p x => { p with source := x },
    .of "destination" .refused (·.destination) fun p x => { p with destination := x },
    .of "metadata" .allowed (·.metadata) fun p x => { p with metadata := x },
    .of "fingerprint" .refused (·.fingerprint) fun p x => { p with fingerprint := x },
    .of "expiry_unix_nanos" .refused (·.expiryNanos) fun p x => { p with expiryNanos := x }]
  lenient := false

instance : Codable WirePath := WirePath.record.codable

/-! ### Between paths and their wire form -/

def Metadata.toWire (m : Metadata) : WireMetadata where
  mtu := m.mtu
  interfaces := m.interfaces
  latencyNanos := m.latency.map Duration.nanos
  bandwidth := m.bandwidth
  linkTypes := m.linkTypes.map fun l => UInt8.ofNat l.code
  internalHops := m.internalHops
  notes := m.notes
  locations := m.locations

def Path.toWire (p : Path) : WirePath where
  source := p.source
  destination := p.destination
  metadata := p.metadata.map Metadata.toWire
  fingerprint := p.fingerprint
  expiryNanos := p.expiry.unixNanos

def LinkType.ofWire (code : UInt8) : Except Fault LinkType :=
  match ofCode? code.toNat with
  | some l => .ok l
  | none =>
    .error (.badRequest ("unknown link type code: " ++ String.ofList (Decimal.ofNat code.toNat)))

def Metadata.ofWire (m : WireMetadata) : Except Fault Metadata := do
  let linkTypes ← m.linkTypes.mapM LinkType.ofWire
  return {
    mtu := m.mtu
    interfaces := m.interfaces
    latency := m.latencyNanos.map UInt64.toNat
    bandwidth := m.bandwidth
    linkTypes
    internalHops := m.internalHops
    notes := m.notes
    locations := m.locations }

def Path.ofWire (p : WirePath) : Except Fault Path := do
  let metadata ← p.metadata.mapM Metadata.ofWire
  return {
    source := p.source
    destination := p.destination
    metadata
    fingerprint := p.fingerprint
    expiry := .ofUnixNanos p.expiryNanos }

end PathPolicy
