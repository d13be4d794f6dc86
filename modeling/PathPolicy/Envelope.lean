import PathPolicy.Fault
import PathPolicy.Json.Raw
import PathPolicy.Json.Record

/-!
Requests and responses. The data of a request stay a text until the service that the request
is for reads them in its own shape.
-/

namespace PathPolicy
open Json

def protocolVersion : UInt8 := 1

structure Request where
  version : UInt8
  /-- Chosen by the caller and repeated in the response. -/
  id : UInt64
  service : String
  method : String
  data : Option Raw
deriving DecidableEq

namespace Request

def record : Record Request where
  name := "Request"
  start := ⟨0, 0, "", "", none⟩
  fields := [
    .of "v" .refused (·.version) fun r x => { r with version := x },
    .of "id" .refused (·.id) fun r x => { r with id := x },
    .of "svc" .refused (·.service) fun r x => { r with service := x },
    .of "method" .refused (·.method) fun r x => { r with method := x },
    .of "data" .defaulted (·.data) fun r x => { r with data := x }]
  lenient := false

instance : Codable Request := record.codable

def make {α : Type} [Codable α] (id : UInt64) (service method : String) (data : α) : Request :=
  ⟨protocolVersion, id, service, method, some ⟨encode data⟩⟩

/-- Only the current version is accepted. -/
def parse (body : Bytes) : Except Fault Request :=
  match decode body with
  | .error e => .error (.badRequest ("invalid request envelope: " ++ e.message))
  | .ok (r : Request) =>
    if r.version = protocolVersion then .ok r
    else
      .error (.badRequest
        ("unsupported protocol version: " ++ String.ofList (Decimal.ofNat r.version.toNat)))

def target (r : Request) : String := r.service ++ "." ++ r.method

/-- The data in the shape of the service. Absent data are the shape without any field. -/
def payload {α : Type} [Codable α] (absent : α) (r : Request) : Except Fault α :=
  match r.data with
  | none => .ok absent
  | some raw =>
    (decode raw.text).mapError fun e => .badRequest (r.target ++ " invalid data: " ++ e.message)

end Request

structure WireFault where
  code : String
  detail : String
deriving DecidableEq

def WireFault.record : Record WireFault where
  name := "WireError"
  start := ⟨"", ""⟩
  fields := [
    .of "code" .refused (·.code) fun e x => { e with code := x },
    .of "msg" .refused (·.detail) fun e x => { e with detail := x }]
  lenient := false

instance : Codable WireFault := WireFault.record.codable

structure Response where
  version : UInt8
  id : UInt64
  data : Option Value
  fault : Option WireFault

namespace Response

def record : Record Response where
  name := "Response"
  start := ⟨0, 0, none, none⟩
  fields := [
    .of "v" .refused (·.version) fun r x => { r with version := x },
    .of "id" .refused (·.id) fun r x => { r with id := x },
    .of "data" .defaulted (·.data) fun r x => { r with data := x },
    .of "error" .defaulted (·.fault) fun r x => { r with fault := x }]
  lenient := false

instance : Codable Response := record.codable

def success (id : UInt64) (data : Option Value) : Response := ⟨protocolVersion, id, data, none⟩

def failure (id : UInt64) (e : Fault) : Response :=
  ⟨protocolVersion, id, none, some ⟨e.code.name, e.detail⟩⟩

def ofResult (id : UInt64) : Except Fault (Option Value) → Response
  | .ok data => success id data
  | .error e => failure id e

def parse (body : Bytes) : Except Fault Response :=
  (decode body).mapError fun e => .transport ("invalid response envelope: " ++ e.message)

/-- The outcome of the call. A fault counts even if there are data. -/
def result (r : Response) : Except Fault (Option Value) :=
  match r.fault with
  | some e => .error (.ofWire e.code e.detail)
  | none => .ok r.data

end Response

structure Address where
  id : UInt64

def Address.record : Record Address where
  name := "Address"
  start := ⟨0⟩
  fields := [.of "id" .refused (·.id) fun _ x => ⟨x⟩]
  lenient := true

instance : Codable Address := Address.record.codable

/-- The id under which a refused body is answered; zero if none is found. -/
def Address.ofBody (body : Bytes) : UInt64 :=
  match decode body with
  | .ok (a : Address) => a.id
  | .error _ => 0

end PathPolicy
