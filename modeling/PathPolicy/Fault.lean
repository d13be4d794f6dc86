import PathPolicy.Decimal

/-!
Why a call failed. A fault travels as a code and a detail text; `Fault.ofWire` takes the pair
back to the fault.
-/

namespace PathPolicy

inductive FaultCode
  | missingField
  | badRequest
  | unknownMethod
  | unknownTracer
  | tracerClosed
  | policy
  | transport
  | config
  | internal
deriving DecidableEq

namespace FaultCode

def name : FaultCode → String
  | missingField => "MISSING_FIELD"
  | badRequest => "BAD_REQUEST"
  | unknownMethod => "UNKNOWN_METHOD"
  | unknownTracer => "UNKNOWN_TRACER"
  | tracerClosed => "TRACER_CLOSED"
  | policy => "POLICY"
  | transport => "TRANSPORT"
  | config => "CONFIG"
  | internal => "INTERNAL"

/-- A name that is not known reads as an internal fault. -/
def ofName (s : String) : FaultCode :=
  if s = "MISSING_FIELD" then missingField
  else if s = "BAD_REQUEST" then badRequest
  else if s = "UNKNOWN_METHOD" then unknownMethod
  else if s = "UNKNOWN_TRACER" then unknownTracer
  else if s = "TRACER_CLOSED" then tracerClosed
  else if s = "POLICY" then policy
  else if s = "TRANSPORT" then transport
  else if s = "CONFIG" then config
  else internal

theorem ofName_name (c : FaultCode) : ofName c.name = c := by
  cases c <;> rfl

end FaultCode

inductive Fault
  /-- A field that the method requires is absent. -/
  | missingField (name : String)
  /-- A malformed frame, envelope or value. -/
  | badRequest (detail : String)
  | unknownMethod (method : String)
  /-- An event for a tracing id that was never registered, or is no longer remembered. -/
  | unknownTracer (id : UInt64)
  | tracerClosed (id : UInt64)
  /-- The policy script raised an error or returned an unusable value. -/
  | policy (detail : String)
  | transport (detail : String)
  | config (detail : String)
  | internal (detail : String)
deriving DecidableEq

namespace Fault

def code : Fault → FaultCode
  | missingField _ => .missingField
  | badRequest _ => .badRequest
  | unknownMethod _ => .unknownMethod
  | unknownTracer _ => .unknownTracer
  | tracerClosed _ => .tracerClosed
  | policy _ => .policy
  | transport _ => .transport
  | config _ => .config
  | internal _ => .internal

def idText (id : UInt64) : String := String.ofList (Decimal.ofNat id.toNat)

def detail : Fault → String
  | missingField s | badRequest s | unknownMethod s | policy s | transport s | config s
  | internal s => s
  | unknownTracer id | tracerClosed id => idText id

def message (e : Fault) : String :=
  (match e with
    | missingField _ => "required field missing: "
    | badRequest _ => "bad request: "
    | unknownMethod _ => "unknown method: "
    | unknownTracer _ => "unknown tracing id: "
    | tracerClosed _ => "tracer closed: "
    | policy _ => "policy: "
    | transport _ => "transport: "
    | config _ => "config: "
    | internal _ => "internal: ") ++ e.detail

/-- A tracing id that is no number reads as zero. -/
def ofWire (code detail : String) : Fault :=
  match FaultCode.ofName code with
  | .missingField => missingField detail
  | .badRequest => badRequest detail
  | .unknownMethod => unknownMethod detail
  | .unknownTracer => unknownTracer ((Decimal.unsigned? detail).getD 0)
  | .tracerClosed => tracerClosed ((Decimal.unsigned? detail).getD 0)
  | .policy => policy detail
  | .transport => transport detail
  | .config => config detail
  | .internal => internal detail

/-- Whether the caller is at fault, so that the policy was not consulted. -/
def isProtocol (e : Fault) : Bool :=
  match e.code with
  | .missingField | .badRequest | .unknownMethod | .unknownTracer | .tracerClosed => true
  | .policy | .transport | .config | .internal => false

end Fault

def required {α : Type} (field : Option α) (name : String) : Except Fault α :=
  match field with
  | some x => .ok x
  | none => .error (.missingField name)

end PathPolicy
