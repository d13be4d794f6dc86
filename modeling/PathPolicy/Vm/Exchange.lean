import PathPolicy.Fault
import PathPolicy.Vm.Value

/-!
Values on their way into the machine and out of it. Outside, tables are at most 32 levels deep;
a cyclic table is deeper than that.
-/

namespace PathPolicy.Vm

def maxDepth : Nat := 32

mutual

/-- Nil fields are not stored. -/
def ofScript : Script.Value → Value
  | .nil => .nil
  | .boolean b => .boolean b
  | .integer n => .integer n
  | .number x => .number x
  | .text s => .text s
  | .table sequence fields => .table (ofSequence sequence) (ofFields fields)

def ofSequence : List Script.Value → List Value
  | [] => []
  | v :: rest => ofScript v :: ofSequence rest

def ofFields : List (String × Script.Value) → List (Key × Value)
  | [] => []
  | (_, .nil) :: rest => ofFields rest
  | (name, v) :: rest => (.text name, ofScript v) :: ofFields rest

end

def remaining : Nat → List Value → List (Key × Value)
  | _, [] => []
  | i, .nil :: rest => remaining (i + 1) rest
  | i, v :: rest => (.integer (Int64.ofInt i), v) :: remaining (i + 1) rest

def fieldName : Key → Except Fault String
  | .integer n => .ok (String.ofList (Decimal.ofInt n.toInt))
  | .text s => .ok s
  | .blob bytes => .ok (Bytes.textOrMended bytes)
  | .other kind => .error (.policy ("unsupported " ++ kind ++ " table key"))

/-- Takes a value out of the machine; `levels` is how deep its tables may be. The array up to
its border is the sequence, and all else becomes fields. -/
def toScript : (levels : Nat) → Value → Except Fault Script.Value
  | _, .nil => .ok .nil
  | _, .boolean b => .ok (.boolean b)
  | _, .integer n => .ok (.integer n)
  | _, .number x => .ok (.number x)
  | _, .text s => .ok (.text s)
  | _, .blob bytes => .ok (.text (Bytes.textOrMended bytes))
  | 0, .table _ _ =>
    .error (.policy ("table nesting exceeds " ++ String.ofList (Decimal.ofNat maxDepth)
      ++ " levels (cyclic table?)"))
  | levels + 1, .table array entries => do
    let n := border array
    let sequence ← (array.take n).mapM (toScript levels)
    let fields ← (remaining (n + 1) (array.drop n) ++ entries).mapM fun (key, v) => do
      let name ← fieldName key
      let v ← toScript levels v
      return (name, v)
    return .table sequence (Members.ofList fields)
  | _, v => .error (.policy ("unsupported " ++ v.kind ++ " value returned from script"))

end PathPolicy.Vm
