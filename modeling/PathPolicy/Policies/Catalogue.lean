import PathPolicy.Policies.LowestLatency
import PathPolicy.Policies.Trial

/-! The policies by the names of their scripts. -/

namespace PathPolicy.Policies
open Vm

inductive Named
  | lowestLatency
  | echo
  | empty
  | uncallable
  | failing
  | recording
  | shapes
  | unsteady
  | malformed
deriving DecidableEq

namespace Named

def ofName? (name : String) : Option Named :=
  if name = "default" then some lowestLatency
  else if name = "echo" then some echo
  else if name = "empty" then some empty
  else if name = "notfunc" then some uncallable
  else if name = "raise" then some failing
  else if name = "recording" then some recording
  else if name = "shapes" then some shapes
  else if name = "stateful" then some unsteady
  else if name = "syntax" then some malformed
  else none

def scriptName? (path : String) : Option String :=
  match ((path.splitOn "/").getLastD "").splitOn "." with
  | [name, "lua"] => some name
  | _ => none

def ofFile? (path : String) : Option Named := (scriptName? path).bind ofName?

def State : Named → Type
  | lowestLatency => LowestLatency.State
  | recording => Recording.State
  | shapes => String
  | unsteady => Unsteady.State
  | echo | empty | uncallable | failing | malformed => Unit

def policy : (n : Named) → Policy n.State
  | lowestLatency => LowestLatency.policy
  | echo => Policies.echo
  | empty => Policies.empty
  | uncallable => Policies.uncallable
  | failing => Policies.failing
  | recording => Recording.policy
  | shapes => Shapes.policy
  | unsteady => Unsteady.policy
  | malformed => Policies.malformed

end Named
end PathPolicy.Policies
