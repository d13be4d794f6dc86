import PathPolicy.Script.Host
import PathPolicy.Vm.Exchange
import PathPolicy.Vm.Maths
import PathPolicy.Vm.Policy

/-!
The machine that runs a policy. Each registered module offers `Log`, `Now`, and a function for
each entry point that does nothing until the policy defines it. Which missing functions were
called is remembered, once for each.
-/

namespace PathPolicy.Vm
open Script

structure Machine (σ : Type) where
  modules : List (String × List String)
  /-- The missing functions that were called, with their modules. -/
  missed : List String
  /-- The time that `Now` tells, in microseconds from the epoch. -/
  clock : Int64
  /-- Where the numbers come from that scripts draw. -/
  generator : Generator
  /-- The state of the policy once it is loaded. -/
  state : Option σ

namespace Machine
variable {σ : Type}

def start : Machine σ := ⟨[], [], 0, .ofSeed 0 0, none⟩

def miss (m : Machine σ) (targets : List String) : Machine σ :=
  { m with missed := targets.foldl (fun missed t => missed.insert t) m.missed }

def libraries : List String :=
  ["_G", "coroutine", "io", "math", "os", "package", "string", "table", "utf8"]

def global (m : Machine σ) (name : String) : Binding σ :=
  if name = "_VERSION" then .value (.text "Lua 5.4")
  else if libraries.contains name || (Members.find? name m.modules).isSome then
    .value (.table [] [])
  else .nothing

def registered (m : Machine σ) (moduleName function : String) : Binding σ :=
  match Members.find? moduleName m.modules with
  | none =>
    if moduleName = "math" then Maths.binding function
    else if moduleName = "_G" then m.global function
    else .nothing
  | some entryPoints =>
    if entryPoints.contains function then
      .function fun s _ => ⟨s, [moduleName ++ "." ++ function], .ok []⟩
    else if function = "Log" then .function fun s _ => .pure s []
    else if function = "Now" then .function fun s _ => .pure s [.integer m.clock]
    else .nothing

def outcome (c : Call) : Except String (List Value) → Outcome
  | .error raised => .error (.policy (c.target ++ ": runtime error: " ++ raised))
  | .ok results => results.mapM (toScript maxDepth)

/-- Calls a function with values from outside. A missing function succeeds without results. -/
def call (policy : Policy σ) (c : Call) (m : Machine σ) : Outcome × Machine σ :=
  match m.state with
  | none => (.ok [], m.miss [c.target])
  | some s =>
    match (policy.binding? s c.moduleName c.function).getD
        (m.registered c.moduleName c.function) with
    | .nothing => (.ok [], m.miss [c.target])
    | .value v =>
      (.error (.policy (c.target ++ " is a " ++ v.kind ++ ", not a function")), m)
    | .function run =>
      let effect := run s (c.args.map ofScript)
      (outcome c effect.result, { m.miss effect.missed with state := some effect.state })
    | .drawing run =>
      let (result, generator) := run m.generator (c.args.map ofScript)
      (outcome c result, { m with generator })

def host (policy : Policy σ) : Host (Machine σ) where
  register moduleName entryPoints m :=
    (.ok (), { m with modules := Members.insert moduleName entryPoints m.modules })
  load path m :=
    match policy.load path with
    | .ok s => (.ok (), { m with state := some s })
    | .error reason => (.error (.config ("load script " ++ path ++ " failed: " ++ reason)), m)
  call := call policy

end Machine
end PathPolicy.Vm
