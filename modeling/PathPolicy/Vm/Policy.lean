import PathPolicy.Vm.Random
import PathPolicy.Vm.Value

/-!
Policies: what a script makes of the modules that the host has registered. A policy has a state
of its own, and binds names in the modules to functions and other values.
-/

namespace PathPolicy.Vm

structure Effect (σ : Type) where
  state : σ
  /-- The registered functions without a definition that were called on the way. -/
  missed : List String
  result : Except String (List Value)

def Effect.pure {σ : Type} (state : σ) (results : List Value) : Effect σ := ⟨state, [], .ok results⟩

/-- The state is changed only if nothing is raised. -/
def Effect.ofResult {σ : Type} (state : σ) : Except String (List Value × σ) → Effect σ
  | .ok (results, state) => .pure state results
  | .error raised => ⟨state, [], .error raised⟩

inductive Binding (σ : Type)
  | nothing
  /-- A value that cannot be called. -/
  | value (v : Value)
  | function (run : σ → List Value → Effect σ)
  /-- A function of the machine's own that draws numbers. -/
  | drawing (run : Generator → List Value → Except String (List Value) × Generator)

structure Policy (σ : Type) where
  /-- Runs the script of a file; the state is then that of the policy. -/
  load : (path : String) → Except String σ
  /-- What the script put under a name of a module; a name that it left alone has none. -/
  binding? : σ → (moduleName function : String) → Option (Binding σ)

def raised (path : String) (line : Nat) (message : String) : String :=
  "[string \"" ++ path ++ "\"]:" ++ String.ofList (Decimal.ofNat line) ++ ": " ++ message

/-- The `i`-th argument, counted from zero; nil if there are fewer. -/
def argument (args : List Value) (i : Nat) : Value := args.getD i .nil

/-- A value's named entry. Strings have entries of their own, none of which is used here. -/
def entry (v : Value) (name whose : String) : Except String Value :=
  match v with
  | .table _ entries => .ok (namedEntry name entries)
  | .text _ | .blob _ => .ok .nil
  | v => .error ("attempt to index a " ++ v.scriptKind ++ " value (" ++ whose ++ ")")

end PathPolicy.Vm
