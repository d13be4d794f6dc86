import PathPolicy.Fault
import PathPolicy.Script.Value

/-!
What serving a request comes to: a change of the tables, and after it at most one call into the
script, whose outcome decides only the answer.
-/

namespace PathPolicy.Script

structure Call where
  moduleName : String
  function : String
  args : List Value

def Call.target (c : Call) : String := c.moduleName ++ "." ++ c.function

abbrev Outcome := Except Fault (List Value)

inductive Plan (σ ρ : Type)
  /-- The script is not called. -/
  | answer (tables : σ) (result : ρ)
  /-- The tables are changed first, whatever the script does then. -/
  | consult (tables : σ) (call : Call) (finish : Outcome → ρ)

namespace Plan
variable {σ τ ρ ρ' : Type}

def tables : Plan σ ρ → σ
  | answer tables _ => tables
  | consult tables _ _ => tables

def call? : Plan σ ρ → Option Call
  | answer _ _ => none
  | consult _ call _ => some call

def result (script : Call → Outcome) : Plan σ ρ → ρ
  | answer _ result => result
  | consult _ call finish => finish (script call)

def within (place : σ → τ) : Plan σ ρ → Plan τ ρ
  | answer tables result => answer (place tables) result
  | consult tables call finish => consult (place tables) call finish

def map (f : ρ → ρ') : Plan σ ρ → Plan σ ρ'
  | answer tables result => answer tables (f result)
  | consult tables call finish => consult tables call fun outcome => f (finish outcome)

/-- A call of which only the success matters. -/
def notify {α : Type} (tables : σ) (call : Call) (done : α) : Plan σ (Except Fault α) :=
  consult tables call fun outcome => outcome.map fun _ => done

/-- Carries the plan out with a script that has a state of its own. -/
def run {μ : Type} (script : Call → μ → Outcome × μ) (m : μ) : Plan σ ρ → ρ × σ × μ
  | answer tables result => (result, tables, m)
  | consult tables call finish =>
    let (outcome, m) := script call m
    (finish outcome, tables, m)

@[simp] theorem tables_map (f : ρ → ρ') (p : Plan σ ρ) : (p.map f).tables = p.tables := by
  cases p <;> rfl

@[simp] theorem call?_map (f : ρ → ρ') (p : Plan σ ρ) : (p.map f).call? = p.call? := by
  cases p <;> rfl

@[simp] theorem result_map (f : ρ → ρ') (script : Call → Outcome) (p : Plan σ ρ) :
    (p.map f).result script = f (p.result script) := by
  cases p <;> rfl

/-- Carrying a plan out changes the tables before the script has any say. -/
@[simp] theorem tables_run {μ : Type} (script : Call → μ → Outcome × μ) (m : μ) (p : Plan σ ρ) :
    (p.run script m).2.1 = p.tables := by
  cases p <;> rfl

theorem run_map {μ : Type} (script : Call → μ → Outcome × μ) (m : μ) (f : ρ → ρ')
    (p : Plan σ ρ) : (p.map f).run script m = (f (p.run script m).1, (p.run script m).2) := by
  cases p <;> rfl

@[simp] theorem tables_within (place : σ → τ) (p : Plan σ ρ) :
    (p.within place).tables = place p.tables := by
  cases p <;> rfl

@[simp] theorem call?_within (place : σ → τ) (p : Plan σ ρ) :
    (p.within place).call? = p.call? := by
  cases p <;> rfl

@[simp] theorem result_within (place : σ → τ) (script : Call → Outcome) (p : Plan σ ρ) :
    (p.within place).result script = p.result script := by
  cases p <;> rfl

end Plan
end PathPolicy.Script
