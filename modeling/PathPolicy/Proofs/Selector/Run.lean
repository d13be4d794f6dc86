import PathPolicy.Proofs.Since
import PathPolicy.Selector.Service

/-!
Runs of the path selector against any script: requests arrive, and between them the daemon may
call the script on its own account. The sessions depend on the accepted operations alone, and
what they hold of a key is said by the history of that key.
-/
namespace PathPolicy.Selector
open Script

inductive Act
  | request (r : Request)
  | call (c : Call)

structure State (μ : Type) where
  sessions : SessionTable
  script : μ

namespace State
variable {μ : Type}

def answer (script : Call → μ → Outcome × μ) (s : State μ) (r : Request) :
    Except Fault (Option Json.Value) :=
  ((serve s.sessions r).run script s.script).1

def step (script : Call → μ → Outcome × μ) (s : State μ) : Act → State μ
  | .request r =>
    let (_, sessions, m) := (serve s.sessions r).run script s.script
    ⟨sessions, m⟩
  | .call c => { s with script := (script c s.script).2 }

def run (script : Call → μ → Outcome × μ) (s : State μ) (acts : List Act) : State μ :=
  acts.foldl (step script) s

end State

/-! ### Histories -/

/-- The accepted operations with their pairs, the latest one last. -/
abbrev History := List (Pair × Operation)

def Act.accepted? : Act → Option (Pair × Operation)
  | .request r => (Operation.ofRequest r).toOption
  | .call _ => none

def accepted (acts : List Act) : History := acts.filterMap Act.accepted?

def History.sessions (history : History) : SessionTable :=
  history.foldl (fun t (p, operation) => (operation.plan p t).tables) ∅

theorem accepted_append_singleton (acts : List Act) (act : Act) :
    accepted (acts ++ [act]) = accepted acts ++ act.accepted?.toList := by
  cases h : act.accepted? <;> simp [accepted, h]

theorem History.sessions_append_singleton (history : History) (entry : Pair × Operation) :
    History.sessions (history ++ [entry])
      = (entry.2.plan entry.1 (History.sessions history)).tables := by
  simp [History.sessions]

variable {μ : Type}

theorem State.run_append_singleton (script : Call → μ → Outcome × μ) (s : State μ)
    (acts : List Act) (act : Act) :
    s.run script (acts ++ [act]) = (s.run script acts).step script act := by
  simp [State.run]

theorem State.step_sessions (script : Call → μ → Outcome × μ) (s : State μ) (act : Act) :
    (s.step script act).sessions =
      act.accepted?.elim s.sessions fun (p, operation) => (operation.plan p s.sessions).tables := by
  cases act with
  | call c => rfl
  | request r =>
    simp only [State.step, Plan.tables_run, serve, Act.accepted?]
    cases Operation.ofRequest r with
    | error e => rfl
    | ok entry => exact Plan.tables_map _ _

theorem State.run_sessions (script : Call → μ → Outcome × μ) (m : μ) (acts : List Act) :
    (State.run script ⟨∅, m⟩ acts).sessions = History.sessions (accepted acts) := by
  induction acts using List.reverseRecOn with
  | nil => rfl
  | append_singleton acts act ih =>
    rw [State.run_append_singleton, State.step_sessions, ih, accepted_append_singleton]
    cases act.accepted? with
    | none => simp
    | some entry => simp [History.sessions_append_singleton]

end PathPolicy.Selector
