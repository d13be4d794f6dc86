import PathPolicy.Script.Host

/-!
A script that only plays back outcomes laid down before: each function has a list of them, and
the last one stays. All that reaches the script is noted down.
-/

namespace PathPolicy.Script

inductive Noted
  | registered (moduleName : String) (entryPoints : List String)
  | loaded (path : String)
  | called (call : Call)

structure Playback where
  /-- The outcomes by what they answer, the next one first. -/
  outcomes : List (String × List Outcome)
  /-- What was noted since the notes were last taken, latest first. -/
  notes : List Noted

namespace Playback

/-- The next outcome. What is not mentioned succeeds without results. -/
def next (p : Playback) (subject : String) : Outcome × Playback :=
  match Members.find? subject p.outcomes with
  | none | some [] => (.ok [], p)
  | some [outcome] => (outcome, p)
  | some (outcome :: rest) =>
    (outcome, { p with outcomes := Members.insert subject rest p.outcomes })

def note (p : Playback) (n : Noted) : Playback := { p with notes := n :: p.notes }

def proceed (p : Playback) (subject : String) : Except Fault Unit × Playback :=
  let (outcome, p) := p.next subject
  (outcome.map fun _ => (), p)

def host : Host Playback where
  register moduleName entryPoints p :=
    (p.note (.registered moduleName entryPoints)).proceed ("register " ++ moduleName)
  load path p := (p.note (.loaded path)).proceed "load"
  call c p := (p.note (.called c)).next c.target

def takeNotes (p : Playback) : List Noted × Playback := (p.notes.reverse, { p with notes := [] })

end Playback
end PathPolicy.Script
