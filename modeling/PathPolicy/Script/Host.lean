import PathPolicy.Script.Plan

/-!
What runs a script. Before the script is loaded, modules are registered with the names of the
functions that it may define.
-/

namespace PathPolicy.Script

structure Host (μ : Type) where
  register : (moduleName : String) → (entryPoints : List String) → μ → Except Fault Unit × μ
  /-- Runs the script of a file whose text has been read. -/
  load : (path : String) → μ → Except Fault Unit × μ
  call : Call → μ → Outcome × μ

structure File where
  path : String
  trouble : Option String

def noSuchFile : String := "No such file or directory (os error 2)"

def Host.loadFile {μ : Type} (host : Host μ) (file : File) (m : μ) : Except Fault Unit × μ :=
  match file.trouble with
  | some reason =>
    (.error (.config ("read script " ++ file.path ++ " failed: " ++ reason)), m)
  | none => host.load file.path m

end PathPolicy.Script
