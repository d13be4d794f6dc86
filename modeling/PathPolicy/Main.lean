import PathPolicy.Config
import PathPolicy.Daemon
import PathPolicy.Policies.Player

/-!
The daemon as a program. It reads its configuration, loads the policy, and then serves one
client over the standard streams until the stream ends or is refused.
-/

namespace PathPolicy.Program
open Policies Script

def defaultConfigPath : String := "panrpcd.yaml"

def readText (path : String) : IO (Except String String) :=
  try return .ok (← IO.FS.readFile path)
  catch e => return .error (toString e)

def boot (c : Config) (script : Except String String) : Except Fault (Daemon.State Player) :=
  let file : File := ⟨c.script, match script with | .ok _ => none | .error reason => some reason⟩
  match Named.ofFile? c.script with
  | some name => Daemon.start Player.host file (.start name)
  | none =>
    match file.trouble with
    | some _ => Daemon.start Player.host file (.start .empty)
    | none => .error (.config ("load script " ++ c.script ++ " failed: no such policy"))

partial def serve (limit : Nat) (input output : IO.FS.Stream) (connection : Daemon.Connection)
    (d : Daemon.State Player) : IO Unit := do
  let chunk ← input.read 8192
  if chunk.isEmpty then return
  let (frames, connection, d) := connection.receive Player.host limit chunk.data.toList d
  for frame in frames do
    output.write ⟨frame.toArray⟩
  output.flush
  unless connection.closed do serve limit input output connection d

def run (configPath : String) : IO UInt32 := do
  match Config.ofFile configPath (← readText configPath) with
  | .error e => failed e
  | .ok c =>
    match boot c (← readText c.script) with
    | .error e => failed e
    | .ok d =>
      serve c.maxFrameBytes (← IO.getStdin) (← IO.getStdout) .opened d
      return 0
where
  failed (e : Fault) : IO UInt32 := do
    IO.eprintln e.message
    return 1

end PathPolicy.Program

def main (args : List String) : IO UInt32 :=
  PathPolicy.Program.run (args.headD PathPolicy.Program.defaultConfigPath)
