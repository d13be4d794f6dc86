import PathPolicy.Policies.Catalogue
import PathPolicy.Script.Playback
import PathPolicy.Vm.Machine

/-!
Who plays the script's part for a daemon: outcomes laid down before, or one of the policies in
a machine.
-/

namespace PathPolicy.Policies
open Script Vm

inductive Player
  | playback (p : Playback)
  | machine (name : Named) (m : Machine name.State)

namespace Player

def start (name : Named) : Player := machine name .start

def host : Host Player where
  register moduleName entryPoints
    | playback p => (Playback.host.register moduleName entryPoints p).map id playback
    | machine name m =>
      ((Machine.host name.policy).register moduleName entryPoints m).map id (machine name)
  load path
    | playback p => (Playback.host.load path p).map id playback
    | machine name m => ((Machine.host name.policy).load path m).map id (machine name)
  call c
    | playback p => (Playback.host.call c p).map id playback
    | machine name m => ((Machine.host name.policy).call c m).map id (machine name)

def takeNotes : Player → List Noted × Player
  | playback p => p.takeNotes.map id playback
  | machine name m => ([], machine name m)

end Player
end PathPolicy.Policies
