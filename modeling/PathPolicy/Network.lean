import PathPolicy.Client.Peer
import PathPolicy.Config
import PathPolicy.Directory

/-!
Daemons that offer their sockets in a directory, and the clients connected to them. A stopped
daemon takes no new clients, but goes on serving those that it has.
-/

namespace PathPolicy
open Script Client

structure Member (μ : Type) where
  limit : Nat
  state : Daemon.State μ

structure Link where
  daemon : Nat
  connection : Daemon.Connection
  channel : Channel

structure Network (μ : Type) where
  directory : Directory
  /-- All daemons that were ever started, by their numbers. -/
  daemons : List (Member μ)

namespace Network
variable {μ : Type}

def empty : Network μ := ⟨.empty, []⟩

/-- Starts a daemon with a configuration; why its script cannot be read is given if it cannot.
The script is loaded before the socket is claimed. -/
def bind (host : Host μ) (c : Config) (trouble : Option String) (m : μ) (net : Network μ) :
    Except Fault Unit × Network μ :=
  match Daemon.start host ⟨c.script, trouble⟩ m with
  | .error e => (.error e, net)
  | .ok state =>
    match net.directory.claim c.socketPath net.daemons.length with
    | (.error e, directory) => (.error e, { net with directory })
    | (.ok (), directory) => (.ok (), ⟨directory, net.daemons ++ [⟨c.maxFrameBytes, state⟩]⟩)

def stop (path : String) (net : Network μ) : Network μ :=
  match net.directory.remove path with
  | .error _ => net
  | .ok directory => { net with directory }

def connect (limit : Nat) (path : String) (net : Network μ) : Except Fault Link :=
  match net.directory.connect path with
  | .error reason => .error (.transport ("connect " ++ path ++ " failed: " ++ reason.message))
  | .ok daemon => .ok ⟨daemon, .opened, .opened limit⟩

def call {α : Type} [Json.Codable α] (host : Host μ) (link : Link) (service method : String)
    (data : α) (net : Network μ) : Except Fault (Option Json.Value) × Link × Network μ :=
  match net.daemons[link.daemon]? with
  | none => (.error (.transport "connection closed"), link, net)
  | some daemon =>
    let (outcome, channel, served) :=
      link.channel.call (daemonPeer host daemon.limit) ⟨link.connection, daemon.state⟩
        service method data
    (outcome, ⟨link.daemon, served.connection, channel⟩,
      { net with daemons := net.daemons.set link.daemon { daemon with state := served.daemon } })

end Network
end PathPolicy
