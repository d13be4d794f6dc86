import PathPolicy.Fault

/-!
The directory in which daemons offer their sockets. A socket's file outlives a daemon that was
killed, so a new daemon may remove a file that no daemon listens on.
-/

namespace PathPolicy

inductive Entry
  /-- A socket on which a daemon listens, known by its number. -/
  | listener (daemon : Nat)
  /-- A socket on which nothing listens any more. -/
  | deadSocket
  | file
  | folder
deriving DecidableEq

inductive Refusal
  | missing
  | notFolder
  | isFolder
  | inUse
  | noListener
  | zeroByte
  | pathTooLong
deriving DecidableEq

def Refusal.message : Refusal → String
  | missing => "No such file or directory (os error 2)"
  | notFolder => "Not a directory (os error 20)"
  | isFolder => "Is a directory (os error 21)"
  | inUse => "Address already in use (os error 98)"
  | noListener => "Connection refused (os error 111)"
  | zeroByte => "paths must not contain interior null bytes"
  | pathTooLong => "path must be shorter than SUN_LEN"

/-- The entries by their places: the names that lead to them from the directory. The first names
of a place outside of it are two dots each. -/
structure Directory where
  entries : List (List String × Entry)

/-- A path: the names on it, and whether a slash ends it. Then it can only lead to a folder. -/
structure Route where
  names : List String
  slash : Bool

def Route.ofPath (path : String) : Route :=
  ⟨(path.splitOn "/").filter (· ≠ ""), path.endsWith "/"⟩

def Route.isNamed (r : Route) : Bool := r.names.getLast?.any fun name => name ≠ "." && name ≠ ".."

namespace Directory

def empty : Directory := ⟨[]⟩

def pathBound : Nat := 108

def get? (d : Directory) (place : List String) : Option Entry :=
  if place.all (· = "..") then some .folder
  else (d.entries.find? fun e => e.1 = place).map Prod.snd

/-- The place to which a name leads from a folder: one dot stays in it, and two lead out of
it. -/
def placeOf (folder : List String) (name : String) : List String :=
  if name = "." then folder
  else if name = ".." && !folder.all (· = "..") then folder.dropLast
  else folder ++ [name]

def enter (d : Directory) (folder : List String) : List String → Except Refusal (List String)
  | [] => .ok folder
  | name :: rest =>
    match d.get? (placeOf folder name) with
    | none => .error .missing
    | some .folder => d.enter (placeOf folder name) rest
    | some _ => .error .notFolder

def place (d : Directory) (r : Route) : Except Refusal (List String) :=
  match r.names.getLast? with
  | none => .ok []
  | some name => (d.enter [] r.names.dropLast).map fun folder => placeOf folder name

def look (d : Directory) (path : String) : Except Refusal Entry :=
  if path.contains '\x00' then .error .zeroByte
  else
    let r := Route.ofPath path
    match d.place r with
    | .error reason => .error reason
    | .ok place =>
      match d.get? place with
      | none => .error .missing
      | some e => if r.slash && e ≠ .folder then .error .notFolder else .ok e

def holds (d : Directory) (path : String) : Bool := (d.look path).isOk

def create (d : Directory) (path : String) (e : Entry) : Except Refusal Directory :=
  let r := Route.ofPath path
  match d.place r with
  | .error reason => .error reason
  | .ok place =>
    if !r.isNamed || (d.get? place).isSome then .error .inUse
    else if r.slash && e ≠ .folder then .error .missing
    else .ok ⟨(place, e) :: d.entries⟩

def remove (d : Directory) (path : String) : Except Refusal Directory :=
  let r := Route.ofPath path
  match d.place r with
  | .error reason => .error reason
  | .ok place =>
    match d.get? place with
    | none => .error .missing
    | some .folder => .error .isFolder
    | some _ =>
      if r.slash then .error .notFolder else .ok ⟨d.entries.filter fun e => e.1 ≠ place⟩

def checkPath (path : String) : Except Refusal Unit :=
  if path.contains '\x00' then .error .zeroByte
  else if pathBound ≤ path.utf8ByteSize then .error .pathTooLong
  else .ok ()

def connect (d : Directory) (path : String) : Except Refusal Nat := do
  checkPath path
  match ← d.look path with
  | .listener daemon => return daemon
  | _ => .error .noListener

def listen (d : Directory) (path : String) (daemon : Nat) : Except Refusal Directory := do
  checkPath path
  d.create path (.listener daemon)

/-! ### Claiming a path for a daemon -/

/-- Removes what another daemon has left behind. A path on which one listens is not touched. -/
def clear (d : Directory) (path : String) : Except Fault Directory :=
  if d.holds path then
    match d.connect path with
    | .ok _ => .error (.transport (path ++ " is in use by another daemon"))
    | .error _ =>
      (d.remove path).mapError fun reason =>
        .transport ("remove stale socket " ++ path ++ ": " ++ reason.message)
  else .ok d

/-- Lets a daemon listen under a path. What was cleared away stays so, even if that fails. -/
def claim (d : Directory) (path : String) (daemon : Nat) : Except Fault Unit × Directory :=
  match d.clear path with
  | .error e => (.error e, d)
  | .ok d =>
    match d.listen path daemon with
    | .error reason => (.error (.transport ("bind " ++ path ++ " failed: " ++ reason.message)), d)
    | .ok d => (.ok (), d)

end Directory
end PathPolicy
