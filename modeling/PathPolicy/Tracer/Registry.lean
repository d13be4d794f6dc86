import PathPolicy.Tracer.Message

/-!
The tracers in use. A closed tracing id is remembered for a while: the ids of the most recent
closings, as many as the limit says. A queue holds the closings, oldest first; each has a
number, so that an id that was used again since is not forgotten in its stead.
-/

namespace PathPolicy.Tracer

structure Connection where
  perspective : Perspective
  /-- The destination id of the connection's first packet. -/
  firstDestinationId : String
  /-- How many events were counted. -/
  events : UInt64
deriving DecidableEq

inductive Slot
  | active (connection : Connection)
  /-- Carries the number of its closing. -/
  | closed (closing : Nat)
deriving DecidableEq

structure Registry where
  slots : Std.ExtTreeMap UInt64 Slot
  /-- The number of the next closing. -/
  nextClosing : Nat
  /-- The remembered closings: tracing id and number. -/
  queue : List (UInt64 × Nat)
  limit : Nat

inductive Closing
  | closed
  | alreadyClosed
deriving DecidableEq

namespace Registry

def defaultLimit : Nat := 4096

def empty (limit : Nat) : Registry := ⟨∅, 0, [], limit⟩

/-- Registers a tracer. An id that is in use, or closed, begins anew. -/
def create (r : Registry) (id : UInt64) (perspective : Perspective) (firstDestinationId : String) :
    Registry :=
  { r with slots := r.slots.insert id (.active ⟨perspective, firstDestinationId, 0⟩) }

def record (r : Registry) (id : UInt64) : Except Fault (UInt64 × Registry) :=
  match r.slots[id]? with
  | none => .error (.unknownTracer id)
  | some (.closed _) => .error (.tracerClosed id)
  | some (.active t) =>
    let events := t.events + 1
    .ok (events, { r with slots := r.slots.insert id (.active { t with events }) })

/-- Forgets a closing: its id goes, unless the id was used again since. -/
def forget (slots : Std.ExtTreeMap UInt64 Slot) (entry : UInt64 × Nat) :
    Std.ExtTreeMap UInt64 Slot :=
  if slots[entry.1]? = some (.closed entry.2) then slots.erase entry.1 else slots

def trim (r : Registry) : Registry :=
  let excess := r.queue.length - r.limit
  { r with
    slots := (r.queue.take excess).foldl forget r.slots
    queue := r.queue.drop excess }

/-- Closes a tracer. A second time is no fault, but an unknown id is one. -/
def close (r : Registry) (id : UInt64) : Except Fault (Closing × Registry) :=
  match r.slots[id]? with
  | none => .error (.unknownTracer id)
  | some (.closed _) => .ok (.alreadyClosed, r)
  | some (.active _) =>
    .ok (.closed, trim { r with
      slots := r.slots.insert id (.closed r.nextClosing)
      nextClosing := r.nextClosing + 1
      queue := r.queue ++ [(id, r.nextClosing)] })

def get? (r : Registry) (id : UInt64) : Option Connection :=
  match r.slots[id]? with
  | some (.active t) => some t
  | _ => none

def isClosed (r : Registry) (id : UInt64) : Bool :=
  match r.slots[id]? with
  | some (.closed _) => true
  | _ => false

def activeCount (r : Registry) : Nat :=
  r.slots.toList.countP fun (_, slot) => match slot with | .active _ => true | .closed _ => false

def closedCount (r : Registry) : Nat :=
  r.slots.toList.countP fun (_, slot) => match slot with | .active _ => false | .closed _ => true

def size (r : Registry) : Nat := r.slots.size

theorem getElem?_create (r : Registry) (id other : UInt64) (perspective : Perspective)
    (firstDestinationId : String) :
    (r.create id perspective firstDestinationId).slots[other]?
      = if id = other then some (.active ⟨perspective, firstDestinationId, 0⟩)
        else r.slots[other]? := by
  simp [create, Std.ExtTreeMap.getElem?_insert]

theorem getElem?_forget (slots : Std.ExtTreeMap UInt64 Slot) (entry : UInt64 × Nat) (id : UInt64) :
    (forget slots entry)[id]?
      = if entry.1 = id ∧ slots[id]? = some (Slot.closed entry.2) then none else slots[id]? := by
  unfold forget
  by_cases h : entry.1 = id
  · subst h
    split <;> simp_all
  · split <;> simp [Std.ExtTreeMap.getElem?_erase, h]

end Registry
end PathPolicy.Tracer
