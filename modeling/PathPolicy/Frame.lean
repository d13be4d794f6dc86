import PathPolicy.Bytes
import PathPolicy.Fault

/-!
Frames: a body behind its length, which is written in four bytes, the most significant one
first. A stream of frames arrives in chunks that are cut anywhere; the bytes not yet used wait
in a buffer.
-/

namespace PathPolicy.Frame

def defaultLimit : Nat := 4 * 1024 * 1024

def headerLength : Nat := 4

def header (n : Nat) : Bytes :=
  [UInt8.ofNat (n / 16777216), UInt8.ofNat (n / 65536), UInt8.ofNat (n / 256), UInt8.ofNat n]

def size (a b c d : UInt8) : Nat :=
  ((a.toNat * 256 + b.toNat) * 256 + c.toNat) * 256 + d.toNat

def numberText (n : Nat) : String := String.ofList (Decimal.ofNat n)

def tooLong (n limit : Nat) : Fault :=
  .badRequest ("frame of " ++ numberText n ++ " bytes exceeds limit of " ++ numberText limit)

def encode (limit : Nat) (body : Bytes) : Except Fault Bytes :=
  let n := body.length
  if limit < n then .error (tooLong n limit)
  else if UInt32.size ≤ n then .error (.badRequest "frame length exceeds u32")
  else .ok (header n ++ body)

inductive Front
  /-- The beginning of a frame, or nothing. -/
  | partially
  | frame (body rest : Bytes)
  | refused (fault : Fault)

/-- A length above the limit is refused as soon as it is complete. -/
def front (limit : Nat) : Bytes → Front
  | a :: b :: c :: d :: rest =>
    let n := size a b c d
    if limit < n then .refused (tooLong n limit)
    else if rest.length < n then .partially
    else .frame (rest.take n) (rest.drop n)
  | _ => .partially

theorem length_rest_lt {limit : Nat} {buffer body rest : Bytes}
    (h : front limit buffer = .frame body rest) : rest.length < buffer.length := by
  unfold front at h
  split at h
  · dsimp only at h
    split at h
    · cases h
    · split at h
      · cases h
      · cases h
        simp only [List.length_drop, List.length_cons]
        omega
  · cases h

theorem size_header {n : Nat} (h : n < UInt32.size) :
    size (UInt8.ofNat (n / 16777216)) (UInt8.ofNat (n / 65536)) (UInt8.ofNat (n / 256))
      (UInt8.ofNat n) = n := by
  simp [size, UInt32.size] at *
  omega

theorem front_header_append {limit : Nat} (body rest : Bytes) (hl : body.length ≤ limit)
    (h : body.length < UInt32.size) :
    front limit (header body.length ++ body ++ rest) = .frame body rest := by
  simp [header, front, size_header h, Nat.not_lt.2 hl]

/-- The bodies of a stream so far, the bytes not yet used, and the fault that stopped it. -/
structure Drained where
  bodies : List Bytes
  buffer : Bytes
  stop : Option Fault

def drain (limit : Nat) (buffer : Bytes) : Drained :=
  match _h : front limit buffer with
  | .partially => ⟨[], buffer, none⟩
  | .refused fault => ⟨[], buffer, some fault⟩
  | .frame body rest =>
    let later := drain limit rest
    ⟨body :: later.bodies, later.buffer, later.stop⟩
termination_by buffer.length
decreasing_by exact length_rest_lt _h

theorem drain_of_partially {limit : Nat} {buffer : Bytes} (h : front limit buffer = .partially) :
    drain limit buffer = ⟨[], buffer, none⟩ := by
  rw [drain]
  split <;> simp_all

theorem drain_of_refused {limit : Nat} {buffer : Bytes} {fault : Fault}
    (h : front limit buffer = .refused fault) : drain limit buffer = ⟨[], buffer, some fault⟩ := by
  rw [drain]
  split <;> simp_all

theorem drain_of_frame {limit : Nat} {buffer body rest : Bytes}
    (h : front limit buffer = .frame body rest) :
    drain limit buffer = { drain limit rest with bodies := body :: (drain limit rest).bodies } := by
  rw [drain]
  split <;> simp_all

/-- Appends a chunk and drains the buffer. After a refusal nothing is read any more. -/
def Drained.receive (limit : Nat) (s : Drained) (chunk : Bytes) : Drained :=
  match s.stop with
  | some fault => ⟨s.bodies, s.buffer, some fault⟩
  | none =>
    let later := drain limit (s.buffer ++ chunk)
    ⟨s.bodies ++ later.bodies, later.buffer, later.stop⟩

end PathPolicy.Frame
