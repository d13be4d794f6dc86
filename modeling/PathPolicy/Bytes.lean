/-!
Byte strings: their UTF-8 text, their hexadecimal form, and the reading of bytes that are
not UTF-8. Nothing is assumed about where the bytes come from.
-/

namespace PathPolicy

abbrev Bytes := List UInt8

namespace Bytes

def ofText (s : String) : Bytes := s.toUTF8.data.toList

def text? (bytes : Bytes) : Option String := String.fromUTF8? ⟨bytes.toArray⟩

theorem text?_ofText (s : String) : text? (ofText s) = some s := by
  simp only [text?, ofText, String.fromUTF8?, Array.toArray_toList]
  exact dif_pos s.isValidUTF8

theorem ofText_of_text? {bytes : Bytes} {s : String} (h : text? bytes = some s) :
    ofText s = bytes := by
  unfold text? String.fromUTF8? at h
  split at h
  · rw [Option.some.injEq] at h
    subst h
    rfl
  · contradiction

def hexDigit (n : Nat) : Char :=
  if n < 10 then Char.ofNat (48 + n) else Char.ofNat (87 + n)

def hex (bytes : Bytes) : String :=
  String.ofList (bytes.flatMap fun b => [hexDigit (b.toNat / 16), hexDigit (b.toNat % 16)])

def hexValue? (c : Char) : Option Nat :=
  if '0' ≤ c ∧ c ≤ '9' then some (c.toNat - 48)
  else if 'a' ≤ c ∧ c ≤ 'f' then some (c.toNat - 87)
  else if 'A' ≤ c ∧ c ≤ 'F' then some (c.toNat - 55)
  else none

def ofHex? : List Char → Option Bytes
  | [] => some []
  | [_] => none
  | a :: b :: rest => do
    let high ← hexValue? a
    let low ← hexValue? b
    let bytes ← ofHex? rest
    return UInt8.ofNat (16 * high + low) :: bytes

def replacement : Bytes := [0xEF, 0xBF, 0xBD]

def followers? (b : UInt8) : Option (List (UInt8 × UInt8)) :=
  let any := (0x80, 0xBF)
  if b < 0x80 then some []
  else if 0xC2 ≤ b ∧ b ≤ 0xDF then some [any]
  else if b = 0xE0 then some [(0xA0, 0xBF), any]
  else if b = 0xED then some [(0x80, 0x9F), any]
  else if 0xE1 ≤ b ∧ b ≤ 0xEF then some [any, any]
  else if b = 0xF0 then some [(0x90, 0xBF), any, any]
  else if b = 0xF4 then some [(0x80, 0x8F), any, any]
  else if 0xF1 ≤ b ∧ b ≤ 0xF3 then some [any, any, any]
  else none

/-- Puts the replacement character in place of each longest beginning of a character that
is not completed. `pending` holds the bytes of the current one, last byte first, and
`wanted` the ranges of those still missing. -/
def mend (pending : Bytes) (wanted : List (UInt8 × UInt8)) : Bytes → Bytes
  | [] => if pending.isEmpty then [] else replacement
  | b :: rest =>
    match wanted with
    | (low, high) :: more =>
      if low ≤ b ∧ b ≤ high then
        if more.isEmpty then (b :: pending).reverse ++ mend [] [] rest
        else mend (b :: pending) more rest
      else replacement ++ fresh b rest
    | [] => fresh b rest
where
  fresh (b : UInt8) (rest : Bytes) : Bytes :=
    match followers? b with
    | none => replacement ++ mend [] [] rest
    | some [] => b :: mend [] [] rest
    | some ranges => mend [b] ranges rest

def textOrMended (bytes : Bytes) : String :=
  match text? bytes with
  | some s => s
  | none => (text? (mend [] [] bytes)).getD ""

end Bytes
end PathPolicy
