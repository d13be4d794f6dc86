/-!
The numbers that scripts draw: a sequence of 64-bit words, each computed from the last four
words kept. A seed determines the sequence.
-/

namespace PathPolicy.Vm

structure Generator where
  a : UInt64
  b : UInt64
  c : UInt64
  d : UInt64
deriving DecidableEq

namespace Generator

def rotate (x : UInt64) (n : UInt64) : UInt64 := (x <<< n) ||| (x >>> (64 - n))

def next (g : Generator) : UInt64 × Generator :=
  let c := g.c ^^^ g.a
  let d := g.d ^^^ g.b
  (rotate (g.b * 5) 7 * 9, ⟨g.a ^^^ d, g.b ^^^ c, c ^^^ (g.b <<< 17), rotate d 45⟩)

def skip : Nat → Generator → Generator
  | 0, g => g
  | n + 1, g => skip n g.next.2

/-- The sequence of a seed of two words. Its first words are close to the seed and are dropped. -/
def ofSeed (m n : UInt64) : Generator := skip 16 ⟨m, 0xFF, n, 0⟩

def fraction (word : UInt64) : Float := (word >>> 11).toFloat * Float.scaleB 1.0 (-53)

def mask (n : UInt64) : UInt64 :=
  if n = 0 then 0 else UInt64.ofNat (Nat.pow 2 (n.log2.toNat + 1) - 1)

/-- The first of the words, cut to as many bits as the limit has, that is not above the limit. -/
def belowFrom (limit : UInt64) : Nat → UInt64 → Generator → UInt64 × Generator
  | 0, _, g => (0, g)
  | n + 1, word, g =>
    let word := word &&& mask limit
    if word ≤ limit then (word, g) else belowFrom limit n g.next.1 g.next.2

def below (word limit : UInt64) (g : Generator) : UInt64 × Generator :=
  belowFrom limit 4096 word g

end Generator
end PathPolicy.Vm
