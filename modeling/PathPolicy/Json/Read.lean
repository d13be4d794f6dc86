import PathPolicy.Json.Scan

/-!
Reading a JSON text part by part, from left to right: the first cause met refuses the text.
A reader returns what it read and what remains.
-/

namespace PathPolicy.Json

/-- How deep a reader may still go, and a bound on the steps of each of its loops. -/
structure Budget where
  depth : Nat
  steps : Nat

/-- At most 127 lists and objects inside one another; no loop makes more steps than there are
bytes. -/
def Budget.ofText (text : Bytes) : Budget := ⟨127, text.length + 1⟩

/-- Refuses the next value, whatever it is, because something else was expected. Lists and
objects are not read for that. -/
def refuse {α : Type} (expected : String) (budget : Budget) (text : Bytes) : Except Failure α :=
  match text with
  | [] => failNext .expectedValue []
  | b :: rest =>
    if b = 110 then (word ull rest).bind (fail (.invalidType .null expected))
    else if b = 116 then (word rue rest).bind (fail (.invalidType (.boolean true) expected))
    else if b = 102 then (word alse rest).bind (fail (.invalidType (.boolean false) expected))
    else if b = 45 || isDigit b then
      (readNumber (b :: rest)).bind fun (n, rest) =>
        fail (.invalidType (.ofNumber n) expected) rest
    else if b = 34 then
      (readText budget.steps rest).bind fun (s, rest) => fail (.invalidType (.text s) expected) rest
    else if b = 91 then fail (.invalidType .sequence expected) (b :: rest)
    else if b = 123 then fail (.invalidType .map expected) (b :: rest)
    else failNext .expectedValue (b :: rest)

def atValue (text : Bytes) : Except Failure (UInt8 × Bytes) :=
  match skipSpace text with
  | [] => failNext .endOfValue []
  | b :: rest => .ok (b, rest)

def Budget.enter {α : Type} (budget : Budget) (text : Bytes)
    (inside : Budget → Except Failure α) : Except Failure α :=
  match budget.depth with
  | 0 => failNext .tooDeep text
  | d + 1 => inside ⟨d, budget.steps⟩

/-! ### Lists -/

def nextElement (first : Bool) (text : Bytes) : Except Failure (Bool × Bytes) :=
  match skipSpace text with
  | [] => failNext .endOfList []
  | b :: rest =>
    if b = 93 then .ok (false, b :: rest)
    else if first then .ok (true, b :: rest)
    else if b = 44 then
      match skipSpace rest with
      | [] => failNext .endOfValue []
      | c :: rest =>
        if c = 93 then failNext .trailingComma (c :: rest) else .ok (true, c :: rest)
    else failNext .expectedListSeparator (b :: rest)

def readElements {α : Type} (item : Bytes → Except Failure (α × Bytes)) :
    Nat → Bool → Bytes → Except Failure (List α × Bytes)
  | 0, _, text => fail .endOfValue text
  | n + 1, first, text => do
    let (more, text) ← nextElement first text
    if more then
      let (x, text) ← item text
      let (xs, text) ← readElements item n false text
      return (x :: xs, text)
    else return ([], text)

def closeList (text : Bytes) : Except Failure Bytes :=
  match skipSpace text with
  | [] => failNext .endOfList []
  | b :: rest =>
    if b = 93 then .ok rest
    else if b = 44 then
      match skipSpace rest with
      | [] => failNext .trailingCharacters []
      | c :: rest =>
        failNext (if c = 93 then .trailingComma else .trailingCharacters) (c :: rest)
    else failNext .trailingCharacters (b :: rest)

/-! ### Objects -/

def nextMember (first : Bool) (text : Bytes) : Except Failure (Bool × Bytes) :=
  match skipSpace text with
  | [] => failNext .endOfObject []
  | b :: rest =>
    if b = 125 then .ok (false, b :: rest)
    else if first then
      if b = 34 then .ok (true, b :: rest) else failNext .keyNotText (b :: rest)
    else if b = 44 then
      match skipSpace rest with
      | [] => failNext .endOfValue []
      | c :: rest =>
        if c = 34 then .ok (true, c :: rest)
        else failNext (if c = 125 then .trailingComma else .keyNotText) (c :: rest)
    else failNext .expectedObjectSeparator (b :: rest)

def readColon (text : Bytes) : Except Failure Bytes :=
  match skipSpace text with
  | [] => failNext .endOfObject []
  | b :: rest => if b = 58 then .ok rest else failNext .expectedColon (b :: rest)

/-- Reads the members one after the other into `s`. The step is called after the name, so that
a name can be refused before its colon. -/
def readMembers {σ : Type} (step : σ → String → Bytes → Except Failure (σ × Bytes))
    (steps : Nat) : Nat → Bool → σ → Bytes → Except Failure (σ × Bytes)
  | 0, _, _, text => fail .endOfValue text
  | n + 1, first, s, text => do
    let (more, text) ← nextMember first text
    if more then
      let (name, text) ← readText steps text.tail
      let (s, text) ← step s name text
      readMembers step steps n false s text
    else return (s, text)

def closeObject (text : Bytes) : Except Failure Bytes :=
  match skipSpace text with
  | [] => failNext .endOfObject []
  | b :: rest =>
    if b = 125 then .ok rest
    else failNext (if b = 44 then .trailingComma else .trailingCharacters) (b :: rest)

/-- The end is looked for in any case; a refusal of the whole is placed there. -/
def closing {α : Type} (close : Bytes → Except Failure Bytes)
    (result : Except Failure (α × Bytes)) : Except Failure (α × Bytes) :=
  match result with
  | .ok (x, text) => (close text).map fun rest => (x, rest)
  | .error f =>
    .error <| f.settle <|
      match close f.rest with
      | .ok rest => rest
      | .error _ => skipSpace f.rest

def readList {α : Type} (expected : String) (item : Budget → Bytes → Except Failure (α × Bytes))
    (budget : Budget) (text : Bytes) : Except Failure (List α × Bytes) := do
  let (b, rest) ← atValue text
  if b = 91 then
    budget.enter (b :: rest) fun inner =>
      closing closeList (readElements (item inner) budget.steps true rest)
  else refuse expected budget (b :: rest)

def readWhole {α : Type} (read : Budget → Bytes → Except Failure (α × Bytes)) (text : Bytes) :
    Except Error α :=
  match read (.ofText text) text with
  | .error f => .error (f.within text)
  | .ok (x, rest) =>
    match skipSpace rest with
    | [] => .ok x
    | _ :: more => .error (Failure.within text ⟨.trailingCharacters, more, true⟩)

end PathPolicy.Json
