import PathPolicy.Yaml.Node
import PathPolicy.Yaml.Token

/-!
The document that tokens make: nested blocks, brackets, and scalars, each with a name and a tag
in front of it. The readers' first argument bounds their steps.
-/

namespace PathPolicy.Yaml

structure Source where
  tokens : List Token
  labels : Labels
  shorthands : List (String × Bytes)

abbrev Reader := StateT Source Option

namespace Reader

def next? : Reader (Option Token) := do return (← get).tokens.head?

def skip : Reader Unit := modify fun s => { s with tokens := s.tokens.tail }

def nextIs (p : Token → Bool) : Reader Bool := do return (← next?).any p

def accept (p : Token → Bool) : Reader Bool := do
  let found ← nextIs p
  if found then skip
  return found

def expect (p : Token → Bool) : Reader Unit := do
  if ← accept p then return () else failure

/-! ### Names and tags -/

def name? : Reader (Option String) := do
  match ← next? with
  | some (.name s) => do
    skip
    return some s
  | _ => return none

def tag? : Reader (Option WrittenTag) := do
  match ← next? with
  | some (.tag t) => do
    skip
    return some t
  | _ => return none

def written : Reader (Option String × Option WrittenTag) := do
  match ← name? with
  | some s => return (some s, ← tag?)
  | none => do
    let t ← tag?
    return (← name?, t)

def properties : Reader Properties := do
  let (name, tag) ← written
  let s ← get
  let tag ← match tag with
    | none => pure none
    | some t => StateT.lift ((t.resolve? s.shorthands).map some)
  match name with
  | none => return ⟨none, tag⟩
  | some name => do
    let (label, labels) := s.labels.give name
    set { s with labels }
    return ⟨some label, tag⟩

def referenced (name : String) : Reader Node := do
  StateT.lift (((← get).labels.label? name).map .reference)

/-! ### Nodes -/

def endsItem : Token → Bool
  | .item | .closeBlock => true
  | _ => false

def endsEntry : Token → Bool
  | .key | .value | .closeBlock => true
  | _ => false

def endsListKey : Token → Bool
  | .value | .comma | .closeList => true
  | _ => false

def endsListValue : Token → Bool
  | .comma | .closeList => true
  | _ => false

def endsMapKey : Token → Bool
  | .value | .comma | .closeMap => true
  | _ => false

def endsMapValue : Token → Bool
  | .comma | .closeMap => true
  | _ => false

mutual

/-- A node. In a block it can be a nested one; after a key, the items of a nested block need no
indentation of their own. -/
def node : Nat → (inBlock afterKey : Bool) → Reader Node
  | 0, _, _ => failure
  | n + 1, inBlock, afterKey => do
    match ← next? with
    | some (.reference name) => do
      skip
      referenced name
    | _ => do
      let properties ← properties
      let refused := properties.label.isNone && properties.tag.isNone
      match ← next? with
      | some (.scalar text style) => do
        skip
        return .scalar properties text style
      | some .item => do
        if afterKey then return .sequence properties (← looseItems n)
        else if refused then failure
        else return .absent properties
      | some .openList => do
        skip
        return .sequence properties (← listItems n true)
      | some .openMap => do
        skip
        return .mapping properties (← mapEntries n true)
      | some .openItems => do
        if inBlock then
          skip
          return .sequence properties (← blockItems n)
        else if refused then failure
        else return .absent properties
      | some .openEntries => do
        if inBlock then
          skip
          return .mapping properties (← blockEntries n)
        else if refused then failure
        else return .absent properties
      | _ => if refused then failure else return .absent properties

def nodeBefore : Nat → (ends : Token → Bool) → (inBlock afterKey : Bool) → Reader Node
  | 0, _, _, _ => failure
  | n + 1, ends, inBlock, afterKey => do
    if ← nextIs ends then return .absent .none else node n inBlock afterKey

def blockItems : Nat → Reader (List Node)
  | 0 => failure
  | n + 1 => do
    if ← accept (· matches .item) then
      let item ← nodeBefore n endsItem true false
      return item :: (← blockItems n)
    else
      expect (· matches .closeBlock)
      return []

/-- Items that are no more indented than the key in front of them, as many as follow. -/
def looseItems : Nat → Reader (List Node)
  | 0 => failure
  | n + 1 => do
    if ← accept (· matches .item) then
      let item ← nodeBefore n (fun t => endsItem t || endsEntry t) true false
      return item :: (← looseItems n)
    else return []

def blockEntries : Nat → Reader (List (Node × Node))
  | 0 => failure
  | n + 1 => do
    if ← accept (· matches .key) then
      let key ← nodeBefore n endsEntry true true
      let value ← if ← accept (· matches .value) then nodeBefore n endsEntry true true
        else pure (.absent .none)
      return (key, value) :: (← blockEntries n)
    else
      expect (· matches .closeBlock)
      return []

/-- The items of a list up to its closing bracket, with commas between them. An item can be a
single entry of a mapping. -/
def listItems : Nat → (first : Bool) → Reader (List Node)
  | 0, _ => failure
  | n + 1, first => do
    if ← accept (· matches .closeList) then return []
    else
      if !first then expect (· matches .comma)
      if ← accept (· matches .closeList) then return []
      else
        let item ← if ← accept (· matches .key) then
            if ← nextIs endsListKey then failure
            else do
              let key ← node n false false
              let value ← if ← accept (· matches .value) then
                  nodeBefore n endsListValue false false
                else pure (.absent .none)
              pure (.mapping .none [(key, value)])
          else node n false false
        return item :: (← listItems n false)

/-- The entries of a mapping up to its closing bracket, with commas between them. Where no key is
announced, one stands without a value. -/
def mapEntries : Nat → (first : Bool) → Reader (List (Node × Node))
  | 0, _ => failure
  | n + 1, first => do
    if ← accept (· matches .closeMap) then return []
    else
      if !first then expect (· matches .comma)
      if ← accept (· matches .closeMap) then return []
      else
        let entry ← if ← accept (· matches .key) then do
            let key ← nodeBefore n endsMapKey false false
            let value ← if ← accept (· matches .value) then
                nodeBefore n endsMapValue false false
              else pure (.absent .none)
            pure (key, value)
          else do
            let key ← node n false false
            pure (key, .absent .none)
        return entry :: (← mapEntries n false)

end

/-! ### Documents -/

def directives : List Directive → List Token → Option (List Directive × List Token)
  | met, .directive d :: rest =>
    if supported d && !met.any (sameSubject d) then directives (d :: met) rest else none
  | met, rest => some (met, rest)
where
  supported : Directive → Bool
    | .version major minor => major = 1 && (minor = 1 || minor = 2)
    | .shorthand _ _ => true
  sameSubject : Directive → Directive → Bool
    | .version _ _, .version _ _ => true
    | .shorthand a _, .shorthand b _ => a = b
    | _, _ => false

def shorthandsOf (met : List Directive) : List (String × Bytes) :=
  met.filterMap fun
    | .shorthand name meaning => some (name, meaning)
    | .version _ _ => none

def endsDocument : Token → Bool
  | .directive _ | .opening | .closing => true
  | _ => false

/-- The root of the document. After directives it needs an opening, and can then be missing. -/
def root (steps : Nat) : Reader Node := do
  let s ← get
  let (met, rest) ← StateT.lift (directives [] s.tokens)
  set { s with tokens := rest, shorthands := shorthandsOf met ++ s.shorthands }
  if ← accept (· matches .opening) then
    if (← next?).isNone then return .absent .none else nodeBefore steps endsDocument true false
  else if met.isEmpty then node steps true false
  else failure

end Reader

/-- The one document of a text. None if the text is malformed, empty, or holds more than one. -/
def Document.ofText? (text : String) : Option Document := do
  let tokens ← Token.ofText? text
  let (root, s) ← (Reader.root (2 * tokens.length + 2)).run ⟨tokens, .start, defaultShorthands⟩
  if s.tokens.all (· matches .closing) then return ⟨root⟩ else none

end PathPolicy.Yaml
