import PathPolicy.Members
import PathPolicy.Yaml.Scalar

/-!
What a YAML text says: scalars, sequences and mappings. A node that was given a name has a label,
and stands also where the label is referred to. A name that is given again gets the label that
the next new name will get, so that two names can come to share one; the node that begins last
under a label is the one that is meant.
-/

namespace PathPolicy.Yaml

structure Properties where
  label : Option Nat
  tag : Option Bytes

def Properties.none : Properties := ⟨.none, .none⟩

inductive Node
  | scalar (properties : Properties) (text : String) (style : Style)
  | sequence (properties : Properties) (items : List Node)
  | mapping (properties : Properties) (entries : List (Node × Node))
  | reference (label : Nat)

structure Labels where
  names : List (String × Nat)

namespace Labels

def start : Labels := ⟨[]⟩

def label? (labels : Labels) (name : String) : Option Nat := Members.find? name labels.names

def give (labels : Labels) (name : String) : Nat × Labels :=
  let label := labels.names.length
  (label, ⟨Members.insert name label labels.names⟩)

theorem label?_give (labels : Labels) (name : String) :
    (labels.give name).2.label? name = some (labels.give name).1 :=
  Members.find?_insert_self name _ labels.names

theorem label?_give_of_ne {name other : String} (h : name ≠ other) (labels : Labels) :
    (labels.give name).2.label? other = labels.label? other :=
  Members.find?_insert_of_ne h _ labels.names

end Labels

namespace Node

def absent (properties : Properties) : Node := .scalar properties "" .plain

mutual

/-- The nodes with labels, in the order in which they begin. -/
def labelled : Node → List (Nat × Node)
  | scalar properties text style =>
    (properties.label.map fun label => (label, scalar properties text style)).toList
  | sequence properties items =>
    (properties.label.map fun label => (label, sequence properties items)).toList
      ++ labelledItems items
  | mapping properties entries =>
    (properties.label.map fun label => (label, mapping properties entries)).toList
      ++ labelledEntries entries
  | reference _ => []

def labelledItems : List Node → List (Nat × Node)
  | [] => []
  | item :: rest => labelled item ++ labelledItems rest

def labelledEntries : List (Node × Node) → List (Nat × Node)
  | [] => []
  | (key, value) :: rest => labelled key ++ labelled value ++ labelledEntries rest

end

end Node

structure Document where
  root : Node

def Document.resolve? (d : Document) : Node → Option Node
  | .reference label => d.root.labelled.reverse.lookup label
  | n => some n

end PathPolicy.Yaml
