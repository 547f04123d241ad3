import AttestationIntake.Yaml.Token

/-!
What a document consists of: nodes, and references to nodes that have an anchor. A node that is a
collection is known by its start alone; what it holds is written behind it.
-/

namespace AttestationIntake.Yaml

/-- A scalar with its resolved tag. -/
structure Scalar where
  style : ScalarStyle
  tag : Option String
  text : String
deriving DecidableEq, Repr

inductive Content where
  | scalar (value : Scalar)
  | sequence
  | mapping
deriving DecidableEq, Repr

structure Node where
  content : Content
  mark : Mark
deriving DecidableEq, Repr

namespace Node

/-- What stands where nothing is written. -/
def absent (mark : Mark) : Node := ⟨.scalar ⟨.plain, none, ""⟩, mark⟩

end Node

/-- What is written at a place: a node, or a reference to one by the number of its anchor. -/
inductive Item where
  | node (node : Node)
  | reference (number : Nat)
deriving DecidableEq, Repr

/-! ## Anchors -/

/-- The anchors of a document, latest first. An anchor has as its number how many names there were
before it. A name that is used again takes a new number but does not count twice, so that the next
anchor can take over its number, for all references to it. -/
structure Anchors where
  numbers : List (String × Nat) := []
  nodes : List (Nat × Node) := []

namespace Anchors

def add (anchors : Anchors) (name : String) (node : Node) : Anchors :=
  let number := anchors.numbers.length
  { numbers := (name, number) :: anchors.numbers.filter (·.1 ≠ name)
    nodes := (number, node) :: anchors.nodes }

def number? (anchors : Anchors) (name : String) : Option Nat := anchors.numbers.lookup name

/-- The node that is meant. -/
def follow? (anchors : Anchors) : Item → Option Node
  | .node node => some node
  | .reference number => anchors.nodes.lookup number

end Anchors

end AttestationIntake.Yaml
