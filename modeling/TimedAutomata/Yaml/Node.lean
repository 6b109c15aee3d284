import TimedAutomata.Yaml.Token

/-!
# Nodes

What a document is made of: scalars, sequences and mappings, and aliases that stand for nodes
written elsewhere.

- `Node`: nodes, with their anchors and tags
- `Node.anchored`: the nodes that carry an anchor
- `Node.size`: how much is written
-/

namespace TimedAutomata
namespace Yaml

/-- What may stand in front of a node. Anchors are numbers here. -/
structure Properties where
  anchor : Option Nat
  tag : Option Tag
  deriving DecidableEq, Repr, Inhabited

namespace Properties

def none : Properties := ⟨.none, .none⟩

def isNone (p : Properties) : Bool :=
  p.anchor.isNone && p.tag.isNone

end Properties

inductive Node where
  | scalar (properties : Properties) (style : Style) (text : String)
  | sequence (properties : Properties) (items : List Node)
  | mapping (properties : Properties) (entries : List (Node × Node))
  /-- Stands for the node with an anchor. -/
  | alias (anchor : Nat)
  /-- No document at all. -/
  | absent
  deriving Repr, Inhabited

namespace Node

/-- What stands where nothing is written. -/
def empty : Node := .scalar .none .plain ""

def properties : Node → Properties
  | .scalar p _ _ | .sequence p _ | .mapping p _ => p
  | .alias _ | .absent => .none

/-- A node with its anchor, if it has one. -/
def labelled (n : Node) : List (Nat × Node) :=
  match n.properties.anchor with
  | some a => [(a, n)]
  | none => []

mutual

/-- The nodes with anchors in the order in which they start. -/
def anchored : Node → List (Nat × Node)
  | .scalar p style text => labelled (.scalar p style text)
  | .sequence p items => labelled (.sequence p items) ++ anchoredItems items
  | .mapping p entries => labelled (.mapping p entries) ++ anchoredEntries entries
  | .alias _ | .absent => []

def anchoredItems : List Node → List (Nat × Node)
  | [] => []
  | n :: ns => anchored n ++ anchoredItems ns

def anchoredEntries : List (Node × Node) → List (Nat × Node)
  | [] => []
  | (k, v) :: es => anchored k ++ anchored v ++ anchoredEntries es

end

mutual

/-- The number of scalars and aliases, and of starts and ends of collections. -/
def size : Node → Nat
  | .scalar .. | .alias _ | .absent => 1
  | .sequence _ items => sizeItems items + 2
  | .mapping _ entries => sizeEntries entries + 2

def sizeItems : List Node → Nat
  | [] => 0
  | n :: ns => size n + sizeItems ns

def sizeEntries : List (Node × Node) → Nat
  | [] => 0
  | (k, v) :: es => size k + size v + sizeEntries es

end

end Node
end Yaml
end TimedAutomata
