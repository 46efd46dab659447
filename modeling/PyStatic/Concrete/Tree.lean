import PyStatic.Text.Range

/-!
Contract: the concrete tree that a grammar gives for a source text.

Every token is a node, punctuation included. A node is *named* when the grammar gives it a rule of
its own, and *extra* when it may stand anywhere, as comments do. A child may carry the label of the
part it plays in its parent.
-/

namespace PyStatic

structure TreeFlags where
  isNamed : Bool
  isExtra : Bool
  isMissing : Bool
  isError : Bool
  hasError : Bool
  deriving DecidableEq, Repr

def TreeFlags.ofBits (bits : Nat) : TreeFlags where
  isNamed := bits.testBit 0
  isExtra := bits.testBit 1
  isMissing := bits.testBit 2
  isError := bits.testBit 3
  hasError := bits.testBit 4

/-- A node without its children; `label` is the part that it plays in its parent. -/
structure TreeNode where
  kind : String
  flags : TreeFlags
  range : TextRange
  label : Option String
  deriving DecidableEq, Repr

inductive Tree where
  | node (info : TreeNode) (children : List Tree)

namespace Tree

def info : Tree → TreeNode
  | node info _ => info

def children : Tree → List Tree
  | node _ children => children

structure Row where
  depth : Nat
  info : TreeNode

/-- The trees deeper than the row, as far as they reach without a gap, are its children. -/
def pushRow (row : Row) (forest : List (Nat × Tree)) : List (Nat × Tree) :=
  let below := forest.takeWhile fun entry => row.depth < entry.1
  let rest := forest.dropWhile fun entry => row.depth < entry.1
  (row.depth, node row.info (below.map (·.2))) :: rest

def forestOfRows (rows : List Row) : List (Nat × Tree) :=
  rows.foldr pushRow []

def ofRows? (rows : List Row) : Option Tree :=
  (forestOfRows rows).head?.map (·.2)

end Tree

end PyStatic
