import PyStatic.Concrete.Tree
import Mathlib.Data.List.Basic

/-!
Contract: the parts of a concrete tree.
-/

namespace PyStatic.Tree

open List

variable {found : List TreeNode × Tree}

inductive Every (asked : TreeNode → List Tree → Prop) : Tree → Prop
  | node {info : TreeNode} {children : List Tree} (top : asked info children)
      (below : ∀ child ∈ children, child.Every asked) : Every asked (.node info children)

theorem every_node {asked : TreeNode → List Tree → Prop} {info : TreeNode} {children : List Tree} :
    (node info children).Every asked ↔
      asked info children ∧ ∀ child ∈ children, child.Every asked := by
  constructor
  · rintro ⟨top, below⟩
    exact ⟨top, below⟩
  · rintro ⟨top, below⟩
    exact .node top below

mutual

def lineages (above : List TreeNode) : Tree → List (List TreeNode × Tree)
  | node info children => (above, node info children) :: lineagesOfAll (info :: above) children

def lineagesOfAll (above : List TreeNode) : List Tree → List (List TreeNode × Tree)
  | [] => []
  | tree :: rest => lineages above tree ++ lineagesOfAll above rest

end

/-- The tree itself and all below it, in pre-order. -/
def subtrees (tree : Tree) : List Tree :=
  (tree.lineages []).map (·.2)

mutual

theorem map_lineages (above : List TreeNode) : ∀ tree : Tree,
    (tree.lineages above).map (·.2) = tree.subtrees
  | node _ children => by
    simp [subtrees, lineages, map_lineagesOfAll _ children]

theorem map_lineagesOfAll (above : List TreeNode) : ∀ trees : List Tree,
    (lineagesOfAll above trees).map (·.2) = trees.flatMap subtrees
  | [] => rfl
  | tree :: rest => by
    simp [lineagesOfAll, map_lineages _ tree, map_lineagesOfAll _ rest]

end

theorem subtrees_node (info : TreeNode) (children : List Tree) :
    (node info children).subtrees = node info children :: children.flatMap subtrees := by
  simp [subtrees, lineages, map_lineagesOfAll]

mutual

theorem subset_of_mem_lineages {above : List TreeNode} :
    ∀ tree : Tree, found ∈ tree.lineages above → above ⊆ found.1
  | node _ children => by
    rw [lineages, mem_cons]
    rintro (rfl | isBelow)
    · exact Subset.refl _
    · exact subset_of_cons_subset (subset_of_mem_lineagesOfAll children isBelow)

theorem subset_of_mem_lineagesOfAll {above : List TreeNode} :
    ∀ trees : List Tree, found ∈ lineagesOfAll above trees → above ⊆ found.1
  | [] => by simp [lineagesOfAll]
  | tree :: rest => by
    rw [lineagesOfAll, mem_append]
    rintro (isFirst | isLater)
    · exact subset_of_mem_lineages tree isFirst
    · exact subset_of_mem_lineagesOfAll rest isLater

end

end PyStatic.Tree
