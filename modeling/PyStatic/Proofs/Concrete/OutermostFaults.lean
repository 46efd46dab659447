import PyStatic.Concrete.Fault
import PyStatic.Proofs.Concrete.Subtrees

/-!
Contract: the faults that are reported are the outermost ones.

The search keeps a stack of trees and passes over whole subtrees by their flags. What it should find
is said without either: all nodes in pre-order, filtered by what stands around them.
-/

namespace PyStatic.Tree

open List

def isOutermostFault (found : List TreeNode × Tree) : Bool :=
  found.2.info.isFault && found.1.all (!·.isFault)

def outermostFaults (above : List TreeNode) (tree : Tree) : List TreeNode :=
  ((tree.lineages above).filter isOutermostFault).map (·.2.info)

/-- The error flag of a node tells whether there is a fault in it. -/
def ReportsFaults : Tree → Prop :=
  Every fun info children => info.flags.hasError = true ↔
    ∃ part ∈ (node info children).subtrees, part.info.isFault = true

theorem outermostFaults_of_fault {info : TreeNode} (isFault : info.isFault = true)
    {above : List TreeNode} (isFree : ∀ outer ∈ above, outer.isFault = false)
    (children : List Tree) : outermostFaults above (node info children) = [info] := by
  have nothingInside : (lineagesOfAll (info :: above) children).filter isOutermostFault = [] := by
    refine filter_eq_nil_iff.mpr fun found isFound => ?_
    have isIn := subset_of_mem_lineagesOfAll children isFound mem_cons_self
    simp [isOutermostFault]
    exact fun _ => ⟨info, isIn, isFault⟩
  have isOutermost : isOutermostFault (above, node info children) = true := by
    simp [isOutermostFault, Tree.info, isFault]
    exact isFree
  simp [outermostFaults, lineages, isOutermost, nothingInside, Tree.info]

theorem outermostFaults_of_not_fault {info : TreeNode} (noFault : info.isFault = false)
    (above : List TreeNode) (children : List Tree) :
    outermostFaults above (node info children) =
      children.flatMap (outermostFaults (info :: above)) := by
  have isInner : isOutermostFault (above, node info children) = false := by
    simp [isOutermostFault, Tree.info, noFault]
  have below : ∀ trees : List Tree,
      ((lineagesOfAll (info :: above) trees).filter isOutermostFault).map (·.2.info) =
        trees.flatMap (outermostFaults (info :: above)) := by
    intro trees
    induction trees with
    | nil => rfl
    | cons _ _ ih => simp [lineagesOfAll, ih, outermostFaults]
  simp [outermostFaults, lineages, isInner, below]

theorem outermostFaults_of_not_mem {tree : Tree}
    (noFault : ∀ part ∈ tree.subtrees, part.info.isFault = false) (above : List TreeNode) :
    outermostFaults above tree = [] := by
  rw [outermostFaults, map_eq_nil_iff, filter_eq_nil_iff]
  intro found isFound
  have isPart : found.2 ∈ tree.subtrees := by
    rw [← map_lineages above]
    exact mem_map_of_mem isFound
  simp [isOutermostFault, noFault found.2 isPart]

theorem outermostFaults_eq_nil_above {tree : Tree} (reports : tree.ReportsFaults) :
    ∀ above : List TreeNode, (∀ outer ∈ above, outer.isFault = false) →
      outermostFaults above tree = outermostFaults [] tree := by
  induction reports with
  | @node info _ _ _ ih =>
    intro above isFree
    cases isFault : info.isFault with
    | true =>
      rw [outermostFaults_of_fault isFault isFree, outermostFaults_of_fault isFault (by simp)]
    | false =>
      rw [outermostFaults_of_not_fault isFault, outermostFaults_of_not_fault isFault]
      refine flatMap_congr fun child isChild => ?_
      rw [ih child isChild _ (forall_mem_cons.mpr ⟨isFault, isFree⟩),
        ih child isChild _ (forall_mem_singleton.mpr isFault)]

theorem faultNodes_eq_flatMap (trees : List Tree) (reports : ∀ tree ∈ trees, tree.ReportsFaults) :
    faultNodes trees = trees.flatMap (outermostFaults []) := by
  induction trees using faultNodes.induct with
  | case1 => rw [faultNodes, flatMap_nil]
  | case2 _ _ _ isFault ih =>
    rw [faultNodes, if_pos isFault, ih (forall_mem_cons.mp reports).2, flatMap_cons,
      outermostFaults_of_fault isFault (by simp), singleton_append]
  | case3 info _ _ noFault hasError ih =>
    obtain ⟨top, later⟩ := forall_mem_cons.mp reports
    have below := (every_node.mp top).2
    have isNone : info.isFault = false := by simpa using noFault
    rw [faultNodes, if_neg noFault, if_pos hasError, ih (forall_mem_append.mpr ⟨below, later⟩),
      flatMap_append, flatMap_cons, outermostFaults_of_not_fault isNone]
    congr 1
    exact flatMap_congr fun child isChild => (outermostFaults_eq_nil_above (below child isChild) _
      (forall_mem_singleton.mpr isNone)).symm
  | case4 _ _ _ noFault noError ih =>
    obtain ⟨top, later⟩ := forall_mem_cons.mp reports
    have nothingInside := (every_node.mp top).1.not.mp noError
    rw [faultNodes, if_neg noFault, if_neg noError, ih later, flatMap_cons,
      outermostFaults_of_not_mem (by simpa using nothingInside), nil_append]

/-- The faults of a tree are the faulty nodes with no fault around them, in pre-order. -/
theorem faults_outermost (source : Source) (root : Tree) (reports : root.ReportsFaults) :
    root.faults source =
      ((root.lineages []).filter fun found =>
        found.2.info.isFault && found.1.all fun outer => !outer.isFault).map fun found =>
          ⟨found.2.info.faultCause, source.startPosition found.2.info.range.start,
            found.2.info.range⟩ := by
  have isSearch : root.faults source = (outermostFaults [] root).map fun info =>
      ⟨info.faultCause, source.startPosition info.range.start, info.range⟩ := by
    unfold faults
    split
    · have found := faultNodes_eq_flatMap [root] (forall_mem_singleton.mpr reports)
      simp [found]
    next noError =>
      have nothingInside : ∀ part ∈ root.subtrees, part.info.isFault = false := by
        cases root
        simpa using (every_node.mp reports).1.not.mp noError
      rw [outermostFaults_of_not_mem nothingInside, map_nil]
  rw [isSearch, outermostFaults, map_map]
  rfl

def torn : Tree :=
  let tree (kind : String) (bits start stop : Nat) : List Tree → Tree :=
    node ⟨kind, .ofBits bits, ⟨start, stop⟩, none⟩
  tree "module" 17 0 6 [tree "call" 17 0 6 [tree "identifier" 1 0 1 [],
    tree "argument_list" 17 1 6 [tree "identifier" 1 2 3 [],
      tree "ERROR" 25 4 5 [tree "identifier" 21 4 4 []], tree ")" 20 5 5 []]]]

theorem torn_reportsFaults : torn.ReportsFaults := by
  simp [ReportsFaults, torn, every_node, subtrees_node, TreeNode.isFault, TreeFlags.ofBits, info]
  decide

theorem faults_torn :
    torn.ReportsFaults ∧
      (torn.faults ⟨"f(x y\n"⟩).map (fun fault => (fault.cause, fault.range)) =
        [(.invalid, ⟨4, 5⟩), (.missing ")", ⟨5, 5⟩)] := by
  refine ⟨torn_reportsFaults, ?_⟩
  rw [faults_outermost _ _ torn_reportsFaults]
  rfl

end PyStatic.Tree
