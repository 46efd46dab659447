import PyStatic.Proofs.Flow.Strokes
import Mathlib.Data.List.Perm.Basic

/-!
Contract: the blocks of a flow graph share out the statements of a function.

Both sides are read off the syntax alone. Whether control can reach a statement plays no part: what
stands after a jump is drawn into a block of its own.
-/

namespace PyStatic

open List

namespace FlowGraph

variable {graph result : FlowGraph}

theorem allElements_addBlock (graph : FlowGraph) (kind : BlockKind) :
    (graph.addBlock kind).allElements = graph.allElements := by
  have last : graph.elements graph.size = [] := elements_of_size_le graph (Nat.le_refl _)
  have same : (graph.addBlock kind).elements = graph.elements :=
    funext (elements_addBlock graph kind)
  simp [allElements, ids, range_succ, last, same]

theorem allElements_addEdgeFrom (graph : FlowGraph) (source : Option BlockId) (target : BlockId) :
    (graph.addEdgeFrom source target).allElements = graph.allElements := by
  have same : (graph.addEdgeFrom source target).elements = graph.elements :=
    funext (elements_addEdgeFrom graph source target)
  simp [allElements, ids, same]

theorem allElements_addElement (graph : FlowGraph) {block : Nat} (element : Element)
    (inRange : block < graph.size) :
    (graph.addElement block element).allElements.Perm (graph.allElements ++ [element]) := by
  obtain ⟨before, after, split⟩ := append_of_mem (List.mem_range.mpr inRange)
  have distinct : (before ++ block :: after).Nodup := split ▸ nodup_range
  have unchanged : ∀ others : List Nat, block ∉ others →
      others.flatMap (graph.addElement block element).elements =
        others.flatMap graph.elements := by
    intro others absent
    apply flatMap_congr
    intro other isOther
    exact elements_addElement_of_ne graph element (fun same => absent (same ▸ isOther))
  have absentBefore : block ∉ before := fun isIn =>
    (nodup_append.mp distinct).2.2 block isIn block (mem_cons_self ..) rfl
  have absentAfter : block ∉ after :=
    (nodup_cons.mp (nodup_append.mp distinct).2.1).1
  simp only [allElements, ids, size_addElement, split, flatMap_append, flatMap_cons,
    unchanged before absentBefore, unchanged after absentAfter,
    elements_addElement_self graph element inRange, append_assoc]
  apply Perm.append_left
  apply Perm.append_left
  exact perm_append_comm

theorem Stroke.allElements {placed : List Element} (stroke : Stroke graph placed result) :
    result.allElements.Perm (graph.allElements ++ placed) := by
  cases stroke with
  | block =>
    rw [allElements_addBlock, append_nil]
  | header =>
    rw [← allElements_addBlock graph .loopHeader]
    exact allElements_addElement _ _ (by simp)
  | element isNormal => exact allElements_addElement graph _ (lt_size_of_kind? isNormal)
  | edge =>
    rw [append_nil]
    exact .of_eq (allElements_addEdgeFrom graph (some _) _)

theorem Strokes.allElements {placed : List Element} (strokes : Strokes graph placed result) :
    result.allElements.Perm (graph.allElements ++ placed) := by
  induction strokes with
  | refl => rw [append_nil]
  | tail _ stroke ih =>
    rw [← append_assoc]
    exact stroke.allElements.trans (ih.append_right _)

end FlowGraph

theorem Stmt.graph_allElements (body : List Stmt) (free : Stmt.TryFree body) :
    (Stmt.graph body).allElements.Perm (Stmt.ownElementsOfAll body) :=
  (Stmt.graph_leads free).strokes.allElements

/-- Without `try` the blocks share out the statements and clauses of a function, each once. -/
theorem FunctionDef.flow_partitions_body (function : FunctionDef) :
    (function.flow?.isSome ↔ ¬ ∃ stmt : Stmt, stmt.OccursIn function.body ∧ stmt.isTry = true) ∧
      ∀ graph, function.flow? = some graph →
        ((graph.ids.flatMap graph.elements).map (·.id)).Perm (Stmt.ownIds function.body) := by
  have tryFree : Stmt.containTry function.body = false ↔
      ¬ ∃ stmt : Stmt, stmt.OccursIn function.body ∧ stmt.isTry = true := by
    rw [Stmt.containTry_eq_false_iff, Stmt.TryFree]
    simp
  constructor
  · rw [← tryFree, FunctionDef.flow?]
    cases Stmt.containTry function.body <;> simp
  · intro graph drawn
    rw [FunctionDef.flow?] at drawn
    split at drawn
    · exact absurd drawn (by simp)
    · next noTry =>
        rw [← Option.some.inj drawn]
        exact (Stmt.graph_allElements function.body ((Stmt.containTry_eq_false_iff _).mp
          (by simpa using noTry))).map _

def FunctionDef.dispatching : FunctionDef :=
  let mark (id : NodeId) : Mark := ⟨id, ⟨0, 0⟩⟩
  let clause : CaseHead := ⟨mark 4, .wildcard ⟨0, 0⟩, none⟩
  let inner : FunctionHead := ⟨mark 7, ⟨mark 8, "inner"⟩, [], none, [], false⟩
  ⟨⟨mark 0, ⟨mark 1, "dispatch"⟩, [], none, [], false⟩,
    [.matchOn (mark 2) (.name ⟨mark 3, "value"⟩)
        [⟨clause, [.simple (mark 5) (.ret none), .simple (mark 6) .pass]⟩],
      .functionDef inner [.simple (mark 9) .pass]]⟩

theorem FunctionDef.dispatching_partition :
    ∃ graph, FunctionDef.dispatching.flow? = some graph ∧
      ((graph.ids.flatMap graph.elements).map (·.id)).Perm [2, 4, 5, 6, 7] := by
  obtain ⟨graph, drawn⟩ :=
    Option.isSome_iff_exists.mp (show FunctionDef.dispatching.flow?.isSome = true by decide)
  exact ⟨graph, drawn, (FunctionDef.flow_partitions_body FunctionDef.dispatching).2 graph drawn⟩

end PyStatic
