import PyStatic.Flow.Draw
import PyStatic.Proofs.Syntax.Outlines

/-!
Contract: the statements of a suite.

Owns which statements a visit of a suite meets, and which of them belong to its own control flow.
-/

namespace PyStatic

open List Stmt

namespace Stmt

variable {stmt : Stmt}

def suites : Stmt → List (List Stmt)
  | simple _ _ => []
  | functionDef _ body | classDef _ body | withBlock _ _ _ body => [body]
  | branch _ _ body orelse | whileLoop _ _ body orelse | forLoop _ _ _ _ body orelse =>
    [body, orelse]
  | tryBlock _ body handlers orelse finalbody =>
    body :: handlers.map (·.body) ++ [orelse, finalbody]
  | matchOn _ _ cases => cases.map (·.body)

/-- At any depth, bodies of nested definitions included. -/
inductive OccursIn (stmt : Stmt) : List Stmt → Prop where
  | here {body : List Stmt} (isIn : stmt ∈ body) : OccursIn stmt body
  | inside {body suite : List Stmt} {outer : Stmt} (isIn : outer ∈ body)
      (isSuite : suite ∈ outer.suites) (deeper : OccursIn stmt suite) : OccursIn stmt body

def isTry : Stmt → Bool
  | tryBlock _ _ _ _ _ => true
  | _ => false

def TryFree (body : List Stmt) : Prop :=
  ∀ stmt : Stmt, stmt.OccursIn body → stmt.isTry = false

theorem OccursIn.mono {body larger : List Stmt} (occurs : stmt.OccursIn body)
    (isPart : body ⊆ larger) : stmt.OccursIn larger := by
  cases occurs with
  | here isIn => exact .here (isPart isIn)
  | inside isIn isSuite deeper => exact .inside (isPart isIn) isSuite deeper

theorem TryFree.mono {body part : List Stmt} (free : TryFree body) (isPart : part ⊆ body) :
    TryFree part :=
  fun _ occurs => free _ (occurs.mono isPart)

theorem TryFree.head {rest : List Stmt} (free : TryFree (stmt :: rest)) : TryFree [stmt] :=
  free.mono (by simp)

theorem TryFree.tail {rest : List Stmt} (free : TryFree (stmt :: rest)) : TryFree rest :=
  free.mono (by simp)

theorem TryFree.suite {rest suite : List Stmt} (free : TryFree (stmt :: rest))
    (isSuite : suite ∈ stmt.suites) : TryFree suite :=
  fun _ occurs => free _ (.inside (mem_cons_self ..) isSuite occurs)

theorem sizeOf_suite_lt {suite : List Stmt} (isSuite : suite ∈ stmt.suites) :
    sizeOf suite < sizeOf stmt := by
  cases stmt with
  | simple mark form => exact absurd isSuite (not_mem_nil)
  | tryBlock mark body handlers orelse finalbody =>
    simp only [suites, cons_append, mem_cons, mem_append, mem_map, not_mem_nil, or_false] at isSuite
    rcases isSuite with rfl | ⟨handler, isHandler, rfl⟩ | rfl | rfl
    · simp only [tryBlock.sizeOf_spec]; omega
    · have smaller := sizeOf_lt_of_mem isHandler
      cases handler
      simp at smaller ⊢
      omega
    · simp only [tryBlock.sizeOf_spec]; omega
    · simp only [tryBlock.sizeOf_spec]; omega
  | matchOn mark subject cases =>
    obtain ⟨clause, isClause, rfl⟩ := mem_map.mp isSuite
    have smaller := sizeOf_lt_of_mem isClause
    cases clause
    simp at smaller ⊢
    omega
  | _ =>
    simp only [suites, mem_cons, not_mem_nil, or_false] at isSuite
    rcases isSuite with rfl | rfl <;> simp <;> omega

end Stmt

def visitedStmts (outlines : List (Outline Visited)) : List Stmt :=
  (Outline.preorderOfAll outlines).filterMap (·.stmt?)

theorem visitedStmts_append (first second : List (Outline Visited)) :
    visitedStmts (first ++ second) = visitedStmts first ++ visitedStmts second := by
  rw [visitedStmts, Outline.preorderOfAll_append, filterMap_append]
  rfl

theorem visitedStmts_cons (outline : Outline Visited) (rest : List (Outline Visited)) :
    visitedStmts (outline :: rest) = visitedStmts [outline] ++ visitedStmts rest :=
  visitedStmts_append [outline] rest

theorem visitedStmts_node (stmt : Stmt) (below : List (Outline Visited)) :
    visitedStmts [.node (.stmt stmt) below] = stmt :: visitedStmts below := by
  simp [visitedStmts, Outline.preorderOfAll, Outline.preorder, Visited.stmt?]

theorem StmtFree.visitedStmts_eq {outlines : List (Outline Visited)} (free : StmtFree outlines) :
    visitedStmts outlines = [] :=
  filterMap_eq_nil_iff.mpr free

theorem visitedStmts_map (nodes : List Visited) :
    visitedStmts (nodes.map Visited.outline) =
      (nodes.filterMap (·.stmt?)).flatMap fun stmt => visitedStmts [stmt.outline] := by
  induction nodes with
  | nil => rfl
  | cons node rest ih =>
    rw [map_cons, visitedStmts_cons, ih]
    cases isStmt : node.stmt? with
    | none => rw [(node.stmtFree isStmt).visitedStmts_eq, filterMap_cons_none isStmt]; rfl
    | some stmt =>
      obtain rfl : node = .stmt stmt := by cases node <;> simp_all [Visited.stmt?]
      rfl

theorem Stmt.visitedStmts_outlines (body : List Stmt) :
    visitedStmts (Stmt.outlines body) = body.flatMap fun stmt => visitedStmts [stmt.outline] := by
  rw [outlines_eq_map, visitedStmts_map, filterMap_map]
  exact congrArg _ filterMap_some

theorem Stmt.stmts_parts (stmt : Stmt) :
    stmt.parts.filterMap (·.stmt?) = stmt.suites.flatMap fun suite => suite := by
  cases stmt with
  | simple _ form => cases form <;> simp [parts, SimpleStmt.parts, suites, Visited.stmt?]
  | _ => simp [parts, suites, Visited.stmt?, filterMap_flatMap, flatMap_map]

/-- A statement is met before the statements of its suites. -/
theorem Stmt.visitedStmts_outline (stmt : Stmt) :
    visitedStmts [stmt.outline] =
      stmt :: stmt.suites.flatMap fun suite => visitedStmts (Stmt.outlines suite) := by
  simp only [visitedStmts_outlines]
  rw [← flatMap_assoc, ← stmts_parts, ← visitedStmts_map, ← visitedStmts_node]
  exact congrArg (visitedStmts [·]) (Visited.outline_eq (.stmt stmt))

theorem Stmt.occursIn_of_visited (inner : Stmt) (body : List Stmt)
    (visited : inner ∈ visitedStmts (Stmt.outlines body)) : inner.OccursIn body := by
  rw [visitedStmts_outlines] at visited
  obtain ⟨stmt, isIn, visited⟩ := mem_flatMap.mp visited
  rw [visitedStmts_outline] at visited
  rcases mem_cons.mp visited with rfl | visited
  · exact .here isIn
  · obtain ⟨suite, isSuite, visited⟩ := mem_flatMap.mp visited
    have smaller := sizeOf_suite_lt isSuite
    have within := sizeOf_lt_of_mem isIn
    exact .inside isIn isSuite (occursIn_of_visited inner suite visited)
termination_by sizeOf body
decreasing_by omega

theorem Stmt.mem_visitedStmts (inner : Stmt) (body : List Stmt) :
    inner ∈ visitedStmts (Stmt.outlines body) ↔ inner.OccursIn body := by
  refine ⟨occursIn_of_visited inner body, ?_⟩
  intro occurs
  induction occurs with
  | here isIn =>
    rw [visitedStmts_outlines, mem_flatMap]
    exact ⟨inner, isIn, by rw [visitedStmts_outline]; exact mem_cons_self ..⟩
  | inside isIn isSuite deeper ih =>
    next outer =>
    rw [visitedStmts_outlines, mem_flatMap]
    refine ⟨outer, isIn, ?_⟩
    rw [visitedStmts_outline]
    exact mem_cons_of_mem _ (mem_flatMap.mpr ⟨_, isSuite, ih⟩)

theorem sublist_flatMap_of_mem {α β : Type} (parts : α → List β) {item : α} {items : List α}
    (isIn : item ∈ items) : (parts item).Sublist (items.flatMap parts) := by
  obtain ⟨before, after, rfl⟩ := append_of_mem isIn
  rw [flatMap_append, flatMap_cons]
  exact (sublist_append_left ..).trans (sublist_append_right ..)

theorem Stmt.visitedStmts_suite_sublist {stmt : Stmt} {suite : List Stmt}
    (isSuite : suite ∈ stmt.suites) :
    (visitedStmts (Stmt.outlines suite)).Sublist (visitedStmts [stmt.outline]) := by
  rw [visitedStmts_outline]
  exact (sublist_flatMap_of_mem (fun suite => visitedStmts (Stmt.outlines suite)) isSuite).cons stmt

theorem Stmt.OccursIn.visitedStmts_sublist {inner : Stmt} {body : List Stmt}
    (occurs : inner.OccursIn body) :
    (visitedStmts [inner.outline]).Sublist (visitedStmts (Stmt.outlines body)) := by
  induction occurs with
  | here isIn =>
    rw [visitedStmts_outlines]
    exact sublist_flatMap_of_mem (fun stmt => visitedStmts [stmt.outline]) isIn
  | inside isIn isSuite deeper ih =>
    rw [visitedStmts_outlines]
    exact (ih.trans (visitedStmts_suite_sublist isSuite)).trans
      (sublist_flatMap_of_mem (fun stmt => visitedStmts [stmt.outline]) isIn)

theorem Stmt.containTry_eq_false_iff (body : List Stmt) :
    Stmt.containTry body = false ↔ Stmt.TryFree body := by
  rw [Stmt.containTry, any_eq_false]
  constructor
  · intro noTry stmt occurs
    obtain ⟨visited, isVisited, isStmt⟩ :=
      mem_filterMap.mp ((mem_visitedStmts stmt body).mpr occurs)
    have isNoTry := noTry visited isVisited
    cases visited with
    | stmt form =>
      rw [← Option.some.inj isStmt]
      cases form <;> first | rfl | exact absurd rfl isNoTry
    | _ => exact absurd isStmt (by simp [Visited.stmt?])
  · intro free visited isVisited isTry
    cases visited with
    | stmt form =>
      have occurs := (mem_visitedStmts form body).mp (mem_filterMap.mpr ⟨_, isVisited, rfl⟩)
      have isNoTry := free form occurs
      cases form <;> simp [Visited.isTry, Stmt.isTry] at isTry isNoTry
    | _ => exact absurd isTry (by simp [Visited.isTry])

mutual

def Stmt.ownElements : Stmt → List Element
  | .simple mark form => [.stmt (.simple mark form)]
  | .functionDef head body => [.stmt (.functionDef head body)]
  | .classDef head body => [.stmt (.classDef head body)]
  | .branch mark test body orelse =>
    .stmt (.branch mark test body orelse) ::
      (Stmt.ownElementsOfAll body ++ Stmt.ownElementsOfAll orelse)
  | .forLoop mark target iter isAsync body orelse =>
    .stmt (.forLoop mark target iter isAsync body orelse) ::
      (Stmt.ownElementsOfAll body ++ Stmt.ownElementsOfAll orelse)
  | .whileLoop mark test body orelse =>
    .stmt (.whileLoop mark test body orelse) ::
      (Stmt.ownElementsOfAll body ++ Stmt.ownElementsOfAll orelse)
  | .tryBlock mark body handlers orelse finalbody =>
    .stmt (.tryBlock mark body handlers orelse finalbody) ::
      (Stmt.ownElementsOfAll body ++ Handler.ownElements handlers ++
        Stmt.ownElementsOfAll orelse ++ Stmt.ownElementsOfAll finalbody)
  | .withBlock mark items isAsync body =>
    .stmt (.withBlock mark items isAsync body) :: Stmt.ownElementsOfAll body
  | .matchOn mark subject cases =>
    .stmt (.matchOn mark subject cases) :: MatchCase.ownElements cases

def Stmt.ownElementsOfAll : List Stmt → List Element
  | [] => []
  | stmt :: rest => stmt.ownElements ++ Stmt.ownElementsOfAll rest

def Handler.ownElements : List Handler → List Element
  | [] => []
  | ⟨_, body⟩ :: rest => Stmt.ownElementsOfAll body ++ Handler.ownElements rest

def MatchCase.ownElements : List MatchCase → List Element
  | [] => []
  | ⟨head, body⟩ :: rest =>
    .case ⟨head, body⟩ :: (Stmt.ownElementsOfAll body ++ MatchCase.ownElements rest)

end

/-- Nested definitions are counted, and their bodies are not entered. -/
def Stmt.ownIds (body : List Stmt) : List NodeId :=
  (Stmt.ownElementsOfAll body).map (·.id)

end PyStatic
