import PyStatic.Proofs.Types.FinalWalk
import PyStatic.Proofs.Flow.Suites
import Mathlib.Data.List.Nodup

/-!
Contract: in a module whose nodes have identities of their own, every node is typed once.

The table is filled by the bodies one after the other, and a later note would replace an earlier
one. So it matters that no node is noted twice, neither by one body nor by two.
-/

namespace PyStatic

open List TypeVisit

open BodyContext

def TypeNote.nodes (notes : List TypeNote) : List NodeId :=
  notes.map (·.1)

section Notes

variable {context : BodyContext} {state : TypeState}

theorem TypeNote.nodes_append (first second : List TypeNote) :
    TypeNote.nodes (first ++ second) = TypeNote.nodes first ++ TypeNote.nodes second :=
  map_append

theorem TypeNote.nodes_visits (visits : List TypeVisit) :
    TypeNote.nodes (visits.map (·.note context state)) = TypeVisit.nodes visits := by
  simp [TypeNote.nodes, TypeVisit.nodes, TypeVisit.note, Function.comp_def]

theorem nodes_assignNotesOfAll (type : Option ValueType) (targets : List Expr) :
    TypeNote.nodes (context.assignNotesOfAll type state targets) =
      nodes (Expr.typeVisitsOfAll targets .target) := by
  induction targets generalizing state with
  | nil => rfl
  | cons target _ ih =>
    rw [assignNotesOfAll, Expr.typeVisitsOfAll, TypeNote.nodes_append, ih, nodes_append]
    congr 1
    unfold assignNotes
    cases target with
    | name => rfl
    | _ =>
      simp only [Expr.name?]
      rw [TypeNote.nodes_visits]

theorem nodes_simpleNotes (form : SimpleStmt) :
    TypeNote.nodes (context.simpleNotes state form) = form.typedIds := by
  rw [simpleNotes, TypeNote.nodes_append, TypeNote.nodes_visits, SimpleStmt.typedIds]
  cases form.assignment? with
  | none => rfl
  | some => rw [nodes_assignNotesOfAll]

end Notes

theorem SimpleStmt.accounts (form : SimpleStmt) : Accounts form.typedIds form.outlines := by
  have unassigned {visits : List TypeVisit} {outlines : List (Outline Visited)}
      (accounts : Accounts (nodes visits) outlines) :
      Accounts (nodes visits ++ []) outlines := by
    rwa [append_nil]
  cases form with
  | assign targets value =>
    refine ((Expr.typedOfAll targets .target).accounts.append
      (value.typed .read).accounts).of_count_eq fun node => ?_
    simp only [typedIds, typeVisits, assignment?, List.count_append]
    omega
  | annotatedAssign target hint value =>
    refine ((target.typed .target).accounts.cons ((hint.typed .read).accounts.cons
      (Expr.typedOfOption value).accounts)).of_count_eq fun node => ?_
    cases value with
    | none | some _ =>
      simp only [typedIds, typeVisits, assignment?, Expr.typeVisitsOfAll,
        Expr.typeVisitsOfOption, nodes, map_append, map_nil,
        append_nil, List.count_append]
      omega
  | augmentedAssign target _ value =>
    exact unassigned ((target.typed .read).accounts.visits (value.typed .read).accounts)
  | expr value => exact unassigned (value.typed .read).accounts
  | ret value => exact unassigned (Expr.typedOfOption value).accounts
  | delete targets => exact unassigned (Expr.typedOfAll targets .target).accounts
  | raise exception cause =>
    exact unassigned ((Expr.typedOfOption exception).accounts.visits
      (Expr.typedOfOption cause).accounts)
  | assert test message =>
    exact unassigned ((test.typed .read).accounts.visits (Expr.typedOfOption message).accounts)
  | _ => exact accounts_nil

mutual

theorem Stmt.accounts : ∀ stmt : Stmt, Accounts stmt.typedIds [stmt.outline]
  | .simple _ form => form.accounts.inner rfl rfl rfl
  | .functionDef head body | .classDef head body =>
    (head.typed.accounts.append (Stmt.accountsOfAll body)).definition rfl rfl rfl
  | .branch _ test body orelse | .whileLoop _ test body orelse =>
    (((test.typed .read).accounts.cons (Stmt.accountsOfAll body)).append
      (Stmt.accountsOfAll orelse)).inner rfl rfl rfl
  | .forLoop _ target iter _ body orelse => by
    -- the target is outlined before what is iterated over, and typed after it
    have parts := ((target.typed .target).accounts.cons ((iter.typed .read).accounts.cons
      (Stmt.accountsOfAll body))).append (Stmt.accountsOfAll orelse)
    refine Accounts.inner (parts.of_count_eq fun node => ?_) rfl rfl rfl
    simp only [Stmt.typedIds, List.count_append]
    omega
  | .tryBlock _ body handlers orelse finalbody =>
    ((((Stmt.accountsOfAll body).append (Handler.accounts handlers)).append
      (Stmt.accountsOfAll orelse)).append (Stmt.accountsOfAll finalbody)).inner rfl rfl rfl
  | .withBlock _ items _ body =>
    ((WithItem.typed items).accounts.append (Stmt.accountsOfAll body)).inner rfl rfl rfl
  | .matchOn _ subject cases =>
    ((subject.typed .read).accounts.cons (MatchCase.accounts cases)).inner rfl rfl rfl

theorem Stmt.accountsOfAll : ∀ suite : List Stmt,
    Accounts (Stmt.typedIdsOfAll suite) (Stmt.outlines suite)
  | [] => accounts_nil
  | stmt :: rest => (Stmt.accounts stmt).cons (Stmt.accountsOfAll rest)

theorem Handler.accounts : ∀ handlers : List Handler,
    Accounts (Handler.typedIds handlers) (Handler.outlines handlers)
  | [] => accounts_nil
  | ⟨head, body⟩ :: rest =>
    ((Expr.typedOfOption head.kind).accounts.append (Stmt.accountsOfAll body)).append
      (Handler.accounts rest)

theorem MatchCase.accounts : ∀ cases : List MatchCase,
    Accounts (MatchCase.typedIds cases) (MatchCase.outlines cases)
  | [] => accounts_nil
  | ⟨head, body⟩ :: rest =>
    (head.typed.accounts.append (Stmt.accountsOfAll body)).append (MatchCase.accounts rest)

end

attribute [local simp] Stmt.visitedStmts_outline Stmt.loopIds Stmt.suites

mutual

theorem Stmt.loopIds_sublist : ∀ stmt : Stmt,
    stmt.loopIds.Sublist ((visitedStmts [stmt.outline]).map (·.id))
  | .simple _ _ | .functionDef _ _ | .classDef _ _ => nil_sublist _
  | .branch _ _ body orelse => by
    simpa using ((Stmt.loopIdsOfAll_sublist body).append (Stmt.loopIdsOfAll_sublist orelse)).cons _
  | .forLoop _ _ _ _ body orelse | .whileLoop _ _ body orelse => by
    simpa [Stmt.id, Stmt.mark] using
      (Stmt.loopIdsOfAll_sublist body).append (Stmt.loopIdsOfAll_sublist orelse)
  | .tryBlock _ body handlers orelse finalbody => by
    simpa using ((Stmt.loopIdsOfAll_sublist body).append
      ((Handler.loopIds_sublist handlers).append ((Stmt.loopIdsOfAll_sublist orelse).append
        (Stmt.loopIdsOfAll_sublist finalbody)))).cons _
  | .withBlock _ _ _ body => by
    simpa using (Stmt.loopIdsOfAll_sublist body).cons _
  | .matchOn _ _ cases => by
    simpa using (MatchCase.loopIds_sublist cases).cons _

theorem Stmt.loopIdsOfAll_sublist : ∀ suite : List Stmt,
    (Stmt.loopIdsOfAll suite).Sublist ((visitedStmts (Stmt.outlines suite)).map (·.id))
  | [] => nil_sublist _
  | stmt :: rest => by
    rw [Stmt.loopIdsOfAll, Stmt.outlines, visitedStmts_cons, map_append]
    exact (Stmt.loopIds_sublist stmt).append (Stmt.loopIdsOfAll_sublist rest)

theorem Handler.loopIds_sublist : ∀ handlers : List Handler,
    (Handler.loopIds handlers).Sublist (((handlers.map (·.body)).flatMap fun suite =>
      visitedStmts (Stmt.outlines suite)).map (·.id))
  | [] => nil_sublist _
  | ⟨_, body⟩ :: rest => by
    rw [Handler.loopIds, map_cons, flatMap_cons, map_append]
    exact (Stmt.loopIdsOfAll_sublist body).append (Handler.loopIds_sublist rest)

theorem MatchCase.loopIds_sublist : ∀ cases : List MatchCase,
    (MatchCase.loopIds cases).Sublist (((cases.map (·.body)).flatMap fun suite =>
      visitedStmts (Stmt.outlines suite)).map (·.id))
  | [] => nil_sublist _
  | ⟨_, body⟩ :: rest => by
    rw [MatchCase.loopIds, map_cons, flatMap_cons, map_append]
    exact (Stmt.loopIdsOfAll_sublist body).append (MatchCase.loopIds_sublist rest)

end

namespace Module

variable {module' : Module} {body : InferenceBody}

theorem flatMap_bodyIds (visited : List Visited) :
    visited.flatMap (·.bodyIds) =
      ((visited.filterMap (·.stmt?)).filterMap (·.inferenceBody?)).flatMap
        (fun body => Stmt.typedIdsOfAll body.suite) := by
  rw [filterMap_filterMap]
  induction visited with
  | nil => rfl
  | cons node _ ih =>
    rw [flatMap_cons, filterMap_cons, ih, Visited.bodyIds]
    cases node.stmt?.bind (·.inferenceBody?) with
    | none => rfl
    | some => rfl

/-- What the bodies type, together with what is passed over, is what a visit meets. -/
theorem count_typedIds (module' : Module) (node : NodeId) :
    (module'.inferenceBodies.flatMap fun body => Stmt.typedIdsOfAll body.suite).count node +
        (module'.visited.flatMap (·.skippedIds)).count node =
      (module'.visited.flatMap (·.typedIds)).count node := by
  have account := Stmt.accountsOfAll module'.body node
  rw [flatMap_bodyIds] at account
  rw [inferenceBodies, flatMap_cons, List.count_append]
  exact account

theorem mem_inferenceBodies (isBody : body ∈ module'.inferenceBodies) :
    body = ⟨module'.mark.id, module'.body, false⟩ ∨
      ∃ stmt : Stmt, stmt.OccursIn module'.body ∧ stmt.inferenceBody? = some body := by
  refine (mem_cons.mp isBody).imp id fun isInner => ?_
  obtain ⟨stmt, isVisited, isDefined⟩ := mem_filterMap.mp isInner
  exact ⟨stmt, (Stmt.mem_visitedStmts stmt module'.body).mp isVisited, isDefined⟩

theorem visitedStmts_body_sublist (isBody : body ∈ module'.inferenceBodies) :
    (visitedStmts (Stmt.outlines body.suite)).Sublist module'.allStmts := by
  rcases mem_inferenceBodies isBody with rfl | ⟨stmt, occurs, isDefined⟩
  · exact Sublist.refl _
  · have isSuite : body.suite ∈ stmt.suites := by
      cases stmt with
      | functionDef _ suite | classDef _ suite =>
        cases isDefined
        exact mem_singleton_self suite
      | _ => exact absurd isDefined (by simp [Stmt.inferenceBody?])
    exact (Stmt.visitedStmts_suite_sublist isSuite).trans occurs.visitedStmts_sublist

theorem stmtIds_sublist_nodeIds (module' : Module) :
    (module'.allStmts.map (·.id)).Sublist module'.nodeIds := by
  unfold allStmts nodeIds
  generalize module'.visited = visited
  induction visited with
  | nil => exact Sublist.refl _
  | cons item _ ih =>
    rw [flatMap_cons]
    cases item with
    | stmt form => exact ih.cons_cons form.id
    | _ => exact ih.trans (sublist_append_right ..)

theorem typedIds_sublist_nodeIds (module' : Module) :
    (module'.visited.flatMap (·.typedIds)).Sublist module'.nodeIds := by
  have each (item : Visited) : item.typedIds.Sublist item.ids := by
    cases item with
    | expr form => cases form <;> exact Sublist.refl _
    | pattern form => cases form <;> exact Sublist.refl _
    | _ => exact nil_sublist _
  unfold nodeIds
  generalize module'.visited = visited
  induction visited with
  | nil => exact Sublist.refl _
  | cons item _ ih =>
    rw [flatMap_cons, flatMap_cons]
    exact (each item).append ih

/-- No two bodies type the same node. -/
theorem nodup_typedIds (distinct : module'.nodeIds.Nodup) :
    (module'.inferenceBodies.flatMap fun body => Stmt.typedIdsOfAll body.suite).Nodup := by
  have typedOnce := distinct.sublist module'.typedIds_sublist_nodeIds
  rw [nodup_iff_count_le_one] at typedOnce ⊢
  intro node
  have account := module'.count_typedIds node
  have once := typedOnce node
  omega

theorem nodup_loopIds (distinct : module'.nodeIds.Nodup) (isBody : body ∈ module'.inferenceBodies) :
    (Stmt.loopIdsOfAll body.suite).Nodup := by
  have inModule := (visitedStmts_body_sublist isBody).map (·.id)
  exact distinct.sublist (((Stmt.loopIdsOfAll_sublist body.suite).trans inModule).trans
    module'.stmtIds_sublist_nodeIds)

end Module

namespace TypeTable

variable {notes : List TypeNote} {table : TypeTable} {node : NodeId}

theorem addAll_cons (table : TypeTable) (note : TypeNote) (notes : List TypeNote) :
    table.addAll (note :: notes) = TypeTable.addAll (table.insert note.1 note.2) notes :=
  rfl

theorem getElem?_insert_eq (table : TypeTable) (added node : NodeId) (type : ValueType) :
    (table.insert added type)[node]? = if added = node then some type else table[node]? := by
  simp only [Std.ExtTreeMap.getElem?_insert, Std.compare_eq_iff_eq]

theorem getElem?_addAll_of_not_mem (notNoted : node ∉ TypeNote.nodes notes) :
    (table.addAll notes)[node]? = table[node]? := by
  induction notes generalizing table with
  | nil => rfl
  | cons _ _ ih =>
    simp only [TypeNote.nodes, map_cons, mem_cons, not_or] at notNoted
    rw [addAll_cons, ih notNoted.2, getElem?_insert_eq, if_neg (Ne.symm notNoted.1)]

/-- A node that is noted once keeps that type. -/
theorem getElem?_addAll (distinct : (TypeNote.nodes notes).Nodup) {type : ValueType}
    (isNoted : (node, type) ∈ notes) : (table.addAll notes)[node]? = some type := by
  induction notes generalizing table with
  | nil => exact absurd isNoted (not_mem_nil)
  | cons _ _ ih =>
    obtain ⟨isFresh, distinct⟩ := nodup_cons.mp distinct
    rw [addAll_cons]
    rcases mem_cons.mp isNoted with rfl | later
    · rw [getElem?_addAll_of_not_mem isFresh, getElem?_insert_eq, if_pos rfl]
    · exact ih distinct later

theorem exists_note_or_of_addAll {type : ValueType}
    (recorded : (table.addAll notes)[node]? = some type) :
    (node, type) ∈ notes ∨ table[node]? = some type := by
  induction notes generalizing table with
  | nil => exact .inr recorded
  | cons note _ ih =>
    rw [addAll_cons] at recorded
    rcases ih recorded with later | earlier
    · exact .inl (mem_cons_of_mem note later)
    · rw [getElem?_insert_eq] at earlier
      split at earlier
      next isNode =>
        cases earlier
        exact .inl (mem_cons.mpr (.inl (by rw [← isNode])))
      · exact .inr earlier

end TypeTable

end PyStatic
