import PyStatic.Proofs.Binding.OwnedScopes
import PyStatic.Proofs.Types.PendingBodies

/-!
Contract: every expression of a module is typed, and noted once.
-/

namespace PyStatic

open List TypeNote Stmt

def Visited.Unhinted (item : Visited) : Prop :=
  ∀ parameter ∈ item.lambdaParameters, parameter.hint = none

instance : DecidablePred Visited.Unhinted := fun item =>
  inferInstanceAs (Decidable (∀ parameter ∈ item.lambdaParameters, parameter.hint = none))

theorem Visited.Unhinted.skippedIds_eq {item : Visited} (unhinted : item.Unhinted) :
    item.skippedIds = [] := by
  have noVisits : (item.lambdaParameters.flatMap fun parameter =>
      Expr.typeVisitsOfOption parameter.hint) = [] := by
    rw [flatMap_eq_nil_iff]
    intro parameter isIn
    rw [unhinted parameter isIn]
    rfl
  rw [Visited.skippedIds, noVisits]
  rfl

namespace Module

theorem skippedIds_eq {module' : Module} (unhinted : ∀ item ∈ module'.visited, item.Unhinted) :
    module'.visited.flatMap (·.skippedIds) = [] :=
  flatMap_eq_nil_iff.mpr fun item isIn => (unhinted item isIn).skippedIds_eq

/-- An expression, the target of an assignment expression, or a captured name. -/
def TypesAt (module' : Module) (node : NodeId) : Prop :=
  (∃ expr, .expr expr ∈ module'.visited ∧ node = expr.id) ∨
    (∃ mark target value, .expr (.named mark target value) ∈ module'.visited ∧ node = target.id) ∨
    ∃ name, .pattern (.capture name) ∈ module'.visited ∧ node = name.id

theorem typesAt_iff (module' : Module) (node : NodeId) :
    module'.TypesAt node ↔ node ∈ module'.visited.flatMap (·.typedIds) := by
  rw [mem_flatMap]
  constructor
  · rintro (⟨expr, isIn, rfl⟩ | ⟨mark, target, value, isIn, rfl⟩ | ⟨name, isIn, rfl⟩)
    · refine ⟨_, isIn, ?_⟩
      cases expr <;> simp [Visited.typedIds, Expr.id, Expr.mark]
    · exact ⟨_, isIn, mem_cons_self ..⟩
    · exact ⟨_, isIn, mem_cons_self ..⟩
  · rintro ⟨item, isIn, isTyped⟩
    cases item with
    | expr form =>
      cases form with
      | named mark target value =>
        rcases mem_cons.mp isTyped with rfl | isMark
        · exact .inr (.inl ⟨mark, target, value, isIn, rfl⟩)
        · exact .inl ⟨_, isIn, mem_singleton.mp isMark⟩
      | _ => exact .inl ⟨_, isIn, mem_singleton.mp isTyped⟩
    | pattern form =>
      cases form with
      | capture name => exact .inr (.inr ⟨name, isIn, mem_singleton.mp isTyped⟩)
      | _ => exact absurd isTyped (not_mem_nil)
    | _ => exact absurd isTyped (not_mem_nil)

end Module

theorem TypeTable.mem_addAll {notes : List TypeNote} (distinct : (nodes notes).Nodup)
    (node : NodeId) : node ∈ TypeTable.addAll ∅ notes ↔ node ∈ nodes notes := by
  rw [Std.ExtTreeMap.mem_iff_isSome_getElem?]
  by_cases isNoted : node ∈ nodes notes
  · obtain ⟨⟨_, type⟩, isNote, rfl⟩ := mem_map.mp isNoted
    rw [getElem?_addAll distinct isNote]
    exact iff_of_true rfl isNoted
  · rw [getElem?_addAll_of_not_mem isNoted]
    exact iff_of_false (by simp) isNoted

namespace Model

/-- The table has the nodes of all expressions and bound names, each noted once. -/
theorem types_every_expression_once (around : Surroundings) (module' : Module)
    (distinct : module'.nodeIds.Nodup)
    (unhinted : ∀ item ∈ module'.visited, item.Unhinted) :
    (∃ taken, (ofModule around module').Takes [⟨module'.mark.id, module'.body, false⟩] taken) ∧
      (∀ taken, (ofModule around module').Takes [⟨module'.mark.id, module'.body, false⟩] taken →
        taken.Perm module'.inferenceBodies ∧
        (TypeNote.nodes (taken.flatMap (ofModule around module').bodyNotes)).Nodup ∧
        TypeTable.addAll ∅ (taken.flatMap (ofModule around module').bodyNotes) =
          (ofModule around module').inferTypes module') ∧
      ∀ node, node ∈ (ofModule around module').inferTypes module' ↔ module'.TypesAt node := by
  have owned : ∀ body ∈ module'.inferenceBodies,
      ∃ scope, (ofModule around module').ownedScope? body.node = some scope :=
    fun body isBody => exists_ownedScope? around isBody
  have notedOnce := nodup_bodyNotes owned distinct
  have isTable := inferTypes_eq_addAll owned distinct
  refine ⟨?_, ?_, ?_⟩
  · obtain ⟨taken, _, takes, _⟩ := (ofModule around module').exists_takes_body module'
    exact ⟨taken, takes⟩
  · intro taken takes
    have once := perm_inferenceBodies owned takes
    have sameNotes := once.flatMap_right (ofModule around module').bodyNotes
    refine ⟨once, (sameNotes.map _).nodup_iff.mpr notedOnce, ?_⟩
    rw [isTable]
    exact TypeTable.addAll_of_perm sameNotes notedOnce
  · intro node
    have counted := module'.count_typedIds node
    rw [Module.skippedIds_eq unhinted, List.count_nil, Nat.add_zero] at counted
    rw [Module.typesAt_iff, ← List.count_pos_iff, ← counted, List.count_pos_iff,
      ← nodes_flatMap_bodyNotes owned, isTable]
    exact TypeTable.mem_addAll notedOnce node

end Model

def Module.burying : Module :=
  let mark (id : NodeId) : Mark := ⟨id, ⟨id, id⟩⟩
  let name (id : NodeId) (text : String) : Identifier := ⟨mark id, text⟩
  let parameter (id : NodeId) (text : String) (default : Option Expr) : Parameter :=
    ⟨mark id, .name (name (id + 1) text), none, default, .regular, false, false⟩
  let clause : MatchCase := ⟨⟨mark 13, .capture (name 14 "w"), none⟩,
    [.simple (mark 15) (.expr (.lambda (mark 16) [parameter 17 "k" (some (.name (name 19 "w")))]
      (.name (name 20 "k"))))]⟩
  let method : Stmt := .functionDef ⟨mark 3, name 4 "m", [parameter 5 "v" none], none, [], false⟩
    [.simple (mark 7) (.ret (some (.named (mark 8) (name 9 "n") (.name (name 10 "v"))))),
      .matchOn (mark 11) (.name (name 12 "n")) [clause]]
  ⟨mark 0, [.classDef ⟨mark 1, name 2 "C", [], []⟩ [method]]⟩

theorem Model.burying_typed :
    Module.burying.nodeIds.Nodup ∧ (∀ item ∈ Module.burying.visited, item.Unhinted) ∧
      (∃ taken, (ofModule ⟨"", "m.py", none, {}⟩ Module.burying).Takes
          [⟨0, Module.burying.body, false⟩] taken ∧ (taken.map (·.node)).Perm [0, 1, 3]) ∧
      ∀ node, node ∈ (ofModule ⟨"", "m.py", none, {}⟩ Module.burying).inferTypes Module.burying ↔
        node ∈ [9, 8, 10, 12, 14, 16, 19, 20] := by
  have distinct : Module.burying.nodeIds.Nodup := by decide +kernel
  have unhinted : ∀ item ∈ Module.burying.visited, item.Unhinted := by decide +kernel
  obtain ⟨⟨taken, takes⟩, onceEach, keys⟩ :=
    types_every_expression_once ⟨"", "m.py", none, {}⟩ Module.burying distinct unhinted
  have typed : Module.burying.visited.flatMap (·.typedIds) = [9, 8, 10, 12, 14, 16, 19, 20] := by
    decide +kernel
  refine ⟨distinct, unhinted, ⟨taken, takes, ((onceEach taken takes).1.map _).trans ?_⟩, ?_⟩
  · exact .of_eq (by decide +kernel)
  · intro node
    rw [keys, Module.typesAt_iff, typed]

end PyStatic
