import Mathlib.Data.List.Find
import PyStatic.Proofs.Binding.ScopeNesting

/-!
Contract: the tree of scopes only grows while a module is surveyed.

A binding is placed as soon as it is met, when the tree holds only the scopes opened by then. All
scopes around the binding are among these, so the finished tree places it no differently.
-/

namespace PyStatic

namespace ScopeTree

/-- Scopes keep their places; only a sign of a dynamic namespace may be added. -/
def Grows (tree later : ScopeTree) : Prop :=
  ∀ id scope, tree.get? id = some scope →
    ∃ shown, later.get? id = some { scope with usesDynamicNamespace := shown }

variable {tree middle later : ScopeTree}

namespace Grows

theorem refl (tree : ScopeTree) : tree.Grows tree :=
  fun _ scope found => ⟨scope.usesDynamicNamespace, found⟩

theorem trans (first : tree.Grows middle) (second : middle.Grows later) : tree.Grows later := by
  intro id scope found
  obtain ⟨_, foundMiddle⟩ := first id scope found
  obtain ⟨shown, foundLater⟩ := second id _ foundMiddle
  exact ⟨shown, foundLater⟩

theorem push (tree : ScopeTree) (added : Scope) : tree.Grows (tree.push added) := by
  intro id scope found
  have old : id ≠ tree.size := Nat.ne_of_lt (lt_size_of_get? found)
  have same : (tree.push added).get? id = tree.get? id := Array.getElem?_push.trans (if_neg old)
  exact ⟨scope.usesDynamicNamespace, same.trans found⟩

theorem ofShown (tree : ScopeTree) (changed : ScopeId) :
    tree.Grows (tree.modify changed fun scope => { scope with usesDynamicNamespace := true }) := by
  intro id scope found
  have cases' : (tree.modify changed fun scope =>
      { scope with usesDynamicNamespace := true }).get? id =
        if changed = id then (tree.get? id).map fun scope =>
          { scope with usesDynamicNamespace := true } else tree.get? id :=
    Array.getElem?_modify
  rw [cases', found]
  split
  · exact ⟨true, rfl⟩
  · exact ⟨scope.usesDynamicNamespace, rfl⟩

variable (grows : tree.Grows later) {id : ScopeId}
include grows

theorem exists_scope (inRange : id < tree.size) : ∃ scope shown,
    tree.get? id = some scope ∧
      later.get? id = some { scope with usesDynamicNamespace := shown } := by
  have found : tree.get? id = some tree.scopes[id] := Array.getElem?_eq_getElem inRange
  obtain ⟨shown, foundLater⟩ := grows id _ found
  exact ⟨_, shown, found, foundLater⟩

theorem kind? (inRange : id < tree.size) : later.kind? id = tree.kind? id := by
  obtain ⟨scope, shown, found, foundLater⟩ := grows.exists_scope inRange
  rw [ScopeTree.kind?, ScopeTree.kind?, found, foundLater]
  rfl

theorem isGlobal (inRange : id < tree.size) (name : String) :
    later.isGlobal id name = tree.isGlobal id name := by
  obtain ⟨scope, shown, found, foundLater⟩ := grows.exists_scope inRange
  rw [ScopeTree.isGlobal, ScopeTree.isGlobal, found, foundLater]
  rfl

theorem isNonlocal (inRange : id < tree.size) (name : String) :
    later.isNonlocal id name = tree.isNonlocal id name := by
  obtain ⟨scope, shown, found, foundLater⟩ := grows.exists_scope inRange
  rw [ScopeTree.isNonlocal, ScopeTree.isNonlocal, found, foundLater]
  rfl

theorem outward (nested : tree.Nested) (count : Nat) (inRange : id < tree.size) :
    later.outward count id = tree.outward count id := by
  induction count generalizing id with
  | zero => rfl
  | succ _ ih =>
    obtain ⟨scope, shown, found, foundLater⟩ := grows.exists_scope inRange
    rw [ScopeTree.outward, ScopeTree.outward, found, foundLater]
    dsimp only
    cases isParent : scope.parent with
    | none => rfl
    | some parent =>
      have older := nested id scope parent found isParent
      dsimp only
      rw [ih (Nat.lt_trans older inRange)]

theorem ancestors (nested : tree.Nested) (inRange : id < tree.size) :
    later.ancestors id = tree.ancestors id :=
  grows.outward nested (id + 1) inRange

theorem enclosingFunction? (nested : tree.Nested) (inRange : id < tree.size) :
    later.enclosingFunction? id = tree.enclosingFunction? id := by
  rw [ScopeTree.enclosingFunction?, ScopeTree.enclosingFunction?, grows.ancestors nested inRange]
  apply List.find?_congr
  intro outer isOuter
  rw [grows.kind? (lt_size_of_mem_outward (List.mem_of_mem_tail isOuter))]

theorem assignmentScope (nested : tree.Nested) (inRange : id < tree.size) :
    later.assignmentScope id = tree.assignmentScope id := by
  rw [ScopeTree.assignmentScope, ScopeTree.assignmentScope, grows.ancestors nested inRange]
  congr 1
  apply List.find?_congr
  intro outer isOuter
  rw [grows.kind? (lt_size_of_mem_outward isOuter)]

theorem bindingScope (nested : tree.Nested) (inRange : id < tree.size) (name : String) :
    later.bindingScope id name = tree.bindingScope id name := by
  rw [ScopeTree.bindingScope, ScopeTree.bindingScope, grows.isGlobal inRange,
    grows.isNonlocal inRange, grows.enclosingFunction? nested inRange]

end Grows

end ScopeTree

namespace Survey

variable {before after : Survey} {notes : List Note}

theorem note_grows (survey : Survey) (note : Note) :
    survey.scopes.Grows (survey.note note).scopes := by
  cases note with
  | receiver scope value attr =>
    exact (survey.scopes_receiver scope value attr).symm ▸ .refl survey.scopes
  | declared scope isGlobal names =>
    exact (survey.scopes_declared scope isGlobal names).symm ▸ .refl survey.scopes
  | member value => cases value <;> exact .refl survey.scopes
  | opened => exact .push survey.scopes _
  | dynamic scope =>
    exact List.foldlRecOn (survey.scopes.namespaceScopes scope) _ (.refl survey.scopes)
      fun tree grows changed _ => grows.trans (.ofShown tree changed)
  | _ => exact .refl survey.scopes

namespace Run

theorem grows (run : Run before notes after) : before.scopes.Grows after.scopes := by
  induction run with
  | nil survey => exact .refl survey.scopes
  | cons _ _ ih => exact (note_grows _ _).trans ih

theorem note_bindings {survey : Survey} {note : Note} (fits : survey.Fits note)
    (nested : survey.scopes.Nested) {later : ScopeTree} (grows : survey.scopes.Grows later) :
    note.bindings later = note.bindings survey.scopes := by
  cases note with
  | bound scope =>
    rw [Note.bindings, Note.bindings, grows.bindingScope nested (fits.isOpen scope rfl)]
  | assigned scope =>
    have inRange := fits.isOpen scope rfl
    rw [Note.bindings, Note.bindings, grows.assignmentScope nested inRange,
      grows.bindingScope nested (ScopeTree.assignmentScope_lt inRange)]
  | _ => rfl

theorem bindings_eq (run : Run before notes after) (wellFormed : before.WellFormed) :
    after.bindings = before.bindings ++ notes.flatMap (Note.bindings after.scopes) := by
  induction run with
  | nil => exact (List.append_nil _).symm
  | cons fits rest ih =>
    have settled := note_bindings fits wellFormed.nested ((note_grows _ _).trans rest.grows)
    rw [ih (wellFormed.note fits), (appends_note _ _).bindings,
      List.flatMap_cons, settled, List.append_assoc]

end Run

end Survey

end PyStatic
