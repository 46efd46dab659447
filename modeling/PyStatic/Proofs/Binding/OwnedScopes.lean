import PyStatic.Proofs.Binding.ScopeGrowth

/-!
Contract: every body of a module has a scope of its own.
-/

namespace PyStatic

open List

namespace ScopeTree

def Opens (tree : ScopeTree) (node : NodeId) : Prop :=
  ∃ id scope, tree.get? id = some scope ∧ scope.node = node

variable {tree later : ScopeTree} {node : NodeId}

theorem Opens.grow (opens : tree.Opens node) (grows : tree.Grows later) : later.Opens node := by
  obtain ⟨id, scope, found, isNode⟩ := opens
  obtain ⟨shown, foundLater⟩ := grows id scope found
  exact ⟨id, _, foundLater, isNode⟩

theorem opens_push_self (tree : ScopeTree) (added : Scope) : (tree.push added).Opens added.node :=
  ⟨tree.size, added, Array.getElem?_push_size, rfl⟩

theorem Opens.ownedBy? (opens : tree.Opens node) : ∃ scope, tree.ownedBy? node = some scope := by
  obtain ⟨id, scope, found, isNode⟩ := opens
  have inside : id < tree.scopes.size := (Array.getElem?_eq_some_iff.mp found).1
  rw [← Option.isSome_iff_exists]
  unfold ScopeTree.ownedBy?
  rw [find?_isSome]
  refine ⟨id, mem_reverse.mpr (List.mem_range.mpr inside), ?_⟩
  rw [found]
  simp [isNode]

end ScopeTree

theorem Survey.Run.opens {before after : Survey} {notes : List Note} (run : Run before notes after)
    {node : NodeId} (isOpener : node ∈ notes.flatMap Note.openers) : after.scopes.Opens node := by
  induction run with
  | nil => cases isOpener
  | @cons survey _ note _ _ rest ih =>
    rw [flatMap_cons, mem_append] at isOpener
    rcases isOpener with isOpener | isOpener
    · refine ScopeTree.Opens.grow ?_ rest.grows
      cases note with
      | opened =>
        obtain rfl := mem_singleton.mp isOpener
        exact ScopeTree.opens_push_self survey.scopes _
      | _ => cases isOpener
    · exact ih isOpener

theorem Model.exists_ownedScope? (around : Surroundings) {module' : Module}
    {body : InferenceBody} (isBody : body ∈ module'.inferenceBodies) :
    ∃ scope, (Model.ofModule around module').ownedScope? body.node = some scope := by
  apply ScopeTree.Opens.ownedBy?
  obtain ⟨_, rfl, notes, run, account⟩ := Survey.ofModule_surveys around module'
  rw [Module.inferenceBodies, mem_cons] at isBody
  rcases isBody with rfl | isDefined
  · exact (ScopeTree.opens_push_self Survey.empty.scopes _).grow run.grows
  · obtain ⟨stmt, isStmt, isBody⟩ := mem_filterMap.mp isDefined
    obtain ⟨visited, isVisited, isStmt⟩ := mem_filterMap.mp isStmt
    refine run.opens (account.owners visited isVisited body.node ?_)
    rw [Visited.owner?, isStmt, Option.bind_some, isBody, Option.map_some]

end PyStatic
