import PyStatic.Proofs.Binding.Occurrences

/-!
Contract: a survey notes bindings only where the syntax binds.
-/

namespace PyStatic

open List

namespace Survey

structure BindsAt (allowed : List Mark) (survey : Survey) : Prop where
  names : ∀ binding ∈ survey.bindings, ⟨binding.node, binding.range⟩ ∈ allowed
  attributes : ∀ assigned ∈ survey.instanceAttributes, assigned.attr.mark ∈ allowed

end Survey

theorem Note.mem_marks_of_bindings {note : Note} {tree : ScopeTree} {binding : Binding}
    (isBinding : binding ∈ note.bindings tree) : ⟨binding.node, binding.range⟩ ∈ note.marks := by
  cases note with
  | bound _ _ _ _
  | assigned =>
    obtain rfl := mem_singleton.mp isBinding
    exact mem_singleton_self _
  | wildcard =>
    obtain ⟨name, _, rfl⟩ := mem_map.mp isBinding
    exact mem_singleton_self _
  | _ => cases isBinding

theorem Survey.ofModule_bindsAt (around : Surroundings) (module' : Module) :
    (Survey.ofModule around module').BindsAt (Stmt.bindingsOfAll module'.body).marks := by
  obtain ⟨notes, noted, account⟩ := Survey.noted_ofModule around module'
  have isAllowed {note : Note} {mark : Mark} (isNote : note ∈ notes) (isMark : mark ∈ note.marks) :
      mark ∈ (Stmt.bindingsOfAll module'.body).marks := by
    have isIn := mem_flatMap.mpr ⟨note, isNote, isMark⟩
    exact List.count_pos_iff.mp
      (Nat.lt_of_lt_of_le (List.count_pos_iff.mpr isIn) (account.marks_le mark))
  constructor
  · intro binding isBinding
    obtain ⟨note, isNote, isMade⟩ := mem_flatMap.mp (noted.bindings ▸ isBinding)
    exact isAllowed isNote (Note.mem_marks_of_bindings isMade)
  · intro assigned isAssigned
    obtain ⟨scope, value, isNote⟩ := noted.assigned_noted assigned isAssigned
    exact isAllowed isNote (mem_singleton_self _)

namespace Model

open Resolution

theorem kind_of_childUsages {usage : Usage} : ∀ (reads : List AttributeRead)
    {resolution : Resolution}, usage ∈ childUsages resolution reads → usage.kind = .other
  | read :: rest, _, isIn => by
    rw [childUsages, mem_append] at isIn
    rcases isIn with isIn | isIn
    · split at isIn
      · rw [mem_singleton.mp isIn]
      · exact absurd isIn not_mem_nil
    · exact kind_of_childUsages rest isIn

theorem mem_bindings_of_usage (around : Surroundings) (module' : Module) {usage : Usage}
    (isUsage : usage ∈ (Model.ofModule around module').table.usages)
    (binds : usage.kind ≠ .other ∧ usage.kind ≠ .globalDeclaration) :
    ⟨usage.node, usage.range⟩ ∈ (Stmt.bindingsOfAll module'.body).marks := by
  have bindsAt := Survey.ofModule_bindsAt around module'
  have wellFormed := Survey.wellFormed_ofModule around module'
  rcases mem_append.mp ((resolve_records around wellFormed).gains.usages.subset isUsage)
    with isUsage | isUsage
  · rcases mem_append.mp ((read_records around wellFormed).1.gains.usages.subset isUsage)
      with isUsage | isUsage
    · rcases mem_append.mp ((declared_tidy around wellFormed).2.subset isUsage)
        with isUsage | isUsage
      · obtain ⟨binding, isBinding, rfl⟩ := mem_map.mp isUsage
        exact bindsAt.names binding isBinding
      · obtain ⟨declaration, _, rfl⟩ := mem_map.mp isUsage
        exact absurd rfl binds.2
    · obtain ⟨reference, _, rfl⟩ := mem_map.mp isUsage
      exact absurd rfl binds.1
  · rcases mem_append.mp isUsage with isUsage | isUsage
    · exact absurd (kind_of_childUsages _ isUsage) binds.1
    · obtain ⟨assigned, isAssigned, rfl⟩ := mem_map.mp isUsage
      exact bindsAt.attributes assigned (mem_filter.mp isAssigned).1

end Model

end PyStatic
