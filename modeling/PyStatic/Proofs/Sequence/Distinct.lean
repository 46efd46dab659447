import Mathlib.Data.List.Induction

/-!
Contract: lists without their repeats.
-/

namespace PyStatic.Sequence

open List

variable {α β : Type} [BEq α] [LawfulBEq α] [BEq β] [LawfulBEq β]

theorem nodup_eraseDups (items : List α) : items.eraseDups.Nodup := by
  cases items with
  | nil => exact nodup_nil
  | cons item rest =>
    rw [eraseDups_cons, nodup_cons]
    constructor
    · rw [mem_eraseDups, mem_filter]
      rintro ⟨_, distinct⟩
      simp at distinct
    · exact nodup_eraseDups (rest.filter fun other => !other == item)
termination_by items.length
decreasing_by exact Nat.lt_succ_of_le (length_filter_le ..)

theorem eraseDups_of_nodup {items : List α} (distinct : items.Nodup) : items.eraseDups = items := by
  induction items with
  | nil => rfl
  | cons item rest ih =>
    obtain ⟨isNew, distinct⟩ := nodup_cons.mp distinct
    have kept : (rest.filter fun other => !other == item) = rest := by
      apply filter_eq_self.mpr
      intro other isIn
      have differs : other ≠ item := fun same => isNew (same ▸ isIn)
      simpa using differs
    rw [eraseDups_cons, kept, ih distinct]

theorem eraseDups_append_cons {items : List α} {item : α} (isIn : item ∈ items) (rest : List α) :
    (items ++ item :: rest).eraseDups = (items ++ rest).eraseDups := by
  rw [eraseDups_append, eraseDups_append, cons_removeAll]
  simp [isIn]

theorem eraseDups_append_singleton (items : List α) (item : α) :
    (items ++ [item]).eraseDups =
      if item ∈ items then items.eraseDups else items.eraseDups ++ [item] := by
  split
  next isIn => rw [eraseDups_append_cons isIn, append_nil]
  next isNew => rw [eraseDups_append]; simp [removeAll, isNew, eraseDups_cons]

theorem eraseDups_eraseDups_append (first second : List α) :
    (first.eraseDups ++ second.eraseDups).eraseDups = (first ++ second).eraseDups := by
  have dropLeft : (first.eraseDups ++ second.eraseDups).eraseDups =
      (first ++ second.eraseDups).eraseDups := by
    rw [eraseDups_append, eraseDups_append, eraseDups_of_nodup (nodup_eraseDups first)]
    simp [removeAll]
  rw [dropLeft]
  clear dropLeft
  induction second using reverseRecOn with
  | nil => rfl
  | append_singleton second item ih =>
    rw [eraseDups_append_singleton second, ← append_assoc,
      eraseDups_append_singleton (first ++ second)]
    by_cases isIn : item ∈ second
    · rw [if_pos isIn, if_pos (mem_append_right _ isIn), ih]
    · rw [if_neg isIn, ← append_assoc, eraseDups_append_singleton, ih]
      simp [isIn]

theorem eraseDups_map (name : α → β) : ∀ items : List α,
    (∀ first ∈ items, ∀ second ∈ items, name first = name second → first = second) →
    (items.map name).eraseDups = items.eraseDups.map name
  | [], _ => rfl
  | item :: rest, apart => by
    have others : (rest.map name).filter (fun other => !other == name item) =
        (rest.filter fun other => !other == item).map name := by
      rw [filter_map]
      congr 1
      apply filter_congr
      intro other isIn
      have same : name other = name item ↔ other = item :=
        ⟨apart other (mem_cons_of_mem _ isIn) item mem_cons_self, congrArg name⟩
      rw [Function.comp_apply, Bool.eq_iff_iff]
      simp [same]
    rw [map_cons, eraseDups_cons, others, eraseDups_cons, map_cons,
      eraseDups_map name (rest.filter fun other => !other == item)]
    intro first isFirst second isSecond
    exact apart first (mem_cons_of_mem _ (mem_filter.mp isFirst).1) second
      (mem_cons_of_mem _ (mem_filter.mp isSecond).1)
termination_by items => items.length
decreasing_by exact Nat.lt_succ_of_le (length_filter_le ..)

end PyStatic.Sequence
