import PyStatic.Project.Index
import PyStatic.Proofs.Symbol.Growth

/-!
Contract: exporting a symbol comes to an end on any links between symbols.

Members and alternatives may run in circles, but each step down marks a symbol that was not marked
before, so there are no more steps than symbols.
-/

namespace PyStatic

open List

mutual

/-- The full names of an export and of all its parts. -/
def Export.fqns : Export → List (Option String)
  | .other _ fqn | .function _ fqn _ => [fqn]
  | .ofClass _ fqn _ parts | .ambiguous _ fqn parts => fqn :: Export.fqnsOfAll parts

def Export.fqnsOfAll : List Export → List (Option String)
  | [] => []
  | exported :: rest => exported.fqns ++ Export.fqnsOfAll rest

end

/-- A symbol without a full name gets one from its owner. -/
def Symbol.fqnUnder (symbol : Symbol) (owner : String) : String :=
  symbol.fqn.getD (Dotted.join owner symbol.name)

namespace SymbolTable

/-- Those in `visited` are exported with all their data, of others the names alone. -/
inductive Exports (table : SymbolTable) :
    String → List SymbolId → List SymbolId → List SymbolId → List Export → Prop where
  | nil (owner : String) (seen : List SymbolId) : Exports table owner seen [] [] []
  | again {owner : String} {seen ids visited : List SymbolId} {id : SymbolId} {symbol : Symbol}
      {exports : List Export} (found : table.get? id = some symbol) (isSeen : id ∈ seen)
      (rest : Exports table owner seen ids visited exports) :
      Exports table owner seen (id :: ids) visited
        (.other symbol.name (some (symbol.fqnUnder owner)) :: exports)
  | other {owner : String} {seen ids visited children : List SymbolId} {id : SymbolId}
      {symbol : Symbol} {exports : List Export} (found : table.get? id = some symbol)
      (isNew : id ∉ seen) (data : symbol.data = .other children)
      (rest : Exports table owner (id :: seen) ids visited exports) :
      Exports table owner seen (id :: ids) (id :: visited)
        (.other symbol.name (some (symbol.fqnUnder owner)) :: exports)
  | function {owner : String} {seen ids visited : List SymbolId} {id : SymbolId} {symbol : Symbol}
      {info : FunctionInfo} {exports : List Export} (found : table.get? id = some symbol)
      (isNew : id ∉ seen) (data : symbol.data = .function info)
      (rest : Exports table owner (id :: seen) ids visited exports) :
      Exports table owner seen (id :: ids) (id :: visited)
        (.function symbol.name (some (symbol.fqnUnder owner)) info.detached :: exports)
  | ofClass {owner : String} {seen ids inside visited : List SymbolId} {id : SymbolId}
      {symbol : Symbol} {info : ClassInfo} {parts exports : List Export}
      (found : table.get? id = some symbol) (isNew : id ∉ seen) (data : symbol.data = .ofClass info)
      (members : Exports table (symbol.fqnUnder owner) (id :: seen) info.members inside parts)
      (rest : Exports table owner (inside.reverse ++ id :: seen) ids visited exports) :
      Exports table owner seen (id :: ids) (id :: (inside ++ visited))
        (.ofClass symbol.name (some (symbol.fqnUnder owner)) (table.classExport info) parts ::
          exports)
  | ambiguous {owner : String} {seen ids inside visited alternatives : List SymbolId}
      {id : SymbolId} {symbol : Symbol} {parts exports : List Export}
      (found : table.get? id = some symbol) (isNew : id ∉ seen)
      (data : symbol.data = .ambiguous alternatives)
      (members : Exports table owner (id :: seen) alternatives inside parts)
      (rest : Exports table owner (inside.reverse ++ id :: seen) ids visited exports) :
      Exports table owner seen (id :: ids) (id :: (inside ++ visited))
        (.ambiguous symbol.name (some (symbol.fqnUnder owner)) parts :: exports)

variable {table : SymbolTable} {owner : String} {seen ids visited : List SymbolId}
  {exports : List Export}

theorem Exports.nodup (exported : Exports table owner seen ids visited exports) :
    visited.Nodup ∧ ∀ id ∈ visited, id ∉ seen := by
  have nested {id : SymbolId} {seen inside visited : List SymbolId} (isNew : id ∉ seen)
      (first : inside.Nodup ∧ ∀ other ∈ inside, other ∉ id :: seen)
      (second : visited.Nodup ∧ ∀ other ∈ visited, other ∉ inside.reverse ++ id :: seen) :
      (id :: (inside ++ visited)).Nodup ∧ ∀ other ∈ id :: (inside ++ visited), other ∉ seen := by
    simp only [nodup_cons, nodup_append, mem_cons, mem_append, mem_reverse,
      not_or] at first second ⊢
    grind
  induction exported with
  | nil => simp
  | again _ _ _ ih => exact ih
  | other _ _ _ _ ih | function _ _ _ _ ih =>
    simp only [nodup_cons, mem_cons, not_or] at ih ⊢
    grind
  | ofClass _ isNew _ _ _ first second | ambiguous _ isNew _ _ _ first second =>
    exact nested isNew first second

theorem Exports.fqns (exported : Exports table owner seen ids visited exports) :
    ∀ fqn ∈ Export.fqnsOfAll exports, fqn.isSome = true := by
  induction exported with
  | nil => simp [Export.fqnsOfAll]
  | again _ _ _ ih | other _ _ _ _ ih | function _ _ _ _ ih =>
    simpa [Export.fqnsOfAll, Export.fqns] using ih
  | ofClass _ _ _ _ _ first second | ambiguous _ _ _ _ _ first second =>
    intro fqn isIn
    rw [Export.fqnsOfAll, Export.fqns, cons_append, mem_cons, mem_append] at isIn
    rcases isIn with rfl | isIn | isIn
    · rfl
    · exact first fqn isIn
    · exact second fqn isIn

def unseen (table : SymbolTable) (seen : List SymbolId) : Nat :=
  (table.ids.filter (· ∉ seen)).length

theorem unseen_le {more : List SymbolId} (isPart : seen ⊆ more) :
    table.unseen more ≤ table.unseen seen :=
  ((monotone_filter_right _ fun id isNew => by
    simp only [decide_eq_true_eq] at isNew ⊢
    exact fun isSeen => isNew (isPart isSeen)).length_le)

theorem unseen_cons_lt {id : SymbolId} (inRange : id < table.size) (isNew : id ∉ seen) :
    table.unseen (id :: seen) < table.unseen seen := by
  have split : table.ids.filter (· ∉ id :: seen) =
      (table.ids.filter (· ∉ seen)).filter (· ≠ id) := by
    rw [filter_filter]
    congr 1
    simp
  rw [unseen, split]
  refine length_filter_lt_length_iff_exists.mpr ⟨id, ?_, by simp⟩
  simp [ids, inRange, isNew]

theorem exports_collect (inside : table.ClosedFrom 0) : ∀ (depth : Nat) (owner : String)
    (ids seen : List SymbolId), (∀ id ∈ ids, id < table.size) → table.unseen seen < depth →
    ∃ visited, Exports table owner seen ids visited
        (Sequence.collect (table.exportWithin depth owner) seen ids).2 ∧
      (Sequence.collect (table.exportWithin depth owner) seen ids).1 = visited.reverse ++ seen := by
  intro depth
  induction depth with
  | zero => exact fun _ _ _ _ few => absurd few (Nat.not_lt_zero _)
  | succ _ down =>
    intro owner ids
    induction ids with
    | nil => exact fun seen _ _ => ⟨[], .nil owner seen, rfl⟩
    | cons id _ ih =>
      intro seen inRange few
      have exists' := inRange id mem_cons_self
      have others := fun other isIn => inRange other (mem_cons_of_mem id isIn)
      obtain ⟨symbol, found⟩ : ∃ symbol, table.get? id = some symbol :=
        ⟨_, Array.getElem?_eq_getElem exists'⟩
      have held (part : SymbolId) (isHeld : part ∈ symbol.data.held) : part < table.size :=
        (inside id part (Nat.zero_le _) ⟨symbol, found, isHeld⟩).2
      rw [Sequence.collect, exportWithin, found]
      dsimp only
      by_cases isSeen : id ∈ seen
      · obtain ⟨visited, exported, marks⟩ := ih seen others few
        rw [if_pos (by simpa using isSeen)]
        exact ⟨visited, .again found isSeen exported, marks⟩
      · have fewer := unseen_cons_lt exists' isSeen
        rw [if_neg (by simpa using isSeen)]
        have onwards (inner : List SymbolId) := ih (inner.reverse ++ id :: seen) others
          (Nat.lt_of_le_of_lt (unseen_le (subset_append_right inner.reverse _)) (by omega))
        cases data : symbol.data with
        | other =>
          obtain ⟨visited, exported, marks⟩ := onwards []
          exact ⟨id :: visited, .other found isSeen data exported, by simpa using marks⟩
        | function =>
          obtain ⟨visited, exported, marks⟩ := onwards []
          exact ⟨id :: visited, .function found isSeen data exported, by simpa using marks⟩
        | ofClass info =>
          obtain ⟨inner, members, marks⟩ := down (symbol.fqnUnder owner) info.members (id :: seen)
            (fun part isMember => held part (data ▸ isMember)) (by omega)
          obtain ⟨visited, exported, further⟩ := onwards inner
          rw [← marks] at exported further
          exact ⟨id :: (inner ++ visited), .ofClass found isSeen data members (marks ▸ exported),
            further.trans (by simp [marks])⟩
        | ambiguous alternatives =>
          obtain ⟨inner, members, marks⟩ := down owner alternatives (id :: seen)
            (fun part isMember => held part (data ▸ isMember)) (by omega)
          obtain ⟨visited, exported, further⟩ := onwards inner
          rw [← marks] at exported further
          exact ⟨id :: (inner ++ visited), .ambiguous found isSeen data members (marks ▸ exported),
            further.trans (by simp [marks])⟩

/-- Exporting ends; each symbol is exported with all its data once at most, and else by name. -/
theorem exportSymbol_exports (table : SymbolTable) (inside : table.ClosedFrom 0) (owner : String)
    (seen : List SymbolId) (id : SymbolId) (inRange : id < table.size) :
    ∃ visited, Exports table owner seen [id] visited [(table.exportSymbol owner seen id).2] ∧
      (table.exportSymbol owner seen id).1 = visited.reverse ++ seen ∧ visited.Nodup ∧
      (∀ other ∈ visited, other ∉ seen) ∧
      ∀ fqn ∈ (table.exportSymbol owner seen id).2.fqns, fqn.isSome = true := by
  have few : table.unseen seen < table.size + 1 := by
    refine Nat.lt_succ_of_le (Nat.le_trans (length_filter_le _ _) ?_)
    simp [ids]
  obtain ⟨visited, exported, marks⟩ := exports_collect inside (table.size + 1) owner [id] seen
    (by simpa using inRange) few
  refine ⟨visited, exported, marks, exported.nodup.1, exported.nodup.2, fun fqn isIn => ?_⟩
  exact exported.fqns fqn (mem_append_left _ isIn)

def coiled : SymbolTable :=
  ⟨#[.fresh "A" none (.ofClass { ClassInfo.blank with members := [1] }) none,
    .fresh "x" none (.ambiguous [0, 2]) none, .fresh "run" none (.function .blank) none], ∅⟩

theorem coiled_exported : coiled.ClosedFrom 0 ∧ (coiled.exportSymbol "mod" [] 0).1 = [2, 1, 0] ∧
    (coiled.exportSymbol "mod" [] 0).2.fqns =
      [some "mod.A", some "mod.A.x", some "mod.A.A", some "mod.A.run"] ∧
    ∃ visited, visited.Nodup ∧ [2, 1, 0] = visited.reverse ∧
      Exports coiled "mod" [] [0] visited [(coiled.exportSymbol "mod" [] 0).2] := by
  have inside : coiled.ClosedFrom 0 := by
    rintro id held - ⟨symbol, found, isHeld⟩
    have isOne := Array.mem_of_getElem? found
    simp only [coiled, Array.mem_def, mem_cons, not_mem_nil, or_false] at isOne
    rcases isOne with rfl | rfl | rfl <;> simp [Symbol.fresh, SymbolData.held] at isHeld
    · subst isHeld
      decide
    · rcases isHeld with rfl | rfl <;> decide
  obtain ⟨visited, exported, marks, nodup, -⟩ :=
    exportSymbol_exports coiled inside "mod" [] 0 (by decide)
  have isMarked : (coiled.exportSymbol "mod" [] 0).1 = [2, 1, 0] := by decide +kernel
  exact ⟨inside, isMarked, by decide +kernel, visited, nodup,
    by simpa [isMarked] using marks, exported⟩

end SymbolTable

end PyStatic
