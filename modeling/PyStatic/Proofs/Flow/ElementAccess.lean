import PyStatic.Flow.Access
import Mathlib.Data.List.Basic

/-!
Contract: what an element reads and writes, said usage by usage.

The usages inside an element are taken in turn, and each adds to the reads or to the writes on its
own, so that a variable is read or written when some usage of it counts as such.
-/

namespace PyStatic

@[simp] theorem Access.mem_reads_read (access : Access) (added symbol : SymbolId) :
    symbol ∈ (access.read added).reads ↔ added = symbol ∨ symbol ∈ access.reads := by
  simp [Access.read]

@[simp] theorem Access.writes_read (access : Access) (added : SymbolId) :
    (access.read added).writes = access.writes :=
  rfl

@[simp] theorem Access.mem_writes_write (access : Access) (added symbol : SymbolId) :
    symbol ∈ (access.write added).writes ↔ added = symbol ∨ symbol ∈ access.writes := by
  simp [Access.write]

@[simp] theorem Access.reads_write (access : Access) (added : SymbolId) :
    (access.write added).reads = access.reads :=
  rfl

namespace Element

def WritesAt (element : Element) (usage : Usage) : Prop :=
  usage.node ∈ element.deletedNames ∨
    match element.definedName? with
    | some name => usage.node = name
    | none => usage.kind ≠ .other ∧ usage.kind ≠ .globalDeclaration

/-- A definition reads all it mentions but its name. -/
def ReadsAt (element : Element) (bound : List NodeId) (usage : Usage) : Prop :=
  usage.node ∉ element.deletedNames ∧
    match element.definedName? with
    | some name => usage.node ≠ name ∧ usage.kind ≠ .globalDeclaration
    | none => usage.kind = .compoundAssignmentTarget ∨ (usage.kind = .other ∧ usage.node ∉ bound)

variable (element : Element)

theorem mem_addUsage (bound : List NodeId) (access : Access) (used : LocalUsage)
    (symbol : SymbolId) :
    (symbol ∈ (element.addUsage bound access used).writes ↔
      (element.WritesAt used.usage ∧ used.symbol = symbol) ∨ symbol ∈ access.writes) ∧
    (symbol ∈ (element.addUsage bound access used).reads ↔
      (element.ReadsAt bound used.usage ∧ used.symbol = symbol) ∨ symbol ∈ access.reads) := by
  unfold addUsage WritesAt ReadsAt
  by_cases isDeleted : used.usage.node ∈ element.deletedNames
  · rw [if_pos (by simpa using isDeleted)]
    simp [isDeleted]
  rw [if_neg (by simpa using isDeleted)]
  cases element.definedName? with
  | some name =>
    by_cases isName : used.usage.node = name
    · simp [accessInDefinition, isName, isName ▸ isDeleted]
    · by_cases isDeclared : used.usage.kind = .globalDeclaration <;>
        simp [accessInDefinition, isName, isDeleted, isDeclared]
  | none =>
    cases isKind : used.usage.kind with
    | other =>
      by_cases isBound : used.usage.node ∈ bound <;>
        simp [accessDirectly, isKind, isBound, isDeleted]
    | _ => simp [accessDirectly, isKind, isDeleted]

theorem mem_foldl_usages (part : Access → SymbolSet) {add : Access → LocalUsage → Access}
    {Counts : LocalUsage → Prop} {symbol : SymbolId}
    (step : ∀ access used, symbol ∈ part (add access used) ↔ Counts used ∨ symbol ∈ part access)
    (inside : List LocalUsage) (access : Access) :
    symbol ∈ part (inside.foldl add access) ↔
      (∃ used ∈ inside, Counts used) ∨ symbol ∈ part access := by
  induction inside generalizing access with
  | nil => simp
  | cons _ _ ih =>
    rw [List.foldl_cons, ih, step]
    simp only [List.mem_cons, exists_eq_or_imp]
    rw [or_assoc, or_left_comm]

theorem mem_writes (usages : List LocalUsage) (symbol : SymbolId) :
    symbol ∈ (element.access usages).writes ↔ ∃ used ∈ element.counted usages,
      element.WritesAt used.usage ∧ used.symbol = symbol := by
  rw [access, mem_foldl_usages Access.writes
    fun access used => (element.mem_addUsage _ access used symbol).1]
  simp [Access.empty]

theorem mem_reads (usages : List LocalUsage) (symbol : SymbolId) :
    symbol ∈ (element.access usages).reads ↔ ∃ used ∈ element.counted usages,
      element.ReadsAt (element.boundNodes usages) used.usage ∧ used.symbol = symbol := by
  rw [access, mem_foldl_usages Access.reads
    fun access used => (element.mem_addUsage _ access used symbol).2]
  simp [Access.empty]

theorem mem_reads_of_definition {name : NodeId} (isDefinition : element.definedName? = some name)
    (usages : List LocalUsage) (symbol : SymbolId) :
    symbol ∈ (element.access usages).reads ↔
      ∃ used ∈ usages, used.usage.range.within element.evaluatedRange = true ∧
        used.usage.node ≠ name ∧ used.usage.kind ≠ .globalDeclaration ∧ used.symbol = symbol := by
  have nothingDeleted : element.deletedNames = [] := by
    unfold definedName? at isDefinition
    split at isDefinition
    · rfl
    · rfl
    · exact absurd isDefinition (by simp)
  rw [mem_reads]
  simp [counted, and_assoc, ReadsAt, isDefinition, nothingDeleted]

end Element

end PyStatic
