import PyStatic.Proofs.Binding.LocalNames

/-!
Contract: looking a name up from the inside out is passing environments from the outside in.

Environments are passed along the scopes as they stand in the text. That the surveyed tree has the
same scopes is not shown here but taken from `ScopeTree.Mirrors`.
-/

namespace PyStatic

abbrev Environment := String → Option SymbolId

namespace Environment

variable (blocks : List ScopeBlock) (table : SymbolTable)

/-- The body of a class passes on just what it inherits. -/
def passedOn (scope : ScopeId) (inherited : Environment) : Environment := fun name =>
  if blocks[scope]?.any (·.kind == .classBody) then inherited name
  else if ScopeBlock.Declares blocks true scope name then table.lookup? moduleScope name
  else (table.lookup? scope name).or (inherited name)

/-- What the scopes with a number below the count pass on. -/
def upTo : Nat → ScopeId → Environment
  | 0, _ => fun _ => none
  | count + 1, scope =>
    if scope = count then
      passedOn blocks table scope <|
        match blocks[scope]?.bind (·.parent) with
        | some parent => upTo count parent
        | none => fun _ => none
    else upTo count scope

def inherited (scope : ScopeId) : Environment :=
  match blocks[scope]?.bind (·.parent) with
  | some parent => upTo blocks table scope parent
  | none => fun _ => none

/-- Names that a scope declares global are those of the module. -/
def visible (scope : ScopeId) : Environment := fun name =>
  if ScopeBlock.Declares blocks true scope name then table.lookup? moduleScope name
  else (table.lookup? scope name).or (inherited blocks table scope name)

theorem upTo_of_lt {scope : ScopeId} {count : Nat} (isDone : scope < count) :
    upTo blocks table count scope =
      passedOn blocks table scope (inherited blocks table scope) := by
  induction count with
  | zero => cases isDone
  | succ count ih =>
    by_cases isLast : scope = count
    · subst isLast
      rw [upTo, if_pos rfl, inherited]
    · rw [upTo, if_neg isLast]
      exact ih (Nat.lt_of_le_of_ne (Nat.le_of_lt_succ isDone) isLast)

end Environment

namespace Resolution

open Environment

variable {tree : ScopeTree} {blocks : List ScopeBlock} (table : SymbolTable)
  (mirrors : tree.Mirrors (blocks.map ScopeBlock.opening)) (nested : tree.Nested)
  {reader scope : ScopeId} {block : ScopeBlock} (name : String)

include mirrors nested

theorem lookupIn_around (isBlock : blocks[scope]? = some block)
    (outer : ∀ parent, block.parent = some parent → parent < scope → parent < tree.size →
      lookupIn tree table reader name (tree.ancestors parent) =
        passedOn blocks table parent (inherited blocks table parent) name) :
    lookupIn tree table reader name (block.parent.elim [] tree.ancestors) =
      inherited blocks table scope name := by
  rw [inherited, isBlock, Option.bind_some]
  cases isParent : block.parent with
  | none => rfl
  | some parent =>
    obtain ⟨older, inRange⟩ := mirrors.parent_lt nested isBlock isParent
    dsimp only
    rw [upTo_of_lt blocks table older]
    exact outer parent isParent older inRange

theorem lookupIn_ancestors : ∀ {scope : ScopeId}, scope < reader → scope < tree.size →
    lookupIn tree table reader name (tree.ancestors scope) =
      passedOn blocks table scope (inherited blocks table scope) name := by
  intro scope
  induction scope using Nat.strongRecOn with
  | ind scope ih =>
    intro isOutside inRange
    obtain ⟨block, isBlock⟩ := mirrors.exists_block inRange
    have others := lookupIn_around table mirrors nested name isBlock fun parent _ older =>
      ih parent older (Nat.lt_trans older isOutside)
    have distinct : (scope != reader) = true := by
      simpa using Nat.ne_of_lt isOutside
    rw [mirrors.ancestors_eq_cons nested isBlock, lookupIn, others, passedOn, distinct,
      Bool.and_true, (mirrors.ofBlock isBlock).2.1, isBlock]
    simp only [mirrors.isGlobal_iff isBlock, Option.any_some]
    cases table.lookup? scope name <;> rfl

theorem lookup?_eq_visible (isBlock : blocks[scope]? = some block) :
    lookup? tree table scope name = visible blocks table scope name := by
  have others := lookupIn_around table mirrors nested name isBlock fun parent _ older =>
    lookupIn_ancestors table mirrors nested name older
  have same : (scope != scope) = false := bne_self_eq_false scope
  rw [lookup?, mirrors.ancestors_eq_cons nested isBlock, lookupIn, others, visible, same,
    Bool.and_false, if_neg Bool.false_ne_true]
  simp only [mirrors.isGlobal_iff isBlock]
  cases table.lookup? scope name <;> rfl

end Resolution

end PyStatic
