import PyStatic.Proofs.Binding.ScopeItems

/-!
Contract: how scopes that are opened one after the other stand in each other.
-/

namespace PyStatic

open List

def ScopeKind.isDefinition : ScopeKind → Bool
  | function | classBody => true
  | _ => false

namespace ScopeItem

def Stand (scope next : ScopeId) (blocks : List ScopeBlock) : Prop :=
  ∀ block place, (block, place) ∈ blocks.zipIdx next → block.kind ≠ .topLevel ∧
    ∃ parent, block.parent = some parent ∧ (block.kind.isDefinition = true →
      parent = scope ∨ ∃ outer, (outer, parent) ∈ blocks.zipIdx next ∧
        outer.kind.isDefinition = true)

variable {scope next : ScopeId} {blocks others : List ScopeBlock}

theorem Stand.append (left : Stand scope next blocks)
    (right : Stand scope (next + blocks.length) others) :
    Stand scope next (blocks ++ others) := by
  intro block place isBlock
  rw [zipIdx_append] at isBlock ⊢
  rcases mem_append.mp isBlock with isBlock | isBlock
  · obtain ⟨noModule, parent, isParent, around⟩ := left block place isBlock
    refine ⟨noModule, parent, isParent, fun isDefinition => (around isDefinition).imp_right ?_⟩
    rintro ⟨outer, isOuter, kind⟩
    exact ⟨outer, mem_append_left _ isOuter, kind⟩
  · obtain ⟨noModule, parent, isParent, around⟩ := right block place isBlock
    refine ⟨noModule, parent, isParent, fun isDefinition => (around isDefinition).imp_right ?_⟩
    rintro ⟨outer, isOuter, kind⟩
    exact ⟨outer, mem_append_right _ isOuter, kind⟩

theorem Stand.opens {kind : ScopeKind} {mentions : List Mention} (noModule : kind ≠ .topLevel)
    (inside : Stand next (next + 1) blocks)
    (fits : kind.isDefinition = true ∨ ∀ block ∈ blocks, block.kind.isDefinition = false) :
    Stand scope next (⟨kind, some scope, mentions⟩ :: blocks) := by
  intro block place isBlock
  rw [zipIdx_cons] at isBlock ⊢
  rcases mem_cons.mp isBlock with isFirst | isBlock
  · obtain ⟨rfl, rfl⟩ := Prod.mk.inj isFirst
    exact ⟨noModule, scope, rfl, fun _ => .inl rfl⟩
  · obtain ⟨noModule, parent, isParent, around⟩ := inside block place isBlock
    refine ⟨noModule, parent, isParent, fun isDefinition => .inr ?_⟩
    rcases fits with isOuter | none'
    · rcases around isDefinition with rfl | ⟨outer, isOuter, kind⟩
      · exact ⟨_, mem_cons_self, isOuter⟩
      · exact ⟨outer, mem_cons_of_mem _ isOuter, kind⟩
    · have isNone := none' block (fst_mem_of_mem_zipIdx isBlock)
      exact absurd (isNone.symm.trans isDefinition) nofun

theorem Stand.nil (scope next : ScopeId) : Stand scope next [] :=
  fun _ _ isBlock => nomatch isBlock

mutual

theorem InExpr.stand : ∀ {item : ScopeItem}, item.InExpr → ∀ scope next : ScopeId,
    Stand scope next (item.blocks scope next) ∧
      ∀ block ∈ item.blocks scope next, block.kind.isDefinition = false
  | mention _, _, scope, next => by
    rw [blocks]
    exact ⟨.nil scope next, nofun⟩
  | opens kind _, .opens isInner inside, _, next => by
    obtain ⟨stand, none'⟩ := AllInExpr.stand inside next (next + 1)
    have noDefinition : kind.isDefinition = false := by
      rcases isInner with rfl | rfl <;> rfl
    have noModule : kind ≠ .topLevel := by
      rcases isInner with rfl | rfl <;> nofun
    rw [blocks]
    refine ⟨stand.opens noModule (.inr none'), ?_⟩
    intro block isBlock
    rcases mem_cons.mp isBlock with rfl | isBlock
    · exact noDefinition
    · exact none' block isBlock

theorem AllInExpr.stand : ∀ {items : List ScopeItem}, AllInExpr items → ∀ scope next : ScopeId,
    Stand scope next (blocksOfAll scope next items) ∧
      ∀ block ∈ blocksOfAll scope next items, block.kind.isDefinition = false
  | [], _, scope, next => by
    rw [blocksOfAll]
    exact ⟨.nil scope next, nofun⟩
  | item :: _, inExpr, scope, next => by
    obtain ⟨stand, none'⟩ := InExpr.stand (inExpr item mem_cons_self) scope next
    obtain ⟨standRest, noneRest⟩ := AllInExpr.stand
      (fun other isIn => inExpr other (mem_cons_of_mem _ isIn)) scope
      (next + item.scopeCount)
    rw [blocksOfAll]
    rw [← length_blocks item scope next] at standRest noneRest ⊢
    exact ⟨stand.append standRest, forall_mem_append.mpr ⟨none', noneRest⟩⟩

end

end ScopeItem

end PyStatic
