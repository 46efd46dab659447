import PyStatic.Proofs.Binding.Passes
import PyStatic.Proofs.Symbol.Roles

/-!
Contract: symbols that were made for different names of a module have nothing in common.
-/

namespace PyStatic

def ownerFor (scope : ScopeId) (name : String) : Option String :=
  if scope = moduleScope then some name else none

namespace SymbolTable

/-- What is bound has its owner, and so has what belongs to it. -/
structure OwnedBy (owner : SymbolId → Option String) (table : SymbolTable) : Prop where
  bound : ∀ scope name id, table.lookup? scope name = some id →
    id < table.size ∧ owner id = ownerFor scope name
  holds : ∀ id held, table.Holds id held →
    held < table.size ∧ ∀ name, owner held = some name → owner id = some name

def Owned (table : SymbolTable) : Prop :=
  ∃ owner, table.OwnedBy owner

variable {table post : SymbolTable} {owner : SymbolId → Option String}

theorem owned_empty : SymbolTable.empty.Owned := by
  refine ⟨fun _ => none, ?_, ?_⟩
  · intro scope name id found
    exact absurd ((lookup?_empty scope name).symm.trans found) nofun
  · rintro id held ⟨symbol, found, _⟩
    cases found

theorem OwnedBy.grow (owned : table.OwnedBy owner) (grows : Grows table post)
    (added : Option String)
    (bound : ∀ scope name id, post.lookup? scope name = some id →
      table.lookup? scope name = some id ∨
        ownerFor scope name = added ∧ table.size ≤ id ∧ id < post.size) :
    post.OwnedBy fun id => if id < table.size then owner id else added := by
  have grown := grows.evolves.size_le
  constructor
  · intro scope name id found
    rcases bound scope name id found with earlier | ⟨isOwner, isNew, inRange⟩
    · obtain ⟨inRange, isOwner⟩ := owned.bound scope name id earlier
      exact ⟨Nat.lt_of_lt_of_le inRange grown, (if_pos inRange).trans isOwner⟩
    · exact ⟨inRange, (if_neg (Nat.not_lt.mpr isNew)).trans isOwner.symm⟩
  · intro id held holds
    rcases grows.holds id held holds with earlier | ⟨isNew, isHeldNew, inRange⟩
    · obtain ⟨inRange, same⟩ := owned.holds id held earlier
      obtain ⟨symbol, found, _⟩ := earlier
      simp only [if_pos inRange, if_pos (lt_size_of_get? found)]
      exact ⟨Nat.lt_of_lt_of_le inRange grown, same⟩
    · simp only [if_neg (Nat.not_lt.mpr isNew), if_neg (Nat.not_lt.mpr isHeldNew)]
      exact ⟨inRange, fun _ same => same⟩

theorem Grows.owned (grows : Grows table post) (sameBound : post.bound = table.bound) :
    table.Owned → post.Owned := by
  rintro ⟨owner, owned⟩
  refine ⟨_, owned.grow grows none ?_⟩
  intro scope name id found
  exact .inl (lookup?_congr sameBound scope name ▸ found)

theorem OwnedBy.setData (owned : table.OwnedBy owner) {id : SymbolId} {data : SymbolData}
    (free : ∀ held ∈ data.held, table.Holds id held ∨ held < table.size ∧ owner held = none) :
    (table.setData id data).OwnedBy owner := by
  constructor
  · intro scope name other found
    rw [size_setData]
    exact owned.bound scope name other found
  · intro other held holds
    rw [size_setData]
    rcases holds_setData holds with earlier | ⟨rfl, isHeld⟩
    · exact owned.holds other held earlier
    · rcases free held isHeld with earlier | ⟨inRange, noOwner⟩
      · exact owned.holds other held earlier
      · exact ⟨inRange, fun name isOwner => absurd (noOwner.symm.trans isOwner) nofun⟩

theorem mem_inScope {scope : ScopeId} {id : SymbolId} :
    id ∈ table.inScope scope ↔ ∃ name, table.lookup? scope name = some id := by
  rw [inScope, List.mem_mergeSort, List.mem_map]
  constructor
  · rintro ⟨⟨name, _⟩, isIn, rfl⟩
    exact ⟨name, Std.ExtTreeMap.mem_toList_iff_getElem?_eq_some.mp isIn⟩
  · rintro ⟨name, found⟩
    exact ⟨(name, id), Std.ExtTreeMap.mem_toList_iff_getElem?_eq_some.mpr found, rfl⟩

end SymbolTable

end PyStatic
