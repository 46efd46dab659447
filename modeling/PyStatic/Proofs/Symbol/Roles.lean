import PyStatic.Proofs.Symbol.Usages

/-!
Contract: what stays of a symbol while the module around it is resolved.
-/

namespace PyStatic

inductive SymbolRole where
  | definition (node : Option NodeId)
  | other
  | ambiguous (alternatives : List SymbolId)
  deriving DecidableEq

def SymbolData.role : SymbolData → SymbolRole
  | .other _ => .other
  | .function info => .definition info.definition
  | .ofClass info => .definition info.definition
  | .ambiguous alternatives => .ambiguous alternatives

namespace Symbol

def role (symbol : Symbol) : SymbolRole :=
  symbol.data.role

structure Matures (symbol later : Symbol) : Prop where
  name : later.name = symbol.name
  fqn : later.fqn = symbol.fqn
  isBuiltin : later.isBuiltin = symbol.isBuiltin
  role : later.role = symbol.role
  usages : symbol.usages <+: later.usages

variable {symbol later last : Symbol}

theorem Matures.refl (symbol : Symbol) : symbol.Matures symbol :=
  ⟨rfl, rfl, rfl, rfl, List.prefix_refl _⟩

theorem Matures.trans (first : symbol.Matures later) (second : later.Matures last) :
    symbol.Matures last where
  name := second.name.trans first.name
  fqn := second.fqn.trans first.fqn
  isBuiltin := second.isBuiltin.trans first.isBuiltin
  role := second.role.trans first.role
  usages := first.usages.trans second.usages

theorem role_eq_ambiguous {alternatives : List SymbolId} :
    symbol.role = .ambiguous alternatives ↔ symbol.data = .ambiguous alternatives := by
  cases data : symbol.data <;> simp [role, SymbolData.role, data]

theorem kind_ne_ambiguous :
    symbol.kind ≠ .ambiguous ↔ ∀ alternatives, symbol.role ≠ .ambiguous alternatives := by
  cases data : symbol.data <;> simp [role, kind, SymbolData.role, SymbolData.kind, data]

theorem Matures.plain (matures : symbol.Matures later) (isPlain : symbol.kind ≠ .ambiguous) :
    later.kind ≠ .ambiguous := by
  rw [kind_ne_ambiguous] at isPlain ⊢
  rwa [matures.role]

end Symbol

namespace SymbolTable

def Evolves (table post : SymbolTable) : Prop :=
  ∀ id symbol, table.get? id = some symbol →
    ∃ later, post.get? id = some later ∧ symbol.Matures later

variable {table middle post : SymbolTable} {id : SymbolId} {symbol : Symbol}
  {change : Symbol → Symbol}

theorem Evolves.refl (table : SymbolTable) : Evolves table table :=
  fun _ symbol found => ⟨symbol, found, .refl symbol⟩

theorem Evolves.trans (first : Evolves table middle) (second : Evolves middle post) :
    Evolves table post := by
  intro id symbol found
  obtain ⟨later, isLater, matures⟩ := first id symbol found
  obtain ⟨last, isLast, grows⟩ := second id later isLater
  exact ⟨last, isLast, matures.trans grows⟩

theorem evolves_push (table : SymbolTable) (symbol : Symbol) :
    Evolves table (table.push symbol) := by
  intro id old found
  exact ⟨old, (get?_push_of_lt (lt_size_of_get? found)).trans found, .refl old⟩

theorem evolves_modify (table : SymbolTable) (id : SymbolId)
    (matures : ∀ symbol, table.get? id = some symbol → symbol.Matures (change symbol)) :
    Evolves table (table.modify id change) := by
  intro other old found
  by_cases isOther : id = other
  · subst isOther
    refine ⟨change old, ?_, matures old found⟩
    rw [get?_modify, if_pos rfl, found]
    rfl
  · exact ⟨old, (get?_modify_of_ne isOther change).trans found, .refl old⟩

theorem evolves_setData (found : table.get? id = some symbol) {data : SymbolData}
    (sameRole : data.role = symbol.role) : Evolves table (table.setData id data) := by
  apply evolves_modify
  intro other isOther
  obtain rfl := Option.some.inj (found.symm.trans isOther)
  exact ⟨rfl, rfl, rfl, sameRole, List.prefix_refl _⟩

theorem Evolves.size_le (evolves : Evolves table post) : table.size ≤ post.size := by
  apply Nat.le_of_not_lt
  intro smaller
  obtain ⟨symbol, found⟩ := exists_get? smaller
  obtain ⟨later, isLater, _⟩ := evolves post.size symbol found
  exact Nat.lt_irrefl _ (lt_size_of_get? isLater)

/-- All symbols stay, and nothing older belongs to new ones. -/
structure Grows (table post : SymbolTable) : Prop where
  evolves : Evolves table post
  holds : ∀ id held, post.Holds id held → table.Holds id held ∨
    table.size ≤ id ∧ table.size ≤ held ∧ held < post.size

theorem Grows.refl (table : SymbolTable) : Grows table table :=
  ⟨.refl table, fun _ _ => .inl⟩

theorem Grows.trans (first : Grows table middle) (second : Grows middle post) :
    Grows table post := by
  have older := first.evolves.size_le
  have newer := second.evolves.size_le
  refine ⟨first.evolves.trans second.evolves, ?_⟩
  intro id held holds
  rcases second.holds id held holds with earlier | ⟨isNew, isHeld, inRange⟩
  · rcases first.holds id held earlier with oldest | ⟨isNew, isHeld, inRange⟩
    · exact .inl oldest
    · exact .inr ⟨isNew, isHeld, Nat.lt_of_lt_of_le inRange newer⟩
  · exact .inr ⟨Nat.le_trans older isNew, Nat.le_trans older isHeld, inRange⟩

theorem Grows.closedFrom (grows : Grows table post) : post.ClosedFrom table.size := by
  intro id held isNew holds
  rcases grows.holds id held holds with ⟨symbol, found, _⟩ | ⟨_, areNew⟩
  · exact absurd (lt_size_of_get? found) (Nat.not_lt.mpr isNew)
  · exact areNew

theorem Grows.push (grows : Grows table post)
    (areNew : ∀ held ∈ symbol.data.held, table.size ≤ held ∧ held < post.size) :
    Grows table (post.push symbol) := by
  have grown : post.size ≤ (post.push symbol).size := by simp
  refine ⟨grows.evolves.trans (evolves_push post symbol), ?_⟩
  intro id held holds
  rcases holds_push holds with earlier | ⟨rfl, isHeld⟩
  · exact (grows.holds id held earlier).imp_right fun both =>
      ⟨both.1, both.2.1, Nat.lt_of_lt_of_le both.2.2 grown⟩
  · obtain ⟨isNew, inRange⟩ := areNew held isHeld
    exact .inr ⟨grows.evolves.size_le, isNew, Nat.lt_of_lt_of_le inRange grown⟩

theorem grows_push (table : SymbolTable) (isEmpty : symbol.data.held = []) :
    Grows table (table.push symbol) :=
  (Grows.refl table).push (by simp [isEmpty])

theorem grows_modify (table : SymbolTable) (id : SymbolId)
    (matures : ∀ symbol : Symbol, symbol.Matures (change symbol))
    (same : ∀ symbol, (change symbol).data.held = symbol.data.held) :
    Grows table (table.modify id change) :=
  ⟨evolves_modify table id fun symbol _ => matures symbol, fun _ _ => .inl ∘ holds_modify same⟩

theorem grows_addUsage (table : SymbolTable) (id : SymbolId) (usage : Usage) :
    Grows table (table.addUsage id usage) :=
  grows_modify table id (fun _ => ⟨rfl, rfl, rfl, rfl, List.prefix_append _ _⟩) fun _ => rfl

theorem grows_setScope (table : SymbolTable) (id : SymbolId) (scope : ScopeId) :
    Grows table (table.setScope id scope) :=
  grows_modify table id (fun _ => ⟨rfl, rfl, rfl, rfl, List.prefix_refl _⟩) fun _ => rfl

theorem grows_of_extends {pool post : SymbolPool} (extended : pool.Extends post)
    (closed : post.table.ClosedFrom pool.table.size) : Grows pool.table post.table := by
  refine ⟨fun _ symbol found => ⟨symbol, extended.get?_of_some found, .refl symbol⟩, ?_⟩
  intro id held holds
  by_cases isOld : id < pool.table.size
  · obtain ⟨symbol, found, isHeld⟩ := holds
    exact .inl ⟨symbol, extended.get? id isOld ▸ found, isHeld⟩
  · have isNew := Nat.le_of_not_lt isOld
    exact .inr ⟨isNew, closed id held isNew holds⟩

end SymbolTable

end PyStatic
