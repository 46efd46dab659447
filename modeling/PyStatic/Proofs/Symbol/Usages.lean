import PyStatic.Proofs.Builtin.Making
import PyStatic.Proofs.Sequence.Distinct
import PyStatic.Symbol.Ambiguous

/-!
Contract: what a change to a symbol table does to the usages in it.
-/

namespace PyStatic

open List

namespace SymbolTable

def usages (table : SymbolTable) : List Usage :=
  table.symbols.toList.flatMap (·.usages)

/-- The symbol is there and is not ambiguous. -/
def Plain (table : SymbolTable) (id : SymbolId) : Prop :=
  ∃ symbol, table.get? id = some symbol ∧ symbol.kind ≠ .ambiguous

/-- Ambiguous symbols are unused, and stand for several that are not ambiguous. -/
def Sound (table : SymbolTable) : Prop :=
  ∀ id symbol alternatives, table.get? id = some symbol → symbol.data = .ambiguous alternatives →
    symbol.usages = [] ∧ 2 ≤ alternatives.length ∧ alternatives.Nodup ∧
      ∀ alternative ∈ alternatives, table.Plain alternative

/-- No symbol goes and none becomes ambiguous. -/
structure Gains (table post : SymbolTable) (added : List Usage) : Prop where
  size_le : table.size ≤ post.size
  plain : ∀ id, table.Plain id → post.Plain id
  sound : table.Sound → post.Sound
  usages : post.usages.Perm (table.usages ++ added)
  bound : post.bound = table.bound

variable {table middle post : SymbolTable} {id : SymbolId} {symbol : Symbol} {ids : List SymbolId}
  {change : Symbol → Symbol}

theorem usages_push (table : SymbolTable) (symbol : Symbol) :
    (table.push symbol).usages = table.usages ++ symbol.usages := by
  show (table.symbols.push symbol).toList.flatMap _ = _
  rw [Array.toList_push, flatMap_append, flatMap_singleton]
  rfl

theorem usages_modify (found : table.get? id = some symbol) {added : List Usage}
    (changed : (change symbol).usages = symbol.usages ++ added) :
    (table.modify id change).usages.Perm (table.usages ++ added) := by
  have inRange : id < table.symbols.toList.length := lt_size_of_get? found
  have read : table.symbols.toList.get ⟨id, inRange⟩ = symbol :=
    (Array.getElem?_eq_some_iff.mp found).2
  show ((table.symbols.modify id change).toList.flatMap (·.usages)).Perm
    (table.symbols.toList.flatMap (·.usages) ++ added)
  obtain ⟨before, item, after, split, isLength, modified⟩ :=
    exists_of_modify change inRange
  obtain rfl : item = symbol := by
    subst isLength
    simpa [split] using read
  rw [Array.toList_modify, modified, split]
  simp only [flatMap_append, flatMap_cons, changed, append_assoc]
  exact (perm_append_comm.append_left _).append_left _

namespace Gains

variable {added more : List Usage}

theorem refl (table : SymbolTable) : Gains table table [] :=
  ⟨Nat.le_refl _, fun _ plain => plain, fun sound => sound, by rw [append_nil], rfl⟩

theorem trans (first : Gains table middle added) (second : Gains middle post more) :
    Gains table post (added ++ more) where
  size_le := Nat.le_trans first.size_le second.size_le
  plain id isPlain := second.plain id (first.plain id isPlain)
  sound isSound := second.sound (first.sound isSound)
  usages := by
    rw [← append_assoc]
    exact second.usages.trans (first.usages.append_right more)
  bound := second.bound.trans first.bound

theorem after (second : Gains middle post added) (first : Gains table middle []) :
    Gains table post added :=
  first.trans second

theorem lt_size (gains : Gains table post added) (inRange : id < table.size) : id < post.size :=
  Nat.lt_of_lt_of_le inRange gains.size_le

end Gains

theorem gains_push (unused : symbol.usages = [])
    (formed : ∀ alternatives, symbol.data = .ambiguous alternatives →
      2 ≤ alternatives.length ∧ alternatives.Nodup ∧
        ∀ alternative ∈ alternatives, table.Plain alternative) :
    Gains table (table.push symbol) [] := by
  have kept : ∀ id, table.Plain id → (table.push symbol).Plain id := by
    rintro id ⟨old, found, isPlain⟩
    exact ⟨old, (get?_push_of_lt (lt_size_of_get? found)).trans found, isPlain⟩
  refine ⟨?_, kept, ?_, ?_, rfl⟩
  · rw [size_push]
    omega
  · intro sound id found alternatives read isAmbiguous
    rw [get?_push] at read
    split at read
    · cases read
      obtain ⟨several, apart, plain⟩ := formed alternatives isAmbiguous
      exact ⟨unused, several, apart, fun other mem => kept other (plain other mem)⟩
    · obtain ⟨isUnused, several, apart, plain⟩ := sound id found alternatives read isAmbiguous
      exact ⟨isUnused, several, apart, fun other mem => kept other (plain other mem)⟩
  · rw [usages_push, unused]

theorem size_lt_push (table : SymbolTable) (symbol : Symbol) :
    table.size < (table.push symbol).size := by
  rw [size_push]
  exact Nat.lt_succ_self _

theorem gains_pushFresh (table : SymbolTable) (name : String) (fqn : Option String)
    {data : SymbolData} (isPlain : data.kind ≠ .ambiguous) (scope : Option ScopeId) :
    Gains table (table.push (.fresh name fqn data scope)) [] := by
  apply gains_push rfl
  rintro alternatives rfl
  exact absurd rfl isPlain

theorem gains_modify (found : table.get? id = some symbol) {added : List Usage}
    (changed : (change symbol).usages = symbol.usages ++ added)
    (keeps : (change symbol).data = symbol.data ∧ added = [] ∨
      symbol.kind ≠ .ambiguous ∧ (change symbol).kind ≠ .ambiguous) :
    Gains table (table.modify id change) added := by
  have own : (table.modify id change).get? id = some (change symbol) := by
    rw [get?_modify, if_pos rfl, found]
    rfl
  have kept : ∀ other, table.Plain other → (table.modify id change).Plain other := by
    rintro other ⟨old, read, isPlain⟩
    by_cases same : id = other
    · subst same
      obtain rfl := Option.some.inj (found.symm.trans read)
      refine ⟨_, own, ?_⟩
      rcases keeps with ⟨sameData, _⟩ | ⟨_, staysPlain⟩
      · rwa [Symbol.kind, sameData]
      · exact staysPlain
    · exact ⟨old, (get?_modify_of_ne same change).trans read, isPlain⟩
  refine ⟨Nat.le_of_eq (size_modify table id change).symm, kept, ?_,
    usages_modify found changed, rfl⟩
  intro sound other symbol' alternatives read isAmbiguous
  by_cases same : id = other
  · subst same
    obtain rfl := Option.some.inj (own.symm.trans read)
    rcases keeps with ⟨sameData, noneAdded⟩ | ⟨_, staysPlain⟩
    · rw [sameData] at isAmbiguous
      obtain ⟨isUnused, several, apart, plain⟩ := sound id symbol alternatives found isAmbiguous
      refine ⟨?_, several, apart, fun other mem => kept other (plain other mem)⟩
      rw [changed, isUnused, noneAdded]
      rfl
    · rw [Symbol.kind, isAmbiguous] at staysPlain
      exact absurd rfl staysPlain
  · rw [get?_modify_of_ne same] at read
    obtain ⟨isUnused, several, apart, plain⟩ := sound other symbol' alternatives read isAmbiguous
    exact ⟨isUnused, several, apart, fun other mem => kept other (plain other mem)⟩

theorem modify_of_absent (absent : table.get? id = none) (change : Symbol → Symbol) :
    table.modify id change = table := by
  have outside : table.symbols.toList.length ≤ id := Array.getElem?_eq_none_iff.mp absent
  rw [modify]
  congr 1
  apply Array.toList_inj.mp
  rw [Array.toList_modify, modify_eq_self outside]

theorem gains_relabel (table : SymbolTable) (id : SymbolId)
    (sameData : ∀ symbol, (change symbol).data = symbol.data)
    (sameUsages : ∀ symbol, (change symbol).usages = symbol.usages) :
    Gains table (table.modify id change) [] := by
  cases found : table.get? id with
  | some symbol =>
    apply gains_modify found
    · rw [sameUsages, append_nil]
    · exact .inl ⟨sameData symbol, rfl⟩
  | none =>
    rw [modify_of_absent found]
    exact .refl table

theorem gains_setName (table : SymbolTable) (id : SymbolId) (name : String) :
    Gains table (table.setName id name) [] :=
  gains_relabel table id (fun _ => rfl) (fun _ => rfl)

theorem gains_setScope (table : SymbolTable) (id : SymbolId) (scope : ScopeId) :
    Gains table (table.setScope id scope) [] :=
  gains_relabel table id (fun _ => rfl) (fun _ => rfl)

theorem gains_setData (isPlain : table.Plain id) {data : SymbolData}
    (staysPlain : data.kind ≠ .ambiguous) : Gains table (table.setData id data) [] := by
  obtain ⟨symbol, found, isPlain⟩ := isPlain
  exact gains_modify found (append_nil _).symm (.inr ⟨isPlain, staysPlain⟩)

theorem gains_addUsage (isPlain : table.Plain id) (usage : Usage) :
    Gains table (table.addUsage id usage) [usage] := by
  obtain ⟨symbol, found, isPlain⟩ := isPlain
  exact gains_modify found rfl (.inr ⟨isPlain, isPlain⟩)

theorem alternatives_of_get? (found : table.get? id = some symbol) :
    table.alternatives id = symbol.alternatives := by
  rw [alternatives, found]
  rfl

theorem alternatives_of_plain (isPlain : table.Plain id) : table.alternatives id = [] := by
  obtain ⟨symbol, found, isPlain⟩ := isPlain
  rw [alternatives_of_get? found, Symbol.alternatives]
  cases data : symbol.data with
  | ambiguous => exact absurd (congrArg SymbolData.kind data) isPlain
  | _ => rfl

theorem plain_usageTarget (sound : table.Sound) (inRange : id < table.size) :
    table.Plain (table.usageTarget id) := by
  obtain ⟨symbol, found⟩ := exists_get? inRange
  rw [usageTarget, alternatives_of_get? found, Symbol.alternatives]
  split
  next alternatives isAmbiguous =>
    obtain ⟨_, several, _, plain⟩ := sound id symbol alternatives found isAmbiguous
    cases last : alternatives.getLast? with
    | some alternative => exact plain alternative (mem_of_getLast? last)
    | none =>
      rw [getLast?_eq_none_iff.mp last] at several
      cases several
  next isPlain =>
    refine ⟨symbol, found, ?_⟩
    intro isAmbiguous
    rw [Symbol.kind] at isAmbiguous
    cases data : symbol.data with
    | ambiguous alternatives => exact isPlain alternatives data
    | _ => simp [data, SymbolData.kind] at isAmbiguous

theorem leaves_of_plain (isPlain : table.Plain id) (depth : Nat) :
    table.leaves depth id = [id] := by
  obtain ⟨symbol, found, isPlain⟩ := isPlain
  cases depth with
  | zero => rfl
  | succ =>
    rw [leaves, found]
    dsimp only
    split
    next alternatives isAmbiguous =>
      rw [Symbol.kind, isAmbiguous] at isPlain
      exact absurd rfl isPlain
    next => rfl

theorem plain_of_mem_leaves (sound : table.Sound) (inRange : id < table.size) {depth : Nat}
    {leaf : SymbolId} (mem : leaf ∈ table.leaves (depth + 1) id) : table.Plain leaf := by
  obtain ⟨symbol, found⟩ := exists_get? inRange
  by_cases isPlain : symbol.kind = .ambiguous
  · cases data : symbol.data with
    | ambiguous alternatives =>
      rw [leaves, found] at mem
      simp only [data, mem_flatMap] at mem
      obtain ⟨alternative, isAlternative, mem⟩ := mem
      have plain := (sound id symbol alternatives found data).2.2.2 alternative isAlternative
      rw [leaves_of_plain plain, mem_singleton] at mem
      exact mem ▸ plain
    | _ => simp [Symbol.kind, data, SymbolData.kind] at isPlain
  · have plain : table.Plain id := ⟨symbol, found, isPlain⟩
    rw [leaves_of_plain plain, mem_singleton] at mem
    exact mem ▸ plain

theorem plain_of_mem_flattened (sound : table.Sound) (inRange : ∀ id ∈ ids, id < table.size)
    {leaf : SymbolId} (mem : leaf ∈ table.flattened ids) : table.Plain leaf := by
  rw [flattened, mem_eraseDups, mem_flatMap] at mem
  obtain ⟨id, isMember, mem⟩ := mem
  have older := inRange id isMember
  obtain ⟨depth, isSize⟩ := Nat.exists_eq_succ_of_ne_zero (Nat.ne_zero_of_lt older)
  rw [isSize] at mem
  exact plain_of_mem_leaves sound older mem

theorem forall_mem_flattened {Holds : SymbolId → Prop}
    (closed : ∀ id held, Holds id → table.Holds id held → Holds held) (all : ∀ id ∈ ids, Holds id) :
    ∀ leaf ∈ table.flattened ids, Holds leaf := by
  have each : ∀ (depth : Nat) (id : SymbolId), Holds id → ∀ leaf ∈ table.leaves depth id,
      Holds leaf := by
    intro depth
    induction depth with
    | zero => exact fun id holds leaf isLeaf => mem_singleton.mp isLeaf ▸ holds
    | succ _ ih =>
      intro id holds leaf isLeaf
      rw [leaves] at isLeaf
      split at isLeaf
      · exact mem_singleton.mp isLeaf ▸ holds
      next symbol found =>
        split at isLeaf
        next alternatives isAmbiguous =>
          obtain ⟨alternative, isIn, isLeaf⟩ := mem_flatMap.mp isLeaf
          refine ih alternative (closed id alternative holds ?_) leaf isLeaf
          exact ⟨symbol, found, isAmbiguous ▸ isIn⟩
        next => exact mem_singleton.mp isLeaf ▸ holds
  intro leaf isLeaf
  rw [flattened, mem_eraseDups, mem_flatMap] at isLeaf
  obtain ⟨id, isIn, isLeaf⟩ := isLeaf
  exact each _ id (all id isIn) leaf isLeaf

theorem ambiguous?_eq_ok (made : table.ambiguous? ids = .ok symbol) :
    symbol.usages = [] ∧ symbol.data = .ambiguous (table.flattened ids) ∧
      2 ≤ (table.flattened ids).length := by
  rw [ambiguous?] at made
  cases isFlat : table.flattened ids with
  | nil => simp [isFlat] at made
  | cons _ rest =>
    cases rest with
    | nil => simp [isFlat] at made
    | cons _ rest =>
      simp only [isFlat] at made
      refine ⟨?_, ?_, Nat.le_add_left 2 rest.length⟩
      all_goals
        split at made
        · obtain rfl := Except.ok.inj made
          rfl
        · obtain rfl := Except.ok.inj made
          rfl
        · cases made

theorem gains_pushAmbiguous (sound : table.Sound) (inRange : ∀ id ∈ ids, id < table.size)
    (made : table.ambiguous? ids = .ok symbol) : Gains table (table.push symbol) [] := by
  obtain ⟨unused, isAmbiguous, several⟩ := ambiguous?_eq_ok made
  apply gains_push unused
  intro alternatives isData
  rw [isAmbiguous] at isData
  obtain rfl := SymbolData.ambiguous.inj isData
  exact ⟨several, Sequence.nodup_eraseDups _, fun _ => plain_of_mem_flattened sound inRange⟩

theorem gains_unite (sound : table.Sound) (inRange : ∀ id ∈ ids, id < table.size) :
    Gains table (table.unite ids).1 [] ∧
      ∀ id, (table.unite ids).2 = some id → id < (table.unite ids).1.size := by
  rw [unite, pushAmbiguous]
  cases made : table.ambiguous? ids with
  | ok symbol =>
    refine ⟨gains_pushAmbiguous sound inRange made, ?_⟩
    rintro _ ⟨rfl⟩
    exact size_lt_push table symbol
  | error =>
    exact ⟨.refl table, fun id last => inRange id (mem_of_getLast? last)⟩

theorem usages_of_extends {pool post : SymbolPool} (extended : pool.Extends post)
    (unused : ∀ id symbol, pool.table.size ≤ id → post.table.get? id = some symbol →
      symbol.usages = []) :
    post.table.usages = pool.table.usages := by
  have older : post.table.symbols.toList.take pool.table.size = pool.table.symbols.toList := by
    apply ext_getElem?
    intro id
    rw [getElem?_take, Array.getElem?_toList, Array.getElem?_toList]
    split
    next inRange => exact extended.get? id inRange
    next outside => exact (Array.getElem?_eq_none_iff.mpr (Nat.le_of_not_lt outside)).symm
  have newer : (post.table.symbols.toList.drop pool.table.size).flatMap (·.usages) = [] := by
    rw [flatMap_eq_nil_iff]
    intro symbol mem
    obtain ⟨place, read⟩ := mem_iff_getElem?.mp mem
    rw [getElem?_drop, Array.getElem?_toList] at read
    exact unused _ symbol (Nat.le_add_right _ place) read
  rw [usages, ← take_append_drop pool.table.size post.table.symbols.toList, older,
    flatMap_append, newer, append_nil]
  rfl

theorem gains_of_makes {Named : String → Prop} {pool post : SymbolPool}
    (makes : Builtin.Makes Named pool post) : Gains pool.table post.table [] := by
  have kept : ∀ id, pool.table.Plain id → post.table.Plain id := by
    rintro id ⟨symbol, found, isPlain⟩
    exact ⟨symbol, makes.extended.get?_of_some found, isPlain⟩
  refine ⟨makes.extended.size_le, kept, ?_, ?_, makes.extended.bound⟩
  · intro sound id symbol alternatives found isAmbiguous
    by_cases older : id < pool.table.size
    · rw [makes.extended.get? id older] at found
      obtain ⟨isUnused, several, apart, plain⟩ := sound id symbol alternatives found isAmbiguous
      exact ⟨isUnused, several, apart, fun other mem => kept other (plain other mem)⟩
    · obtain ⟨_, _, data, rfl, isPlain, _⟩ := makes.fresh id symbol (Nat.le_of_not_lt older) found
      obtain rfl : data = .ambiguous alternatives := isAmbiguous
      exact absurd rfl isPlain
  · rw [append_nil]
    apply Perm.of_eq
    apply usages_of_extends makes.extended
    intro id symbol added found
    obtain ⟨_, _, _, rfl, _⟩ := makes.fresh id symbol added found
    rfl

end SymbolTable

end PyStatic
