import PyStatic.Proofs.Binding.BoundNodes

/-!
Contract: in a module without a project, the bindings of one name make as many symbols as there are
definitions among them, and one more for all plain values.

The run over the bindings of a name is told by the bindings so far, each with the symbol that
carries it.
-/

namespace PyStatic

open List

inductive BindingSort where
  | definition
  | imported
  | plain
  deriving DecidableEq

namespace BindingOrigin

variable {origin : BindingOrigin}

def sort : BindingOrigin → BindingSort
  | .functionDef _ | .classDef _ => .definition
  | .importedName _ | .importedModule _ _ => .imported
  | .plain => .plain

theorem role_of_not_definition (noDefinition : origin.sort ≠ .definition) :
    origin.role = .other := by
  cases origin <;> simp_all [sort, role]

theorem role_of_definition (isDefinition : origin.sort = .definition) : origin.role ≠ .other := by
  cases origin <;> simp_all [sort, role]

end BindingOrigin

namespace Binding

/-- Plain values share a symbol, and so does an import that comes first. -/
def hasShared (bindings : List Binding) : Bool :=
  bindings.any (·.origin.sort = .plain) || bindings.head?.any (·.origin.sort = .imported)

def definitionCount (bindings : List Binding) : Nat :=
  bindings.countP (·.origin.sort = .definition)

def symbolCount (bindings : List Binding) : Nat :=
  definitionCount bindings + (hasShared bindings).toNat

theorem hasShared_append (bindings : List Binding) (binding : Binding) :
    hasShared (bindings ++ [binding]) = (hasShared bindings || binding.origin.sort = .plain ||
      (bindings.isEmpty && binding.origin.sort = .imported)) := by
  cases bindings with
  | nil => simp [hasShared]
  | cons =>
    simp only [hasShared, any_append, any_cons, any_nil, cons_append,
      head?_cons, Option.any_some, isEmpty_cons, Bool.false_and, Bool.or_false]
    ac_rfl

theorem definitionCount_append (bindings : List Binding) (binding : Binding) :
    definitionCount (bindings ++ [binding]) =
      definitionCount bindings + (decide (binding.origin.sort = .definition)).toNat := by
  rw [definitionCount, definitionCount, countP_append, countP_singleton]
  cases decide (binding.origin.sort = .definition) <;> rfl

theorem symbolCount_pos {bindings : List Binding} (isBound : bindings ≠ []) :
    1 ≤ symbolCount bindings := by
  cases bindings with
  | nil => exact absurd rfl isBound
  | cons first =>
    rw [symbolCount, definitionCount, hasShared, countP_cons]
    cases isSort : first.origin.sort with
    | definition =>
      simp only [decide_true, if_true]
      omega
    | _ => simp [isSort]

end Binding

theorem Sequence.eq_or_split_of_append {α : Type} {items earlier later : List α} {item other : α}
    (same : items ++ [item] = earlier ++ other :: later) :
    (earlier = items ∧ other = item ∧ later = []) ∨
      ∃ rest, later = rest ++ [item] ∧ items = earlier ++ other :: rest := by
  rcases eq_nil_or_concat later with rfl | ⟨rest, last, rfl⟩
  · obtain ⟨isEarlier, isOther⟩ := append_inj' same rfl
    exact Or.inl ⟨isEarlier.symm, by simpa using isOther.symm, rfl⟩
  · have regrouped : items ++ [item] = (earlier ++ other :: rest) ++ [last] := by simpa using same
    obtain ⟨isItems, isLast⟩ := append_inj' regrouped rfl
    exact Or.inr ⟨rest, by simpa using isLast.symm, isItems⟩

namespace SymbolTable

/-- A symbol of this name carries a binding and has the role for it. -/
def Carries (table : SymbolTable) (name : String) (binding : Binding) (id : SymbolId) : Prop :=
  ∃ symbol, table.get? id = some symbol ∧ symbol.name = name ∧ symbol.kind ≠ .ambiguous ∧
    binding.toUsage ∈ symbol.usages ∧
    (binding.origin.sort ≠ .imported → symbol.role = binding.origin.role)

/-- Each binding is carried by its symbol, and definitions have symbols of their own. -/
structure Shares (table : SymbolTable) (name : String) (placed : List (Binding × SymbolId)) :
    Prop where
  carries : ∀ pair ∈ placed, table.Carries name pair.1 pair.2
  own : ∀ earlier binding id later, placed = earlier ++ (binding, id) :: later →
    binding.origin.sort = .definition →
      id ∉ earlier.map (·.2) ∧ ∀ pair ∈ later, pair.2 = id → pair.1.origin.sort = .imported
  repeated : ∀ earlier binding id later, placed = earlier ++ (binding, id) :: later →
    binding.origin.sort = .imported → earlier ≠ [] → id ∈ earlier.map (·.2)
  common : ∀ first ∈ placed, ∀ second ∈ placed, first.1.origin.sort = .plain →
    second.1.origin.sort = .plain → first.2 = second.2

variable {table post : SymbolTable} {name : String} {binding : Binding} {id : SymbolId}
  {placed : List (Binding × SymbolId)}

theorem Carries.evolve (carries : table.Carries name binding id) (evolves : Evolves table post) :
    post.Carries name binding id := by
  obtain ⟨symbol, found, isName, isPlain, isUsage, isRole⟩ := carries
  obtain ⟨later, isLater, matures⟩ := evolves id symbol found
  refine ⟨later, isLater, matures.name.trans isName, matures.plain isPlain,
    matures.usages.subset isUsage, ?_⟩
  intro noImport
  exact matures.role.trans (isRole noImport)

theorem Carries.callsPlain (carries : table.Carries name binding id) :
    table.CallsPlain id name := by
  obtain ⟨symbol, found, isName, isPlain, -⟩ := carries
  exact ⟨symbol.label, label?_of_get? found, isName, by simpa [Symbol.label] using isPlain⟩

theorem Carries.lt_size (carries : table.Carries name binding id) : id < table.size := by
  obtain ⟨symbol, found, -⟩ := carries
  exact lt_size_of_get? found

theorem Carries.ne_of_plain {other : Binding} {otherId : SymbolId}
    (carries : table.Carries name binding id) (isDefinition : binding.origin.sort = .definition)
    (otherCarries : table.Carries name other otherId) (isPlain : other.origin.sort = .plain) :
    otherId ≠ id := by
  rintro rfl
  obtain ⟨symbol, found, -, -, -, isRole⟩ := carries
  obtain ⟨same, isSame, -, -, -, isOther⟩ := otherCarries
  obtain rfl := Option.some.inj (found.symm.trans isSame)
  have isValue : other.origin.role = .other :=
    BindingOrigin.role_of_not_definition (by simp [isPlain])
  have both := (isRole (by simp [isDefinition])).symm.trans (isOther (by simp [isPlain]))
  exact BindingOrigin.role_of_definition isDefinition (both.trans isValue)

namespace Shares

theorem nil (table : SymbolTable) (name : String) : table.Shares name [] :=
  ⟨by simp, by simp, by simp, by simp⟩

theorem evolve (shares : table.Shares name placed) (evolves : Evolves table post) :
    post.Shares name placed :=
  ⟨fun pair isIn => (shares.carries pair isIn).evolve evolves, shares.own, shares.repeated,
    shares.common⟩

theorem carries_of_mem (shares : table.Shares name placed) (isIn : id ∈ placed.map (·.2)) :
    ∃ binding, table.Carries name binding id := by
  obtain ⟨pair, isPair, rfl⟩ := mem_map.mp isIn
  exact ⟨pair.1, shares.carries pair isPair⟩

theorem append (shares : table.Shares name placed) (carries : table.Carries name binding id)
    (isOwn : binding.origin.sort = .definition → id ∉ placed.map (·.2))
    (isRepeated : binding.origin.sort = .imported → placed ≠ [] → id ∈ placed.map (·.2))
    (isCommon : binding.origin.sort = .plain → ∀ pair ∈ placed, pair.1.origin.sort = .plain →
      pair.2 = id) :
    table.Shares name (placed ++ [(binding, id)]) where
  carries pair isIn := by
    rcases mem_append.mp isIn with isOld | isNew
    · exact shares.carries pair isOld
    · obtain rfl := mem_singleton.mp isNew
      exact carries
  own earlier other otherId later split isDefinition := by
    rcases Sequence.eq_or_split_of_append split with ⟨rfl, same, rfl⟩ | ⟨rest, rfl, isSplit⟩
    · obtain ⟨rfl, rfl⟩ := Prod.mk.inj same
      exact ⟨isOwn isDefinition, by simp⟩
    · obtain ⟨isFresh, others⟩ := shares.own earlier other otherId rest isSplit isDefinition
      refine ⟨isFresh, ?_⟩
      intro pair isIn sameId
      rcases mem_append.mp isIn with isOld | isNew
      · exact others pair isOld sameId
      · obtain rfl := mem_singleton.mp isNew
        have isOther : (other, otherId) ∈ placed := by simp [isSplit]
        cases isSort : binding.origin.sort with
        | imported => rfl
        | definition =>
          exact absurd (mem_map.mpr ⟨_, isOther, sameId.symm⟩) (isOwn isSort)
        | plain =>
          exact absurd sameId ((shares.carries _ isOther).ne_of_plain isDefinition carries isSort)
  repeated earlier other otherId later split isImport notFirst := by
    rcases Sequence.eq_or_split_of_append split with ⟨rfl, same, rfl⟩ | ⟨rest, rfl, isSplit⟩
    · obtain ⟨rfl, rfl⟩ := Prod.mk.inj same
      exact isRepeated isImport notFirst
    · exact shares.repeated earlier other otherId rest isSplit isImport notFirst
  common first isFirst second isSecond firstPlain secondPlain := by
    rcases mem_append.mp isFirst with oldFirst | newFirst <;>
      rcases mem_append.mp isSecond with oldSecond | newSecond
    · exact shares.common first oldFirst second oldSecond firstPlain secondPlain
    · obtain rfl := mem_singleton.mp newSecond
      exact isCommon secondPlain first oldFirst firstPlain
    · obtain rfl := mem_singleton.mp newFirst
      exact (isCommon firstPlain second oldSecond secondPlain).symm
    · rw [mem_singleton.mp newFirst, mem_singleton.mp newSecond]

end Shares

def owners (placed : List (Binding × SymbolId)) : List SymbolId :=
  (placed.map (·.2)).eraseDups

theorem owners_append_of_mem (binding : Binding) (known : id ∈ placed.map (·.2)) :
    owners (placed ++ [(binding, id)]) = owners placed := by
  rw [owners, map_append, eraseDups_append]
  simp [owners, removeAll, known]

theorem owners_append_of_not_mem (binding : Binding) (isNew : id ∉ placed.map (·.2)) :
    owners (placed ++ [(binding, id)]) = owners placed ++ [id] := by
  rw [owners, map_append, eraseDups_append]
  simp [owners, removeAll, isNew, eraseDups_cons]

end SymbolTable

/-- An ambiguous symbol for several `owners`, or else the only one. -/
structure Symbol.StandsFor (symbol : Symbol) (id : SymbolId) (owners : List SymbolId) : Prop where
  several : 2 ≤ owners.length → symbol.data = .ambiguous owners
  single : owners.length = 1 → owners = [id] ∧
    (symbol.kind = .function ∨ symbol.kind = .ofClass ∨ symbol.kind = .other)

theorem Symbol.kind_cases {symbol : Symbol} (isPlain : symbol.kind ≠ .ambiguous) :
    symbol.kind = .function ∨ symbol.kind = .ofClass ∨ symbol.kind = .other := by
  cases isKind : symbol.kind <;> simp_all

theorem Symbol.StandsFor.mature {symbol later : Symbol} {id : SymbolId} {owners : List SymbolId}
    (stands : symbol.StandsFor id owners) (matures : symbol.Matures later) :
    later.StandsFor id owners where
  several isSeveral := by
    rw [← Symbol.role_eq_ambiguous, matures.role, Symbol.role_eq_ambiguous]
    exact stands.several isSeveral
  single isSingle := by
    obtain ⟨isOnly, isKind⟩ := stands.single isSingle
    refine ⟨isOnly, kind_cases (matures.plain ?_)⟩
    rcases isKind with isKind | isKind | isKind <;> simp [isKind]

theorem SymbolTable.ambiguous?_of_calls {table : SymbolTable} {name : String}
    {ids : List SymbolId} (several : 2 ≤ ids.length) (distinct : ids.Nodup)
    (calls : ∀ id ∈ ids, table.CallsPlain id name) :
    ∃ symbol, table.ambiguous? ids = .ok symbol ∧ symbol.data = .ambiguous ids := by
  have isFlat := flattened_of_plain (fun id isIn => (calls id isIn).plain) distinct
  have made := ambiguous?_of_called (isFlat.symm ▸ fun id isIn => (calls id isIn).calls)
    (isFlat.symm ▸ several)
  rw [isFlat] at made
  obtain ⟨symbol, united, _, isData⟩ := made
  exact ⟨symbol, united, isData⟩

namespace Merging

open SymbolTable Resolution

variable {around : Surroundings} {merging : Merging} {name : String} {binding : Binding}
  {id : SymbolId} {origin : BindingOrigin} {placed : List (Binding × SymbolId)}

theorem common?_of_definition (isDefinition : origin.sort = .definition) (merging : Merging) :
    merging.common? origin = none := by
  cases origin <;> simp_all [BindingOrigin.sort, common?]

theorem common?_of_plain (isPlain : origin.sort = .plain) (merging : Merging) :
    merging.common? origin = merging.shared := by
  cases origin <;> simp_all [BindingOrigin.sort, common?]

theorem common?_of_imported (isImport : origin.sort = .imported) (merging : Merging) :
    merging.common? origin = (merging.shared <|> merging.alternatives.getLast?) := by
  cases origin <;> simp_all [BindingOrigin.sort, common?]

theorem sharedAfter_eq (merging : Merging) (id : SymbolId) (origin : BindingOrigin) :
    merging.sharedAfter id origin =
      if origin.sort = .definition then merging.shared else (merging.shared <|> some id) := by
  cases origin <;> simp [BindingOrigin.sort, sharedAfter]

theorem of_common?_eq_none (absent : merging.common? origin = none)
    (noDefinition : origin.sort ≠ .definition) :
    merging.shared = none ∧ (origin.sort = .imported → merging.alternatives = []) := by
  cases isSort : origin.sort with
  | definition => exact absurd isSort noDefinition
  | plain => exact ⟨(common?_of_plain isSort merging).symm.trans absent, by simp⟩
  | imported =>
    rw [common?_of_imported isSort] at absent
    cases shared : merging.shared <;> simp_all

theorem extend_of_noProject (noProject : around.project = none) (id : SymbolId)
    (origin : BindingOrigin) (table : SymbolTable) : extend around id origin table = table := by
  unfold extend
  rw [noProject]
  cases origin <;> rfl

theorem pushSymbol_of_noProject (noProject : around.project = none) (scope : ScopeId)
    (path name : String) (table : SymbolTable) (origin : BindingOrigin) :
    ∃ symbol, pushSymbol around scope path name table origin = (table.push symbol, table.size) ∧
      symbol.name = name ∧ symbol.role = origin.role := by
  cases origin with
  | importedName fqn =>
    refine ⟨.fresh name (some fqn) (.other []) (some scope), ?_, rfl, rfl⟩
    rw [pushSymbol, noProject]
    rfl
  | importedModule fqn =>
    refine ⟨.fresh name (some fqn) (.other []) (some scope), ?_, rfl, rfl⟩
    rw [pushSymbol, noProject]
    exact Prod.ext (extend_of_noProject noProject _ _ _) rfl
  | _ => exact ⟨_, rfl, rfl, rfl⟩

theorem add_of_common (noProject : around.project = none)
    (common : merging.common? binding.origin = some id) (scope : ScopeId) (path name : String) :
    merging.add around scope path name binding =
      { merging with resolution := merging.resolution.recordUsage id binding.toUsage } := by
  rw [add, common]
  dsimp only
  rw [extend_of_noProject noProject]

theorem carries_recordUsage {resolution : Resolution} {symbol : Symbol}
    (found : resolution.table.get? id = some symbol) (isName : symbol.name = name)
    (isPlain : symbol.kind ≠ .ambiguous)
    (isRole : binding.origin.sort ≠ .imported → symbol.role = binding.origin.role) :
    (resolution.recordUsage id binding.toUsage).table.Carries name binding id := by
  rw [recordUsage_of_plain ⟨symbol, found, isPlain⟩]
  refine ⟨{ symbol with usages := symbol.usages ++ [binding.toUsage] }, ?_, isName, isPlain,
    by simp, isRole⟩
  show (resolution.table.modify id _).get? id = _
  rw [get?_modify, if_pos rfl, found]
  rfl

def made (resolution : Resolution) (symbol : Symbol) (binding : Binding) : Resolution :=
  (define resolution.table.size binding.origin
    { resolution with table := resolution.table.push symbol }).recordUsage resolution.table.size
      binding.toUsage

theorem exists_add_of_absent (noProject : around.project = none)
    (absent : merging.common? binding.origin = none) (scope : ScopeId) (path name : String) :
    ∃ symbol, symbol.name = name ∧ symbol.role = binding.origin.role ∧
      merging.add around scope path name binding =
        ⟨made merging.resolution symbol binding,
          merging.alternatives ++ [merging.resolution.table.size],
          merging.sharedAfter merging.resolution.table.size binding.origin⟩ := by
  obtain ⟨symbol, isMade, isName, isRole⟩ := pushSymbol_of_noProject noProject scope path name
    merging.resolution.table binding.origin
  refine ⟨symbol, isName, isRole, ?_⟩
  rw [add, absent]
  dsimp only
  rw [isMade]
  rfl

section Made

variable (resolution : Resolution) {symbol : Symbol}

theorem made_evolves (symbol : Symbol) (binding : Binding) :
    Evolves resolution.table (made resolution symbol binding).table := by
  have recorded := grows_recordUsage (define resolution.table.size binding.origin
    { resolution with table := resolution.table.push symbol }) resolution.table.size
    binding.toUsage
  rw [table_define] at recorded
  exact (evolves_push resolution.table symbol).trans recorded.evolves

variable (isRole : symbol.role = binding.origin.role)

include isRole

theorem made_get? :
    ∃ later, (made resolution symbol binding).table.get? resolution.table.size = some later ∧
      later.role = binding.origin.role := by
  obtain ⟨later, isLater, matures⟩ := (grows_recordUsage (define resolution.table.size
    binding.origin { resolution with table := resolution.table.push symbol })
    resolution.table.size binding.toUsage).evolves resolution.table.size symbol
    (by rw [table_define]; exact get?_push_size resolution.table symbol)
  exact ⟨later, isLater, matures.role.trans isRole⟩

theorem made_carries :
    (made resolution symbol binding).table.Carries symbol.name binding resolution.table.size := by
  apply carries_recordUsage
  · rw [table_define]
    exact get?_push_size resolution.table symbol
  · rfl
  · exact BindingOrigin.kind_ne_ambiguous isRole
  · exact fun _ => isRole

end Made

/-- The alternatives so far are the symbols that carry the bindings. -/
structure Places (name : String) (placed : List (Binding × SymbolId)) (merging : Merging) :
    Prop where
  shares : merging.resolution.table.Shares name placed
  alternatives : merging.alternatives = owners placed
  count : merging.alternatives.length =
    Binding.definitionCount (placed.map (·.1)) + merging.shared.isSome.toNat
  opened : merging.shared.isSome = Binding.hasShared (placed.map (·.1))
  plain : ∀ pair ∈ placed, pair.1.origin.sort = .plain → merging.shared = some pair.2
  shared : ∀ id, merging.shared = some id → id ∈ placed.map (·.2) ∧
    ∃ symbol, merging.resolution.table.get? id = some symbol ∧ symbol.role = .other

theorem places_nil (name : String) (resolution : Resolution) :
    Places name [] ⟨resolution, [], none⟩ :=
  ⟨.nil _ name, rfl, rfl, rfl, by simp, by simp⟩

namespace Places

theorem length_eq (places : merging.Places name placed) :
    merging.alternatives.length = Binding.symbolCount (placed.map (·.1)) := by
  rw [places.count, places.opened, Binding.symbolCount]

theorem mem_alternatives (places : merging.Places name placed) :
    id ∈ merging.alternatives ↔ id ∈ placed.map (·.2) := by
  rw [places.alternatives, owners, mem_eraseDups]

theorem mem_of_common (places : merging.Places name placed)
    (common : merging.common? origin = some id) : id ∈ placed.map (·.2) := by
  rcases common?_eq_some common with shared | isAlternative
  · exact (places.shared id shared).1
  · exact places.mem_alternatives.mp isAlternative

theorem callsPlain (places : merging.Places name placed) (isIn : id ∈ merging.alternatives) :
    merging.resolution.table.CallsPlain id name := by
  obtain ⟨binding, carries⟩ := places.shares.carries_of_mem (places.mem_alternatives.mp isIn)
  exact carries.callsPlain

theorem ne_nil_of_common (places : merging.Places name placed)
    (common : merging.common? origin = some id) : placed ≠ [] := by
  rintro rfl
  exact not_mem_nil (places.mem_of_common common)

theorem size_not_mem (places : merging.Places name placed) :
    merging.resolution.table.size ∉ placed.map (·.2) := by
  intro isIn
  obtain ⟨binding, carries⟩ := places.shares.carries_of_mem isIn
  exact Nat.lt_irrefl _ carries.lt_size

theorem eq_nil_of_absent (places : merging.Places name placed)
    (absent : merging.common? origin = none) (isImport : origin.sort = .imported) :
    placed = [] := by
  have noneYet := (of_common?_eq_none absent (by simp [isImport])).2 isImport
  apply eq_nil_iff_forall_not_mem.mpr
  intro pair isIn
  have isAlternative := places.mem_alternatives.mpr (mem_map_of_mem isIn)
  simp [noneYet] at isAlternative

theorem shared_after (places : merging.Places name placed) {post : SymbolTable}
    (evolves : Evolves merging.resolution.table post) (isShared : merging.shared = some id)
    (pair : Binding × SymbolId) :
    id ∈ (placed ++ [pair]).map (·.2) ∧
      ∃ symbol, post.get? id = some symbol ∧ symbol.role = .other := by
  obtain ⟨isIn, symbol, found, isOther⟩ := places.shared id isShared
  obtain ⟨later, isLater, matures⟩ := evolves id symbol found
  exact ⟨by simp [isIn], later, isLater, matures.role.trans isOther⟩

end Places

theorem add_places_of_common (noProject : around.project = none)
    (places : merging.Places name placed) (common : merging.common? binding.origin = some id)
    (scope : ScopeId) (path : String) :
    (merging.add around scope path name binding).Places name (placed ++ [(binding, id)]) := by
  have noDefinition : binding.origin.sort ≠ .definition := by
    intro isDefinition
    rw [common?_of_definition isDefinition] at common
    cases common
  have isShared : binding.origin.sort = .plain → merging.shared = some id := by
    intro isPlain
    rwa [common?_of_plain isPlain] at common
  have known := places.mem_of_common common
  have notFirst : (placed.map (·.1)).isEmpty = false := by
    simpa using places.ne_nil_of_common common
  obtain ⟨other, symbol, found, isName, isPlain, -⟩ := places.shares.carries_of_mem known
  -- only imports are put on symbols of definitions; a plain value goes to the shared one
  have isRole : binding.origin.sort ≠ .imported → symbol.role = binding.origin.role := by
    intro noImport
    have isValue : binding.origin.sort = .plain := by
      cases isSort : binding.origin.sort <;> simp_all
    obtain ⟨-, shared, isThere, isOther⟩ := places.shared id (isShared isValue)
    obtain rfl := Option.some.inj (found.symm.trans isThere)
    rw [isOther, BindingOrigin.role_of_not_definition noDefinition]
  have evolves := (grows_recordUsage merging.resolution id binding.toUsage).evolves
  rw [add_of_common noProject common]
  constructor
  case shares =>
    apply (places.shares.evolve evolves).append
      (carries_recordUsage found isName isPlain isRole) (absurd · noDefinition) (fun _ _ => known)
    intro isValue pair isIn pairValue
    exact Option.some.inj ((places.plain pair isIn pairValue).symm.trans (isShared isValue))
  case alternatives =>
    exact places.alternatives.trans (owners_append_of_mem binding known).symm
  case count =>
    rw [map_append, map_singleton, Binding.definitionCount_append, places.count]
    simp [noDefinition]
  case opened =>
    rw [map_append, map_singleton, Binding.hasShared_append, notFirst, Bool.false_and,
      Bool.or_false, ← places.opened]
    by_cases isValue : binding.origin.sort = .plain
    · simp [isShared isValue]
    · simp [isValue]
  case plain =>
    intro pair isIn isValue
    rcases mem_append.mp isIn with isOld | isNew
    · exact places.plain pair isOld isValue
    · obtain rfl := mem_singleton.mp isNew
      exact isShared isValue
  case shared =>
    exact fun shared isSome => places.shared_after evolves isSome _

theorem add_places_of_absent (noProject : around.project = none)
    (places : merging.Places name placed) (absent : merging.common? binding.origin = none)
    (scope : ScopeId) (path : String) :
    (merging.add around scope path name binding).Places name
      (placed ++ [(binding, merging.resolution.table.size)]) := by
  obtain ⟨symbol, rfl, isRole, isAdded⟩ := exists_add_of_absent noProject absent scope path name
  have evolves := made_evolves merging.resolution symbol binding
  have carries := made_carries merging.resolution isRole
  have isFirst := places.eq_nil_of_absent absent
  have noShared : binding.origin.sort ≠ .definition → merging.shared = none :=
    fun noDefinition => (of_common?_eq_none absent noDefinition).1
  rw [isAdded]
  constructor
  case shares =>
    apply (places.shares.evolve evolves).append carries (fun _ => places.size_not_mem)
      (fun isImport notFirst => absurd (isFirst isImport) notFirst)
    -- a plain value makes a symbol only as long as there was none before
    intro isValue pair isIn pairValue
    have shared := places.plain pair isIn pairValue
    rw [noShared (by simp [isValue])] at shared
    cases shared
  case alternatives =>
    rw [owners_append_of_not_mem binding places.size_not_mem, places.alternatives]
  case count =>
    rw [map_append, map_singleton, Binding.definitionCount_append, length_append,
      places.count, sharedAfter_eq]
    by_cases isDefinition : binding.origin.sort = .definition
    · simp [isDefinition, Nat.add_right_comm]
    · simp [isDefinition, noShared isDefinition]
  case opened =>
    rw [map_append, map_singleton, Binding.hasShared_append, ← places.opened, sharedAfter_eq]
    cases isSort : binding.origin.sort with
    | definition => simp
    | plain => simp
    | imported => simp [isFirst isSort]
  case plain =>
    intro pair isIn isValue
    rw [sharedAfter_eq]
    rcases mem_append.mp isIn with isOld | isNew
    · have shared := places.plain pair isOld isValue
      simp [shared]
    · obtain rfl := mem_singleton.mp isNew
      simp [isValue, noShared (by simp [isValue])]
  case shared =>
    intro shared isSome
    rw [sharedAfter_eq] at isSome
    by_cases isDefinition : binding.origin.sort = .definition
    · rw [if_pos isDefinition] at isSome
      exact places.shared_after evolves isSome _
    · rw [if_neg isDefinition, noShared isDefinition] at isSome
      cases isSome
      obtain ⟨later, isLater, isLaterRole⟩ := made_get? merging.resolution isRole
      rw [BindingOrigin.role_of_not_definition isDefinition] at isLaterRole
      exact ⟨by simp, later, isLater, isLaterRole⟩

theorem add_places (noProject : around.project = none) (places : merging.Places name placed)
    (scope : ScopeId) (path : String) (binding : Binding) :
    ∃ id, (merging.add around scope path name binding).Places name (placed ++ [(binding, id)]) := by
  cases common : merging.common? binding.origin with
  | some id => exact ⟨id, add_places_of_common noProject places common scope path⟩
  | none => exact ⟨_, add_places_of_absent noProject places common scope path⟩

theorem foldl_add_places (noProject : around.project = none) (scope : ScopeId) (path : String) :
    ∀ (bindings : List Binding) {placed : List (Binding × SymbolId)} {merging : Merging},
      merging.Places name placed →
        ∃ rest, rest.map (·.1) = bindings ∧
          (bindings.foldl (add around scope path name) merging).Places name (placed ++ rest) := by
  intro bindings
  induction bindings with
  | nil =>
    intro placed merging places
    exact ⟨[], rfl, by simpa using places⟩
  | cons binding _ ih =>
    intro placed merging places
    obtain ⟨id, firstPlaces⟩ := add_places noProject places scope path binding
    obtain ⟨rest, isRest, restPlaces⟩ := ih firstPlaces
    exact ⟨(binding, id) :: rest, by simp [isRest], by simpa using restPlaces⟩

theorem ambiguous?_of_places (places : merging.Places name placed)
    (several : 2 ≤ merging.alternatives.length) :
    ∃ symbol, merging.resolution.table.ambiguous? merging.alternatives = .ok symbol ∧
      symbol.data = .ambiguous merging.alternatives := by
  have distinct : merging.alternatives.Nodup := by
    rw [places.alternatives]
    exact Sequence.nodup_eraseDups _
  exact ambiguous?_of_calls several distinct fun id isIn => places.callsPlain isIn

theorem finish_of_places (places : merging.Places name placed) (isBound : placed ≠ []) :
    ∃ id symbol, merging.finish.2 = some id ∧ merging.finish.1.table.get? id = some symbol ∧
      Evolves merging.resolution.table merging.finish.1.table ∧
      symbol.StandsFor id (owners placed) := by
  rw [finish, ← places.alternatives]
  cases isList : merging.alternatives with
  | nil =>
    obtain ⟨pair, isPair⟩ := exists_mem_of_ne_nil placed isBound
    have isIn := places.mem_alternatives.mpr (mem_map_of_mem isPair)
    simp [isList] at isIn
  | cons id rest =>
    cases rest with
    | nil =>
      have isIn : id ∈ merging.alternatives := by simp [isList]
      obtain ⟨symbol, found, isPlain⟩ := (places.callsPlain isIn).plain
      refine ⟨id, symbol, rfl, found, .refl _, by simp, ?_⟩
      exact fun _ => ⟨rfl, Symbol.kind_cases isPlain⟩
    | cons =>
      obtain ⟨symbol, united, isData⟩ := ambiguous?_of_places places (by simp [isList])
      rw [isList] at united isData
      refine ⟨merging.resolution.table.size, symbol, ?_, ?_, ?_, fun _ => isData, by simp⟩
      · simp [unite, pushAmbiguous, united, Except.map]
      · simp [unite, pushAmbiguous, united, Except.map]
      · simpa [unite, pushAmbiguous, united, Except.map] using
          evolves_push merging.resolution.table symbol

end Merging

namespace SymbolTable

/-- Each binding is placed on its symbol, and the name is bound to one that stands for all. -/
structure Collapses (table : SymbolTable) (scope : ScopeId) (name : String)
    (placed : List (Binding × SymbolId)) (id : SymbolId) (symbol : Symbol) : Prop where
  shares : table.Shares name placed
  count : (owners placed).length = Binding.symbolCount (placed.map (·.1))
  bound : table.lookup? scope name = some id
  found : table.get? id = some symbol
  stands : symbol.StandsFor id (owners placed)

end SymbolTable

namespace Resolution

open SymbolTable

variable {around : Surroundings} {resolution middle post : Resolution} {scope : ScopeId}
  {name : String} {bindings : List Binding}

def Settled (scope : ScopeId) (name : String) (bindings : List Binding)
    (resolution : Resolution) : Prop :=
  ∃ placed id symbol, placed.map (·.1) = bindings ∧
    resolution.table.Collapses scope name placed id symbol

theorem Settled.evolve (settled : resolution.Settled scope name bindings)
    (evolves : Evolves resolution.table post.table)
    (bound : ∀ id, resolution.table.lookup? scope name = some id →
      post.table.lookup? scope name = some id) : post.Settled scope name bindings := by
  obtain ⟨placed, id, symbol, isPlaced, collapses⟩ := settled
  obtain ⟨later, isLater, matures⟩ := evolves id symbol collapses.found
  exact ⟨placed, id, later, isPlaced, collapses.shares.evolve evolves, collapses.count,
    bound id collapses.bound, isLater, collapses.stands.mature matures⟩

theorem bindName_settled (noProject : around.project = none) (tree : ScopeTree) (scope : ScopeId)
    {inScope : List Binding} {name : String} (isBound : inScope.filter (·.name == name) ≠ [])
    (resolution : Resolution) :
    Settled scope name (inScope.filter (·.name == name))
      (resolution.bindName around tree scope inScope name) := by
  obtain ⟨placed, isPlaced, places⟩ := Merging.foldl_add_places noProject scope
    (tree.pathOf scope) (inScope.filter (·.name == name)) (Merging.places_nil name resolution)
  rw [bindName]
  generalize (inScope.filter (·.name == name)).foldl
    (Merging.add around scope (tree.pathOf scope) name) ⟨resolution, [], none⟩ = merging
    at places ⊢
  rw [nil_append] at places
  have notEmpty : placed ≠ [] := by
    rintro rfl
    exact isBound isPlaced.symm
  have count : (owners placed).length = Binding.symbolCount (placed.map (·.1)) := by
    rw [← places.length_eq, places.alternatives]
  obtain ⟨id, symbol, isId, found, finished, stands⟩ := Merging.finish_of_places places notEmpty
  generalize merging.finish = result at isId found finished ⊢
  obtain ⟨last, id?⟩ := result
  obtain rfl : id? = some id := isId
  have given := (grows_setScope last.table id scope).evolves
  obtain ⟨later, isLater, matures⟩ := given id symbol found
  exact ⟨placed, id, later, isPlaced, places.shares.evolve (finished.trans given), count,
    by rw [lookup?_bind, if_pos ⟨rfl, rfl⟩], isLater, stands.mature matures⟩

theorem ofBindings_settled {survey : Survey} (noProject : around.project = none)
    (wellFormed : survey.WellFormed) (isBound : survey.bindingsOf scope name ≠ []) :
    Settled scope name (survey.bindingsOf scope name) (ofBindings around survey) := by
  obtain ⟨binding, isOwn⟩ := exists_mem_of_ne_nil _ isBound
  obtain ⟨isBinding, rfl, rfl⟩ := Survey.mem_bindingsOf.mp isOwn
  refine ofBindings_reaches around wellFormed
    (fun scope name => scope = binding.target ∧ name = binding.name) ?_
    (.inl ⟨binding, isBinding, rfl, rfl⟩)
  intro resolution scope name post settles known
  by_cases same : scope = binding.target ∧ name = binding.name
  · obtain ⟨rfl, rfl⟩ := same
    exact bindName_settled noProject survey.scopes binding.target isBound resolution
  · have unbound := settles.bound binding.target binding.name same
    exact (known.resolve_left same).evolve settles.grows.evolves fun id => unbound.trans

end Resolution

/-- Definitions have symbols of their own, plain values share one, later imports get no new one. -/
theorem Model.bindings_collapse (around : Surroundings) (module' : Module)
    (noProject : around.project = none) (scope : ScopeId) (name : String)
    (isBound : (Survey.ofModule around module').bindingsOf scope name ≠ []) :
    let bindings := (Survey.ofModule around module').bindingsOf scope name
    1 ≤ Binding.symbolCount bindings ∧
    (∃ placed id symbol, placed.map (·.1) = bindings ∧
      (Model.ofModule around module').table.Collapses scope name placed id symbol) ∧
    ∀ resolution path,
      let merging := bindings.foldl (Merging.add around scope path name) ⟨resolution, [], none⟩
      2 ≤ merging.alternatives.length →
        ∃ united, merging.resolution.table.pushAmbiguous merging.alternatives = .ok united := by
  intro bindings
  have wellFormed := Survey.wellFormed_ofModule around module'
  have spares := (Survey.ofModule around module').spares_nothing
  have advances := (read_advances_bindings around wellFormed spares nofun).trans
    (resolve_advances around wellFormed spares)
  refine ⟨Binding.symbolCount_pos isBound, ?_, ?_⟩
  · exact (Resolution.ofBindings_settled noProject wellFormed isBound).evolve advances.evolves
      fun id found => advances.bound scope name id found
  · intro resolution path merging several
    obtain ⟨placed, _, places⟩ := Merging.foldl_add_places noProject scope path bindings
      (Merging.places_nil name resolution)
    obtain ⟨symbol, made, _⟩ := Merging.ambiguous?_of_places places several
    exact ⟨_, by rw [SymbolTable.pushAmbiguous, made]; rfl⟩

def Module.picking : Module :=
  let mark (id : NodeId) : Mark := ⟨id, ⟨0, 0⟩⟩
  let assign (id : NodeId) : Stmt := .simple (mark id)
    (.assign [.name ⟨mark (id + 1), "pick"⟩] (.literal (mark (id + 2)) .int "1" []))
  ⟨mark 0,
    [.functionDef ⟨mark 1, ⟨mark 2, "pick"⟩, [], none, [], false⟩ [.simple (mark 3) .pass],
      .simple (mark 4) (.plainImport [⟨mark 5, ⟨⟨0, 0⟩, [⟨mark 6, "pick"⟩]⟩, none⟩]),
      assign 7,
      .classDef ⟨mark 10, ⟨mark 11, "pick"⟩, [], []⟩ [.simple (mark 12) .pass],
      assign 13]⟩

theorem Module.picking_ambiguous :
    (Survey.ofModule ⟨"", "pick.py", none, {}⟩ picking).bindingsOf 0 "pick" ≠ [] ∧
      ∃ id symbol alternatives,
        (Model.ofModule ⟨"", "pick.py", none, {}⟩ picking).table.lookup? 0 "pick" = some id ∧
        (Model.ofModule ⟨"", "pick.py", none, {}⟩ picking).table.get? id = some symbol ∧
        symbol.data = .ambiguous alternatives ∧ alternatives.length = 3 := by
  have isBound : (Survey.ofModule ⟨"", "pick.py", none, {}⟩ picking).bindingsOf 0 "pick" ≠ [] := by
    decide +kernel
  have isCount : Binding.symbolCount
      ((Survey.ofModule ⟨"", "pick.py", none, {}⟩ picking).bindingsOf 0 "pick") = 3 := by
    decide +kernel
  obtain ⟨placed, id, symbol, isPlaced, collapses⟩ :=
    (Model.bindings_collapse ⟨"", "pick.py", none, {}⟩ picking rfl 0 "pick" isBound).2.1
  have three : (SymbolTable.owners placed).length = 3 := by
    rw [collapses.count, isPlaced, isCount]
  exact ⟨isBound, id, symbol, SymbolTable.owners placed, collapses.bound, collapses.found,
    collapses.stands.several (by omega), three⟩

end PyStatic
