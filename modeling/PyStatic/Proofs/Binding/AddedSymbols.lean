import PyStatic.Proofs.Binding.Advances
import PyStatic.Proofs.Binding.BoundNames
import PyStatic.Proofs.Symbol.Alternatives

/-!
Contract: a binding that makes a symbol changes no symbol that was there, with a project or without.
-/

namespace PyStatic

open List SymbolPool

namespace SymbolTable

variable {table post : SymbolTable} {id : SymbolId} {name : String}

theorem Calls.lt_size (calls : table.Calls id name) : id < table.size := by
  obtain ⟨symbol, found, _⟩ := calls.exists_get?
  exact lt_size_of_get? found

theorem grows_addChild (table : SymbolTable) (parent child : SymbolId) :
    Grows table (table.addChild parent child) := by
  apply grows_modify
  · intro symbol
    cases data : symbol.data with
    | other =>
      refine ⟨rfl, rfl, rfl, ?_, prefix_refl _⟩
      simp [Symbol.role, SymbolData.role, data]
    | _ => exact .refl symbol
  · intro symbol
    cases data : symbol.data <;> simp [SymbolData.held, data]

theorem le_of_mem_parts (isPlain : table.Plain id) {size : Nat} (isNew : size ≤ id) :
    ∀ part ∈ table.parts id, size ≤ part := by
  rw [parts_of_plain isPlain]
  exact fun part isPart => mem_singleton.mp isPart ▸ isNew

theorem ClosedFrom.le_of_mem_parts {size : Nat} (closed : table.ClosedFrom size)
    (isNew : size ≤ id) : ∀ part ∈ table.parts id, size ≤ part := by
  refine forall_mem_cons.mpr ⟨isNew, ?_⟩
  intro part isPart
  cases found : table.get? id with
  | none => simp [alternatives, found] at isPart
  | some symbol =>
    rw [alternatives_of_get? found, Symbol.alternatives] at isPart
    split at isPart
    next isAmbiguous => exact (closed id part isNew ⟨symbol, found, isAmbiguous ▸ isPart⟩).1
    next => cases isPart

end SymbolTable

namespace SymbolTable

variable {table post : SymbolTable} {id other : SymbolId} {name : String}

theorem grows_of_brings {pool : SymbolPool} (brings : Brings ⟨table, ∅⟩ pool)
    (sound : pool.Sound table.size) : Grows table pool.table :=
  @grows_of_extends ⟨table, ∅⟩ pool brings.extended sound.closed

theorem pushModule_grows (sound : table.Sound) (project : Option Project) (name fqn : String)
    (scope : Option ScopeId) :
    Grows table (table.pushModule project name fqn scope).1 ∧
      (table.pushModule project name fqn scope).1.CallsPlain
        (table.pushModule project name fqn scope).2 name ∧
      table.size ≤ (table.pushModule project name fqn scope).2 := by
  cases project with
  | none => exact ⟨grows_push table rfl, callsPlain_push table (by rintro ⟨⟩), Nat.le_refl _⟩
  | some project =>
    have copied := grows_of_brings
      (Project.bringing.instancesOfModule project trivial fqn).2
      ((gaining _).instancesOfModule project (sound_of_table sound) fqn).1
    exact ⟨copied.trans (grows_push _ rfl), callsPlain_push _ (by rintro ⟨⟩),
      copied.evolves.size_le⟩

theorem attachSubmodules_grows (project : Project) (parts : List String) :
    ∀ {table : SymbolTable}, table.Sound → ∀ (parent : SymbolId) (qualifier : String),
      Grows table (table.attachSubmodules project parts parent qualifier) := by
  induction parts with
  | nil => exact fun {table} _ _ _ => .refl table
  | cons part _ ih =>
    intro table sound parent qualifier
    rw [attachSubmodules]
    split
    · exact .refl table
    · split
      · exact ih sound _ _
      · split
        · let fqn := Dotted.join qualifier part
          have made := (pushModule_grows sound (some project) part fqn none).1
          have gains := (gains_pushModule sound (some project) part fqn none).1
          generalize table.pushModule (some project) part fqn none = result at made gains
          have nested := (gains_addChild result.1 parent result.2).after gains
          exact (made.trans (grows_addChild _ parent _)).trans (ih (nested.sound sound) _ _)
        · exact .refl table

theorem get?_rename (table : SymbolTable) (id : SymbolId) (name : String) (other : SymbolId) :
    (table.rename id name).get? other = (table.get? other).map fun symbol =>
      if other ∈ table.parts id then { symbol with name } else symbol := by
  have each : ∀ (ids : List SymbolId) (table : SymbolTable),
      (ids.foldl (fun table id => table.setName id name) table).get? other =
        (table.get? other).map fun symbol =>
          if other ∈ ids then { symbol with name } else symbol := by
    intro ids
    induction ids with
    | nil => exact fun table => by simp
    | cons first _ ih =>
      intro table
      rw [foldl_cons, ih, setName, get?_modify]
      by_cases isFirst : first = other
      · subst isFirst
        cases table.get? first <;> simp
      · simp [isFirst, Ne.symm isFirst]
  have renamed := each (table.alternatives id ++ [id]) table
  have isPart : other ∈ table.alternatives id ++ [id] ↔ other ∈ table.parts id := by
    simp [parts, or_comm]
  simp only [isPart] at renamed
  rwa [foldl_append] at renamed

theorem parts_rename (table : SymbolTable) (id : SymbolId) (name : String) :
    (table.rename id name).parts id = table.parts id := by
  rw [parts, parts, alternatives, alternatives, get?_rename, Option.map_map]
  refine congrArg (fun found => id :: Option.getD found []) ?_
  refine congrArg (Option.map · (table.get? id)) (funext fun symbol => ?_)
  show (if _ then _ else _ : Symbol).alternatives = _
  split <;> rfl

theorem calls_rename (sound : table.Sound) (inRange : id < table.size)
    (isPart : other ∈ table.parts id) (name : String) :
    (table.rename id name).Calls other name := by
  have isThere : other < table.size := by
    rcases mem_cons.mp isPart with rfl | isAlternative
    · exact inRange
    · have isOption : other ∈ table.options id := by
        rwa [options, if_neg (ne_nil_of_mem isAlternative)]
      obtain ⟨_, found, _⟩ := plain_of_mem_options sound inRange isOption
      exact lt_size_of_get? found
  obtain ⟨symbol, found⟩ := exists_get? isThere
  have renamed := get?_rename table id name other
  rw [found, Option.map_some, if_pos isPart] at renamed
  exact ⟨_, label?_of_get? renamed, rfl⟩

theorem Grows.rename (grows : Grows table post)
    (isNew : ∀ part ∈ post.parts id, table.size ≤ part) (name : String) :
    Grows table (post.rename id name) := by
  constructor
  · intro other symbol found
    obtain ⟨later, isLater, matures⟩ := grows.evolves other symbol found
    refine ⟨later, ?_, matures⟩
    rw [get?_rename, isLater, Option.map_some, if_neg]
    exact fun isPart => Nat.not_lt.mpr (isNew other isPart) (lt_size_of_get? found)
  · rintro other held ⟨symbol, found, isHeld⟩
    rw [get?_rename] at found
    obtain ⟨old, isOld, rfl⟩ := Option.map_eq_some_iff.mp found
    refine (grows.holds other held ⟨old, isOld, by split at isHeld <;> exact isHeld⟩).imp_right ?_
    exact fun both => ⟨both.1, both.2.1, (gains_rename post id name).lt_size both.2.2⟩

end SymbolTable

namespace Merging

open SymbolTable

variable {table post : SymbolTable} {id : SymbolId} {name : String} {origin : BindingOrigin}

/-- A binding adds a new symbol, whose alternatives have the name. -/
structure Adds (name : String) (origin : BindingOrigin) (table post : SymbolTable) (id : SymbolId) :
    Prop where
  grows : Grows table post
  isNew : ∀ part ∈ post.parts id, table.size ≤ part
  called : ∀ part ∈ post.parts id, post.Calls part name
  defined : origin.role ≠ .other → ∃ symbol, post.get? id = some symbol ∧ symbol.role = origin.role

theorem adds_of_plain (grows : Grows table post) (isPlain : post.Plain id)
    (calls : post.Calls id name) (isNew : table.size ≤ id)
    (defined : origin.role ≠ .other →
      ∃ symbol, post.get? id = some symbol ∧ symbol.role = origin.role) :
    Adds name origin table post id := by
  refine ⟨grows, le_of_mem_parts isPlain isNew, ?_, defined⟩
  rw [parts_of_plain isPlain]
  exact fun part isPart => mem_singleton.mp isPart ▸ calls

theorem adds_push (table : SymbolTable) {symbol : Symbol} (isName : symbol.name = name)
    (isRole : symbol.role = origin.role) (isEmpty : symbol.data.held = []) :
    Adds name origin table (table.push symbol) table.size := by
  subst isName
  have calls := callsPlain_push table (BindingOrigin.kind_ne_ambiguous isRole)
  exact adds_of_plain (grows_push table isEmpty) calls.plain calls.calls (Nat.le_refl _)
    fun _ => ⟨symbol, get?_push_size table symbol, isRole⟩

theorem extend_grows (sound : table.Sound) (around : Surroundings) (id : SymbolId)
    (origin : BindingOrigin) : Grows table (extend around id origin table) := by
  unfold extend
  split
  · exact attachSubmodules_grows _ _ sound _ _
  · exact .refl table

theorem pushImported_adds (sound : table.Sound) (project : Option Project) (scope : ScopeId)
    (name fqn : String) :
    Adds name (.importedName fqn) table (table.pushImported project scope name fqn).1
      (table.pushImported project scope name fqn).2 := by
  rw [pushImported]
  split
  next pool id made =>
    obtain ⟨project, _, made⟩ := Option.bind_eq_some_iff.mp made
    obtain ⟨poolSound, _, isNew, inRange⟩ :=
      (gaining _).instance? (sound_of_table sound) made
    have copied := grows_of_brings (Project.bringing.instance? trivial made).leads poolSound
    have areNew := poolSound.closed.le_of_mem_parts isNew
    have placed := grows_setScope (pool.table.rename id name) id scope
    have named := fun part (isPart : part ∈ pool.table.parts id) =>
      calls_rename poolSound.table inRange isPart name
    have same {part : SymbolId}
        (isPart : part ∈ ((pool.table.rename id name).setScope id scope).parts id) :
        part ∈ pool.table.parts id := by
      rwa [placed.evolves.parts (named id mem_cons_self).lt_size, parts_rename] at isPart
    refine ⟨(copied.rename areNew name).trans placed, ?_, ?_, fun isDefined => absurd rfl isDefined⟩
    · exact fun part isPart => areNew part (same isPart)
    · exact fun part isPart => placed.evolves.calls (named part (same isPart))
  next => exact adds_push table rfl rfl rfl

theorem pushSymbol_adds (sound : table.Sound) (around : Surroundings) (scope : ScopeId)
    (path name : String) (origin : BindingOrigin) :
    Adds name origin table (pushSymbol around scope path name table origin).1
      (pushSymbol around scope path name table origin).2 := by
  cases origin with
  | functionDef _
  | classDef _
  | plain => exact adds_push table rfl rfl rfl
  | importedName fqn => exact pushImported_adds sound around.project scope name fqn
  | importedModule fqn submodules =>
    obtain ⟨pushed, calls, isNew⟩ := pushModule_grows sound around.project name fqn (some scope)
    have gains := (gains_pushModule sound around.project name fqn (some scope)).1
    rw [pushSymbol]
    generalize table.pushModule around.project name fqn (some scope) = result
      at pushed calls isNew gains
    have extended := extend_grows (gains.sound sound) around result.2
      (.importedModule fqn submodules)
    exact adds_of_plain (pushed.trans extended) (extended.evolves.plain calls.plain)
      (extended.evolves.calls calls.calls) isNew fun isDefined => absurd rfl isDefined

end Merging

end PyStatic
