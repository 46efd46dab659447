import PyStatic.Proofs.Binding.AddedSymbols

/-!
Contract: the node of a bound name stands for the symbol that the name is bound to, or for one of
its alternatives, with a project or without.
-/

namespace PyStatic

open List

namespace Merging

open SymbolTable Resolution

variable {around : Surroundings} {settings : Settings} {merging : Merging}
  {table post : SymbolTable} {id : SymbolId} {name : String} {origin : BindingOrigin}
  {binding : Binding} {start : Resolution}

def options (merging : Merging) : List SymbolId :=
  merging.alternatives.flatMap merging.resolution.table.options

/-- Some bindings of a name are taken up, from state `start` on. -/
structure Stands (name : String) (start : Resolution) (done : List Binding) (merging : Merging) :
    Prop where
  shared : ∀ id, merging.shared = some id → id ∈ merging.alternatives
  areNew : ∀ id ∈ merging.alternatives, start.table.size ≤ id
  apart : merging.options.Nodup
  called : ∀ id ∈ merging.alternatives, ∀ part ∈ merging.resolution.table.parts id,
    merging.resolution.table.Calls part name
  nodes : ∀ binding ∈ done, ∃ option ∈ merging.options,
    merging.resolution.nameSymbols[binding.node]? = some option
  grows : Grows start.table merging.resolution.table
  others : ∀ node : NodeId, (∀ binding ∈ done, binding.node ≠ node) →
    merging.resolution.nameSymbols[node]? = start.nameSymbols[node]?
  builtins : merging.resolution.builtins = start.builtins
  defines : start.Defines → merging.resolution.Defines

theorem stands_nil (name : String) (start : Resolution) : Stands name start [] ⟨start, [], none⟩ :=
  ⟨nofun, nofun, nodup_nil, nofun, nofun, .refl _, fun _ _ => rfl, rfl, fun known => known⟩

theorem define_eq (id : SymbolId) (origin : BindingOrigin) (resolution : Resolution) :
    ∃ definitions, define id origin resolution = { resolution with definitions } := by
  cases origin <;> exact ⟨_, rfl⟩

theorem define_defines {resolution : Resolution} (known : resolution.Defines)
    (defined : origin.role ≠ .other →
      ∃ symbol, resolution.table.get? id = some symbol ∧ symbol.role = origin.role) :
    (define id origin resolution).Defines := by
  have inserted (node : NodeId) (isRole : origin.role = .definition (some node)) :
      Defines { resolution with definitions := resolution.definitions.insert node id } := by
    obtain ⟨symbol, found, sameRole⟩ := defined (by rw [isRole]; nofun)
    intro other otherId isOther
    rw [Std.ExtTreeMap.getElem?_insert] at isOther
    split at isOther
    next same =>
      cases isOther
      exact ⟨symbol, found, by rw [sameRole, isRole, Std.compare_eq_iff_eq.mp same]⟩
    next => exact known other otherId isOther
  cases origin with
  | functionDef node => exact inserted node rfl
  | classDef node => exact inserted node rfl
  | _ => exact known

namespace Stands

variable {done : List Binding}

theorem inRange (stands : merging.Stands name start done) (isIn : id ∈ merging.alternatives) :
    id < merging.resolution.table.size :=
  (stands.called id isIn id mem_cons_self).lt_size

theorem called_option (stands : merging.Stands name start done) {option : SymbolId}
    (isOption : option ∈ merging.options) : merging.resolution.table.Calls option name := by
  obtain ⟨id, isIn, isOption⟩ := mem_flatMap.mp isOption
  exact stands.called id isIn option (mem_parts_of_mem_options isOption)

theorem options_eq (stands : merging.Stands name start done) {later : Resolution}
    (evolves : Evolves merging.resolution.table later.table) :
    Merging.options { merging with resolution := later } = merging.options :=
  flatMap_congr fun _ isIn => evolves.options (stands.inRange isIn)

theorem called_later (stands : merging.Stands name start done)
    (evolves : Evolves merging.resolution.table post) (isIn : id ∈ merging.alternatives)
    {part : SymbolId} (isPart : part ∈ post.parts id) : post.Calls part name :=
  evolves.calls (stands.called id isIn part (evolves.parts (stands.inRange isIn) ▸ isPart))

theorem setTable (stands : merging.Stands name start done)
    (grows : Grows merging.resolution.table post) :
    Stands name start done
      { merging with resolution := { merging.resolution with table := post } } := by
  have evolves := grows.evolves
  have same := stands.options_eq
    (show Evolves _ { merging.resolution with table := post }.table from evolves)
  exact ⟨stands.shared, stands.areNew, same ▸ stands.apart,
    fun _ isIn _ => stands.called_later evolves isIn, same ▸ stands.nodes,
    stands.grows.trans grows, stands.others, stands.builtins,
    fun known => (stands.defines known).of_evolves evolves rfl⟩

theorem record (stands : merging.Stands name start done) (isIn : id ∈ merging.alternatives)
    (binding : Binding) :
    Stands name start (done ++ [binding])
      { merging with resolution := merging.resolution.recordUsage id binding.toUsage } := by
  let target := merging.resolution.table.usageTarget id
  have grows := grows_recordUsage merging.resolution id binding.toUsage
  have used := stands.setTable grows
  have isTarget : target ∈ merging.options :=
    mem_flatMap.mpr ⟨id, isIn, usageTarget_mem_options _ id⟩
  refine ⟨used.shared, used.areNew, used.apart, used.called, ?_, used.grows, ?_, used.builtins,
    used.defines⟩
  · intro other isOther
    rw [stands.options_eq grows.evolves]
    show ∃ option ∈ merging.options,
      (merging.resolution.nameSymbols.insert binding.node target)[other.node]? = some option
    rw [Std.ExtTreeMap.getElem?_insert]
    split
    next => exact ⟨target, isTarget, rfl⟩
    next differs =>
      rcases mem_append.mp isOther with isOther | isOther
      · exact stands.nodes other isOther
      · rw [mem_singleton.mp isOther] at differs
        exact absurd (Std.compare_eq_iff_eq.mpr rfl) differs
  · intro node differs
    show (merging.resolution.nameSymbols.insert binding.node target)[node]? = _
    rw [Std.ExtTreeMap.getElem?_insert, if_neg]
    · exact stands.others node fun other isOther => differs other (mem_append_left _ isOther)
    · intro same
      exact differs binding (by simp) (Std.compare_eq_iff_eq.mp same)

theorem join (stands : merging.Stands name start done)
    (adds : Adds name origin merging.resolution.table post id) (sound : post.Sound) :
    Stands name start done
      ⟨define id origin { merging.resolution with table := post }, merging.alternatives ++ [id],
        merging.sharedAfter id origin⟩ := by
  have inRange := (adds.called id mem_cons_self).lt_size
  have same : merging.alternatives.flatMap post.options = merging.options :=
    flatMap_congr fun _ isIn => adds.grows.evolves.options (stands.inRange isIn)
  have joined : (merging.alternatives ++ [id]).flatMap post.options =
      merging.options ++ post.options id := by
    rw [flatMap_append, same, flatMap_singleton]
  have defines (known : start.Defines) :
      (define id origin { merging.resolution with table := post }).Defines :=
    define_defines ((stands.defines known).of_evolves adds.grows.evolves rfl) adds.defined
  obtain ⟨definitions, defined⟩ :=
    define_eq id origin { merging.resolution with table := post }
  rw [defined] at defines ⊢
  constructor
  case shared =>
    intro other isShared
    rcases sharedAfter_eq_some isShared with isShared | rfl
    · exact mem_append_left _ (stands.shared other isShared)
    · simp
  case areNew =>
    intro other isIn
    rcases mem_append.mp isIn with isIn | isIn
    · exact stands.areNew other isIn
    · rw [mem_singleton.mp isIn]
      exact Nat.le_trans stands.grows.evolves.size_le (adds.isNew id mem_cons_self)
  case apart =>
    rw [options, joined, nodup_append]
    refine ⟨stands.apart, nodup_options sound inRange, ?_⟩
    rintro option isIn _ isOther rfl
    exact Nat.not_lt.mpr (adds.isNew option (mem_parts_of_mem_options isOther))
      (stands.called_option isIn).lt_size
  case called =>
    intro other isIn part isPart
    rcases mem_append.mp isIn with isIn | isIn
    · exact stands.called_later adds.grows.evolves isIn isPart
    · rw [mem_singleton.mp isIn] at isPart
      exact adds.called part isPart
  case nodes =>
    rw [options, joined]
    intro binding isDone
    obtain ⟨option, isIn, stands⟩ := stands.nodes binding isDone
    exact ⟨option, mem_append_left _ isIn, stands⟩
  case grows => exact stands.grows.trans adds.grows
  case others => exact stands.others
  case builtins => exact stands.builtins
  case defines => exact defines

end Stands

theorem add_stands {done : List Binding} (tidy : merging.Tidy settings)
    (stands : merging.Stands name start done) (around : Surroundings) (scope : ScopeId)
    (path : String) (binding : Binding) :
    (merging.add around scope path name binding).Stands name start (done ++ [binding]) := by
  have sound := tidy.resolution.sound
  rw [add]
  cases common : merging.common? binding.origin with
  | some id =>
    have isIn : id ∈ merging.alternatives :=
      (common?_eq_some common).elim (stands.shared id) fun isIn => isIn
    exact (stands.setTable (extend_grows sound around id binding.origin)).record isIn binding
  | none =>
    have adds := pushSymbol_adds sound around scope path name binding.origin
    have gains := (gains_pushSymbol sound around scope path name binding.origin).1
    exact (stands.join adds (gains.sound sound)).record
      (mem_append_right _ (mem_singleton_self _)) binding

theorem foldl_add_stands (around : Surroundings) (scope : ScopeId) (path : String)
    (bindings : List Binding) :
    ∀ {merging : Merging} {done : List Binding}, merging.Tidy settings →
      merging.Stands name start done →
        (bindings.foldl (add around scope path name) merging).Tidy settings ∧
          (bindings.foldl (add around scope path name) merging).Stands name start
            (done ++ bindings) := by
  induction bindings with
  | nil =>
    intro merging done tidy stands
    exact ⟨tidy, (append_nil done).symm ▸ stands⟩
  | cons binding _ ih =>
    intro merging done tidy stands
    rw [foldl_cons, append_cons]
    exact ih (add_tidy tidy around scope path name binding).1
      (add_stands tidy stands around scope path binding)

theorem unite_options (sound : table.Sound) {first second : SymbolId} {rest : List SymbolId}
    (inRange : ∀ id ∈ first :: second :: rest, id < table.size)
    (apart : ((first :: second :: rest).flatMap table.options).Nodup)
    (called : ∀ option ∈ (first :: second :: rest).flatMap table.options,
      table.Calls option name) :
    ∃ symbol, table.unite (first :: second :: rest) = (table.push symbol, some table.size) ∧
      symbol.name = name ∧ symbol.data = .ambiguous (table.flattened (first :: second :: rest)) ∧
      (table.push symbol).options table.size =
        (first :: second :: rest).flatMap table.options := by
  have isFlat := flattened_eq_options sound inRange apart
  have several : 2 ≤ (table.flattened (first :: second :: rest)).length := by
    have one := length_pos_of_ne_nil (table.options_ne_nil first)
    have two := length_pos_of_ne_nil (table.options_ne_nil second)
    rw [isFlat, flatMap_cons, flatMap_cons, length_append, length_append]
    omega
  obtain ⟨symbol, united, isName, isData⟩ := ambiguous?_of_called (isFlat.symm ▸ called) several
  refine ⟨symbol, by rw [unite, pushAmbiguous, united]; rfl, isName, isData, ?_⟩
  have some' := ne_nil_of_length_pos (Nat.lt_of_lt_of_le Nat.zero_lt_two several)
  have isOpen := alternatives_of_get? (get?_push_size table symbol)
  rw [Symbol.alternatives, isData] at isOpen
  rw [SymbolTable.options, isOpen, if_neg some', isFlat]

theorem finish_stands {done : List Binding} (sound : merging.resolution.table.Sound)
    (stands : merging.Stands name start done) (isBound : merging.alternatives ≠ []) :
    ∃ id table, merging.finish = ({ merging.resolution with table }, some id) ∧
      start.table.size ≤ id ∧ table.Calls id name ∧ table.options id = merging.options ∧
      Evolves merging.resolution.table table ∧ Grows start.table table := by
  have inRange := fun id (isIn : id ∈ merging.alternatives) => stands.inRange isIn
  have apart := stands.apart
  have called := fun option (isIn : option ∈ merging.options) => stands.called_option isIn
  rw [options] at apart called ⊢
  rw [finish]
  rcases isList : merging.alternatives with _ | ⟨first, _ | ⟨second, rest⟩⟩
  · exact absurd isList isBound
  · have isIn : first ∈ merging.alternatives := isList ▸ mem_cons_self
    exact ⟨first, merging.resolution.table, rfl, stands.areNew first isIn,
      stands.called first isIn first mem_cons_self, (flatMap_singleton ..).symm, .refl _,
      stands.grows⟩
  · have areNew := stands.areNew
    rw [isList] at inRange apart called areNew
    obtain ⟨symbol, united, isName, isData, isOpen⟩ := unite_options sound inRange apart called
    have flat := forall_mem_flattened
      (fun id held isNew => stands.grows.closedFrom id held isNew.1)
      fun id isIn => ⟨areNew id isIn, inRange id isIn⟩
    dsimp only
    rw [united]
    exact ⟨_, _, rfl, stands.grows.evolves.size_le,
      ⟨symbol.label, label?_of_get? (get?_push_size _ symbol), isName⟩, isOpen,
      evolves_push _ symbol, stands.grows.push (isData ▸ flat)⟩

end Merging

/-- In source order, whatever scope they are made in. -/
def Survey.bindingsOf (survey : Survey) (scope : ScopeId) (name : String) : List Binding :=
  (survey.bindings.filter (·.target == scope)).filter (·.name == name)

theorem Survey.mem_bindingsOf {survey : Survey} {scope : ScopeId} {name : String}
    {binding : Binding} : binding ∈ survey.bindingsOf scope name ↔
      binding ∈ survey.bindings ∧ binding.target = scope ∧ binding.name = name := by
  rw [bindingsOf, mem_filter, mem_filter, beq_iff_eq, beq_iff_eq, and_assoc]

namespace Resolution

open SymbolTable

variable {settings : Settings} {resolution post : Resolution} {scope : ScopeId} {name : String}
  {node : NodeId} {Holds : Resolution → Prop} (around : Surroundings)

def StandsAt (scope : ScopeId) (name : String) (node : NodeId) (resolution : Resolution) : Prop :=
  ∃ id, resolution.table.lookup? scope name = some id ∧ id < resolution.table.size ∧
    ∃ option ∈ resolution.table.options id, resolution.table.Calls option name ∧
      resolution.nameSymbols[node]? = some option

theorem StandsAt.evolve (stands : resolution.StandsAt scope name node)
    (evolves : Evolves resolution.table post.table)
    (bound : ∀ id, resolution.table.lookup? scope name = some id →
      post.table.lookup? scope name = some id)
    (sameNode : post.nameSymbols[node]? = resolution.nameSymbols[node]?) :
    post.StandsAt scope name node := by
  obtain ⟨id, isBound, inRange, option, isOption, calls, stands⟩ := stands
  exact ⟨id, bound id isBound, Nat.lt_of_lt_of_le inRange evolves.size_le, option,
    (evolves.options inRange).symm ▸ isOption, evolves.calls calls, sameNode.trans stands⟩

/-- A name of a scope is bound to a new symbol, and all else stays. -/
structure Settles (scope : ScopeId) (name : String) (own : List Binding)
    (resolution post : Resolution) : Prop where
  grows : Grows resolution.table post.table
  bound : ∀ otherScope otherName, ¬(scope = otherScope ∧ name = otherName) →
    post.table.lookup? otherScope otherName = resolution.table.lookup? otherScope otherName
  others : ∀ node : NodeId, (∀ binding ∈ own, binding.node ≠ node) →
    post.nameSymbols[node]? = resolution.nameSymbols[node]?
  builtins : post.builtins = resolution.builtins
  defines : resolution.Defines → post.Defines
  called : ∀ id, post.table.lookup? scope name = some id →
    resolution.table.size ≤ id ∧ post.table.Calls id name
  stands : ∀ binding ∈ own, post.StandsAt scope name binding.node

theorem bindName_settles (tidy : resolution.Tidy settings) (around : Surroundings)
    (tree : ScopeTree) (scope : ScopeId) {bindings : List Binding}
    (isBound : name ∈ bindings.map (·.name)) :
    Settles scope name (bindings.filter (·.name == name)) resolution
      (resolution.bindName around tree scope bindings name) := by
  have opened : Merging.Tidy settings ⟨resolution, [], none⟩ := ⟨tidy, nofun, nofun⟩
  obtain ⟨id, isId, sameBound, way⟩ := bindName_eq tidy around tree scope isBound
  obtain ⟨mergedTidy, stands⟩ := Merging.foldl_add_stands around scope (tree.pathOf scope)
    (bindings.filter (·.name == name)) opened (Merging.stands_nil name resolution)
  rw [way]
  generalize (bindings.filter (·.name == name)).foldl
    (Merging.add around scope (tree.pathOf scope) name) ⟨resolution, [], none⟩ = merging
    at isId sameBound mergedTidy stands ⊢
  have some' : merging.alternatives ≠ [] := by
    intro none'
    rw [Merging.finish, none'] at isId
    cases isId
  obtain ⟨other, table, finished, isNew, calls, isOpen, evolves, grows⟩ :=
    Merging.finish_stands mergedTidy.resolution.sound stands some'
  rw [finished] at isId sameBound ⊢
  obtain rfl := Option.some.inj isId
  have placed := (grows_setScope table other scope).evolves
  have isHere : ((table.setScope other scope).bind scope name other).lookup? scope name =
      some other := by
    rw [lookup?_bind, if_pos ⟨rfl, rfl⟩]
  constructor
  case grows =>
    have whole := grows.trans (grows_setScope table other scope)
    exact ⟨whole.evolves, whole.holds⟩
  case bound =>
    intro otherScope otherName differs
    rw [lookup?_bind, if_neg differs]
    exact SymbolTable.lookup?_congr sameBound otherScope otherName
  case others => exact stands.others
  case builtins => exact stands.builtins
  case defines => exact fun known => (stands.defines known).of_evolves (evolves.trans placed) rfl
  case called =>
    intro id found
    obtain rfl := Option.some.inj (isHere.symm.trans found)
    exact ⟨isNew, placed.calls calls⟩
  case stands =>
    intro binding isOwn
    obtain ⟨option, isOption, isThere⟩ := stands.nodes binding isOwn
    refine ⟨other, isHere, (placed.calls calls).lt_size, option, ?_,
      (evolves.trans placed).calls (stands.called_option isOption), isThere⟩
    rw [← isOpen] at isOption
    exact (placed.options calls.lt_size).symm ▸ isOption

theorem foldl_reaches {α : Type} {step : Resolution → α → Resolution} (makes : α → Prop)
    (items : List α)
    (steps : ∀ resolution, ∀ item ∈ items, resolution.Tidy settings →
      (step resolution item).Tidy settings ∧
        (makes item ∨ Holds resolution → Holds (step resolution item))) :
    ∀ {resolution : Resolution}, resolution.Tidy settings →
      (∃ item ∈ items, makes item) ∨ Holds resolution → Holds (items.foldl step resolution) := by
  induction items with
  | nil =>
    intro resolution _ start
    exact start.resolve_left nofun
  | cons item _ ih =>
    intro resolution tidy start
    obtain ⟨firstTidy, first⟩ := steps resolution item mem_cons_self tidy
    rw [exists_mem_cons_iff, or_right_comm] at start
    exact ih (fun resolution other isIn =>
      steps resolution other (mem_cons_of_mem _ isIn)) firstTidy (start.symm.imp_right first)

variable {survey : Survey} {binding : Binding}

theorem ofBindings_reaches (around : Surroundings) (wellFormed : survey.WellFormed)
    (makes : ScopeId → String → Prop)
    (steps : ∀ resolution scope name,
      let post := resolution.bindName around survey.scopes scope
        (survey.bindings.filter (·.target == scope)) name
      Settles scope name (survey.bindingsOf scope name) resolution post →
        makes scope name ∨ Holds resolution → Holds post)
    (start : (∃ binding ∈ survey.bindings, makes binding.target binding.name) ∨ Holds .empty) :
    Holds (ofBindings around survey) := by
  refine foldl_reaches (fun scope => ∃ binding ∈ survey.bindings, binding.target = scope ∧
    makes scope binding.name) survey.scopes.ids (fun resolution scope _ tidy =>
      ⟨(bindScope_tidy tidy around survey scope).1, fun known => ?_⟩) (tidy_empty around.settings)
    (start.imp_left ?_)
  · let bindings := survey.bindings.filter (·.target == scope)
    refine foldl_reaches (makes scope) (bindings.map (·.name)).eraseDups
      (fun resolution name isIn tidy =>
        ⟨(bindName_tidy tidy around survey.scopes scope bindings name).1, steps _ scope name
          (bindName_settles tidy around survey.scopes scope (mem_eraseDups.mp isIn))⟩) tidy
      (known.imp_left ?_)
    rintro ⟨binding, isBinding, isTarget, makes⟩
    have isIn : binding ∈ bindings := mem_filter.mpr ⟨isBinding, beq_iff_eq.mpr isTarget⟩
    exact ⟨binding.name, mem_eraseDups.mpr (mem_map_of_mem isIn), makes⟩
  · rintro ⟨binding, isBinding, makes⟩
    exact ⟨binding.target, List.mem_range.mpr (wellFormed.target_lt binding isBinding), binding,
      isBinding, rfl, makes⟩

theorem ofBindings_keeps (around : Surroundings) (wellFormed : survey.WellFormed)
    (Holds : Resolution → Prop)
    (steps : ∀ resolution post scope name,
      Settles scope name (survey.bindingsOf scope name) resolution post → Holds resolution →
        Holds post) (start : Holds .empty) : Holds (ofBindings around survey) :=
  ofBindings_reaches around wellFormed (fun _ _ => False)
    (fun _ _ _ settles known => steps _ _ _ _ settles (known.resolve_left id)) (.inr start)

theorem ofBindings_defines (wellFormed : survey.WellFormed) : (ofBindings around survey).Defines :=
  ofBindings_keeps around wellFormed Defines (fun _ _ _ _ settles => settles.defines) defines_empty

theorem ofBindings_called (wellFormed : survey.WellFormed) : (ofBindings around survey).Called := by
  constructor
  · refine ofBindings_keeps around wellFormed (fun resolution => ∀ scope name id,
      resolution.table.lookup? scope name = some id → resolution.table.Calls id name) ?_ ?_
    · intro resolution post scope name settles called otherScope otherName id found
      by_cases same : scope = otherScope ∧ name = otherName
      · obtain ⟨rfl, rfl⟩ := same
        exact (settles.called id found).2
      · rw [settles.bound otherScope otherName same] at found
        exact settles.grows.evolves.calls (called otherScope otherName id found)
    · intro scope name id found
      exact absurd ((SymbolTable.lookup?_empty scope name).symm.trans found) nofun
  · have none' := ofBindings_keeps around wellFormed
      (fun resolution => resolution.builtins = Resolution.empty.builtins)
      (fun _ _ _ _ settles => settles.builtins.trans) rfl
    intro name id found
    rw [none'] at found
    exact absurd ((builtins_empty name).symm.trans found) nofun

theorem ofBindings_owned (wellFormed : survey.WellFormed) :
    (ofBindings around survey).table.Owned := by
  refine ofBindings_keeps around wellFormed (·.table.Owned) ?_ owned_empty
  rintro resolution post scope name settles ⟨owner, owned⟩
  refine ⟨_, owned.grow settles.grows (ownerFor scope name) ?_⟩
  intro otherScope otherName id found
  by_cases same : scope = otherScope ∧ name = otherName
  · obtain ⟨rfl, rfl⟩ := same
    obtain ⟨isNew, calls⟩ := settles.called id found
    exact .inr ⟨rfl, isNew, calls.lt_size⟩
  · exact .inl ((settles.bound otherScope otherName same).symm.trans found)

theorem ofBindings_unbound (wellFormed : survey.WellFormed)
    (unbound : ∀ binding ∈ survey.bindings, binding.node ≠ node) :
    (ofBindings around survey).nameSymbols[node]? = none := by
  refine ofBindings_keeps around wellFormed
    (fun resolution => resolution.nameSymbols[node]? = none) ?_ Std.ExtTreeMap.getElem?_empty
  intro resolution post scope name settles nothing
  rw [settles.others node fun binding isOwn => unbound binding (Survey.mem_bindingsOf.mp isOwn).1]
  exact nothing

theorem ofBindings_stands (around : Surroundings) (wellFormed : survey.WellFormed)
    (isBinding : binding ∈ survey.bindings)
    (alone : ∀ other ∈ survey.bindings, other.node = binding.node →
      other.target = binding.target ∧ other.name = binding.name) :
    (ofBindings around survey).StandsAt binding.target binding.name binding.node := by
  refine ofBindings_reaches around wellFormed
    (fun scope name => scope = binding.target ∧ name = binding.name) ?_
    (.inl ⟨binding, isBinding, rfl, rfl⟩)
  intro resolution scope name post settles known
  by_cases same : scope = binding.target ∧ name = binding.name
  · obtain ⟨rfl, rfl⟩ := same
    exact settles.stands binding (Survey.mem_bindingsOf.mpr ⟨isBinding, rfl, rfl⟩)
  · have unbound := settles.bound binding.target binding.name same
    refine (known.resolve_left same).evolve settles.grows.evolves (fun id => unbound.trans) ?_
    apply settles.others
    intro other isOwn sameNode
    obtain ⟨isOther, rfl, rfl⟩ := Survey.mem_bindingsOf.mp isOwn
    exact same (alone other isOther sameNode)

end Resolution

namespace Model

open Resolution

variable {survey : Survey} {kept : NodeId → Prop} (around : Surroundings)

theorem declared_advances (wellFormed : survey.WellFormed) (spares : survey.Spares kept) :
    Advances kept (ofBindings around survey) (declared around survey) :=
  (Advances.foldl (Tidy around.settings) (fun _ declaration mem tidy _ =>
    ⟨(addDeclaration_tidy tidy survey.scopes declaration).1,
      addDeclaration_advances survey.scopes _ (spares.declared_apart declaration mem)⟩)
    (ofBindings_tidy around.settings around wellFormed).1 (ofBindings_defines around wellFormed)).2

theorem read_advances (wellFormed : survey.WellFormed) :
    Advances (fun node => ∀ reference ∈ survey.reads, reference.node = node →
        resolves around.settings survey.scopes (declared around survey).table reference = false)
      (declared around survey) (read around survey) := by
  let Holds (resolution : Resolution) : Prop := resolution.Tidy around.settings ∧
    resolution.table.bound = (declared around survey).table.bound
  have start : Holds (declared around survey) := ⟨(declared_tidy around wellFormed).1, rfl⟩
  have defines := (declared_advances around wellFormed survey.spares_nothing).defines
    (ofBindings_defines around wellFormed)
  refine (Advances.foldl Holds ?_ start defines).2
  rintro resolution reference mem ⟨tidy, sameBound⟩ _
  constructor
  · rcases addRead_records tidy survey.scopes reference with ⟨_, records, _⟩ | ⟨_, records, _⟩
    all_goals exact ⟨records.tidy, records.gains.bound.trans sameBound⟩
  · apply addRead_advances tidy
    rw [resolves_congr around.settings survey.scopes sameBound]
    intro resolved unresolved
    exact absurd ((unresolved reference mem rfl).symm.trans resolved) nofun

theorem read_advances_bindings (around : Surroundings) (wellFormed : survey.WellFormed)
    (spares : survey.Spares kept)
    (unread : ∀ node, kept node → ∀ reference ∈ survey.reads, reference.node = node →
      resolves around.settings survey.scopes (declared around survey).table reference = false) :
    Advances kept (ofBindings around survey) (read around survey) :=
  (declared_advances around wellFormed spares).trans ((read_advances around wellFormed).mono unread)

theorem read_defines (wellFormed : survey.WellFormed) : (read around survey).Defines :=
  (read_advances_bindings around wellFormed survey.spares_nothing nofun).defines
    (ofBindings_defines around wellFormed)

theorem resolve_advances (wellFormed : survey.WellFormed) (spares : survey.Spares kept) :
    Advances kept (read around survey) (resolve around survey) := by
  have isTidy := (read_records around wellFormed).1.tidy
  have known := read_defines around wellFormed
  obtain ⟨isTidy, attributes⟩ := Advances.foldl (Tidy around.settings)
    (fun resolution read mem tidy _ => ⟨(addAttributeRead_records tidy read).tidy,
      addAttributeRead_advances resolution (spares.attribute_apart read mem)⟩) isTidy known
  obtain ⟨isTidy, functions⟩ := Advances.foldl (Tidy around.settings)
    (fun resolution site (_ : site ∈ survey.functions) tidy known =>
      ⟨(completeFunction_records tidy survey.scopes site).tidy,
        completeFunction_advances known survey.scopes site⟩) isTidy (attributes.defines known)
  have throughFunctions := attributes.trans functions
  obtain ⟨isTidy, classes⟩ := Advances.foldl (Tidy around.settings)
    (fun resolution site (isIn : site ∈ survey.classes) tidy known =>
      ⟨(completeClass_records tidy site).tidy,
        completeClass_advances known (wellFormed.body_ne site isIn)⟩) isTidy
    (throughFunctions.defines known)
  have throughClasses := throughFunctions.trans classes
  have assigned := (Advances.foldl (Tidy around.settings) (fun resolution assigned mem tidy _ =>
      ⟨(addInstanceAttribute_records tidy survey assigned).tidy,
        addInstanceAttribute_advances survey resolution (spares.assigned_apart assigned mem)⟩)
    isTidy (throughClasses.defines known)).2
  exact throughClasses.trans assigned

end Model

end PyStatic
