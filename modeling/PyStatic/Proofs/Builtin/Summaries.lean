import PyStatic.Proofs.Builtin.Making
import PyStatic.Proofs.Symbol.HierarchyWalks
import PyStatic.Types.Known

/-!
Contract: the symbol of a builtin class says of it what the catalogue says.

A class is registered before its bases are made, and filled after them. The bases stand later in the
list of entries, so no class is met that is registered and not filled.
-/

namespace PyStatic.Builtin

open List SymbolTable Sequence ClassSummary

variable {entries : List ClassEntry} {entry : ClassEntry} {name : String}

def Layered : List ClassEntry → Prop
  | [] => True
  | entry :: older =>
    (∀ other ∈ older, other.name ≠ entry.name) ∧
      (∀ base ∈ entry.bases, ∃ other ∈ older, other.name = base) ∧ Layered older

instance decidableLayered : (entries : List ClassEntry) → Decidable (Layered entries)
  | [] => .isTrue trivial
  | entry :: older =>
    have := decidableLayered older
    inferInstanceAs (Decidable ((∀ other ∈ older, other.name ≠ entry.name) ∧
      (∀ base ∈ entry.bases, ∃ other ∈ older, other.name = base) ∧ Layered older))

theorem layered_classes : Layered classes.reverse := by
  decide +kernel

theorem Layered.apart (layered : Layered entries) {first second : ClassEntry}
    (isFirst : first ∈ entries) (isSecond : second ∈ entries) (same : first.name = second.name) :
    first = second := by
  induction entries with
  | nil => cases isFirst
  | cons _ _ ih =>
    obtain ⟨distinct, -, olderLayered⟩ := layered
    rcases mem_cons.mp isFirst with rfl | firstOlder <;>
      rcases mem_cons.mp isSecond with rfl | secondOlder
    · rfl
    · exact absurd same.symm (distinct second secondOlder)
    · exact absurd same (distinct first firstOlder)
    · exact ih olderLayered firstOlder secondOlder

theorem Layered.exists_base (layered : Layered entries) (isEntry : entry ∈ entries) {base : String}
    (isBase : base ∈ entry.bases) : ∃ other ∈ entries, other.name = base := by
  induction entries with
  | nil => cases isEntry
  | cons _ older ih =>
    obtain ⟨-, based, olderLayered⟩ := layered
    have later : ∃ other ∈ older, other.name = base := by
      rcases mem_cons.mp isEntry with rfl | isEntry
      · exact based base isBase
      · exact ih olderLayered isEntry
    obtain ⟨other, isOther, named⟩ := later
    exact ⟨other, mem_cons_of_mem _ isOther, named⟩

theorem class?_eq_some_iff : class? name = some entry ↔ entry ∈ classes ∧ entry.name = name := by
  have named : ∀ {found}, class? name = some found → found ∈ classes ∧ found.name = name :=
    fun isFound => ⟨mem_of_find?_eq_some isFound, by simpa using find?_some isFound⟩
  refine ⟨named, ?_⟩
  rintro ⟨isEntry, rfl⟩
  have listed : (class? entry.name).isSome = true :=
    find?_isSome.mpr ⟨entry, isEntry, beq_self_eq_true _⟩
  obtain ⟨found, isFound⟩ := Option.isSome_iff_exists.mp listed
  obtain ⟨mem, same⟩ := named isFound
  rw [isFound, layered_classes.apart (mem_reverse.mpr mem) (mem_reverse.mpr isEntry) same]

theorem basesOf_name (isEntry : entry ∈ classes) : basesOf entry.name = entry.bases := by
  rw [basesOf, class?_eq_some_iff.mpr ⟨isEntry, rfl⟩]
  rfl

theorem methodsOf_name (isEntry : entry ∈ classes) : methodsOf entry.name = entry.methods := by
  rw [methodsOf, class?_eq_some_iff.mpr ⟨isEntry, rfl⟩]
  rfl

theorem remaining_basesOf (listed : ∀ entry ∈ entries, entry ∈ classes) :
    BreadthFirst.remaining (fun name => (basesOf name).length) [] (entries.map (·.name)) =
      (entries.flatMap (·.bases)).length := by
  induction entries with
  | nil => rfl
  | cons _ _ ih =>
    obtain ⟨isEntry, others⟩ := forall_mem_cons.mp listed
    rw [map_cons, BreadthFirst.remaining, ih others, flatMap_cons,
      length_append, basesOf_name isEntry]
    rfl

theorem remaining_one (items : List String) :
    BreadthFirst.remaining (fun _ => 1) [] items = items.length := by
  induction items with
  | nil => rfl
  | cons _ _ ih =>
    rw [BreadthFirst.remaining, ih, length_cons, Nat.add_comm]
    rfl

theorem ancestors_eq_walk (isEntry : entry ∈ classes) {rounds : Nat}
    (enough : classes.length ≤ rounds) :
    ancestors entry.name = BreadthFirst.walk basesOf rounds entry.name := by
  have closed : ∀ name ∈ classes.map (·.name), ∀ base ∈ basesOf name,
      base ∈ classes.map (·.name) := by
    intro name isName base isBase
    obtain ⟨other, isOther, rfl⟩ := mem_map.mp isName
    rw [basesOf_name isOther] at isBase
    obtain ⟨found, isFound, named⟩ :=
      layered_classes.exists_base (mem_reverse.mpr isOther) isBase
    exact mem_map.mpr ⟨found, mem_reverse.mp isFound, named⟩
  have isIn : ∀ name ∈ [entry.name], name ∈ classes.map (·.name) :=
    fun _ isName => mem_singleton.mp isName ▸ mem_map_of_mem isEntry
  have alone : ([] ++ [entry.name]).eraseDups = [] ++ [entry.name] := rfl
  rw [ancestors, class?_eq_some_iff.mpr ⟨isEntry, rfl⟩]
  refine BreadthFirst.sweep_eq_serve closed isIn alone ?_ ?_
  · rw [remaining_basesOf fun _ isListed => isListed, length_singleton, Nat.add_comm]
  · rw [remaining_one, length_map]
    exact enough

def IsMethod (pool : SymbolPool) (method : Routine) (member : SymbolId) : Prop :=
  (pool.table.get? member).map (·.name) = some method.name

def Filled (pool : SymbolPool) (entry : ClassEntry) (id : SymbolId) : Prop :=
  ∃ superClasses members : List SymbolId,
    pool.table.get? id = some (.builtin entry.name entry.name
      (.ofClass { ClassInfo.blank with superClasses, members })) ∧
    List.Forall₂ (fun base superClass => pool.registry[base]? = some superClass)
      entry.bases superClasses ∧
    List.Forall₂ (IsMethod pool) entry.methods members

def Complete (pool : SymbolPool) (entry : ClassEntry) : Prop :=
  ∀ id, pool.registry[entry.name]? = some id → Filled pool entry id

variable {pool post : SymbolPool} {id : SymbolId}

theorem IsMethod.extend {method : Routine} {member : SymbolId}
    (isMethod : IsMethod pool method member)
    (extended : pool.Extends post) : IsMethod post method member := by
  obtain ⟨symbol, found, named⟩ := Option.map_eq_some_iff.mp isMethod
  exact Option.map_eq_some_iff.mpr ⟨symbol, extended.get?_of_some found, named⟩

theorem IsMethod.setData {method : Routine} {member : SymbolId}
    (isMethod : IsMethod pool method member) (id : SymbolId) (data : SymbolData) :
    IsMethod (pool.setData id data) method member := by
  show ((pool.table.modify id _).get? member).map _ = _
  rw [get?_modify]
  split
  next => exact (Option.map_map ..).trans isMethod
  next => exact isMethod

theorem Filled.extend (filled : Filled pool entry id) (extended : pool.Extends post) :
    Filled post entry id := by
  obtain ⟨superClasses, members, own, bases, methods⟩ := filled
  exact ⟨superClasses, members, extended.get?_of_some own,
    bases.imp fun base superClass => extended.registry base superClass,
    methods.imp fun _ _ isMethod => isMethod.extend extended⟩

theorem Filled.setData {other : SymbolId} (filled : Filled pool entry other) (distinct : id ≠ other)
    (data : SymbolData) : Filled (pool.setData id data) entry other := by
  obtain ⟨superClasses, members, own, bases, methods⟩ := filled
  exact ⟨superClasses, members, (get?_modify_of_ne distinct _).trans own, bases,
    methods.imp fun _ _ isMethod => isMethod.setData id data⟩

theorem Complete.makes {Named : String → Prop} (complete : Complete pool entry)
    (makes : Makes Named pool post) (other : ¬ Named entry.name) : Complete post entry := by
  intro id registered
  rcases makes.registered entry.name id registered with earlier | ⟨named, -⟩
  · exact (complete id earlier).extend makes.extended
  · exact absurd named other

theorem forall₂_filterMap {α β : Type} {Related : α → β → Prop} {items : List α}
    {results : List (Option β)}
    (all : List.Forall₂ (fun item result => ∃ found, result = some found ∧ Related item found)
      items results) :
    List.Forall₂ Related items (results.filterMap fun result => result) := by
  induction all with
  | nil => exact .nil
  | cons first _ ih =>
    obtain ⟨found, rfl, related⟩ := first
    exact .cons related ih

theorem collect_pushMethod {Named : String → Prop} (className : String) (pool : SymbolPool)
    (methods : List Routine) :
    Makes Named pool (collect (pushMethod className) pool methods).1 ∧
      List.Forall₂ (IsMethod (collect (pushMethod className) pool methods).1)
        methods (collect (pushMethod className) pool methods).2 := by
  refine (collect_keeps (fun _ => True) (Makes Named) IsMethod Makes.refl Makes.trans
    (fun _ _ _ _ makes isMethod => isMethod.extend makes.extended) ?_ trivial).2
  intro method _ pool _
  refine ⟨trivial, pushMethod_makes className pool method, ?_⟩
  show ((pool.table.push _).get? pool.table.size).map _ = _
  rw [get?_push_size]
  rfl

theorem classSymbol_complete (layered : Layered entries) :
    ∀ (pool : SymbolPool) (name : String), (∀ entry ∈ entries, Complete pool entry) →
      ∀ entry ∈ entries, Complete (classSymbol entries pool name).1 entry := by
  induction entries with
  | nil => exact fun _ _ _ _ isEntry => absurd isEntry not_mem_nil
  | cons entry older ih =>
    intro pool name complete
    obtain ⟨distinct, based, olderLayered⟩ := layered
    obtain ⟨entryComplete, olderComplete⟩ := forall_mem_cons.mp complete
    have olderMakes := @classSymbol_makes (fun name => ∃ other ∈ older, other.name = name) older
      fun other isOther => ⟨other, isOther, rfl⟩
    have olderDone := ih olderLayered
    rw [classSymbol]
    split
    next same =>
      obtain rfl : entry.name = name := by simpa using same
      split
      next => exact complete
      next unregistered =>
        -- the class is registered before its bases, which are all older entries
        have start : Makes (· = entry.name) pool pool := .refl pool
        have own : Makes (· = entry.name) pool
            (pushRegistered pool entry.name (.ofClass .blank)).1 :=
          start.pushRegistered rfl unregistered (by rintro ⟨⟩) rfl
        obtain ⟨done, makesBases, bases⟩ := collect_keeps
          (fun pool => ∀ other ∈ older, Complete pool other)
          (Makes fun name => ∃ other ∈ older, other.name = name)
          (fun pool base result => ∃ found, result = some found ∧ pool.registry[base]? = some found)
          Makes.refl Makes.trans
          (fun _ _ base _ makes result => result.imp fun found registered =>
            ⟨registered.1, makes.extended.registry base found registered.2⟩)
          (fun base isBase {state} done => by
            obtain ⟨makes, registered⟩ := olderMakes state base
            obtain ⟨found, isFound⟩ :=
              Option.isSome_iff_exists.mp (classSymbol_isSome (based base isBase) state)
            exact ⟨olderDone state base done, makes, found, isFound, registered found isFound⟩)
          (fun other isOther => (olderComplete other isOther).makes own (distinct other isOther))
        obtain ⟨makesMethods, methods⟩ := @collect_pushMethod (fun _ => False) entry.name
          (collect (classSymbol older)
            (pushRegistered pool entry.name (.ofClass .blank)).1 entry.bases).1 entry.methods
        have around := makesBases.extended.trans makesMethods.extended
        have found := around.get?_of_some (get?_push_size pool.table
          (.builtin entry.name entry.name (.ofClass .blank)))
        have registered := around.registry entry.name pool.table.size
          (SymbolPool.registry_register_self ..)
        refine forall_mem_cons.mpr ⟨?_, ?_⟩
        · intro id isId
          obtain rfl := Option.some.inj (registered.symm.trans isId)
          refine ⟨_, _, get?_setData_self found _, ?_, ?_⟩
          · exact (forall₂_filterMap bases).imp
              fun base superClass => makesMethods.extended.registry base superClass
          · exact methods.imp fun _ _ isMethod => isMethod.setData _ _
        · intro other isOther id isId
          have filled := (done other isOther).makes makesMethods not_false id isId
          refine filled.setData ?_ _
          -- filling in the class spares the older ones: two with one symbol share their name
          rintro rfl
          obtain ⟨_, _, otherFound, _⟩ := filled
          have sameSymbol := Option.some.inj (otherFound.symm.trans found)
          exact distinct other isOther (congrArg Symbol.name sameSymbol)
    next =>
      refine forall_mem_cons.mpr
        ⟨entryComplete.makes (olderMakes pool name).1 ?_, olderDone pool name olderComplete⟩
      rintro ⟨other, isOther, same⟩
      exact distinct other isOther same

/-- The names are looked up in turn, beginning with no symbols. -/
def lookedUp (names : List String) : SymbolPool :=
  names.foldl (fun pool name => (symbol pool name).1) ⟨.empty, ∅⟩

/-- A pool of builtin symbols alone, its classes complete. -/
structure Stocked (pool : SymbolPool) : Prop where
  makes : Makes (isBuiltin · = true) ⟨.empty, ∅⟩ pool
  complete : ∀ entry ∈ classes, Complete pool entry
  others : ∀ name id, pool.registry[name]? = some id → class? name = none →
    ∃ symbol, pool.table.get? id = some symbol ∧ symbol.kind ≠ .ofClass

theorem stocked_empty : Stocked ⟨.empty, ∅⟩ where
  makes := .refl _
  complete _ _ _ registered := absurd registered (by simp)
  others _ _ registered := absurd registered (by simp)

theorem symbol_makes (pool : SymbolPool) (name : String) :
    Makes (isBuiltin · = true) pool (symbol pool name).1 := by
  rcases symbol_cases pool name with ⟨_, _, made⟩ | ⟨_, _, _, _, made, makes, _⟩ | ⟨_, _, made⟩ <;>
    rw [made]
  · exact .refl pool
  · exact makes
  · exact .refl pool

theorem symbol_pool_cases (pool : SymbolPool) (name : String) :
    (symbol pool name).1 = pool ∨
    (symbol pool name).1 = (classSymbol classes.reverse pool name).1 ∨
    (class? name = none ∧ pool.registry[name]? = none ∧ ∃ data : SymbolData,
      data.kind ≠ .ambiguous ∧ data.kind ≠ .ofClass ∧
        (symbol pool name).1 = (pushRegistered pool name data).1) := by
  rw [symbol]
  cases registered : pool.registry[name]? with
  | some => exact .inl rfl
  | none =>
    cases isClass : class? name with
    | some => exact .inr (.inl rfl)
    | none =>
      cases function? name with
      | some routine =>
        exact .inr (.inr ⟨rfl, rfl, .function (routineInfo routine false), by rintro ⟨⟩,
          by rintro ⟨⟩, rfl⟩)
      | none =>
        by_cases constant : isConstant name = true
        · rw [if_pos constant]
          exact .inr (.inr ⟨rfl, rfl, .other [], by rintro ⟨⟩, by rintro ⟨⟩, rfl⟩)
        · rw [if_neg constant]
          exact .inl rfl

theorem Stocked.symbol (stocked : Stocked pool) (name : String) : Stocked (symbol pool name).1 := by
  have makes := symbol_makes pool name
  have kept : ∀ other id, pool.registry[other]? = some id → class? other = none →
      ∃ found, (Builtin.symbol pool name).1.table.get? id = some found ∧ found.kind ≠ .ofClass := by
    intro other id registered isNoClass
    obtain ⟨found, isFound, isOther⟩ := stocked.others other id registered isNoClass
    exact ⟨found, makes.extended.get?_of_some isFound, isOther⟩
  refine ⟨stocked.makes.trans makes, ?_, ?_⟩ <;>
    rcases symbol_pool_cases pool name with
      same | made | ⟨isNoClass, unregistered, data, isPlain, isOther, made⟩
  · rw [same]
    exact stocked.complete
  · rw [made]
    intro entry isEntry
    exact classSymbol_complete layered_classes pool name
      (fun entry isEntry => stocked.complete entry (mem_reverse.mp isEntry)) entry
      (mem_reverse.mpr isEntry)
  · rw [made]
    intro entry isEntry
    have start : Makes (· = name) pool pool := .refl pool
    apply (stocked.complete entry isEntry).makes
      (start.pushRegistered rfl unregistered isPlain (data.held_eq_nil isPlain isOther))
    rintro rfl
    rw [class?_eq_some_iff.mpr ⟨isEntry, rfl⟩] at isNoClass
    cases isNoClass
  · rw [same]
    exact stocked.others
  · intro other id registered otherNoClass
    have makesClasses :=
      @classSymbol_makes (fun name => ∃ entry ∈ classes.reverse, entry.name = name)
      classes.reverse (fun entry isEntry => ⟨entry, isEntry, rfl⟩) pool name
    rw [made] at registered
    rcases makesClasses.1.registered other id registered with earlier | ⟨⟨entry, isEntry, named⟩, -⟩
    · exact kept other id earlier otherNoClass
    · rw [class?_eq_some_iff.mpr ⟨mem_reverse.mp isEntry, named⟩] at otherNoClass
      cases otherNoClass
  · intro other id registered otherNoClass
    by_cases same : name = other
    · subst same
      rw [made] at registered ⊢
      have isNew := (SymbolPool.registry_register_self
        (pool.push (.builtin name name data)).1 name pool.table.size).symm.trans registered
      cases isNew
      exact ⟨_, get?_push_size .., isOther⟩
    · rw [made] at registered
      exact kept other id ((SymbolPool.registry_register_of_ne _ same _).symm.trans registered)
        otherNoClass

theorem stocked_lookedUp (names : List String) : Stocked (lookedUp names) :=
  foldlRecOn names _ stocked_empty fun _ stocked name _ => stocked.symbol name

section Summaries

variable (stocked : Stocked pool)

include stocked

theorem Stocked.get?_registered (registered : pool.registry[name]? = some id) :
    ∃ data, pool.table.get? id = some (.builtin name name data) := by
  rcases stocked.makes.registered name id registered with earlier | ⟨-, -, found⟩
  · simp at earlier
  · exact found

theorem Stocked.nameOf_registered (registered : pool.registry[name]? = some id) :
    pool.table.nameOf id = name := by
  obtain ⟨data, found⟩ := stocked.get?_registered registered
  rw [nameOf, found]
  rfl

theorem Stocked.fqnOf?_registered (registered : pool.registry[name]? = some id) :
    pool.table.fqnOf? id = some name := by
  obtain ⟨data, found⟩ := stocked.get?_registered registered
  rw [fqnOf?, found]
  rfl

omit stocked in
theorem Filled.class?_eq (filled : Filled pool entry id) :
    ∃ info, pool.table.class? id = some info ∧ info.hasUnresolvedBase = false ∧
      List.Forall₂ (fun base superClass => pool.registry[base]? = some superClass)
        entry.bases info.superClasses ∧
      List.Forall₂ (IsMethod pool) entry.methods info.members := by
  obtain ⟨superClasses, members, found, bases, methods⟩ := filled
  refine ⟨{ ClassInfo.blank with superClasses, members }, ?_, rfl, bases, methods⟩
  rw [SymbolTable.class?, found]
  rfl

omit stocked in
theorem map_eq_map_of_forall₂ {α β γ : Type} {first : α → γ} {second : β → γ} {items : List α}
    {others : List β}
    (all : List.Forall₂ (fun item other => second other = first item) items others) :
    others.map second = items.map first := by
  induction all with
  | nil => rfl
  | cons same _ ih => rw [map_cons, map_cons, same, ih]

theorem Stocked.superClasses_names (filled : Filled pool entry id) :
    (pool.table.superClasses id).map pool.table.nameOf = entry.bases := by
  obtain ⟨info, isInfo, -, bases, -⟩ := filled.class?_eq
  rw [superClasses, isInfo, ← map_id entry.bases]
  exact map_eq_map_of_forall₂ (bases.imp fun _ _ registered => stocked.nameOf_registered registered)

omit stocked in
theorem Filled.members_names (filled : Filled pool entry id) :
    (pool.table.members id).map pool.table.nameOf = entry.methods.map (·.name) := by
  obtain ⟨info, isInfo, -, -, methods⟩ := filled.class?_eq
  rw [SymbolTable.members, isInfo]
  refine map_eq_map_of_forall₂ (methods.imp fun method member isMethod => ?_)
  rw [nameOf, isMethod, Option.getD_some]

def IsClass (pool : SymbolPool) (id : SymbolId) : Prop :=
  ∃ entry ∈ classes, pool.registry[entry.name]? = some id

theorem Stocked.isClass_superClass (isClass : IsClass pool id) {superClass : SymbolId}
    (isLink : superClass ∈ pool.table.superClasses id) : IsClass pool superClass := by
  obtain ⟨entry, isEntry, registered⟩ := isClass
  obtain ⟨info, isInfo, -, bases, -⟩ := (stocked.complete entry isEntry id registered).class?_eq
  rw [superClasses, isInfo] at isLink
  obtain ⟨base, isBase, isRegistered⟩ := exists_of_forall₂ bases.flip isLink
  obtain ⟨other, isOther, rfl⟩ :=
    layered_classes.exists_base (mem_reverse.mpr isEntry) isBase
  exact ⟨other, mem_reverse.mp isOther, isRegistered⟩

theorem Stocked.isClass_of_reaches (isClass : IsClass pool id) {other : SymbolId}
    (reaches : BreadthFirst.Reaches pool.table.superClasses id other) : IsClass pool other := by
  obtain ⟨steps, leads⟩ := reaches
  induction leads with
  | here => exact isClass
  | on _ isLink ih => exact stocked.isClass_superClass ih isLink

theorem Stocked.reaches_inside (isClass : IsClass pool id) {other : SymbolId}
    (reaches : BreadthFirst.Reaches pool.table.superClasses id other) :
    other ∈ List.range pool.table.size := by
  obtain ⟨entry, _, registered⟩ := stocked.isClass_of_reaches isClass reaches
  obtain ⟨_, found⟩ := stocked.get?_registered registered
  exact List.mem_range.mpr (lt_size_of_get? found)

theorem Stocked.isClass_of_mem_hierarchy (isClass : IsClass pool id) {base : SymbolId}
    (isBase : base ∈ pool.table.hierarchy id) : IsClass pool base :=
  stocked.isClass_of_reaches isClass ((BreadthFirst.mem_walk
    (fun _ => stocked.reaches_inside isClass) (Nat.le_of_eq length_range)).mp isBase)

theorem Stocked.hierarchy_names (isEntry : entry ∈ classes)
    (registered : pool.registry[entry.name]? = some id) :
    (pool.table.hierarchy id).map pool.table.nameOf = ancestors entry.name := by
  have isClass : IsClass pool id := ⟨entry, isEntry, registered⟩
  have agree : ∀ other, IsClass pool other →
      basesOf (pool.table.nameOf other) =
        (pool.table.superClasses other).map pool.table.nameOf := by
    rintro other ⟨found, isFound, isRegistered⟩
    rw [stocked.nameOf_registered isRegistered, basesOf_name isFound,
      stocked.superClasses_names (stocked.complete found isFound other isRegistered)]
  have apart : ∀ first second, IsClass pool first → IsClass pool second →
      pool.table.nameOf first = pool.table.nameOf second → first = second := by
    rintro first second ⟨_, _, isFirst⟩ ⟨_, _, isSecond⟩ same
    rw [stocked.nameOf_registered isFirst, stocked.nameOf_registered isSecond] at same
    exact Option.some.inj (isFirst.symm.trans ((congrArg (pool.registry[·]?) same).trans isSecond))
  have more : pool.table.hierarchy id = BreadthFirst.walk pool.table.superClasses
      (pool.table.size + classes.length) id := by
    have enough : (List.range pool.table.size).length ≤ pool.table.size + classes.length := by simp
    rw [BreadthFirst.walk_eq_of_enough (fun _ => stocked.reaches_inside isClass) enough,
      length_range]
    rfl
  rw [ancestors_eq_walk isEntry (Nat.le_add_left _ pool.table.size), more,
    ← stocked.nameOf_registered registered]
  exact (BreadthFirst.serve_map (fun _ known _ => stocked.isClass_superClass known) agree apart
    (pool.table.size + classes.length) (by simpa using isClass) (by simpa using isClass)).symm

theorem Stocked.hasUnresolvedHierarchy_eq_false (isClass : IsClass pool id) :
    pool.table.hasUnresolvedHierarchy id = false := by
  rw [Bool.eq_false_iff, ne_eq, hasUnresolvedHierarchy_iff]
  rintro ⟨base, isBase, unknown⟩
  obtain ⟨entry, isEntry, registered⟩ := stocked.isClass_of_mem_hierarchy isClass isBase
  obtain ⟨info, isInfo, resolved, -⟩ := (stocked.complete entry isEntry base registered).class?_eq
  rcases unknown with isNone | ⟨other, isOther, unresolved⟩
  · rw [isInfo] at isNone
    cases isNone
  · rw [isInfo] at isOther
    cases isOther
    rw [resolved] at unresolved
    cases unresolved

theorem Stocked.hierarchy_members (isEntry : entry ∈ classes)
    (registered : pool.registry[entry.name]? = some id) :
    ((pool.table.hierarchy id).flatMap fun base =>
      (pool.table.members base).map pool.table.nameOf).eraseDups = members entry.name := by
  rw [members, ← stocked.hierarchy_names isEntry registered, flatMap_map]
  congr 1
  apply flatMap_congr
  intro base isBase
  obtain ⟨other, isOther, isRegistered⟩ :=
    stocked.isClass_of_mem_hierarchy ⟨entry, isEntry, registered⟩ isBase
  rw [(stocked.complete other isOther base isRegistered).members_names,
    stocked.nameOf_registered isRegistered, methodsOf_name isOther]

theorem Stocked.ofSymbol?_class (isEntry : entry ∈ classes)
    (registered : pool.registry[entry.name]? = some id) :
    ofSymbol? pool.table id = builtin? entry.name := by
  have isClass : IsClass pool id := ⟨entry, isEntry, registered⟩
  have fqns : (pool.table.hierarchy id).filterMap pool.table.fqnOf? = ancestors entry.name := by
    rw [← stocked.hierarchy_names isEntry registered, ← filterMap_eq_map]
    apply filterMap_congr
    intro base isBase
    obtain ⟨_, _, isRegistered⟩ := stocked.isClass_of_mem_hierarchy isClass isBase
    rw [stocked.fqnOf?_registered isRegistered, Function.comp_apply,
      stocked.nameOf_registered isRegistered]
  obtain ⟨superClasses, own, found, _⟩ := stocked.complete entry isEntry id registered
  rw [ofSymbol?, found, builtin?, class?_eq_some_iff.mpr ⟨isEntry, rfl⟩]
  simp only [fqns, stocked.hierarchy_members isEntry registered,
    stocked.hasUnresolvedHierarchy_eq_false isClass]
  rfl

theorem Stocked.ofSymbol?_eq_builtin? (registered : pool.registry[name]? = some id) :
    ofSymbol? pool.table id = builtin? name := by
  cases isClass : class? name with
  | some =>
    obtain ⟨isEntry, rfl⟩ := class?_eq_some_iff.mp isClass
    exact stocked.ofSymbol?_class isEntry registered
  | none =>
    obtain ⟨symbol, found, isOther⟩ := stocked.others name id registered isClass
    simp [ofSymbol?, found, isOther, builtin?, isClass]

theorem Stocked.registered_of_class {symbol : Symbol} (found : pool.table.get? id = some symbol)
    (isClass : symbol.kind = .ofClass) {fqn : String} (named : symbol.fqn = some fqn) :
    pool.registry[fqn]? = some id := by
  obtain ⟨name, other, data, rfl, -, registered⟩ :=
    stocked.makes.fresh id symbol (Nat.zero_le _) found
  obtain rfl : other = fqn := Option.some.inj named
  exact registered isClass

end Summaries

theorem registry_symbol (builtin : isBuiltin name = true) (pool : SymbolPool) :
    ∃ id, (symbol pool name).1.registry[name]? = some id := by
  rcases symbol_cases pool name with
    ⟨id, registered, made⟩ | ⟨-, -, _, id, made, -, registered⟩ | ⟨-, isOther, -⟩
  · exact ⟨id, made ▸ registered⟩
  · exact ⟨id, made ▸ registered⟩
  · rw [builtin] at isOther
    cases isOther

theorem registry_foldl_symbol {names : List String} (isName : name ∈ names)
    (builtin : isBuiltin name = true) (pool : SymbolPool) :
    ∃ id, (names.foldl (fun pool name => (symbol pool name).1) pool).registry[name]? = some id := by
  induction names generalizing pool with
  | nil => cases isName
  | cons _ rest ih =>
    rw [foldl_cons]
    rcases mem_cons.mp isName with rfl | isLater
    · obtain ⟨id, registered⟩ := registry_symbol builtin pool
      exact ⟨id, foldlRecOn (motive := fun pool => pool.registry[name]? = some id) rest _
        registered fun pool kept other _ =>
          (symbol_makes pool other).extended.registry name id kept⟩
    · exact ih isLater _

/-- Whatever was looked up, the registered symbol and the catalogue give one summary. -/
theorem summaries_agree (names : List String) :
    (∀ name id, (lookedUp names).registry[name]? = some id →
      ClassSummary.ofSymbol? (lookedUp names).table id = ClassSummary.builtin? name) ∧
    (∀ name ∈ names, isBuiltin name = true → ∃ id, (lookedUp names).registry[name]? = some id) ∧
    ∀ (model : Model) (fqn : String),
      { model with table := (lookedUp names).table }.instanceType fqn = ValueType.builtin fqn := by
  have stocked := stocked_lookedUp names
  refine ⟨fun name id => stocked.ofSymbol?_eq_builtin?,
    fun name isName builtin => registry_foldl_symbol isName builtin _, ?_⟩
  intro model fqn
  have found : { model with table := (lookedUp names).table }.nthClass? fqn 0 =
      ClassSummary.builtin? fqn := by
    rw [Model.nthClass?]
    cases named : { model with table := (lookedUp names).table }.classesNamed fqn with
    | nil => rfl
    | cons id others =>
      have isNamed : id ∈ { model with table := (lookedUp names).table }.classesNamed fqn :=
        named ▸ List.mem_cons_self
      obtain ⟨-, isClass⟩ := List.mem_filter.mp isNamed
      obtain ⟨symbol, found, isClass⟩ := (Option.any_eq_true _ _).mp isClass
      simp only [Bool.and_eq_true, beq_iff_eq] at isClass
      exact stocked.ofSymbol?_eq_builtin? (stocked.registered_of_class found isClass.1 isClass.2)
  cases known : ClassSummary.builtin? fqn with
  | none | some summary => simp only [Model.instanceType, ValueType.builtin, found, known]

theorem summaries_agree_bool : ∃ id other,
    (lookedUp ["len", "bool", "int"]).registry["bool"]? = some id ∧
    (lookedUp ["int", "bool"]).registry["bool"]? = some other ∧
    ClassSummary.ofSymbol? (lookedUp ["len", "bool", "int"]).table id =
      ClassSummary.ofSymbol? (lookedUp ["int", "bool"]).table other ∧
    (ClassSummary.ofSymbol? (lookedUp ["int", "bool"]).table other).map (·.ancestors) =
      some ["bool", "int", "object"] := by
  obtain ⟨agree, made, -⟩ := summaries_agree ["len", "bool", "int"]
  obtain ⟨otherAgree, otherMade, -⟩ := summaries_agree ["int", "bool"]
  obtain ⟨id, registered⟩ := made "bool" (by decide) (by decide +kernel)
  obtain ⟨other, otherRegistered⟩ := otherMade "bool" (by decide) (by decide +kernel)
  refine ⟨id, other, registered, otherRegistered, ?_, ?_⟩
  · rw [agree "bool" id registered, otherAgree "bool" other otherRegistered]
  · rw [otherAgree "bool" other otherRegistered]
    decide +kernel

end PyStatic.Builtin
