import PyStatic.Proofs.Binding.BoundNodes
import PyStatic.Proofs.Binding.Environments

/-!
Contract: every name of a module is resolved once, by static scoping.
-/

namespace PyStatic

namespace Resolution

open SymbolTable

variable {settings : Settings} {resolution : Resolution}

/-- A reference stands for what is bound around it, or else for the builtin symbol. -/
structure Answers (settings : Settings) (tree : ScopeTree) (reference : Reference)
    (resolution : Resolution) : Prop where
  bound : ∀ id, lookup? tree resolution.table reference.scope reference.name = some id →
    resolution.nameSymbols[reference.node]? = some id
  builtin : lookup? tree resolution.table reference.scope reference.name = none →
    settings.knows reference.name = true → ∃ id : SymbolId,
      resolution.builtins[reference.name]? = some id ∧
      resolution.nameSymbols[reference.node]? = some id

theorem nameSymbols_readAs (resolution : Resolution) (reference : Reference) (id : SymbolId) :
    (resolution.readAs reference id).nameSymbols[reference.node]? = some id :=
  Std.ExtTreeMap.getElem?_insert_self

theorem bound_addRead (tidy : resolution.Tidy settings) (tree : ScopeTree)
    (reference : Reference) :
    (resolution.addRead settings tree reference).table.bound = resolution.table.bound := by
  rcases addRead_records tidy tree reference with ⟨_, records, _⟩ | ⟨_, records, _⟩
  all_goals exact records.gains.bound

theorem addRead_answers (tidy : resolution.Tidy settings) (tree : ScopeTree)
    (reference : Reference) :
    Answers settings tree reference (resolution.addRead settings tree reference) := by
  have same := lookup?_congr tree (bound_addRead tidy tree reference) reference.scope reference.name
  rcases addRead_cases tidy.knows tree reference with ⟨id, found, way⟩ |
    ⟨absent, _, pool, id, _, registered, way⟩ | ⟨absent, unknown, _⟩
  · refine ⟨?_, fun absent => absurd (found.symm.trans (same.symm.trans absent)) nofun⟩
    intro other isOther
    rw [same, found] at isOther
    rw [way, nameSymbols_readAs]
    exact isOther
  · refine ⟨fun id found => absurd (absent.symm.trans (same.symm.trans found)) nofun, ?_⟩
    intro _ _
    rw [way, nameSymbols_readAs]
    exact ⟨id, registered, rfl⟩
  · refine ⟨fun id found => absurd (absent.symm.trans (same.symm.trans found)) nofun, ?_⟩
    intro _ isKnown
    exact absurd (unknown.symm.trans isKnown) nofun

theorem builtins_addRead (tidy : resolution.Tidy settings) (tree : ScopeTree)
    (reference : Reference) {name : String} {id : SymbolId}
    (found : resolution.builtins[name]? = some id) :
    (resolution.addRead settings tree reference).builtins[name]? = some id := by
  rcases addRead_cases tidy.knows tree reference with ⟨_, _, way⟩ |
    ⟨_, _, pool, _, makes, _, way⟩ | ⟨_, _, way⟩
  · rw [way]
    exact found
  · rw [way]
    exact makes.extended.registry name id found
  · rw [way]
    exact found

theorem Answers.addRead {tree : ScopeTree} {reference other : Reference}
    (answers : Answers settings tree reference resolution) (tidy : resolution.Tidy settings)
    (distinct : other.node ≠ reference.node) :
    Answers settings tree reference (resolution.addRead settings tree other) := by
  have same := lookup?_congr tree (bound_addRead tidy tree other) reference.scope reference.name
  have advances : Advances (· = reference.node) resolution
      (resolution.addRead settings tree other) :=
    addRead_advances tidy tree fun _ => distinct
  refine ⟨?_, ?_⟩
  · intro id found
    rw [same] at found
    rw [advances.names reference.node rfl]
    exact answers.bound id found
  · intro absent isKnown
    rw [same] at absent
    obtain ⟨id, registered, stands⟩ := answers.builtin absent isKnown
    rw [advances.names reference.node rfl]
    exact ⟨id, builtins_addRead tidy tree other registered, stands⟩

theorem foldl_addRead_answers (tree : ScopeTree) {reference : Reference} {reads : List Reference} :
    ∀ {resolution : Resolution}, resolution.Tidy settings →
      (∀ other ∈ reads, other.node = reference.node → other = reference) →
      (reference ∈ reads ∨ Answers settings tree reference resolution) →
        Answers settings tree reference (reads.foldl (addRead settings tree) resolution) := by
  induction reads with
  | nil =>
    intro resolution _ _ start
    exact start.resolve_left List.not_mem_nil
  | cons first _ ih =>
    intro resolution tidy unique start
    have isTidy : (resolution.addRead settings tree first).Tidy settings := by
      rcases addRead_records tidy tree first with ⟨_, records, _⟩ | ⟨_, records, _⟩
      all_goals exact records.tidy
    rw [List.foldl_cons]
    apply ih isTidy fun other mem => unique other (List.mem_cons_of_mem _ mem)
    by_cases isFirst : first.node = reference.node
    · obtain rfl := unique first List.mem_cons_self isFirst
      exact .inr (addRead_answers tidy tree first)
    · rcases start with mem | answers
      · rcases List.mem_cons.mp mem with rfl | mem
        · exact absurd rfl isFirst
        · exact .inl mem
      · exact .inr (answers.addRead tidy isFirst)

end Resolution

namespace Model

open Resolution SymbolTable

variable {around : Surroundings} {survey : Survey}

theorem called_read (wellFormed : survey.WellFormed) : (read around survey).Called := by
  have declares := declared_advances around wellFormed survey.spares_nothing
  exact (read_advances around wellFormed).called
    (declares.called (ofBindings_called around wellFormed))

theorem lookup?_resolve (wellFormed : survey.WellFormed) (scope : ScopeId) (name : String) :
    lookup? survey.scopes (resolve around survey).table scope name =
        lookup? survey.scopes (read around survey).table scope name ∧
      lookup? survey.scopes (resolve around survey).table scope name =
        lookup? survey.scopes (declared around survey).table scope name := by
  have later := (resolve_records around wellFormed).gains.bound
  have earlier := (read_records around wellFormed).1.gains.bound
  exact ⟨lookup?_congr _ later scope name, lookup?_congr _ (later.trans earlier) scope name⟩

theorem mem_unresolved_iff (wellFormed : survey.WellFormed) {reference : Reference} :
    reference ∈ (resolve around survey).unresolved ↔ reference ∈ survey.reads ∧
      resolves around.settings survey.scopes (declared around survey).table reference = false := by
  rw [unresolved_resolve, (read_records around wellFormed).2, List.mem_filter, Bool.not_eq_true']

theorem resolve_answers (wellFormed : survey.WellFormed) {reference : Reference}
    (mem : reference ∈ survey.reads)
    (unique : ∀ other ∈ survey.reads, other.node = reference.node → other = reference)
    (spares : survey.Spares (· = reference.node)) :
    Answers around.settings survey.scopes reference (read around survey) ∧
      (resolve around survey).nameSymbols[reference.node]? =
        (read around survey).nameSymbols[reference.node]? :=
  ⟨foldl_addRead_answers survey.scopes (declared_tidy around wellFormed).1 unique (.inl mem),
    (resolve_advances around wellFormed spares).names reference.node rfl⟩

theorem resolve_reference (wellFormed : survey.WellFormed) (apart : survey.Apart)
    {reference : Reference} (mem : reference ∈ survey.reads) :
    (∀ id, lookup? survey.scopes (resolve around survey).table reference.scope reference.name =
        some id →
      (resolve around survey).nameSymbols[reference.node]? = some id ∧
        (resolve around survey).table.Calls id reference.name) ∧
    (lookup? survey.scopes (resolve around survey).table reference.scope reference.name = none →
      around.settings.knows reference.name = true → ∃ id : SymbolId,
        (resolve around survey).nameSymbols[reference.node]? = some id ∧
        (resolve around survey).table.label? id =
          some ⟨reference.name, some reference.name, true, false⟩) := by
  have spares := apart.spares.mono fun node (same : node = reference.node) =>
    .inl ⟨reference, mem, same.symm⟩
  obtain ⟨answers, sameNode⟩ := @resolve_answers around survey wellFormed _ mem
    (fun other isRead => apart.read_eq other isRead reference mem) spares
  have evolves := (resolve_advances around wellFormed spares).evolves
  have called := @called_read around survey wellFormed
  rw [(lookup?_resolve wellFormed _ _).1, sameNode]
  refine ⟨?_, ?_⟩
  · intro id found
    obtain ⟨binder, isBound⟩ := exists_lookup?_of_lookup? found
    exact ⟨answers.bound id found, evolves.calls (called.bound binder _ id isBound)⟩
  · intro absent isKnown
    obtain ⟨id, registered, stands⟩ := answers.builtin absent isKnown
    exact ⟨id, stands, evolves.label? (called.builtin _ id registered)⟩

theorem resolve_stands (around : Surroundings) (wellFormed : survey.WellFormed) {binding : Binding}
    (mem : binding ∈ survey.bindings)
    (alone : ∀ other ∈ survey.bindings, other.node = binding.node →
      other.target = binding.target ∧ other.name = binding.name)
    (unread : ∀ reference ∈ survey.reads, reference.node ≠ binding.node)
    (spares : survey.Spares (· = binding.node)) :
    (resolve around survey).StandsAt binding.target binding.name binding.node := by
  have reads := read_advances_bindings around wellFormed spares
    fun _ isNode reference isRead same =>
    absurd (same.trans isNode) (unread reference isRead)
  have advances := reads.trans (resolve_advances around wellFormed spares)
  exact (ofBindings_stands around wellFormed mem alone).evolve advances.evolves
    (fun id => advances.bound _ _ id) (advances.names _ rfl)

theorem resolve_binding (wellFormed : survey.WellFormed) (apart : survey.Apart) {binding : Binding}
    (mem : binding ∈ survey.bindings)
    (unread : ∀ reference ∈ survey.reads, reference.node ≠ binding.node) :
    ∃ id : SymbolId, (resolve around survey).nameSymbols[binding.node]? = some id ∧
      (resolve around survey).table.Calls id binding.name := by
  have alone (other : Binding) (isOther : other ∈ survey.bindings)
      (sameNode : other.node = binding.node) :
      other.target = binding.target ∧ other.name = binding.name := by
    rw [apart.binding_eq other isOther binding mem sameNode]
    exact ⟨rfl, rfl⟩
  have spares := apart.spares.mono fun node (same : node = binding.node) =>
    .inr ⟨binding, mem, same.symm⟩
  obtain ⟨_, _, _, id, _, calls, stands⟩ :=
    resolve_stands around wellFormed mem alone unread spares
  exact ⟨id, stands, calls⟩

theorem resolve_unresolved (wellFormed : survey.WellFormed) (apart : survey.Apart)
    {reference : Reference} (mem : reference ∈ survey.reads)
    (unbound : ∀ binding ∈ survey.bindings, binding.node ≠ reference.node)
    (unresolved : resolves around.settings survey.scopes (declared around survey).table reference =
      false) :
    (resolve around survey).nameSymbols[reference.node]? = none := by
  have spares := apart.spares.mono fun node (same : node = reference.node) =>
    .inl ⟨reference, mem, same.symm⟩
  have reads := read_advances_bindings around wellFormed spares fun _ isNode other isRead same => by
    rw [apart.read_eq other isRead reference mem (same.trans isNode)]
    exact unresolved
  rw [(reads.trans (resolve_advances around wellFormed spares)).names _ rfl]
  exact ofBindings_unbound around wellFormed unbound

theorem resolve_read (wellFormed : survey.WellFormed) (apart : survey.Apart)
    {reference : Reference} (mem : reference ∈ survey.reads)
    (unbound : ∀ binding ∈ survey.bindings, binding.node ≠ reference.node) :
    ((∃ id : SymbolId, (resolve around survey).nameSymbols[reference.node]? = some id ∧
        (resolve around survey).table.Calls id reference.name) ∧
      ∀ other ∈ (resolve around survey).unresolved, other.node ≠ reference.node) ∨
    ((resolve around survey).nameSymbols[reference.node]? = none ∧
      reference ∈ (resolve around survey).unresolved) := by
  obtain ⟨bound, builtin⟩ := @resolve_reference around survey wellFormed apart _ mem
  rw [(lookup?_resolve wellFormed _ _).2] at bound builtin
  cases resolved : resolves around.settings survey.scopes (declared around survey).table
      reference with
  | false =>
    exact .inr ⟨resolve_unresolved wellFormed apart mem unbound resolved,
      (mem_unresolved_iff wellFormed).mpr ⟨mem, resolved⟩⟩
  | true =>
    refine .inl ⟨?_, ?_⟩
    · rw [resolves] at resolved
      cases found : lookup? survey.scopes (declared around survey).table reference.scope
          reference.name with
      | some id => exact ⟨id, bound id found⟩
      | none =>
        rw [found] at resolved
        obtain ⟨id, stands, isLabel⟩ := builtin found resolved
        exact ⟨id, stands, _, isLabel, rfl⟩
    · intro other unresolved sameNode
      obtain ⟨isRead, unresolved⟩ := (mem_unresolved_iff wellFormed).mp unresolved
      rw [apart.read_eq other isRead reference mem sameNode, resolved] at unresolved
      cases unresolved

/-- Every name stands for what is visible in the scope it is written in, or for a builtin symbol, or
is listed. -/
theorem names_statically_scoped (around : Surroundings) (module' : Module)
    (noProject : around.project = none) (distinct : module'.DistinctIds)
    (plain : ∀ node ∈ module'.visited, node.Plain) :
    let blocks := module'.scopeBlocks around
    let model := Model.ofModule around module'
    (∀ name ∈ module'.readNames,
      (∃ scope, Mentions blocks scope (.reads name) ∨ Mentions blocks scope (.binds name)) ∧
      (((∃ id symbol, model.symbolAt? name.id = some id ∧ model.table.get? id = some symbol ∧
          symbol.name = name.text) ∧
        ∀ reference ∈ model.unresolved, reference.node ≠ name.id) ∨
      (model.symbolAt? name.id = none ∧
        ∃ reference ∈ model.unresolved, reference.node = name.id ∧ reference.name = name.text))) ∧
    ∀ scope name, Mentions blocks scope (.reads name) ∨ Mentions blocks scope (.assigns name) →
      let found := Environment.visible blocks model.table scope name.text
      (∀ id, found = some id → model.symbolAt? name.id = some id) ∧
      (found = none → model.settings.knows name.text = true →
        ∃ id symbol, model.symbolAt? name.id = some id ∧
          model.table.get? id = some symbol ∧ symbol.isBuiltin = true ∧
          symbol.name = name.text ∧ symbol.fqn = some name.text) ∧
      (⟨name.text, name.id, name.range, scope⟩ ∈ model.unresolved ↔
        found = none ∧ model.settings.knows name.text = false) := by
  intro blocks model
  let survey := Survey.ofModule around module'
  have wellFormed : survey.WellFormed := Survey.wellFormed_ofModule around module'
  have tells : survey.Tells blocks := Survey.tells_ofModule around module'
  obtain ⟨notes, noted, account, apartIds⟩ := Survey.exists_noted around distinct
  have apart : survey.Apart := noted.apart account noProject apartIds
  constructor
  · intro name isRead
    have isVisited := Module.visited_of_mem_readNames isRead
    refine ⟨?_, ?_⟩
    · have mentioned {place : ScopeId} {said : Mention} {note : Note} (isNote : note ∈ notes)
          (isSaid : (place, said) ∈ note.mentions) : Mentions blocks place said :=
        Survey.mem_placed_scopeBlocks.mp
          (account.mentions ▸ List.mem_flatMap.mpr ⟨note, isNote, isSaid⟩)
      rcases account.names plain name isVisited with ⟨scope, isNote⟩ | ⟨scope, usage, isNote⟩
      · exact ⟨scope, .inl (mentioned isNote (List.mem_singleton_self _))⟩
      · exact ⟨scope, .inr (mentioned isNote (List.mem_singleton_self _))⟩
    · rcases noted.visited_name account noProject apartIds plain isVisited with
        ⟨reference, mem, sameNode, sameName, unbound⟩ | ⟨binding, mem, sameNode, sameName, unread⟩
      · rw [← sameNode, ← sameName]
        rw [← sameNode] at unbound
        rcases resolve_read wellFormed apart mem unbound with
          ⟨⟨id, stands, calls⟩, unlisted⟩ | ⟨nothing, listed⟩
        · obtain ⟨symbol, present, called⟩ := calls.exists_get?
          exact .inl ⟨⟨id, symbol, stands, present, called⟩, unlisted⟩
        · exact .inr ⟨nothing, reference, listed, rfl, rfl⟩
      · rw [← sameNode, ← sameName]
        rw [← sameNode] at unread
        obtain ⟨id, stands, calls⟩ := resolve_binding wellFormed apart mem unread
        obtain ⟨symbol, present, called⟩ := calls.exists_get?
        refine .inl ⟨⟨id, symbol, stands, present, called⟩, ?_⟩
        intro reference listed
        exact unread reference ((mem_unresolved_iff wellFormed).mp listed).1
  · intro scope name isRead found
    have mem : ⟨name.text, name.id, name.range, scope⟩ ∈ survey.reads := by
      rcases isRead with reads | assigns
      · exact (tells.reads _).mpr ⟨scope, _, reads, List.mem_singleton_self _⟩
      · exact (tells.reads _).mpr ⟨scope, _, assigns, List.mem_singleton_self _⟩
    obtain ⟨block, isBlock⟩ := tells.scopes.exists_block (wellFormed.reader_lt _ mem)
    have sameFound : lookup? survey.scopes (resolve around survey).table scope name.text = found :=
      lookup?_eq_visible _ tells.scopes wellFormed.nested name.text isBlock
    obtain ⟨bound, builtin⟩ := @resolve_reference around survey wellFormed apart _ mem
    rw [sameFound] at bound builtin
    refine ⟨fun id isFound => (bound id isFound).1, ?_, ?_⟩
    · intro absent isKnown
      obtain ⟨id, stands, isLabel⟩ := builtin absent isKnown
      obtain ⟨symbol, present, isLabel⟩ := Option.map_eq_some_iff.mp isLabel
      obtain ⟨isName, isFqn, isBuiltin, _⟩ := Label.mk.inj isLabel
      exact ⟨id, symbol, stands, present, isBuiltin, isName, isFqn⟩
    · show _ ∈ (resolve around survey).unresolved ↔
        found = none ∧ around.settings.knows name.text = false
      rw [mem_unresolved_iff wellFormed, resolves, ← (lookup?_resolve wellFormed _ _).2, sameFound,
        Bool.or_eq_false_iff, Option.isSome_eq_false_iff, Option.isNone_iff_eq_none]
      exact and_iff_right mem

end Model

def Module.gauging : Module :=
  let mark (id : NodeId) : Mark := ⟨id, ⟨0, 0⟩⟩
  let name (id : NodeId) (text : String) : Expr := .name ⟨mark id, text⟩
  let number (id : NodeId) : Expr := .literal (mark id) .int "1" []
  let sum : Expr := .binary (mark 14) .arithmetic (name 15 "level") "+" (name 16 "missing")
  let method : Stmt := .functionDef ⟨mark 9, ⟨mark 10, "read"⟩, [], none, [], false⟩
    [.simple (mark 11) (.ret (some (.call (mark 12) (name 13 "len") [⟨none, sum⟩])))]
  let levels : Expr := .comprehension (mark 18) .list (name 19 "level") none
    [⟨⟨0, 0⟩, name 20 "item", name 21 "level", [], false⟩]
  ⟨mark 0,
    [.simple (mark 1) (.assign [name 2 "level"] (number 3)),
      .classDef ⟨mark 4, ⟨mark 5, "Gauge"⟩, [], []⟩
        [.simple (mark 6) (.assign [name 7 "level"] (number 8)), method,
          .simple (mark 17) (.expr levels)]]⟩

/-- The first iterable is read in the class body and the element in a scope of its own, which does
not see what the class binds. -/
theorem Module.gauging_scoped :
    let model := Model.ofModule ⟨"", "gauge.py", none, {}⟩ gauging
    (∀ node ∈ gauging.visited, node.Plain) ∧ gauging.DistinctIds ∧
      model.symbolAt? 15 = model.symbolAt? 2 ∧ model.symbolAt? 19 = model.symbolAt? 2 ∧
      model.symbolAt? 21 = model.symbolAt? 7 ∧ ⟨"missing", 16, ⟨0, 0⟩, 2⟩ ∈ model.unresolved := by
  intro model
  have plain : ∀ node ∈ gauging.visited, node.Plain := by decide
  have distinct : gauging.DistinctIds := by decide
  have reads := (Model.names_statically_scoped ⟨"", "gauge.py", none, {}⟩ gauging rfl distinct
    plain).2
  have level := (reads 2 ⟨⟨15, ⟨0, 0⟩⟩, "level"⟩ (.inl ⟨_, rfl, by decide +kernel⟩)).1 0
    (by decide +kernel)
  have element := (reads 3 ⟨⟨19, ⟨0, 0⟩⟩, "level"⟩ (.inl ⟨_, rfl, by decide +kernel⟩)).1 0
    (by decide +kernel)
  have source := (reads 1 ⟨⟨21, ⟨0, 0⟩⟩, "level"⟩ (.inl ⟨_, rfl, by decide +kernel⟩)).1 2
    (by decide +kernel)
  have missing := (reads 2 ⟨⟨16, ⟨0, 0⟩⟩, "missing"⟩ (.inl ⟨_, rfl, by decide +kernel⟩)).2.2.mpr
    (by decide +kernel)
  exact ⟨plain, distinct, level.trans (by decide +kernel), element.trans (by decide +kernel),
    source.trans (by decide +kernel), missing⟩

end PyStatic
