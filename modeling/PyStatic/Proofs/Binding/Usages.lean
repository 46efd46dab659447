import PyStatic.Proofs.Binding.Passes
import PyStatic.Proofs.Binding.ScopeNesting
import PyStatic.Proofs.Project.Usages

/-!
Contract: every occurrence that a survey has noted is put on one symbol, and on no ambiguous one.
-/

namespace PyStatic

open List SymbolTable

theorem Sequence.flatMap_filter_perm {α κ : Type} [BEq κ] [LawfulBEq κ] (key : α → κ)
    {keys : List κ} (apart : keys.Nodup) :
    ∀ {items : List α}, (∀ item ∈ items, key item ∈ keys) →
      (keys.flatMap fun own => items.filter (key · == own)).Perm items := by
  induction keys with
  | nil =>
    intro items covered
    rw [eq_nil_iff_forall_not_mem.mpr fun item mem => not_mem_nil (covered item mem)]
    exact .refl _
  | cons first rest ih =>
    intro items covered
    obtain ⟨isNew, apart⟩ := nodup_cons.mp apart
    let others := items.filter fun item => !key item == first
    have sorted : (rest.flatMap fun own => items.filter (key · == own)) =
        rest.flatMap fun own => others.filter (key · == own) := by
      apply flatMap_congr
      intro own mem
      rw [filter_filter]
      apply filter_congr
      intro item _
      by_cases same : key item = own
      · have distinct : own ≠ first := fun isFirst => isNew (isFirst ▸ mem)
        simp [same, distinct]
      · simp [same]
    have isCovered : ∀ item ∈ others, key item ∈ rest := by
      intro item mem
      obtain ⟨mem, distinct⟩ := mem_filter.mp mem
      rcases mem_cons.mp (covered item mem) with same | mem
      · simp [same] at distinct
      · exact mem
    rw [flatMap_cons, sorted]
    exact ((ih apart isCovered).append_left _).trans (filter_append_perm (key · == first) items)

namespace SymbolTable

variable {table : SymbolTable}

theorem gains_addChild (table : SymbolTable) (parent child : SymbolId) :
    Gains table (table.addChild parent child) [] := by
  rw [addChild]
  cases found : table.get? parent with
  | none =>
    rw [modify_of_absent found]
    exact .refl table
  | some symbol =>
    cases data : symbol.data with
    | other =>
      apply gains_modify found
      · simp only [data, append_nil]
      · simp [Symbol.kind, data, SymbolData.kind]
    | _ =>
      apply gains_modify found
      · simp only [data, append_nil]
      · simp [data]

theorem gains_pushModule (sound : table.Sound) (project : Option Project) (name fqn : String)
    (scope : Option ScopeId) :
    Gains table (table.pushModule project name fqn scope).1 [] ∧
      (table.pushModule project name fqn scope).2 <
        (table.pushModule project name fqn scope).1.size := by
  cases project with
  | none => exact ⟨gains_pushFresh table name (some fqn) (by nofun) scope, size_lt_push ..⟩
  | some project =>
    have copied := ((SymbolPool.gaining _).instancesOfModule project
      (SymbolPool.sound_of_table sound) fqn).2
    exact ⟨(gains_pushFresh _ name (some fqn) (by nofun) scope).after copied, size_lt_push ..⟩

theorem gains_attachSubmodules (project : Project) (parts : List String) :
    ∀ {table : SymbolTable}, table.Sound → ∀ (parent : SymbolId) (qualifier : String),
      Gains table (table.attachSubmodules project parts parent qualifier) [] := by
  induction parts with
  | nil =>
    intro table _ parent qualifier
    exact .refl table
  | cons part _ ih =>
    intro table sound parent qualifier
    rw [attachSubmodules]
    split
    · exact .refl table
    · split
      · exact ih sound _ _
      · split
        · have made := (gains_pushModule sound (some project) part
            (Dotted.join qualifier part) none).1
          generalize table.pushModule (some project) part _ none = result at made
          have nested := (gains_addChild result.1 parent result.2).after made
          exact (ih (nested.sound sound) _ _).after nested
        · exact .refl table

theorem gains_rename (table : SymbolTable) (id : SymbolId) (name : String) :
    Gains table (table.rename id name) [] := by
  have setNames : ∀ (ids : List SymbolId) (table : SymbolTable),
      Gains table (ids.foldl (fun table id => table.setName id name) table) [] := by
    intro ids
    induction ids with
    | nil => exact .refl
    | cons first _ ih =>
      intro table
      exact (ih _).after (gains_setName table first name)
  exact (gains_setName _ id name).after (setNames _ table)

theorem gains_pushImported (sound : table.Sound) (project : Option Project) (scope : ScopeId)
    (name fqn : String) :
    Gains table (table.pushImported project scope name fqn).1 [] ∧
      (table.pushImported project scope name fqn).2 <
        (table.pushImported project scope name fqn).1.size := by
  rw [pushImported]
  split
  next pool id made =>
    obtain ⟨project, _, made⟩ := Option.bind_eq_some_iff.mp made
    have copied := (SymbolPool.gaining _).instance? (SymbolPool.sound_of_table sound) made
    have renamed := gains_rename pool.table id name
    have placed := gains_setScope (pool.table.rename id name) id scope
    exact ⟨placed.after (renamed.after copied.leads),
      placed.lt_size (renamed.lt_size copied.result.2)⟩
  next => exact ⟨gains_pushFresh table name (some fqn) (by nofun) (some scope), size_lt_push ..⟩

end SymbolTable

namespace Merging

open SymbolTable

variable {table : SymbolTable}

theorem gains_extend (sound : table.Sound) (around : Surroundings) (id : SymbolId)
    (origin : BindingOrigin) : Gains table (extend around id origin table) [] := by
  unfold extend
  split
  · exact gains_attachSubmodules _ _ sound _ _
  · exact .refl table

theorem gains_pushSymbol (sound : table.Sound) (around : Surroundings) (scope : ScopeId)
    (path name : String) (origin : BindingOrigin) :
    Gains table (pushSymbol around scope path name table origin).1 [] ∧
      (pushSymbol around scope path name table origin).2 <
        (pushSymbol around scope path name table origin).1.size ∧
      ∀ node, origin = .functionDef node ∨ origin = .classDef node →
        (pushSymbol around scope path name table origin).1.Plain
          (pushSymbol around scope path name table origin).2 := by
  cases origin with
  | functionDef _
  | classDef =>
    exact ⟨gains_pushFresh table _ _ (by nofun) _, size_lt_push .., fun _ _ =>
      ⟨_, get?_push_size .., nofun⟩⟩
  | plain => exact ⟨gains_pushFresh table _ _ (by nofun) _, size_lt_push .., by simp⟩
  | importedName fqn =>
    obtain ⟨made, inRange⟩ := gains_pushImported sound around.project scope name fqn
    exact ⟨made, inRange, by simp⟩
  | importedModule fqn submodules =>
    obtain ⟨made, inRange⟩ := gains_pushModule sound around.project name fqn (some scope)
    rw [pushSymbol]
    generalize table.pushModule around.project name fqn (some scope) = result at made inRange
    have extended := gains_extend (made.sound sound) around result.2
      (.importedModule fqn submodules)
    exact ⟨extended.after made, extended.lt_size inRange, by simp⟩

end Merging

namespace Resolution

/-- The table is sound, and all that leads into it leads to symbols in it. -/
structure Tidy (settings : Settings) (resolution : Resolution) : Prop where
  sound : resolution.table.Sound
  bound_lt : ∀ scope name id, resolution.table.lookup? scope name = some id →
    id < resolution.table.size
  definition_plain : ∀ (node : NodeId) (id : SymbolId), resolution.definitions[node]? = some id →
    resolution.table.Plain id
  builtin_lt : ∀ (name : String) (id : SymbolId), resolution.builtins[name]? = some id →
    id < resolution.table.size
  knows : resolution.KnowsBuiltins settings

structure Records (settings : Settings) (resolution post : Resolution) (added : List Usage) :
    Prop where
  tidy : post.Tidy settings
  gains : SymbolTable.Gains resolution.table post.table added
  definitions : post.definitions = resolution.definitions

variable {settings : Settings} {resolution middle post : Resolution} {added more : List Usage}
  {id : SymbolId}

theorem Tidy.records (tidy : resolution.Tidy settings)
    (gains : Gains resolution.table post.table added)
    (sameDefinitions : post.definitions = resolution.definitions)
    (sameBuiltins : post.builtins = resolution.builtins) :
    Records settings resolution post added := by
  refine ⟨⟨gains.sound tidy.sound, ?_, ?_, ?_, ?_⟩, gains, sameDefinitions⟩
  · intro scope name id found
    rw [SymbolTable.lookup?_congr gains.bound] at found
    exact gains.lt_size (tidy.bound_lt scope name id found)
  · intro node id found
    rw [sameDefinitions] at found
    exact gains.plain id (tidy.definition_plain node id found)
  · intro name id found
    rw [sameBuiltins] at found
    exact gains.lt_size (tidy.builtin_lt name id found)
  · intro name id found
    rw [sameBuiltins] at found
    exact tidy.knows name id found

theorem Tidy.setTable (tidy : resolution.Tidy settings) {table : SymbolTable}
    (gains : Gains resolution.table table added) :
    Records settings resolution { resolution with table } added :=
  tidy.records gains rfl rfl

namespace Records

theorem refl (tidy : resolution.Tidy settings) : Records settings resolution resolution [] :=
  tidy.records (.refl _) rfl rfl

theorem trans (first : Records settings resolution middle added)
    (second : Records settings middle post more) :
    Records settings resolution post (added ++ more) :=
  ⟨second.tidy, first.gains.trans second.gains, second.definitions.trans first.definitions⟩

theorem after (second : Records settings middle post added)
    (first : Records settings resolution middle []) : Records settings resolution post added :=
  first.trans second

theorem foldl {α : Type} {step : Resolution → α → Resolution}
    (steps : ∀ resolution item, resolution.Tidy settings →
      Records settings resolution (step resolution item) []) (items : List α) :
    ∀ {resolution : Resolution}, resolution.Tidy settings →
      Records settings resolution (items.foldl step resolution) [] := by
  induction items with
  | nil => exact refl
  | cons item _ ih =>
    intro resolution tidy
    have first := steps resolution item tidy
    exact (ih first.tidy).after first

end Records

theorem Tidy.recordUsage (tidy : resolution.Tidy settings) (inRange : id < resolution.table.size)
    (usage : Usage) : Records settings resolution (resolution.recordUsage id usage) [usage] :=
  tidy.records
    (gains_addUsage (plain_usageTarget tidy.sound inRange) usage) rfl rfl

end Resolution

namespace Merging

open Resolution

structure Tidy (settings : Settings) (merging : Merging) : Prop where
  resolution : merging.resolution.Tidy settings
  alternative_lt : ∀ id ∈ merging.alternatives, id < merging.resolution.table.size
  shared_lt : ∀ id, merging.shared = some id → id < merging.resolution.table.size

variable {settings : Settings} {merging : Merging} {id : SymbolId} {origin : BindingOrigin}

theorem common?_eq_some (found : merging.common? origin = some id) :
    merging.shared = some id ∨ id ∈ merging.alternatives := by
  cases origin with
  | functionDef => cases found
  | classDef => cases found
  | plain => exact .inl found
  | _ =>
    change (merging.shared <|> merging.alternatives.getLast?) = some id at found
    cases shared : merging.shared with
    | some =>
      rw [shared] at found
      exact .inl found
    | none =>
      rw [shared] at found
      exact .inr (mem_of_getLast? found)

theorem table_define (id : SymbolId) (origin : BindingOrigin) (resolution : Resolution) :
    (define id origin resolution).table = resolution.table := by
  cases origin <;> rfl

theorem tidy_define {resolution : Resolution} (tidy : resolution.Tidy settings)
    (isPlain : ∀ node, origin = .functionDef node ∨ origin = .classDef node →
      resolution.table.Plain id) : (define id origin resolution).Tidy settings := by
  have inserted : ∀ node, resolution.table.Plain id → Resolution.Tidy settings
      { resolution with definitions := resolution.definitions.insert node id } := by
    intro node plain
    refine ⟨tidy.sound, tidy.bound_lt, ?_, tidy.builtin_lt, tidy.knows⟩
    intro other found defined
    rw [Std.ExtTreeMap.getElem?_insert] at defined
    split at defined
    · exact Option.some.inj defined ▸ plain
    · exact tidy.definition_plain other found defined
  cases origin with
  | functionDef node => exact inserted node (isPlain node (.inl rfl))
  | classDef node => exact inserted node (isPlain node (.inr rfl))
  | _ => exact tidy

theorem sharedAfter_eq_some {other : SymbolId}
    (shared : merging.sharedAfter id origin = some other) :
    merging.shared = some other ∨ other = id := by
  cases origin with
  | functionDef => exact .inl shared
  | classDef => exact .inl shared
  | _ =>
    change (merging.shared <|> some id) = some other at shared
    cases earlier : merging.shared with
    | some =>
      rw [earlier] at shared
      exact .inl shared
    | none =>
      rw [earlier] at shared
      exact .inr (Option.some.inj shared).symm

theorem add_tidy (tidy : merging.Tidy settings) (around : Surroundings) (scope : ScopeId)
    (path name : String) (binding : Binding) :
    (merging.add around scope path name binding).Tidy settings ∧
      (merging.add around scope path name binding).resolution.table.usages.Perm
        (merging.resolution.table.usages ++ [binding.toUsage]) := by
  rw [add]
  cases common : merging.common? binding.origin with
  | some id =>
    have extended := tidy.resolution.setTable
      (gains_extend tidy.resolution.sound around id binding.origin)
    have inRange : id < merging.resolution.table.size := by
      rcases common?_eq_some common with shared | mem
      · exact tidy.shared_lt id shared
      · exact tidy.alternative_lt id mem
    have recorded := (extended.tidy.recordUsage (extended.gains.lt_size inRange)
      binding.toUsage).after extended
    refine ⟨⟨recorded.tidy, ?_, ?_⟩, recorded.gains.usages⟩
    · intro other mem
      exact recorded.gains.lt_size (tidy.alternative_lt other mem)
    · intro other shared
      exact recorded.gains.lt_size (tidy.shared_lt other shared)
  | none =>
    have pushed := gains_pushSymbol tidy.resolution.sound around scope path name binding.origin
    generalize pushSymbol around scope path name merging.resolution.table binding.origin =
      result at pushed ⊢
    obtain ⟨table, id⟩ := result
    obtain ⟨made, inRange, isPlain⟩ := pushed
    have defined := tidy_define (tidy.resolution.setTable made).tidy isPlain
    have isThere :
        id < (define id binding.origin { merging.resolution with table }).table.size := by
      rw [table_define]
      exact inRange
    have recorded := defined.recordUsage isThere binding.toUsage
    have gains := recorded.gains
    rw [table_define] at gains
    replace gains := gains.after made
    refine ⟨⟨recorded.tidy, ?_, ?_⟩, gains.usages⟩
    · intro other mem
      rcases mem_append.mp mem with mem | mem
      · exact gains.lt_size (tidy.alternative_lt other mem)
      · obtain rfl := mem_singleton.mp mem
        exact recorded.gains.lt_size isThere
    · intro other shared
      rcases sharedAfter_eq_some shared with earlier | rfl
      · exact gains.lt_size (tidy.shared_lt other earlier)
      · exact recorded.gains.lt_size isThere

theorem foldl_add_tidy (around : Surroundings) (scope : ScopeId) (path name : String)
    (bindings : List Binding) : ∀ {merging : Merging}, merging.Tidy settings →
    (bindings.foldl (add around scope path name) merging).Tidy settings ∧
      (bindings.foldl (add around scope path name) merging).resolution.table.usages.Perm
        (merging.resolution.table.usages ++ bindings.map (·.toUsage)) := by
  induction bindings with
  | nil =>
    intro merging tidy
    exact ⟨tidy, by rw [map_nil, append_nil]; rfl⟩
  | cons binding rest ih =>
    intro merging tidy
    obtain ⟨firstTidy, first⟩ := add_tidy tidy around scope path name binding
    obtain ⟨restTidy, usages⟩ := ih firstTidy
    refine ⟨restTidy, usages.trans ?_⟩
    have together := first.append_right (rest.map (·.toUsage))
    rwa [append_assoc] at together

theorem finish_records (tidy : merging.Tidy settings) :
    Records settings merging.resolution merging.finish.1 [] ∧
      ∀ id, merging.finish.2 = some id → id < merging.finish.1.table.size := by
  rw [finish]
  split
  · exact ⟨.refl tidy.resolution, by rintro _ ⟨⟩⟩
  next id isSingle =>
    refine ⟨.refl tidy.resolution, ?_⟩
    rintro _ ⟨rfl⟩
    exact tidy.alternative_lt id (isSingle ▸ mem_singleton_self id)
  · obtain ⟨gains, inRange⟩ := gains_unite tidy.resolution.sound tidy.alternative_lt
    exact ⟨tidy.resolution.setTable gains, inRange⟩

end Merging

namespace Resolution

variable {settings : Settings} {resolution post : Resolution} {id : SymbolId}

theorem tidy_empty (settings : Settings) : Resolution.empty.Tidy settings := by
  refine ⟨?_, ?_, ?_, ?_, ?_⟩
  · intro id symbol alternatives found
    cases found
  · intro scope name id found
    exact absurd ((lookup?_empty scope name).symm.trans found) nofun
  · intro node id found
    have nothing : (∅ : Std.ExtTreeMap NodeId SymbolId)[node]? = none :=
      Std.ExtTreeMap.getElem?_empty
    exact absurd (nothing.symm.trans found) nofun
  · intro name id found
    exact absurd ((builtins_empty name).symm.trans found) nofun
  · intro name id found
    exact absurd ((builtins_empty name).symm.trans found) nofun

theorem Tidy.bind (tidy : resolution.Tidy settings) (inRange : id < resolution.table.size)
    (scope : ScopeId) (name : String) :
    Tidy settings { resolution with table := resolution.table.bind scope name id } := by
  refine ⟨tidy.sound, ?_, tidy.definition_plain, tidy.builtin_lt, tidy.knows⟩
  intro otherScope otherName found isBound
  rw [lookup?_bind] at isBound
  split at isBound
  · exact Option.some.inj isBound ▸ inRange
  · exact tidy.bound_lt otherScope otherName found isBound

theorem bindName_tidy (tidy : resolution.Tidy settings) (around : Surroundings) (tree : ScopeTree)
    (scope : ScopeId) (bindings : List Binding) (name : String) :
    (resolution.bindName around tree scope bindings name).Tidy settings ∧
      (resolution.bindName around tree scope bindings name).table.usages.Perm
        (resolution.table.usages ++ (bindings.filter (·.name == name)).map (·.toUsage)) := by
  have opened : Merging.Tidy settings ⟨resolution, [], none⟩ := ⟨tidy, nofun, nofun⟩
  obtain ⟨merged, usages⟩ := Merging.foldl_add_tidy around scope (tree.pathOf scope) name
    (bindings.filter (·.name == name)) opened
  rw [bindName]
  generalize (bindings.filter (·.name == name)).foldl
    (Merging.add around scope (tree.pathOf scope) name) ⟨resolution, [], none⟩ = merging
    at merged usages ⊢
  obtain ⟨finished, inRange⟩ := Merging.finish_records merged
  generalize merging.finish = result at finished inRange ⊢
  obtain ⟨last, id?⟩ := result
  have total : last.table.usages.Perm _ := finished.gains.usages.trans (by rw [append_nil])
  cases id? with
  | none => exact ⟨finished.tidy, total.trans usages⟩
  | some id =>
    have placed := finished.tidy.setTable (gains_setScope last.table id scope)
    have isThere := placed.gains.lt_size (inRange id rfl)
    refine ⟨placed.tidy.bind isThere scope name, ?_⟩
    have same := placed.gains.usages
    rw [append_nil] at same
    exact same.trans (total.trans usages)

theorem foldl_tidy {α : Type} {step : Resolution → α → Resolution} {usagesOf : α → List Usage}
    (steps : ∀ resolution item, resolution.Tidy settings → (step resolution item).Tidy settings ∧
      (step resolution item).table.usages.Perm (resolution.table.usages ++ usagesOf item))
    (items : List α) : ∀ {resolution : Resolution}, resolution.Tidy settings →
      (items.foldl step resolution).Tidy settings ∧
        (items.foldl step resolution).table.usages.Perm
          (resolution.table.usages ++ items.flatMap usagesOf) := by
  induction items with
  | nil =>
    intro resolution tidy
    exact ⟨tidy, by rw [flatMap_nil, append_nil]; rfl⟩
  | cons item rest ih =>
    intro resolution tidy
    obtain ⟨firstTidy, first⟩ := steps resolution item tidy
    obtain ⟨restTidy, usages⟩ := ih firstTidy
    refine ⟨restTidy, usages.trans ?_⟩
    have together := first.append_right (rest.flatMap usagesOf)
    rwa [append_assoc] at together

theorem bindScope_tidy (tidy : resolution.Tidy settings) (around : Surroundings) (survey : Survey)
    (scope : ScopeId) :
    (resolution.bindScope around survey scope).Tidy settings ∧
      (resolution.bindScope around survey scope).table.usages.Perm
        (resolution.table.usages ++
          (survey.bindings.filter (·.target == scope)).map (·.toUsage)) := by
  let bindings := survey.bindings.filter (·.target == scope)
  obtain ⟨isTidy, usages⟩ := foldl_tidy
    (fun resolution name tidy => bindName_tidy tidy around survey.scopes scope bindings name)
    (bindings.map (·.name)).eraseDups tidy
  refine ⟨isTidy, usages.trans ?_⟩
  rw [← map_flatMap]
  have sorted := Sequence.flatMap_filter_perm Binding.name
    (Sequence.nodup_eraseDups (bindings.map (·.name)))
    (fun binding mem => mem_eraseDups.mpr (mem_map_of_mem mem))
  exact (sorted.map _).append_left _

theorem ofBindings_tidy (settings : Settings) (around : Surroundings) {survey : Survey}
    (wellFormed : survey.WellFormed) :
    (ofBindings around survey).Tidy settings ∧
      (ofBindings around survey).table.usages.Perm (survey.bindings.map (·.toUsage)) := by
  obtain ⟨isTidy, usages⟩ := foldl_tidy
    (fun resolution scope tidy => bindScope_tidy tidy around survey scope)
    survey.scopes.ids (tidy_empty settings)
  refine ⟨isTidy, usages.trans ?_⟩
  rw [← map_flatMap]
  have sorted := Sequence.flatMap_filter_perm Binding.target nodup_range
    (fun binding mem => List.mem_range.mpr (wellFormed.target_lt binding mem))
  exact sorted.map _

theorem addDeclaration_tidy (tidy : resolution.Tidy settings) (tree : ScopeTree)
    (declaration : Declaration) :
    (resolution.addDeclaration tree declaration).Tidy settings ∧
      (resolution.addDeclaration tree declaration).table.usages.Perm
        (resolution.table.usages ++ if (declaredScope? tree declaration).isSome then
          [declarationUsage declaration] else []) := by
  rcases addDeclaration_cases tree resolution declaration with ⟨undeclared, way⟩ |
    ⟨target, declared, ⟨id, found, way⟩ | ⟨absent, way⟩⟩
  · rw [way, undeclared, if_neg (by simp), append_nil]
    exact ⟨tidy, .refl _⟩
  · rw [way, declared]
    have recorded := tidy.recordUsage (tidy.bound_lt target _ id found)
      (declarationUsage declaration)
    exact ⟨recorded.tidy, recorded.gains.usages⟩
  · rw [way, declared, Option.isSome_some, if_pos rfl]
    have made : Gains resolution.table
        (resolution.table.push (declaredSymbol tree target declaration.name.text)) [] :=
      gains_pushFresh _ _ _ (by nofun) _
    have pushed := tidy.setTable made
    have isThere := size_lt_push resolution.table
      (declaredSymbol tree target declaration.name.text)
    have bound := pushed.tidy.bind isThere target declaration.name.text
    have recorded := bound.recordUsage isThere (declarationUsage declaration)
    have unchanged := pushed.gains.usages
    rw [append_nil] at unchanged
    exact ⟨recorded.tidy, recorded.gains.usages.trans (unchanged.append_right _)⟩

/-- A read finds a symbol in the scopes around it, or among the builtin names. -/
def resolves (settings : Settings) (tree : ScopeTree) (table : SymbolTable)
    (reference : Reference) : Bool :=
  (lookup? tree table reference.scope reference.name).isSome || settings.knows reference.name

def readUsage (reference : Reference) : Usage :=
  ⟨reference.node, reference.range, .other⟩

theorem Tidy.readAs (tidy : resolution.Tidy settings) (inRange : id < resolution.table.size)
    (reference : Reference) :
    Records settings resolution (resolution.readAs reference id) [readUsage reference] :=
  tidy.records (tidy.recordUsage inRange (readUsage reference)).gains rfl rfl

theorem Tidy.makes (tidy : resolution.Tidy settings) {pool : SymbolPool}
    (makes : Builtin.Makes (settings.knows · = true) ⟨resolution.table, resolution.builtins⟩ pool) :
    Records settings resolution
      { resolution with table := pool.table, builtins := pool.registry } [] := by
  have gains := gains_of_makes makes
  have grown := tidy.setTable gains
  refine ⟨⟨grown.tidy.sound, grown.tidy.bound_lt, grown.tidy.definition_plain, ?_, ?_⟩, gains, rfl⟩
  · intro name id found
    rcases makes.registered name id found with earlier | ⟨_, _, _, present⟩
    · exact gains.lt_size (tidy.builtin_lt name id earlier)
    · exact lt_size_of_get? present
  · intro name id found
    rcases makes.registered name id found with earlier | ⟨isKnown, _⟩
    · exact tidy.knows name id earlier
    · exact isKnown

theorem addRead_records (tidy : resolution.Tidy settings) (tree : ScopeTree)
    (reference : Reference) :
    (resolves settings tree resolution.table reference = true ∧
      Records settings resolution (resolution.addRead settings tree reference)
        [readUsage reference] ∧
      (resolution.addRead settings tree reference).unresolved = resolution.unresolved) ∨
    (resolves settings tree resolution.table reference = false ∧
      Records settings resolution (resolution.addRead settings tree reference) [] ∧
      (resolution.addRead settings tree reference).unresolved =
        resolution.unresolved ++ [reference]) := by
  rw [resolves]
  rcases addRead_cases tidy.knows tree reference with ⟨id, found, way⟩ |
    ⟨absent, isKnown, pool, id, makes, registered, way⟩ | ⟨absent, unknown, way⟩
  · rw [way, found]
    obtain ⟨binder, isBound⟩ := exists_lookup?_of_lookup? found
    exact .inl ⟨rfl, tidy.readAs (tidy.bound_lt binder _ id isBound) reference, rfl⟩
  · rw [way, isKnown, Bool.or_true]
    have made := tidy.makes makes
    exact .inl ⟨rfl, (made.tidy.readAs (made.tidy.builtin_lt _ id registered) reference).after made,
      rfl⟩
  · rw [way, absent, unknown]
    exact .inr ⟨rfl, tidy.records (.refl _) rfl rfl, rfl⟩

theorem resolves_congr (settings : Settings) (tree : ScopeTree) {table post : SymbolTable}
    (same : post.bound = table.bound) :
    resolves settings tree post = resolves settings tree table := by
  funext reference
  rw [resolves, resolves, lookup?_congr tree same]

theorem foldl_addRead_records (tree : ScopeTree) (reads : List Reference) :
    ∀ {resolution : Resolution}, resolution.Tidy settings →
      Records settings resolution (reads.foldl (addRead settings tree) resolution)
        ((reads.filter (resolves settings tree resolution.table)).map readUsage) ∧
      (reads.foldl (addRead settings tree) resolution).unresolved =
        resolution.unresolved ++ reads.filter (!resolves settings tree resolution.table ·) := by
  induction reads with
  | nil =>
    intro resolution tidy
    exact ⟨.refl tidy, (append_nil _).symm⟩
  | cons reference _ ih =>
    intro resolution tidy
    rw [foldl_cons]
    rcases addRead_records tidy tree reference with ⟨resolved, first, listed⟩ |
      ⟨unresolved, first, listed⟩
    · obtain ⟨recorded, others⟩ := ih first.tidy
      rw [resolves_congr settings tree first.gains.bound] at recorded others
      rw [filter_cons_of_pos resolved, filter_cons_of_neg (by simpa using resolved)]
      exact ⟨first.trans recorded, by rw [others, listed]⟩
    · obtain ⟨recorded, others⟩ := ih first.tidy
      rw [resolves_congr settings tree first.gains.bound] at recorded others
      rw [filter_cons_of_neg (by simpa using unresolved),
        filter_cons_of_pos (by simpa using unresolved)]
      refine ⟨recorded.after first, ?_⟩
      rw [others, listed, append_assoc]
      rfl

/-- One usage for each attribute that is a child of a module. -/
def childUsages : Resolution → List AttributeRead → List Usage
  | _, [] => []
  | resolution, read :: rest =>
    (if (resolution.child? read).isSome then [⟨read.attr.id, read.attr.range, .other⟩]
      else []) ++ childUsages (resolution.addAttributeRead read) rest

theorem lt_size_of_named? {table : SymbolTable} {ids : List SymbolId} {name : String}
    (found : table.named? ids name = some id) : id < table.size := by
  have isThere := find?_some found
  cases read : table.get? id with
  | none => simp [read] at isThere
  | some => exact lt_size_of_get? read

theorem addAttributeRead_records (tidy : resolution.Tidy settings) (read : AttributeRead) :
    Records settings resolution (resolution.addAttributeRead read)
      (if (resolution.child? read).isSome then [⟨read.attr.id, read.attr.range, .other⟩]
        else []) := by
  rcases addAttributeRead_cases resolution read with ⟨child, found, way⟩ | ⟨absent, way⟩
  · rw [way, found]
    obtain ⟨base, _, isChild⟩ := Option.bind_eq_some_iff.mp found
    exact tidy.recordUsage (lt_size_of_named? isChild) _
  · rw [way, absent, Option.isSome_none]
    exact .refl tidy

theorem foldl_addAttributeRead_records (reads : List AttributeRead) :
    ∀ {resolution : Resolution}, resolution.Tidy settings →
      Records settings resolution (reads.foldl addAttributeRead resolution)
        (childUsages resolution reads) := by
  induction reads with
  | nil => exact .refl
  | cons read _ ih =>
    intro resolution tidy
    have first := addAttributeRead_records tidy read
    exact first.trans (ih first.tidy)

theorem completeFunction_records (tidy : resolution.Tidy settings) (tree : ScopeTree)
    (site : FunctionSite) :
    Records settings resolution (resolution.completeFunction tree site) [] := by
  rw [completeFunction]
  split
  · exact .refl tidy
  next id defined =>
    refine tidy.setTable (gains_setData (tidy.definition_plain _ id defined) ?_)
    rintro ⟨⟩

theorem completeClass_records (tidy : resolution.Tidy settings) (site : ClassSite) :
    Records settings resolution (resolution.completeClass site) [] := by
  rw [completeClass]
  split
  · exact .refl tidy
  next id defined =>
    refine tidy.setTable (gains_setData (tidy.definition_plain _ id defined) ?_)
    rintro ⟨⟩

theorem plain_of_class? {table : SymbolTable} {info : ClassInfo}
    (isClass : table.class? id = some info) : table.Plain id := by
  obtain ⟨symbol, found, isClass⟩ := Option.bind_eq_some_iff.mp isClass
  refine ⟨symbol, found, ?_⟩
  intro isAmbiguous
  rw [Symbol.class?] at isClass
  cases data : symbol.data with
  | ofClass => simp [Symbol.kind, data, SymbolData.kind] at isAmbiguous
  | _ => simp [data] at isClass

theorem addMember_records (tidy : resolution.Tidy settings) (classId member : SymbolId) :
    Records settings resolution (resolution.addMember classId member) [] := by
  rw [addMember]
  split
  next info isClass =>
    exact tidy.setTable (gains_setData (plain_of_class? isClass) (by rintro ⟨⟩))
  next => exact .refl tidy

theorem addInstanceAttribute_records (tidy : resolution.Tidy settings) (survey : Survey)
    (assigned : InstanceAttribute) :
    Records settings resolution (resolution.addInstanceAttribute survey assigned)
      (if resolution.hasClass survey assigned then [attributeUsage assigned] else []) := by
  rcases addInstanceAttribute_cases survey resolution assigned with ⟨unknown, way⟩ |
    ⟨isClass, classId, ⟨member, found, way⟩ | ⟨absent, way⟩⟩
  · rw [way, unknown]
    exact .refl tidy
  · rw [way, isClass]
    exact tidy.recordUsage (lt_size_of_named? found) (attributeUsage assigned)
  · rw [way, isClass]
    have made : Gains resolution.table
        (resolution.table.push (attributeSymbol resolution.table classId assigned)) [] :=
      gains_pushFresh _ _ _ (by nofun) _
    have pushed := tidy.setTable made
    have joined := addMember_records pushed.tidy classId resolution.table.size
    have isThere := joined.gains.lt_size (size_lt_push resolution.table _)
    exact (joined.tidy.recordUsage isThere (attributeUsage assigned)).after (joined.after pushed)

theorem foldl_addInstanceAttribute_records (survey : Survey) (attributes : List InstanceAttribute) :
    ∀ {resolution : Resolution}, resolution.Tidy settings →
      Records settings resolution (attributes.foldl (addInstanceAttribute survey) resolution)
        ((attributes.filter (resolution.hasClass survey)).map attributeUsage) := by
  induction attributes with
  | nil => exact .refl
  | cons assigned _ ih =>
    intro resolution tidy
    have first := addInstanceAttribute_records tidy survey assigned
    have others := ih first.tidy
    rw [hasClass_congr survey first.definitions] at others
    by_cases isClass : resolution.hasClass survey assigned = true
    · rw [filter_cons_of_pos isClass]
      rw [if_pos isClass] at first
      exact first.trans others
    · rw [filter_cons_of_neg isClass]
      rw [if_neg isClass] at first
      exact others.after first

theorem foldl_addDeclaration_tidy (tree : ScopeTree) (declarations : List Declaration)
    (tidy : resolution.Tidy settings) :
    (declarations.foldl (addDeclaration tree) resolution).Tidy settings ∧
      (declarations.foldl (addDeclaration tree) resolution).table.usages.Perm
        (resolution.table.usages ++ (declarations.filter fun declaration =>
          declaration.isGlobal || (tree.enclosingFunction? declaration.scope).isSome).map
            declarationUsage) := by
  obtain ⟨isTidy, usages⟩ := foldl_tidy
    (fun resolution declaration tidy => addDeclaration_tidy tidy tree declaration)
    declarations tidy
  refine ⟨isTidy, usages.trans (.of_eq ?_)⟩
  congr 1
  clear isTidy usages
  induction declarations with
  | nil => rfl
  | cons declaration _ ih =>
    rw [flatMap_cons, ih, filter_cons, declaredScope?]
    cases declaration.isGlobal with
    | true => rfl
    | false => cases tree.enclosingFunction? declaration.scope <;> rfl

end Resolution

namespace Model

open Resolution

variable {survey : Survey}

theorem declared_tidy (around : Surroundings) (wellFormed : survey.WellFormed) :
    (declared around survey).Tidy around.settings ∧
      (declared around survey).table.usages.Perm
        (survey.bindings.map (·.toUsage) ++ (survey.declarations.filter fun declaration =>
          declaration.isGlobal || (survey.scopes.enclosingFunction? declaration.scope).isSome).map
            declarationUsage) := by
  obtain ⟨boundTidy, bound⟩ := ofBindings_tidy around.settings around wellFormed
  obtain ⟨isTidy, usages⟩ := foldl_addDeclaration_tidy survey.scopes survey.declarations boundTidy
  exact ⟨isTidy, usages.trans (bound.append_right _)⟩

theorem read_records (around : Surroundings) (wellFormed : survey.WellFormed) :
    Records around.settings (declared around survey) (read around survey)
        ((survey.reads.filter (resolves around.settings survey.scopes
          (declared around survey).table)).map readUsage) ∧
      (read around survey).unresolved = survey.reads.filter
        (!resolves around.settings survey.scopes (declared around survey).table ·) := by
  have reads := foldl_addRead_records survey.scopes survey.reads (declared_tidy around wellFormed).1
  rw [unresolved_declared] at reads
  exact reads

theorem resolve_records (around : Surroundings) (wellFormed : survey.WellFormed) :
    Records around.settings (read around survey) (resolve around survey)
      (childUsages (read around survey) survey.attributeReads ++
        (survey.instanceAttributes.filter ((resolve around survey).hasClass survey)).map
          attributeUsage) := by
  have attributes := foldl_addAttributeRead_records survey.attributeReads
    (read_records around wellFormed).1.tidy
  have functions := Records.foldl (fun _ site tidy =>
    completeFunction_records tidy survey.scopes site) survey.functions attributes.tidy
  have classes : Records around.settings (attributed around survey) (completed around survey) [] :=
    (Records.foldl (fun _ site tidy => completeClass_records tidy site)
      survey.classes functions.tidy).after functions
  have assigned := foldl_addInstanceAttribute_records survey survey.instanceAttributes classes.tidy
  have sameClasses : (resolve around survey).hasClass survey =
      (completed around survey).hasClass survey := hasClass_congr survey assigned.definitions
  rw [sameClasses]
  exact attributes.trans (assigned.after classes)

end Model

end PyStatic
