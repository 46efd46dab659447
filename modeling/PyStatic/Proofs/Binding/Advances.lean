import PyStatic.Proofs.Binding.Ownership
import PyStatic.Proofs.Binding.SymbolNames

/-!
Contract: what is known of names is never taken back while a module is resolved.
-/

namespace PyStatic

namespace Survey

structure Spares (survey : Survey) (kept : NodeId → Prop) : Prop where
  declared_apart : ∀ declaration ∈ survey.declarations, ¬kept declaration.name.id
  attribute_apart : ∀ read ∈ survey.attributeReads, ¬kept read.attr.id
  assigned_apart : ∀ assigned ∈ survey.instanceAttributes, ¬kept assigned.attr.id

theorem Spares.mono {survey : Survey} {kept fewer : NodeId → Prop} (spares : survey.Spares kept)
    (isKept : ∀ node, fewer node → kept node) : survey.Spares fewer where
  declared_apart declaration mem isFewer := spares.declared_apart declaration mem (isKept _ isFewer)
  attribute_apart read mem isFewer := spares.attribute_apart read mem (isKept _ isFewer)
  assigned_apart assigned mem isFewer := spares.assigned_apart assigned mem (isKept _ isFewer)

theorem spares_nothing (survey : Survey) : survey.Spares fun _ => False :=
  ⟨fun _ _ => id, fun _ _ => id, fun _ _ => id⟩

end Survey

namespace Resolution

open SymbolTable

def Defines (resolution : Resolution) : Prop :=
  ∀ (node : NodeId) (id : SymbolId), resolution.definitions[node]? = some id →
    ∃ symbol, resolution.table.get? id = some symbol ∧ symbol.role = .definition (some node)

/-- What is bound stays bound, and `kept` nodes stand for what they stood for. -/
structure Advances (kept : NodeId → Prop) (resolution post : Resolution) : Prop where
  evolves : Evolves resolution.table post.table
  bound : ∀ scope name id, resolution.table.lookup? scope name = some id →
    post.table.lookup? scope name = some id
  defines : resolution.Defines → post.Defines
  called : resolution.Called → post.Called
  owned : resolution.table.Owned → post.table.Owned
  names : ∀ node, kept node → post.nameSymbols[node]? = resolution.nameSymbols[node]?

variable {resolution middle post : Resolution} {settings : Settings} {kept fewer : NodeId → Prop}

theorem defines_empty : Resolution.empty.Defines := by
  intro node id found
  have nothing : (∅ : Std.ExtTreeMap NodeId SymbolId)[node]? = none :=
    Std.ExtTreeMap.getElem?_empty
  exact absurd (nothing.symm.trans found) (by simp)

theorem Defines.of_evolves (defines : resolution.Defines)
    (evolves : Evolves resolution.table post.table)
    (sameDefinitions : post.definitions = resolution.definitions) : post.Defines := by
  intro node id found
  rw [sameDefinitions] at found
  obtain ⟨symbol, isThere, isDefined⟩ := defines node id found
  obtain ⟨later, isLater, matures⟩ := evolves id symbol isThere
  exact ⟨later, isLater, matures.role.trans isDefined⟩

namespace Advances

theorem refl (resolution : Resolution) : Advances kept resolution resolution :=
  ⟨.refl _, fun _ _ _ found => found, id, id, id, fun _ _ => rfl⟩

theorem trans (first : Advances kept resolution middle) (second : Advances kept middle post) :
    Advances kept resolution post where
  evolves := first.evolves.trans second.evolves
  bound scope name id found := second.bound scope name id (first.bound scope name id found)
  defines known := second.defines (first.defines known)
  called isCalled := second.called (first.called isCalled)
  owned isOwned := second.owned (first.owned isOwned)
  names node isKept := (second.names node isKept).trans (first.names node isKept)

theorem mono (advances : Advances kept resolution post)
    (isKept : ∀ node, fewer node → kept node) : Advances fewer resolution post :=
  { advances with names := fun node isFewer => advances.names node (isKept node isFewer) }

theorem of_evolves (evolves : Evolves resolution.table post.table)
    (sameBound : post.table.bound = resolution.table.bound)
    (sameDefinitions : post.definitions = resolution.definitions)
    (sameBuiltins : post.builtins = resolution.builtins)
    (owned : resolution.table.Owned → post.table.Owned)
    (names : ∀ node, kept node → post.nameSymbols[node]? = resolution.nameSymbols[node]?) :
    Advances kept resolution post where
  evolves := evolves
  bound scope name id found := by rwa [SymbolTable.lookup?_congr sameBound]
  defines known := known.of_evolves evolves sameDefinitions
  called isCalled := isCalled.of_evolves evolves sameBound sameBuiltins
  owned := owned
  names := names

theorem setTable {table : SymbolTable} (grows : Grows resolution.table table)
    (sameBound : table.bound = resolution.table.bound) :
    Advances kept resolution { resolution with table } :=
  .of_evolves grows.evolves sameBound rfl rfl (grows.owned sameBound) fun _ _ => rfl

theorem foldl {α : Type} {step : Resolution → α → Resolution} (Holds : Resolution → Prop)
    {items : List α}
    (steps : ∀ resolution, ∀ item ∈ items, Holds resolution → resolution.Defines →
      Holds (step resolution item) ∧ Advances kept resolution (step resolution item)) :
    ∀ {resolution : Resolution}, Holds resolution → resolution.Defines →
      Holds (items.foldl step resolution) ∧
        Advances kept resolution (items.foldl step resolution) := by
  induction items with
  | nil =>
    intro resolution holds _
    exact ⟨holds, .refl resolution⟩
  | cons item _ ih =>
    intro resolution holds defines
    obtain ⟨holds, first⟩ := steps resolution item List.mem_cons_self holds defines
    obtain ⟨holds, others⟩ := ih
      (fun resolution other mem => steps resolution other (List.mem_cons_of_mem _ mem)) holds
      (first.defines defines)
    exact ⟨holds, first.trans others⟩

end Advances

theorem insert_advances (resolution : Resolution) {node : NodeId} (id : SymbolId)
    (notKept : ¬kept node) :
    Advances kept resolution
      { resolution with nameSymbols := resolution.nameSymbols.insert node id } := by
  refine .of_evolves (.refl _) rfl rfl rfl (fun owned => owned) ?_
  intro other isKept
  show (resolution.nameSymbols.insert node id)[other]? = _
  rw [Std.ExtTreeMap.getElem?_insert, if_neg]
  intro same
  exact notKept (Std.compare_eq_iff_eq.mp same ▸ isKept)

theorem grows_recordUsage (resolution : Resolution) (id : SymbolId) (usage : Usage) :
    Grows resolution.table (resolution.recordUsage id usage).table :=
  grows_addUsage _ _ usage

theorem recordUsage_advances (resolution : Resolution) (id : SymbolId) {usage : Usage}
    (notKept : ¬kept usage.node) : Advances kept resolution (resolution.recordUsage id usage) :=
  (Advances.setTable (grows_recordUsage resolution id usage) rfl).trans
    (insert_advances _ _ notKept)

theorem bindPushed_advances (resolution : Resolution) {symbol : Symbol} {scope : ScopeId}
    (isPlain : symbol.kind ≠ .ambiguous) (isEmpty : symbol.data.held = [])
    (absent : resolution.table.lookup? scope symbol.name = none) :
    Advances kept resolution
      { resolution with
        table := (resolution.table.push symbol).bind scope symbol.name resolution.table.size } := by
  have pushed := evolves_push resolution.table symbol
  refine ⟨pushed, ?_, fun defines => defines.of_evolves pushed rfl, ?_, ?_, fun _ _ => rfl⟩
  · intro other name id found
    rw [lookup?_bind, if_neg]
    · exact found
    · rintro ⟨rfl, rfl⟩
      exact absurd (absent.symm.trans found) (by simp)
  · intro called
    have isCalled : Called { resolution with table := resolution.table.push symbol } :=
      called.of_evolves pushed rfl rfl
    exact isCalled.bind (callsPlain_push resolution.table isPlain).calls scope
  · rintro ⟨owner, owned⟩
    have grows : Grows resolution.table
        ((resolution.table.push symbol).bind scope symbol.name resolution.table.size) :=
      ⟨pushed, (grows_push resolution.table isEmpty).holds⟩
    refine ⟨_, owned.grow grows (ownerFor scope symbol.name) ?_⟩
    intro otherScope otherName id found
    rw [lookup?_bind] at found
    split at found
    next same =>
      cases found
      obtain ⟨rfl, rfl⟩ := same
      exact .inr ⟨rfl, Nat.le_refl _, size_lt_push ..⟩
    next => exact .inl found

theorem addDeclaration_advances (tree : ScopeTree) (resolution : Resolution)
    {declaration : Declaration} (notKept : ¬kept declaration.name.id) :
    Advances kept resolution (resolution.addDeclaration tree declaration) := by
  rcases addDeclaration_cases tree resolution declaration with ⟨_, way⟩ |
    ⟨target, _, ⟨id, _, way⟩ | ⟨absent, way⟩⟩
  · rw [way]
    exact .refl resolution
  · rw [way]
    exact recordUsage_advances resolution id notKept
  · rw [way]
    exact (bindPushed_advances resolution (by nofun) rfl absent).trans
      (recordUsage_advances _ _ notKept)

theorem makes_advances {pool : SymbolPool}
    (makes : Builtin.Makes (settings.knows · = true) ⟨resolution.table, resolution.builtins⟩ pool) :
    Advances kept resolution
      { resolution with table := pool.table, builtins := pool.registry } := by
  have grows := grows_of_extends makes.extended makes.closed
  have made : Advances kept resolution { resolution with table := pool.table } :=
    .setTable grows makes.extended.bound
  refine { made with called := fun called => ⟨(made.called called).bound, ?_⟩ }
  intro name id found
  rcases makes.registered name id found with earlier | ⟨_, added, data, present⟩
  · exact grows.evolves.label? (called.builtin name id earlier)
  · obtain ⟨_, _, _, isMade, isPlain, _⟩ := makes.fresh id _ added present
    cases isMade
    rw [label?_of_get? present]
    have noAmbiguity : (data.kind == .ambiguous) = false := by simpa using isPlain
    show some (Label.mk name (some name) true (data.kind == .ambiguous)) = _
    rw [noAmbiguity]

theorem readAs_advances (resolution : Resolution) (id : SymbolId) {reference : Reference}
    (notKept : ¬kept reference.node) :
    Advances kept resolution (resolution.readAs reference id) :=
  (recordUsage_advances resolution id notKept).trans (insert_advances _ _ notKept)

theorem addRead_advances (tidy : resolution.Tidy settings) (tree : ScopeTree)
    {reference : Reference}
    (notKept : resolves settings tree resolution.table reference = true → ¬kept reference.node) :
    Advances kept resolution (resolution.addRead settings tree reference) := by
  rw [resolves] at notKept
  rcases addRead_cases tidy.knows tree reference with ⟨id, found, way⟩ |
    ⟨_, isKnown, pool, id, makes, _, way⟩ | ⟨_, _, way⟩
  · rw [way]
    exact readAs_advances resolution id (notKept (by rw [found]; rfl))
  · rw [way]
    exact (makes_advances makes).trans
      (readAs_advances _ id (notKept (by rw [isKnown, Bool.or_true])))
  · rw [way]
    exact .of_evolves (.refl _) rfl rfl rfl (fun owned => owned) fun _ _ => rfl

theorem addAttributeRead_advances (resolution : Resolution) {read : AttributeRead}
    (notKept : ¬kept read.attr.id) :
    Advances kept resolution (resolution.addAttributeRead read) := by
  rcases addAttributeRead_cases resolution read with ⟨child, _, way⟩ | ⟨_, way⟩
  · rw [way]
    exact recordUsage_advances resolution child notKept
  · rw [way]
    exact .refl resolution

theorem setData_advances (defines : resolution.Defines) {node : NodeId} {id : SymbolId}
    (defined : resolution.definitions[node]? = some id) {data : SymbolData}
    (isDefinition : data.role = .definition (some node))
    (free : ∀ owner, resolution.table.OwnedBy owner → ∀ held ∈ data.held,
      held < resolution.table.size ∧ owner held = none) :
    Advances kept resolution (resolution.setData id data) := by
  obtain ⟨symbol, found, isRole⟩ := defines node id defined
  refine .of_evolves (evolves_setData found (isDefinition.trans isRole.symm)) rfl rfl rfl ?_
    fun _ _ => rfl
  rintro ⟨owner, owned⟩
  exact ⟨owner, owned.setData fun held isHeld => .inr (free owner owned held isHeld)⟩

theorem completeFunction_advances (defines : resolution.Defines) (tree : ScopeTree)
    (site : FunctionSite) : Advances kept resolution (resolution.completeFunction tree site) := by
  rw [completeFunction]
  split
  next => exact .refl resolution
  next id defined =>
    exact setData_advances defines defined rfl fun _ _ _ isHeld => absurd isHeld List.not_mem_nil

theorem completeClass_advances (defines : resolution.Defines) {site : ClassSite}
    (isInner : site.body ≠ moduleScope) :
    Advances kept resolution (resolution.completeClass site) := by
  rw [completeClass]
  split
  next => exact .refl resolution
  next id defined =>
    refine setData_advances defines defined rfl ?_
    intro owner owned held isMember
    obtain ⟨name, bound⟩ := mem_inScope.mp isMember
    obtain ⟨inRange, isOwner⟩ := owned.bound site.body name held bound
    exact ⟨inRange, isOwner.trans (if_neg isInner)⟩

theorem pushMember_advances (classId : SymbolId) (resolution : Resolution) {symbol : Symbol}
    (isEmpty : symbol.data.held = []) :
    Advances kept resolution
      ((resolution.push symbol).1.addMember classId resolution.table.size) := by
  have pushed : Grows resolution.table (resolution.push symbol).1.table :=
    grows_push resolution.table isEmpty
  rw [addMember]
  split
  next info isClass =>
    obtain ⟨old, found, isClass⟩ := Option.bind_eq_some_iff.mp isClass
    have isData : old.data = .ofClass info := by
      cases data : old.data <;> simp_all [Symbol.class?]
    have isRole : old.role = .definition info.definition := by
      rw [Symbol.role, isData]
      rfl
    refine .of_evolves (pushed.evolves.trans (evolves_setData found isRole.symm)) rfl rfl rfl ?_
      fun _ _ => rfl
    rintro ⟨owner, owned⟩
    refine ⟨_, (owned.grow pushed none fun _ _ _ => .inl).setData ?_⟩
    intro held isMember
    rcases List.mem_append.mp isMember with isMember | isMember
    · exact .inl ⟨old, found, isData ▸ isMember⟩
    · rw [List.mem_singleton.mp isMember]
      exact .inr ⟨size_lt_push .., if_neg (Nat.lt_irrefl _)⟩
  next => exact .setTable pushed rfl

theorem addInstanceAttribute_advances (survey : Survey) (resolution : Resolution)
    {assigned : InstanceAttribute} (notKept : ¬kept assigned.attr.id) :
    Advances kept resolution (resolution.addInstanceAttribute survey assigned) := by
  rcases addInstanceAttribute_cases survey resolution assigned with ⟨_, way⟩ |
    ⟨_, classId, ⟨member, _, way⟩ | ⟨_, way⟩⟩
  · rw [way]
    exact .refl resolution
  · rw [way]
    exact recordUsage_advances resolution member notKept
  · rw [way]
    exact (pushMember_advances classId resolution rfl).trans (recordUsage_advances _ _ notKept)

end Resolution

end PyStatic
