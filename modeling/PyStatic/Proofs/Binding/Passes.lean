import PyStatic.Binding.Model
import PyStatic.Proofs.Builtin.Making

/-!
Contract: what one step of each resolution pass can do.
-/

namespace PyStatic

open Resolution Std.ExtTreeMap

/-- The names that are found though no scope binds them. -/
def Settings.knows (settings : Settings) (name : String) : Bool :=
  Builtin.isBuiltin name || settings.extraBuiltins.contains name

theorem SymbolTable.lookup?_congr {table post : SymbolTable} (same : post.bound = table.bound)
    (scope : ScopeId) (name : String) : post.lookup? scope name = table.lookup? scope name := by
  rw [lookup?, lookup?, names, names, same]

theorem SymbolTable.lookup?_empty (scope : ScopeId) (name : String) :
    SymbolTable.empty.lookup? scope name = none := by
  show (Std.ExtTreeMap.getD ∅ scope ∅)[name]? = none
  rw [getD_empty, getElem?_empty]

namespace Resolution

theorem builtins_empty (name : String) : Resolution.empty.builtins[name]? = none :=
  getElem?_empty

def readAs (reference : Reference) (id : SymbolId) (resolution : Resolution) : Resolution :=
  let resolution := resolution.recordUsage id ⟨reference.node, reference.range, .other⟩
  { resolution with nameSymbols := resolution.nameSymbols.insert reference.node id }

def child? (resolution : Resolution) (read : AttributeRead) : Option SymbolId :=
  resolution.nameSymbols[read.base]?.bind fun base =>
    resolution.table.named? (resolution.table.children base) read.attr.text

def KnowsBuiltins (settings : Settings) (resolution : Resolution) : Prop :=
  ∀ (name : String) (id : SymbolId), resolution.builtins[name]? = some id →
    settings.knows name = true

variable {settings : Settings} {resolution : Resolution}

theorem builtin?_cases (knows : resolution.KnowsBuiltins settings) (name : String) :
    (settings.knows name = true ∧ ∃ pool id,
      Builtin.Makes (settings.knows · = true) ⟨resolution.table, resolution.builtins⟩ pool ∧
      pool.registry[name]? = some id ∧
      resolution.builtin? settings name =
        ({ resolution with table := pool.table, builtins := pool.registry }, some id)) ∨
    (settings.knows name = false ∧
      resolution.builtin? settings name = (resolution, none)) := by
  rw [builtin?]
  rcases Builtin.symbol_cases ⟨resolution.table, resolution.builtins⟩ name with
    ⟨id, registered, made⟩ | ⟨_, isBuiltin, pool, id, made, makes, registered⟩ |
    ⟨unregistered, noBuiltin, made⟩
  · refine .inl ⟨knows name id registered, _, id, .refl _, registered, ?_⟩
    rw [made]
  · refine .inl ⟨by simp [Settings.knows, isBuiltin], pool, id, ?_, registered, ?_⟩
    · apply makes.mono
      intro other isBuiltin
      simp [Settings.knows, isBuiltin]
    · rw [made]
  · rw [made]
    dsimp only
    split
    next isExtra =>
      have isKnown : settings.knows name = true := by rw [Settings.knows, isExtra, Bool.or_true]
      have makes : Builtin.Makes (settings.knows · = true)
          ⟨resolution.table, resolution.builtins⟩
          (Builtin.pushRegistered ⟨resolution.table, resolution.builtins⟩ name (.other [])).1 :=
        (Builtin.Makes.refl _).pushRegistered isKnown unregistered nofun rfl
      refine .inl ⟨isKnown, _, resolution.table.size, makes,
        SymbolPool.registry_register_self .., ?_⟩
      rw [Builtin.extraSymbol, unregistered]
      rfl
    next noExtra =>
      refine .inr ⟨?_, rfl⟩
      rw [Settings.knows, noBuiltin]
      simpa using noExtra

theorem addRead_cases (knows : resolution.KnowsBuiltins settings) (tree : ScopeTree)
    (reference : Reference) :
    (∃ id, lookup? tree resolution.table reference.scope reference.name = some id ∧
      resolution.addRead settings tree reference = resolution.readAs reference id) ∨
    (lookup? tree resolution.table reference.scope reference.name = none ∧
      settings.knows reference.name = true ∧ ∃ pool id,
        Builtin.Makes (settings.knows · = true) ⟨resolution.table, resolution.builtins⟩ pool ∧
        pool.registry[reference.name]? = some id ∧
        resolution.addRead settings tree reference =
          readAs reference id
            { resolution with table := pool.table, builtins := pool.registry }) ∨
    (lookup? tree resolution.table reference.scope reference.name = none ∧
      settings.knows reference.name = false ∧
      resolution.addRead settings tree reference =
        { resolution with unresolved := resolution.unresolved ++ [reference] }) := by
  rw [addRead, resolve]
  cases lookup? tree resolution.table reference.scope reference.name with
  | some id => exact .inl ⟨id, rfl, rfl⟩
  | none =>
    rcases builtin?_cases knows reference.name with ⟨isKnown, pool, id, makes, registered, made⟩ |
      ⟨unknown, made⟩
    · refine .inr (.inl ⟨rfl, isKnown, pool, id, makes, registered, ?_⟩)
      dsimp only
      rw [made]
      rfl
    · refine .inr (.inr ⟨rfl, unknown, ?_⟩)
      dsimp only
      rw [made]

theorem lookup?_congr (tree : ScopeTree) {table post : SymbolTable}
    (same : post.bound = table.bound) (scope : ScopeId) (name : String) :
    lookup? tree post scope name = lookup? tree table scope name := by
  rw [lookup?, lookup?]
  induction tree.ancestors scope with
  | nil => rfl
  | cons _ _ ih =>
    rw [lookupIn, lookupIn, ih, SymbolTable.lookup?_congr same, SymbolTable.lookup?_congr same]

theorem exists_lookup?_of_lookup? {tree : ScopeTree} {table : SymbolTable} {scope : ScopeId}
    {name : String} {id : SymbolId} (found : lookup? tree table scope name = some id) :
    ∃ binder, table.lookup? binder name = some id := by
  rw [lookup?] at found
  generalize tree.ancestors scope = scopes at found
  induction scopes with
  | nil => cases found
  | cons outer _ ih =>
    rw [lookupIn] at found
    split at found
    · exact ih found
    · split at found
      · exact ⟨moduleScope, found⟩
      · split at found
        next own isOwn => exact ⟨outer, isOwn.trans found⟩
        next => exact ih found

theorem addAttributeRead_cases (resolution : Resolution) (read : AttributeRead) :
    (∃ child, resolution.child? read = some child ∧ resolution.addAttributeRead read =
      resolution.recordUsage child ⟨read.attr.id, read.attr.range, .other⟩) ∨
    (resolution.child? read = none ∧ resolution.addAttributeRead read = resolution) := by
  cases found : resolution.child? read with
  | some child =>
    rw [child?] at found
    exact .inl ⟨child, rfl, by simp only [addAttributeRead, found]⟩
  | none =>
    rw [child?] at found
    exact .inr ⟨rfl, by simp only [addAttributeRead, found]⟩

def declarationUsage (declaration : Declaration) : Usage :=
  ⟨declaration.name.id, declaration.name.range, .globalDeclaration⟩

def declaredSymbol (tree : ScopeTree) (target : ScopeId) (name : String) : Symbol :=
  .fresh name
    (if target = moduleScope then some (Dotted.join (tree.pathOf moduleScope) name) else none)
    (.other []) (some target)

theorem addDeclaration_cases (tree : ScopeTree) (resolution : Resolution)
    (declaration : Declaration) :
    (declaredScope? tree declaration = none ∧
      resolution.addDeclaration tree declaration = resolution) ∨
    ∃ target, declaredScope? tree declaration = some target ∧
      ((∃ id, resolution.table.lookup? target declaration.name.text = some id ∧
        resolution.addDeclaration tree declaration =
          resolution.recordUsage id (declarationUsage declaration)) ∨
      (resolution.table.lookup? target declaration.name.text = none ∧
        resolution.addDeclaration tree declaration =
          recordUsage resolution.table.size (declarationUsage declaration)
            { resolution with
              table := (resolution.table.push
                (declaredSymbol tree target declaration.name.text)).bind
                  target declaration.name.text resolution.table.size })) := by
  rw [addDeclaration]
  cases declaredScope? tree declaration with
  | none => exact .inl ⟨rfl, rfl⟩
  | some target =>
    refine .inr ⟨target, rfl, ?_⟩
    dsimp only
    cases resolution.table.lookup? target declaration.name.text with
    | some id => exact .inl ⟨id, rfl, rfl⟩
    | none => exact .inr ⟨rfl, rfl⟩

def attributeUsage (assigned : InstanceAttribute) : Usage :=
  ⟨assigned.attr.id, assigned.attr.range, .assignmentTarget⟩

def attributeSymbol (table : SymbolTable) (classId : SymbolId) (assigned : InstanceAttribute) :
    Symbol :=
  .fresh assigned.attr.text ((table.fqnOf? classId).map (Dotted.join · assigned.attr.text))
    (.other []) (some assigned.classScope)

/-- The class in whose method the attribute is assigned has a symbol. -/
def hasClass (survey : Survey) (resolution : Resolution) (assigned : InstanceAttribute) : Bool :=
  (resolution.classOfBody? survey assigned.classScope).isSome

theorem hasClass_congr (survey : Survey) {resolution post : Resolution}
    (same : post.definitions = resolution.definitions) :
    post.hasClass survey = resolution.hasClass survey := by
  funext assigned
  rw [hasClass, hasClass, classOfBody?, classOfBody?, same]

theorem addInstanceAttribute_cases (survey : Survey) (resolution : Resolution)
    (assigned : InstanceAttribute) :
    (resolution.hasClass survey assigned = false ∧
      resolution.addInstanceAttribute survey assigned = resolution) ∨
    resolution.hasClass survey assigned = true ∧ ∃ classId,
      ((∃ member, resolution.table.named? (resolution.table.members classId)
          assigned.attr.text = some member ∧
        resolution.addInstanceAttribute survey assigned =
          resolution.recordUsage member (attributeUsage assigned)) ∨
      (resolution.table.named? (resolution.table.members classId) assigned.attr.text = none ∧
        resolution.addInstanceAttribute survey assigned =
          ((resolution.push (attributeSymbol resolution.table classId assigned)).1.addMember classId
            resolution.table.size).recordUsage resolution.table.size
              (attributeUsage assigned))) := by
  rw [addInstanceAttribute, hasClass]
  cases resolution.classOfBody? survey assigned.classScope with
  | none => exact .inl ⟨rfl, rfl⟩
  | some classId =>
    refine .inr ⟨rfl, classId, ?_⟩
    dsimp only
    cases resolution.table.named? (resolution.table.members classId) assigned.attr.text with
    | some member => exact .inl ⟨member, rfl, rfl⟩
    | none => exact .inr ⟨rfl, rfl⟩

theorem foldl_same {α β : Type} {step : Resolution → α → Resolution} (view : Resolution → β)
    (same : ∀ resolution item, view (step resolution item) = view resolution) (items : List α)
    (resolution : Resolution) : view (items.foldl step resolution) = view resolution := by
  induction items generalizing resolution with
  | nil => rfl
  | cons _ _ ih =>
    rw [List.foldl_cons, ih, same]

theorem unresolved_add (around : Surroundings) (scope : ScopeId) (path name : String)
    (merging : Merging) (binding : Binding) :
    (merging.add around scope path name binding).resolution.unresolved =
      merging.resolution.unresolved := by
  rw [Merging.add]
  cases merging.common? binding.origin with
  | some => rfl
  | none => cases binding.origin <;> rfl

theorem unresolved_finish (merging : Merging) :
    merging.finish.1.unresolved = merging.resolution.unresolved := by
  rw [Merging.finish]
  split <;> rfl

theorem unresolved_bindName (around : Surroundings) (tree : ScopeTree) (scope : ScopeId)
    (bindings : List Binding) (resolution : Resolution) (name : String) :
    (resolution.bindName around tree scope bindings name).unresolved = resolution.unresolved := by
  have merged : ∀ (own : List Binding) (merging : Merging),
      (own.foldl (Merging.add around scope (tree.pathOf scope) name)
        merging).resolution.unresolved = merging.resolution.unresolved := by
    intro own
    induction own with
    | nil => exact fun _ => rfl
    | cons _ _ ih =>
      intro merging
      rw [List.foldl_cons, ih, unresolved_add]
  have same := (unresolved_finish ((bindings.filter (·.name == name)).foldl
    (Merging.add around scope (tree.pathOf scope) name) ⟨resolution, [], none⟩)).trans (merged _ _)
  rw [bindName]
  split
  all_goals
    next finished =>
      rw [finished] at same
      exact same

theorem unresolved_addDeclaration (tree : ScopeTree) (resolution : Resolution)
    (declaration : Declaration) :
    (resolution.addDeclaration tree declaration).unresolved = resolution.unresolved := by
  rcases addDeclaration_cases tree resolution declaration with ⟨_, way⟩ |
    ⟨_, _, ⟨_, _, way⟩ | ⟨_, way⟩⟩
  all_goals rw [way]
  all_goals rfl

theorem unresolved_addAttributeRead (resolution : Resolution) (read : AttributeRead) :
    (resolution.addAttributeRead read).unresolved = resolution.unresolved := by
  rcases addAttributeRead_cases resolution read with ⟨_, _, way⟩ | ⟨_, way⟩
  all_goals rw [way]
  all_goals rfl

theorem completeFunction_eq (tree : ScopeTree) (resolution : Resolution) (site : FunctionSite) :
    ∃ table, resolution.completeFunction tree site = { resolution with table } := by
  rw [completeFunction]
  split
  · exact ⟨resolution.table, rfl⟩
  · exact ⟨_, rfl⟩

theorem completeClass_eq (resolution : Resolution) (site : ClassSite) :
    ∃ table, resolution.completeClass site = { resolution with table } := by
  rw [completeClass]
  split
  · exact ⟨resolution.table, rfl⟩
  · exact ⟨_, rfl⟩

theorem addMember_eq (classId member : SymbolId) (resolution : Resolution) :
    ∃ table, resolution.addMember classId member = { resolution with table } := by
  rw [addMember]
  split
  · exact ⟨_, rfl⟩
  · exact ⟨resolution.table, rfl⟩

theorem unresolved_addInstanceAttribute (survey : Survey) (resolution : Resolution)
    (assigned : InstanceAttribute) :
    (resolution.addInstanceAttribute survey assigned).unresolved = resolution.unresolved := by
  rcases addInstanceAttribute_cases survey resolution assigned with ⟨_, way⟩ |
    ⟨_, classId, ⟨_, _, way⟩ | ⟨_, way⟩⟩
  · rw [way]
  · rw [way]
    rfl
  · obtain ⟨table, joined⟩ := addMember_eq classId resolution.table.size
      (resolution.push (attributeSymbol resolution.table classId assigned)).1
    rw [way, joined]
    rfl

end Resolution

namespace Model

variable (around : Surroundings) (survey : Survey)

def declared : Resolution :=
  survey.declarations.foldl (Resolution.addDeclaration survey.scopes)
    (Resolution.ofBindings around survey)

def read : Resolution :=
  survey.reads.foldl (Resolution.addRead around.settings survey.scopes) (declared around survey)

def attributed : Resolution :=
  survey.attributeReads.foldl Resolution.addAttributeRead (read around survey)

def completed : Resolution :=
  ((attributed around survey).completeFunctions survey).completeClasses survey

theorem resolve_eq :
    resolve around survey = (completed around survey).addInstanceAttributes survey :=
  rfl

theorem unresolved_declared : (declared around survey).unresolved = [] := by
  rw [declared, foldl_same _ (unresolved_addDeclaration survey.scopes),
    Resolution.ofBindings, foldl_same Resolution.unresolved]
  · rfl
  · intro resolution scope
    exact foldl_same _ (unresolved_bindName around survey.scopes scope _) _ _

theorem unresolved_resolve :
    (resolve around survey).unresolved = (read around survey).unresolved := by
  rw [resolve_eq, addInstanceAttributes,
    foldl_same Resolution.unresolved (unresolved_addInstanceAttribute survey)]
  rw [completed, completeClasses, completeFunctions]
  rw [foldl_same Resolution.unresolved, foldl_same Resolution.unresolved]
  · exact foldl_same _ unresolved_addAttributeRead _ _
  · intro resolution site
    obtain ⟨table, way⟩ := completeFunction_eq survey.scopes resolution site
    rw [way]
  · intro resolution site
    obtain ⟨table, way⟩ := completeClass_eq resolution site
    rw [way]

end Model

end PyStatic
