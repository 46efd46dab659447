import PyStatic.Proofs.Binding.NotedSyntax

/-!
Contract: the scopes of a surveyed module nest, and every note lands in one of them.
-/

namespace PyStatic

open List

namespace ScopeTree

variable {tree : ScopeTree} {id : ScopeId}

theorem lt_size_of_get? {scope : Scope} (found : tree.get? id = some scope) : id < tree.size :=
  (Array.getElem?_eq_some_iff.mp found).1

theorem lt_size_of_mem_outward {count : Nat} : ∀ {id outer : ScopeId},
    outer ∈ tree.outward count id → outer < tree.size := by
  induction count with
  | zero =>
    intro id outer mem
    cases mem
  | succ _ ih =>
    intro id outer mem
    rw [outward] at mem
    cases found : tree.get? id with
    | none =>
      rw [found] at mem
      cases mem
    | some scope =>
      rw [found] at mem
      rcases mem_cons.mp mem with rfl | mem
      · exact lt_size_of_get? found
      · cases parent : scope.parent with
        | none =>
          rw [parent] at mem
          cases mem
        | some =>
          rw [parent] at mem
          exact ih mem

theorem assignmentScope_lt (inRange : id < tree.size) : tree.assignmentScope id < tree.size := by
  rw [assignmentScope]
  cases found : (tree.ancestors id).find? fun outer => tree.kind? outer != some .comprehension with
  | none => exact inRange
  | some => exact lt_size_of_mem_outward (mem_of_find?_eq_some found)

theorem enclosingFunction?_lt {id outer : ScopeId}
    (found : tree.enclosingFunction? id = some outer) : outer < tree.size :=
  lt_size_of_mem_outward (mem_of_mem_tail (mem_of_find?_eq_some found))

theorem bindingScope_lt (inRange : id < tree.size) (name : String) :
    tree.bindingScope id name < tree.size := by
  rw [bindingScope]
  split
  · exact Nat.lt_of_le_of_lt (Nat.zero_le id) inRange
  · split
    · cases found : tree.enclosingFunction? id with
      | none => exact inRange
      | some => exact enclosingFunction?_lt found
    · exact inRange

def Nested (tree : ScopeTree) : Prop :=
  ∀ id scope parent, tree.get? id = some scope → scope.parent = some parent → parent < id

theorem Nested.push (nested : tree.Nested) {added : Scope}
    (isOpen : ∀ parent, added.parent = some parent → parent < tree.size) :
    (tree.push added).Nested := by
  intro id scope parent found isParent
  have cases' : (tree.push added).get? id = if id = tree.size then some added else tree.get? id :=
    Array.getElem?_push
  rw [cases'] at found
  split at found
  next same =>
    cases found
    exact same ▸ isOpen parent isParent
  · exact nested id scope parent found isParent

theorem Nested.modify (nested : tree.Nested) (changed : ScopeId) {change : Scope → Scope}
    (sameParent : ∀ scope, (change scope).parent = scope.parent) :
    (tree.modify changed change).Nested := by
  intro id scope parent found isParent
  have cases' : (tree.modify changed change).get? id =
      if changed = id then (tree.get? id).map change else tree.get? id :=
    Array.getElem?_modify
  rw [cases'] at found
  split at found
  · obtain ⟨old, isOld, rfl⟩ := Option.map_eq_some_iff.mp found
    rw [sameParent] at isParent
    exact nested id old parent isOld isParent
  · exact nested id scope parent found isParent

end ScopeTree

namespace Note

def reads : Note → List Reference
  | read scope name | assigned scope name => [⟨name.text, name.id, name.range, scope⟩]
  | _ => []

def attributeReads : Note → List AttributeRead
  | member (.name base) attr | member (.member _ _ base) attr => [⟨base.id, attr⟩]
  | _ => []

def declarations : Note → List Declaration
  | declared scope isGlobal names => names.map fun name => ⟨name, scope, isGlobal⟩
  | _ => []

def classes : Note → List ClassSite
  | ofClass site => [site]
  | _ => []

def bindings (tree : ScopeTree) : Note → List Binding
  | bound scope usage origin name =>
    [⟨tree.bindingScope scope name.text, name.text, name.id, name.range, usage, origin⟩]
  | assigned scope target =>
    [⟨tree.bindingScope (tree.assignmentScope scope) target.text, target.text, target.id,
      target.range, .assignmentTarget, .plain⟩]
  | wildcard scope mark module' exports =>
    ((exports.map (·.name)).filter (!·.isEmpty)).map fun name =>
      ⟨scope, name, mark.id, mark.range, .imported, .importedName (Dotted.join module' name)⟩
  | _ => []

end Note

namespace Survey

variable {survey after : Survey}

structure Appends (survey : Survey) (note : Note) (after : Survey) : Prop where
  reads : after.reads = survey.reads ++ note.reads
  bindings : after.bindings = survey.bindings ++ note.bindings survey.scopes
  declarations : after.declarations = survey.declarations ++ note.declarations
  attributeReads : after.attributeReads = survey.attributeReads ++ note.attributeReads
  classes : after.classes = survey.classes ++ note.classes

theorem appends_note (survey : Survey) (note : Note) : survey.Appends note (survey.note note) := by
  cases note with
  | receiver scope value attr =>
    show survey.Appends _ (survey.addInstanceAttribute scope value attr)
    rcases survey.addInstanceAttribute_eq scope value attr with same | ⟨_, _, _, same⟩
    all_goals
      rw [same]
      constructor <;> exact (append_nil _).symm
  | declared scope isGlobal names =>
    obtain ⟨_, same⟩ := survey.addDeclarations_eq scope isGlobal names
    show survey.Appends _ (survey.addDeclarations scope isGlobal names)
    rw [same]
    constructor <;> first | rfl | exact (append_nil _).symm
  | member value =>
    cases value <;> constructor <;> first | rfl | exact (append_nil _).symm
  | _ => constructor <;> first | rfl | exact (append_nil _).symm

theorem nested_note (nested : survey.scopes.Nested) {note : Note} (fits : survey.Fits note) :
    (survey.note note).scopes.Nested := by
  cases note with
  | receiver scope value attr => exact survey.scopes_receiver scope value attr ▸ nested
  | declared scope isGlobal names => exact survey.scopes_declared scope isGlobal names ▸ nested
  | member value => cases value <;> exact nested
  | opened =>
    apply nested.push
    intro other isParent
    exact fits.isOpen other isParent
  | dynamic scope =>
    have marked : ∀ (ids : List ScopeId) {tree : ScopeTree}, tree.Nested →
        (ids.foldl (fun tree id => tree.modify id fun scope =>
          { scope with usesDynamicNamespace := true }) tree).Nested := by
      intro ids
      induction ids with
      | nil => exact fun nested => nested
      | cons id _ ih =>
        exact fun nested => ih (nested.modify id fun _ => rfl)
    exact marked _ nested
  | _ => exact nested

/-- The scopes nest, and what is bound or read is so in one of them. -/
structure WellFormed (survey : Survey) : Prop where
  nested : survey.scopes.Nested
  target_lt : ∀ binding ∈ survey.bindings, binding.target < survey.scopes.size
  reader_lt : ∀ reference ∈ survey.reads, reference.scope < survey.scopes.size
  body_ne : ∀ site ∈ survey.classes, site.body ≠ moduleScope

theorem WellFormed.note (wellFormed : survey.WellFormed) {note : Note}
    (fits : survey.Fits note) : (survey.note note).WellFormed := by
  have grown := survey.size_le_note note
  refine ⟨nested_note wellFormed.nested fits, ?_, ?_, ?_⟩
  · intro binding mem
    apply Nat.lt_of_lt_of_le _ grown
    rw [(survey.appends_note note).bindings] at mem
    rcases mem_append.mp mem with mem | mem
    · exact wellFormed.target_lt binding mem
    · cases note with
      | bound scope _ _ name =>
        obtain rfl := mem_singleton.mp mem
        exact ScopeTree.bindingScope_lt (fits.isOpen scope rfl) name.text
      | assigned scope target =>
        obtain rfl := mem_singleton.mp mem
        have isOpen := ScopeTree.assignmentScope_lt (fits.isOpen scope rfl)
        exact ScopeTree.bindingScope_lt isOpen target.text
      | wildcard scope =>
        obtain ⟨name, _, rfl⟩ := mem_map.mp mem
        exact fits.isOpen scope rfl
      | _ => cases mem
  · intro reference mem
    apply Nat.lt_of_lt_of_le _ grown
    rw [(survey.appends_note note).reads] at mem
    rcases mem_append.mp mem with mem | mem
    · exact wellFormed.reader_lt reference mem
    · cases note with
      | read scope =>
        obtain rfl := mem_singleton.mp mem
        exact fits.isOpen scope rfl
      | assigned scope =>
        obtain rfl := mem_singleton.mp mem
        exact fits.isOpen scope rfl
      | _ => cases mem
  · intro site mem
    rw [(survey.appends_note note).classes] at mem
    rcases mem_append.mp mem with mem | mem
    · exact wellFormed.body_ne site mem
    · cases note with
      | ofClass other => exact mem_singleton.mp mem ▸ fits.isInner other rfl
      | _ => cases mem

theorem Run.wellFormed {before after : Survey} {notes : List Note} (run : Run before notes after)
    (wellFormed : before.WellFormed) : after.WellFormed := by
  induction run with
  | nil => exact wellFormed
  | cons fits _ ih => exact ih (wellFormed.note fits)

theorem wellFormed_opened (mark : Mark) (name : Option String) (body : List Stmt) :
    (Survey.empty.openScope .topLevel none mark name body none).WellFormed := by
  have nothing : Survey.empty.scopes.Nested := nofun
  exact ⟨nothing.push nofun, nofun, nofun, nofun⟩

theorem wellFormed_ofModule (around : Surroundings) (module' : Module) :
    (Survey.ofModule around module').WellFormed := by
  obtain ⟨opened, rfl, notes, run, _⟩ := Survey.ofModule_surveys around module'
  exact run.wellFormed (wellFormed_opened _ _ _)

end Survey

namespace ScopeTree

variable {tree : ScopeTree}

theorem outward_eq_outward (nested : tree.Nested) {first : Nat} :
    ∀ {second : Nat} {id : ScopeId}, id < first → id < second →
      tree.outward first id = tree.outward second id := by
  induction first with
  | zero =>
    intro second id isShort
    cases isShort
  | succ _ ih =>
    intro second id isShort isShort'
    obtain ⟨second, rfl⟩ := Nat.exists_eq_succ_of_ne_zero (Nat.ne_zero_of_lt isShort')
    rw [outward, outward]
    cases found : tree.get? id with
    | none => rfl
    | some scope =>
      dsimp only
      cases isParent : scope.parent with
      | none => rfl
      | some parent =>
        have older := nested id scope parent found isParent
        dsimp only
        rw [ih (Nat.lt_of_lt_of_le older (Nat.le_of_lt_succ isShort))
          (Nat.lt_of_lt_of_le older (Nat.le_of_lt_succ isShort'))]

theorem ancestors_eq (nested : tree.Nested) {id : ScopeId} (inRange : id < tree.size) :
    tree.ancestors id =
      id :: match tree.parent? id with
        | some parent => tree.ancestors parent
        | none => [] := by
  have found : tree.get? id = some tree.scopes[id] := Array.getElem?_eq_getElem inRange
  rw [ancestors, outward, parent?, found]
  dsimp only
  rw [Option.bind_some]
  cases isParent : tree.scopes[id].parent with
  | none => rfl
  | some parent =>
    dsimp only
    have older := nested id _ parent found isParent
    rw [ancestors, outward_eq_outward nested older (Nat.lt_succ_self parent)]

theorem parent?_lt (nested : tree.Nested) {id parent : ScopeId}
    (isParent : tree.parent? id = some parent) : parent < id := by
  obtain ⟨scope, found, isParent⟩ := Option.bind_eq_some_iff.mp isParent
  exact nested id scope parent found isParent

end ScopeTree

end PyStatic
