import PyStatic.Proofs.Binding.Occurrences

/-!
Contract: the survey of a module tells what its scopes are and mention.
-/

namespace PyStatic

open List

namespace ScopeTree

variable {tree later : ScopeTree} {openings : List Opening}

/-- The scopes of a tree are `openings`, in order. -/
structure Mirrors (tree : ScopeTree) (openings : List Opening) : Prop where
  size_eq : tree.size = openings.length
  scope : ∀ id opening, openings[id]? = some opening → ∃ scope, tree.get? id = some scope ∧
    scope.kind = opening.kind ∧ scope.parent = opening.parent ∧
    scope.globalNames = opening.globals ∧
    scope.nonlocalNames = if (tree.enclosingFunction? id).isSome then opening.nonlocals else []

theorem Mirrors.lt_size (mirrors : tree.Mirrors openings) {id : ScopeId} {opening : Opening}
    (isOpening : openings[id]? = some opening) : id < tree.size := by
  rw [mirrors.size_eq]
  exact (List.getElem?_eq_some_iff.mp isOpening).1

theorem Mirrors.grow (mirrors : tree.Mirrors openings) (nested : tree.Nested)
    (grows : tree.Grows later) {id : ScopeId} {opening : Opening}
    (isOpening : openings[id]? = some opening) : ∃ scope, later.get? id = some scope ∧
      scope.kind = opening.kind ∧ scope.parent = opening.parent ∧
      scope.globalNames = opening.globals ∧
      scope.nonlocalNames =
        if (later.enclosingFunction? id).isSome then opening.nonlocals else [] := by
  obtain ⟨scope, found, same⟩ := mirrors.scope id opening isOpening
  obtain ⟨shown, foundLater⟩ := grows id scope found
  refine ⟨_, foundLater, ?_⟩
  rwa [grows.enclosingFunction? nested (mirrors.lt_size isOpening)]

theorem enclosingFunction?_push (nested : tree.Nested) (added : Scope)
    (isOpen : ∀ parent, added.parent = some parent → parent < tree.size) :
    (tree.push added).enclosingFunction? tree.size =
      ((added.parent.map tree.ancestors).getD []).find? fun outer =>
        (tree.kind? outer).any (·.isFunctionLike) := by
  have found : (tree.push added).get? tree.size = some added :=
    Array.getElem?_push.trans (if_pos rfl)
  have parentLast : (tree.push added).parent? tree.size = added.parent := by
    rw [parent?, found]
    rfl
  rw [enclosingFunction?, ancestors_eq (nested.push isOpen) (lt_size_of_get? found), parentLast,
    tail_cons]
  cases isParent : added.parent with
  | none => rfl
  | some parent =>
    have grows := Grows.push tree added
    dsimp only [Option.map_some, Option.getD_some]
    rw [grows.ancestors nested (isOpen parent isParent)]
    apply find?_congr
    intro outer isOuter
    rw [grows.kind? (lt_size_of_mem_outward isOuter)]

end ScopeTree

namespace Survey

variable {survey before after : Survey} {openings : List Opening} {notes : List Note}

theorem mirrors_openScope (mirrors : survey.scopes.Mirrors openings)
    (nested : survey.scopes.Nested) (kind : ScopeKind) (parent : Option ScopeId)
    (isOpen : ∀ outer, parent = some outer → outer < survey.scopes.size) (mark : Mark)
    (name : Option String) (body : List Stmt) (receiver : Option String) :
    (survey.openScope kind parent mark name body receiver).scopes.Mirrors
      (openings ++ [⟨kind, parent, declaredGlobal body, declaredNonlocal body⟩]) := by
  refine ⟨?_, ?_⟩
  · rw [length_append, ← mirrors.size_eq]
    exact Array.size_push _
  · intro id opening isOpening
    rw [getElem?_append] at isOpening
    split at isOpening
    next => exact mirrors.grow nested (.push survey.scopes _) isOpening
    next isNew =>
      obtain ⟨isFirst, rfl⟩ := List.getElem?_eq_some_iff.mp isOpening
      have isLast : id = openings.length :=
        Nat.le_antisymm (Nat.le_of_sub_eq_zero (Nat.lt_one_iff.mp isFirst)) (Nat.not_lt.mp isNew)
      obtain rfl : id = survey.scopes.size := isLast.trans mirrors.size_eq.symm
      refine ⟨_, Array.getElem?_push.trans (if_pos rfl), ?_⟩
      rw [getElem_singleton]
      refine ⟨rfl, rfl, rfl, ?_⟩
      show _ =
        if ((survey.scopes.push _).enclosingFunction? survey.scopes.size).isSome then _ else _
      rw [ScopeTree.enclosingFunction?_push nested _ isOpen, isSome_find?]

theorem mirrors_note (mirrors : survey.scopes.Mirrors openings) (nested : survey.scopes.Nested)
    {note : Note} (fits : survey.Fits note) :
    (survey.note note).scopes.Mirrors (openings ++ note.openings) := by
  have sameTree (opensNone : note.openings = []) :
      (survey.note note).scopes.Mirrors (openings ++ note.openings) := by
    rw [opensNone, append_nil]
    refine ⟨?_, fun id opening => mirrors.grow nested (survey.note_grows note)⟩
    rw [size_note, opensNone]
    exact mirrors.size_eq
  cases note with
  | opened kind parent mark name body receiver =>
    exact mirrors_openScope mirrors nested kind (some parent)
      (fun outer isParent => fits.isOpen outer isParent) mark name body receiver
  | _ => exact sameTree rfl

theorem Run.mirrors (run : Run before notes after) (wellFormed : before.WellFormed)
    (mirrors : before.scopes.Mirrors openings) :
    after.scopes.Mirrors (openings ++ notes.flatMap Note.openings) := by
  induction run generalizing openings with
  | nil => exact (append_nil openings).symm ▸ mirrors
  | cons fits _ ih =>
    rw [flatMap_cons, ← append_assoc]
    exact ih (wellFormed.note fits) (mirrors_note mirrors wellFormed.nested fits)

end Survey

def Mentions (blocks : List ScopeBlock) (scope : ScopeId) (said : Mention) : Prop :=
  ∃ block, blocks[scope]? = some block ∧ said ∈ block.mentions

def Binding.site (binding : Binding) : ScopeId × String × NodeId :=
  (binding.target, binding.name, binding.node)

namespace Mention

def sites (tree : ScopeTree) (scope : ScopeId) : Mention → List (ScopeId × String × NodeId)
  | binds name => [(tree.bindingScope scope name.text, name.text, name.id)]
  | assigns target =>
    [(tree.bindingScope (tree.assignmentScope scope) target.text, target.text, target.id)]
  | spreads mark names => names.map fun name => (scope, name, mark.id)
  | _ => []

def references (scope : ScopeId) : Mention → List Reference
  | reads name | assigns name => [⟨name.text, name.id, name.range, scope⟩]
  | _ => []

def declarations (scope : ScopeId) : Mention → List Declaration
  | declares isGlobal name => [⟨name, scope, isGlobal⟩]
  | _ => []

end Mention

namespace Note

theorem sites_eq (tree : ScopeTree) (note : Note) :
    (note.bindings tree).map Binding.site =
      note.mentions.flatMap fun placed => placed.2.sites tree placed.1 := by
  cases note with
  | wildcard =>
    rw [bindings, mentions, flatMap_singleton, map_map]
    rfl
  | declared =>
    rw [mentions, flatMap_map]
    exact (flatMap_eq_nil_iff.mpr fun _ _ => rfl).symm
  | _ => rfl

theorem references_eq (note : Note) :
    note.reads = note.mentions.flatMap fun placed => placed.2.references placed.1 := by
  cases note with
  | declared =>
    rw [mentions, flatMap_map]
    exact (flatMap_eq_nil_iff.mpr fun _ _ => rfl).symm
  | _ => rfl

theorem declarations_eq (note : Note) :
    note.declarations = note.mentions.flatMap fun placed => placed.2.declarations placed.1 := by
  cases note with
  | declared =>
    rw [declarations, mentions, flatMap_map, map_eq_flatMap]
    rfl
  | _ => rfl

end Note

namespace Survey

structure Tells (survey : Survey) (blocks : List ScopeBlock) : Prop where
  scopes : survey.scopes.Mirrors (blocks.map ScopeBlock.opening)
  bindings : ∀ site, site ∈ survey.bindings.map Binding.site ↔
    ∃ scope said, Mentions blocks scope said ∧ site ∈ said.sites survey.scopes scope
  reads : ∀ reference, reference ∈ survey.reads ↔
    ∃ scope said, Mentions blocks scope said ∧ reference ∈ said.references scope
  declarations : ∀ declaration, declaration ∈ survey.declarations ↔
    ∃ scope said, Mentions blocks scope said ∧ declaration ∈ said.declarations scope

variable {around : Surroundings} {module' : Module}

theorem mem_placed_scopeBlocks {place : ScopeId} {said : Mention} :
    (place, said) ∈ ScopeItem.placedOfAll 0 1 (Stmt.itemsOfAll around module'.body) ↔
      Mentions (module'.scopeBlocks around) place said := by
  rw [ScopeItem.mem_placedOfAll_iff, Mentions, Module.scopeBlocks]
  simp only [← mk_mem_zipIdx_iff_getElem?, zipIdx_cons, mem_cons, Prod.mk.injEq,
    or_and_right, exists_or, and_assoc, exists_eq_left]

theorem tells_ofModule (around : Surroundings) (module' : Module) :
    (Survey.ofModule around module').Tells (module'.scopeBlocks around) := by
  let name := some (moduleName around.package around.file)
  have wellFormed := wellFormed_opened module'.mark name module'.body
  have noScope : Survey.empty.scopes.Mirrors [] := ⟨rfl, fun _ _ isOpening => nomatch isOpening⟩
  have mirrors := mirrors_openScope noScope nofun .topLevel none nofun module'.mark name
    module'.body none
  obtain ⟨_, rfl, notes, run, account⟩ := ofModule_surveys around module'
  have noted := run.noted wellFormed.nested
  have spoken {α : Type} (part : ScopeId × Mention → List α) (entry : α) :
      entry ∈ notes.flatMap (fun note => note.mentions.flatMap part) ↔
        ∃ scope said, Mentions (module'.scopeBlocks around) scope said ∧
          entry ∈ part (scope, said) := by
    rw [← flatMap_assoc, account.mentions, mem_flatMap, Prod.exists]
    exact exists₂_congr fun scope said => and_congr_left' mem_placed_scopeBlocks
  refine ⟨?_, ?_, ?_, ?_⟩
  · have whole := run.mirrors wellFormed mirrors
    rw [account.openings, declaredGlobal_eq around, declaredNonlocal_eq around] at whole
    exact whole
  · intro site
    rw [noted.bindings, map_flatMap, flatMap_congr fun note _ => note.sites_eq _]
    exact spoken _ site
  · intro reference
    rw [noted.reads, flatMap_congr fun note _ => note.references_eq]
    exact spoken _ reference
  · intro declaration
    rw [noted.declarations, flatMap_congr fun note _ => note.declarations_eq]
    exact spoken _ declaration

end Survey

theorem Module.project_ne_none_of_spreads {module' : Module} {around : Surroundings}
    {scope : ScopeId} {mark : Mark} {names : List String}
    (spreads : Mentions (module'.scopeBlocks around) scope (.spreads mark names)) :
    around.project ≠ none := by
  obtain ⟨_, rfl, notes, _, account⟩ := Survey.ofModule_surveys around module'
  have isPlaced := Survey.mem_placed_scopeBlocks.mpr spreads
  obtain ⟨note, isNote, isSaid⟩ := mem_flatMap.mp (account.mentions ▸ isPlaced)
  cases note with
  | wildcard => exact account.wildcards _ _ _ _ isNote
  | declared =>
    obtain ⟨name, _, same⟩ := mem_map.mp isSaid
    cases same
  | read _ _ | bound _ _ _ _ | assigned _ _ => cases mem_singleton.mp isSaid
  | _ => cases isSaid

structure ScopeBlock.Rooted (blocks : List ScopeBlock) : Prop where
  parent : ∀ (scope : ScopeId) (block : ScopeBlock), blocks[scope]? = some block →
    (block.parent = none ↔ scope = moduleScope)
  kind : ∀ (scope : ScopeId) (block : ScopeBlock), blocks[scope]? = some block →
    (block.kind = .topLevel ↔ scope = moduleScope)
  definition : ∀ (scope parent : ScopeId) (block : ScopeBlock), blocks[scope]? = some block →
    block.kind.isDefinition = true → block.parent = some parent →
    ∃ outer, blocks[parent]? = some outer ∧
      (outer.kind = .topLevel ∨ outer.kind.isDefinition = true)

theorem Module.scopeBlocks_rooted (module' : Module) (around : Surroundings) :
    ScopeBlock.Rooted (module'.scopeBlocks around) := by
  obtain ⟨_, rfl, _, _, account⟩ := Survey.ofModule_surveys around module'
  have stand := account.stand
  have each (scope : ScopeId) (block : ScopeBlock)
      (isBlock : (module'.scopeBlocks around)[scope]? = some block) :
      (scope = moduleScope ∧ block.kind = .topLevel ∧ block.parent = none) ∨
        (scope ≠ moduleScope ∧ (block, scope) ∈
          (ScopeItem.blocksOfAll 0 1 (Stmt.itemsOfAll around module'.body)).zipIdx 1) := by
    rw [← mk_mem_zipIdx_iff_getElem?, Module.scopeBlocks, zipIdx_cons] at isBlock
    rcases mem_cons.mp isBlock with isFirst | isBlock
    · obtain ⟨rfl, rfl⟩ := Prod.mk.inj isFirst
      exact .inl ⟨rfl, rfl, rfl⟩
    · exact .inr ⟨Nat.ne_of_gt (le_snd_of_mem_zipIdx isBlock), isBlock⟩
  refine ⟨?_, ?_, ?_⟩
  · intro scope block isBlock
    rcases each scope block isBlock with ⟨isModule, _, noParent⟩ | ⟨noModule, isBlock⟩
    · exact iff_of_true noParent isModule
    · obtain ⟨_, parent, isParent, _⟩ := stand block scope isBlock
      exact iff_of_false (fun noParent => nomatch isParent.symm.trans noParent) noModule
  · intro scope block isBlock
    rcases each scope block isBlock with ⟨isModule, kind, _⟩ | ⟨noModule, isBlock⟩
    · exact iff_of_true kind isModule
    · exact iff_of_false (stand block scope isBlock).1 noModule
  · intro scope parent block isBlock isDefinition isParent
    rcases each scope block isBlock with ⟨_, kind, _⟩ | ⟨_, isBlock⟩
    · rw [kind] at isDefinition
      cases isDefinition
    · obtain ⟨_, outerScope, same, around⟩ := stand block scope isBlock
      obtain rfl := Option.some.inj (isParent.symm.trans same)
      rcases around isDefinition with rfl | ⟨outer, isOuter, kind⟩
      · exact ⟨_, rfl, .inl rfl⟩
      · exact ⟨outer, mk_mem_zipIdx_iff_getElem?.mp (mem_cons_of_mem _ isOuter), .inr kind⟩

end PyStatic
