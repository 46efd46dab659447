import PyStatic.Proofs.Binding.BoundNames
import PyStatic.Proofs.Binding.Blocks

/-!
Contract: the names that are local to a scope, told by the scopes of the module alone.
-/

namespace PyStatic

open List

namespace ScopeBlock

/-- The closest scope of a kind that `fits`, from `inner` outwards. -/
inductive Closest (blocks : List ScopeBlock) (fits : ScopeKind → Bool) : ScopeId → ScopeId → Prop
  | here {scope : ScopeId} {block : ScopeBlock} (isBlock : blocks[scope]? = some block)
      (isFit : fits block.kind = true) : Closest blocks fits scope scope
  | further {scope parent outer : ScopeId} {block : ScopeBlock}
      (isBlock : blocks[scope]? = some block) (isUnfit : fits block.kind = false)
      (isParent : block.parent = some parent) (closest : Closest blocks fits parent outer) :
      Closest blocks fits scope outer

/-- The closest function or lambda around a scope. -/
def EnclosedBy (blocks : List ScopeBlock) (scope outer : ScopeId) : Prop :=
  ∃ block parent, blocks[scope]? = some block ∧ block.parent = some parent ∧
    Closest blocks (·.isFunctionLike) parent outer

def Declares (blocks : List ScopeBlock) (isGlobal : Bool) (scope : ScopeId) (name : String) :
    Prop :=
  ∃ identifier, Mentions blocks scope (.declares isGlobal identifier) ∧ identifier.text = name

/-- Assignment expressions bind in the closest scope that is no comprehension. -/
inductive MadeIn (blocks : List ScopeBlock) (name : String) : ScopeId → Prop
  | bound {maker : ScopeId} {identifier : Identifier}
      (binds : Mentions blocks maker (.binds identifier)) (isName : identifier.text = name) :
      MadeIn blocks name maker
  | assigned {writer maker : ScopeId} {target : Identifier}
      (assigns : Mentions blocks writer (.assigns target)) (isName : target.text = name)
      (closest : Closest blocks (· != .comprehension) writer maker) : MadeIn blocks name maker

/-- Where a name lands that is bound in scope `maker`. -/
inductive LandsIn (blocks : List ScopeBlock) (maker : ScopeId) (name : String) : ScopeId → Prop
  | module (isGlobal : Declares blocks true maker name) : LandsIn blocks maker name moduleScope
  | enclosing {outer : ScopeId} (notGlobal : ¬Declares blocks true maker name)
      (isNonlocal : Declares blocks false maker name) (enclosed : EnclosedBy blocks maker outer) :
      LandsIn blocks maker name outer
  | own (notGlobal : ¬Declares blocks true maker name)
      (notNonlocal : ∀ outer, EnclosedBy blocks maker outer → ¬Declares blocks false maker name) :
      LandsIn blocks maker name maker

/-- A wildcard import in the scope brings the name in. -/
def Spreads (blocks : List ScopeBlock) (scope : ScopeId) (name : String) : Prop :=
  ∃ mark names, Mentions blocks scope (.spreads mark names) ∧ name ∈ names

variable {blocks : List ScopeBlock} {fits : ScopeKind → Bool} {scope outer : ScopeId}
  {block : ScopeBlock}

theorem closest_iff (isBlock : blocks[scope]? = some block) :
    Closest blocks fits scope outer ↔
      if fits block.kind then scope = outer
      else ∃ parent, block.parent = some parent ∧ Closest blocks fits parent outer := by
  split
  next isFit =>
    constructor
    · intro closest
      cases closest with
      | here => rfl
      | further isBlock' isUnfit =>
        obtain rfl := Option.some.inj (isBlock.symm.trans isBlock')
        exact absurd (isFit.symm.trans isUnfit) nofun
    · rintro rfl
      exact .here isBlock isFit
  next isUnfit =>
    constructor
    · intro closest
      cases closest with
      | here isBlock' isFit =>
        obtain rfl := Option.some.inj (isBlock.symm.trans isBlock')
        exact absurd isFit isUnfit
      | further isBlock' _ isParent closest =>
        obtain rfl := Option.some.inj (isBlock.symm.trans isBlock')
        exact ⟨_, isParent, closest⟩
    · rintro ⟨parent, isParent, closest⟩
      exact .further isBlock (Bool.eq_false_of_not_eq_true isUnfit) isParent closest

theorem declares_iff {isGlobal : Bool} {name : String} :
    Declares blocks isGlobal scope name ↔
      ∃ block, blocks[scope]? = some block ∧ name ∈ Mention.declared isGlobal block.mentions := by
  simp only [Declares, Mentions, Mention.mem_declared]
  constructor
  · rintro ⟨identifier, ⟨block, isBlock, isSaid⟩, isName⟩
    exact ⟨block, isBlock, identifier, isSaid, isName⟩
  · rintro ⟨block, isBlock, identifier, isSaid, isName⟩
    exact ⟨identifier, ⟨block, isBlock, isSaid⟩, isName⟩

instance (blocks : List ScopeBlock) (isGlobal : Bool) (scope : ScopeId) (name : String) :
    Decidable (Declares blocks isGlobal scope name) :=
  decidable_of_iff
    (blocks[scope]?.any fun block => (Mention.declared isGlobal block.mentions).contains name)
    (by simp only [declares_iff, Option.any_eq_true, contains_iff_mem])

theorem enclosedBy_iff (isBlock : blocks[scope]? = some block) :
    EnclosedBy blocks scope outer ↔
      ∃ parent, block.parent = some parent ∧ Closest blocks (·.isFunctionLike) parent outer := by
  rw [EnclosedBy, isBlock]
  simp only [Option.some.injEq, exists_and_left, exists_eq_left']

end ScopeBlock

open ScopeBlock

namespace ScopeTree

variable {tree : ScopeTree} {blocks : List ScopeBlock}

namespace Mirrors

variable (mirrors : tree.Mirrors (blocks.map ScopeBlock.opening)) {block : ScopeBlock}
  {scope : ScopeId}
include mirrors

theorem exists_block (inRange : scope < tree.size) : ∃ block, blocks[scope]? = some block := by
  rw [mirrors.size_eq, length_map] at inRange
  exact ⟨_, getElem?_eq_getElem inRange⟩

theorem ofBlock (isBlock : blocks[scope]? = some block) :
    scope < tree.size ∧ tree.kind? scope = some block.kind ∧ tree.parent? scope = block.parent ∧
      (∀ name, tree.isGlobal scope name = true ↔ name ∈ Mention.declared true block.mentions) ∧
      ∀ name, tree.isNonlocal scope name = true ↔
        (tree.enclosingFunction? scope).isSome = true ∧
          name ∈ Mention.declared false block.mentions := by
  have isOpening : (blocks.map ScopeBlock.opening)[scope]? = some block.opening := by
    rw [getElem?_map, isBlock]
    rfl
  obtain ⟨found, isThere, kind, parent, globals, nonlocals⟩ := mirrors.scope scope _ isOpening
  refine ⟨mirrors.lt_size isOpening, ?_, ?_, ?_, ?_⟩
  · rw [kind?, isThere, Option.map_some, kind]
    rfl
  · rw [parent?, isThere, Option.bind_some, parent]
    rfl
  · intro name
    rw [isGlobal, isThere, Option.any_some, Scope.isGlobal, globals, contains_iff_mem]
    rfl
  · intro name
    rw [isNonlocal, isThere, Option.any_some, Scope.isNonlocal, nonlocals, contains_iff_mem]
    split
    next isSome => exact (and_iff_right isSome).symm
    next isNone => exact iff_of_false not_mem_nil fun both => isNone both.1

theorem ancestors_eq_cons (nested : tree.Nested) (isBlock : blocks[scope]? = some block) :
    tree.ancestors scope = scope :: (block.parent.elim [] tree.ancestors) := by
  obtain ⟨inRange, _, isParent, _⟩ := mirrors.ofBlock isBlock
  rw [ancestors_eq nested inRange, isParent]
  cases block.parent <;> rfl

theorem parent_lt (nested : tree.Nested) {scope parent : ScopeId}
    (isBlock : blocks[scope]? = some block) (isParent : block.parent = some parent) :
    parent < scope ∧ parent < tree.size := by
  obtain ⟨inRange, _, same, _⟩ := mirrors.ofBlock isBlock
  have older := parent?_lt nested (same.trans isParent)
  exact ⟨older, Nat.lt_trans older inRange⟩

theorem find?_ancestors (nested : tree.Nested) {tests : ScopeId → Bool} {fits : ScopeKind → Bool}
    (agree : ∀ scope block, blocks[scope]? = some block → tests scope = fits block.kind)
    {outer : ScopeId} : ∀ {scope : ScopeId}, scope < tree.size →
      ((tree.ancestors scope).find? tests = some outer ↔ Closest blocks fits scope outer) := by
  intro scope
  induction scope using Nat.strong_induction_on with
  | h scope ih =>
    intro inRange
    obtain ⟨block, isBlock⟩ := mirrors.exists_block inRange
    rw [mirrors.ancestors_eq_cons nested isBlock, find?_cons, agree scope block isBlock,
      closest_iff isBlock]
    cases fits block.kind with
    | true => exact Option.some_inj
    | false =>
      cases isParent : block.parent with
      | none => simp
      | some parent =>
        obtain ⟨older, isOpen⟩ := mirrors.parent_lt nested isBlock isParent
        simpa using ih parent older isOpen

theorem enclosingFunction?_iff (nested : tree.Nested) {scope outer : ScopeId}
    (isBlock : blocks[scope]? = some block) :
    tree.enclosingFunction? scope = some outer ↔ EnclosedBy blocks scope outer := by
  have agree : ∀ scope block, blocks[scope]? = some block →
      (tree.kind? scope).any (·.isFunctionLike) = block.kind.isFunctionLike := by
    intro scope block isBlock
    rw [(mirrors.ofBlock isBlock).2.1, Option.any_some]
  rw [enclosingFunction?, mirrors.ancestors_eq_cons nested isBlock, enclosedBy_iff isBlock,
    tail_cons]
  cases isParent : block.parent with
  | none => simp
  | some =>
    have isOpen := (mirrors.parent_lt nested isBlock isParent).2
    simpa using mirrors.find?_ancestors nested agree isOpen

theorem exists_closest (nested : tree.Nested) (rooted : Rooted blocks) : ∀ {scope : ScopeId},
    scope < tree.size → ∃ outer, Closest blocks (· != .comprehension) scope outer := by
  intro scope
  induction scope using Nat.strong_induction_on with
  | h scope ih =>
    intro inRange
    obtain ⟨block, isBlock⟩ := mirrors.exists_block inRange
    by_cases isFit : block.kind = .comprehension
    · cases isParent : block.parent with
      | none =>
        have isModule := (rooted.parent scope block isBlock).mp isParent
        cases isFit.symm.trans ((rooted.kind scope block isBlock).mpr isModule)
      | some parent =>
        obtain ⟨older, isOpen⟩ := mirrors.parent_lt nested isBlock isParent
        obtain ⟨outer, closest⟩ := ih parent older isOpen
        exact ⟨outer, .further isBlock (by simp [isFit]) isParent closest⟩
    · exact ⟨scope, .here isBlock (by simpa using isFit)⟩

theorem assignmentScope_iff (nested : tree.Nested) (rooted : Rooted blocks) {scope outer : ScopeId}
    (inRange : scope < tree.size) :
    tree.assignmentScope scope = outer ↔ Closest blocks (· != .comprehension) scope outer := by
  have agree : ∀ scope block, blocks[scope]? = some block →
      (tree.kind? scope != some .comprehension) = (block.kind != .comprehension) := by
    intro scope block isBlock
    rw [(mirrors.ofBlock isBlock).2.1]
    rfl
  obtain ⟨found, closest⟩ := mirrors.exists_closest nested rooted inRange
  have isFound := (mirrors.find?_ancestors nested agree inRange).mpr closest
  rw [assignmentScope, isFound, Option.getD_some, ← mirrors.find?_ancestors nested agree inRange,
    isFound, Option.some_inj]

theorem isGlobal_iff (isBlock : blocks[scope]? = some block) (name : String) :
    tree.isGlobal scope name = true ↔ Declares blocks true scope name := by
  obtain ⟨_, _, _, globals, _⟩ := mirrors.ofBlock isBlock
  simp only [globals, declares_iff, isBlock, Option.some.injEq, exists_eq_left']

theorem isNonlocal_iff (nested : tree.Nested) (isBlock : blocks[scope]? = some block)
    (name : String) :
    tree.isNonlocal scope name = true ↔
      (∃ outer, EnclosedBy blocks scope outer) ∧ Declares blocks false scope name := by
  obtain ⟨_, _, _, _, nonlocals⟩ := mirrors.ofBlock isBlock
  simp only [nonlocals, Option.isSome_iff_exists, mirrors.enclosingFunction?_iff nested isBlock,
    declares_iff, isBlock, Option.some.injEq, exists_eq_left']

theorem landsIn (nested : tree.Nested) {maker : ScopeId} (isBlock : blocks[maker]? = some block)
    (name : String) : LandsIn blocks maker name (tree.bindingScope maker name) := by
  have isGlobal := mirrors.isGlobal_iff isBlock name
  have isNonlocal := mirrors.isNonlocal_iff nested isBlock name
  rw [bindingScope]
  split
  next declared => exact .module (isGlobal.mp declared)
  next undeclared =>
    rw [isGlobal] at undeclared
    split
    next declared =>
      obtain ⟨⟨outer, enclosed⟩, declares⟩ := isNonlocal.mp declared
      rw [(mirrors.enclosingFunction?_iff nested isBlock).mpr enclosed, Option.getD_some]
      exact .enclosing undeclared declares enclosed
    next notNonlocal =>
      refine .own undeclared ?_
      intro outer enclosed declares
      exact notNonlocal (isNonlocal.mpr ⟨⟨outer, enclosed⟩, declares⟩)

end Mirrors

end ScopeTree

namespace ScopeBlock

variable {blocks : List ScopeBlock} {fits : ScopeKind → Bool} {scope outer other : ScopeId}

theorem Closest.unique (first : Closest blocks fits scope outer)
    (second : Closest blocks fits scope other) : outer = other := by
  induction first with
  | here isBlock isFit =>
    rw [closest_iff isBlock, if_pos isFit] at second
    exact second
  | further isBlock isUnfit isParent _ ih =>
    rw [closest_iff isBlock, if_neg (by simp [isUnfit]), isParent] at second
    obtain ⟨parent, ⟨rfl⟩, closest⟩ := second
    exact ih closest

theorem EnclosedBy.unique (first : EnclosedBy blocks scope outer)
    (second : EnclosedBy blocks scope other) : outer = other := by
  obtain ⟨block, parent, isBlock, isParent, closest⟩ := first
  rw [enclosedBy_iff isBlock, isParent] at second
  obtain ⟨parent, ⟨rfl⟩, closest'⟩ := second
  exact closest.unique closest'

theorem LandsIn.unique {maker : ScopeId} {name : String} (first : LandsIn blocks maker name outer)
    (second : LandsIn blocks maker name other) : outer = other := by
  cases first with
  | module isGlobal =>
    cases second with
    | module => rfl
    | enclosing notGlobal => exact absurd isGlobal notGlobal
    | own notGlobal => exact absurd isGlobal notGlobal
  | enclosing notGlobal isNonlocal enclosed =>
    cases second with
    | module isGlobal => exact absurd isGlobal notGlobal
    | enclosing _ _ enclosed' => exact enclosed.unique enclosed'
    | own _ notNonlocal => exact absurd isNonlocal (notNonlocal _ enclosed)
  | own notGlobal notNonlocal =>
    cases second with
    | module isGlobal => exact absurd isGlobal notGlobal
    | enclosing _ isNonlocal enclosed => exact absurd isNonlocal (notNonlocal _ enclosed)
    | own => rfl

end ScopeBlock

namespace Survey.Tells

variable {survey : Survey} {blocks : List ScopeBlock}

theorem bound_iff (tells : survey.Tells blocks) (wellFormed : survey.WellFormed)
    (rooted : Rooted blocks) {scope : ScopeId} {name : String} :
    (∃ binding ∈ survey.bindings, binding.target = scope ∧ binding.name = name) ↔
      (∃ maker, MadeIn blocks name maker ∧ LandsIn blocks maker name scope) ∨
        Spreads blocks scope name := by
  have mirrors := tells.scopes
  have nested := wellFormed.nested
  constructor
  · rintro ⟨binding, mem, rfl, rfl⟩
    obtain ⟨place, said, mentions, isSite⟩ :=
      (tells.bindings binding.site).mp (mem_map_of_mem mem)
    obtain ⟨block, isBlock, _⟩ := id mentions
    have inRange := (mirrors.ofBlock isBlock).1
    rw [Binding.site] at isSite
    cases said with
    | binds name =>
      simp only [Mention.sites, mem_singleton, Prod.mk.injEq] at isSite
      obtain ⟨isTarget, isName, _⟩ := isSite
      rw [isTarget, isName]
      exact .inl ⟨place, .bound mentions rfl, mirrors.landsIn nested isBlock name.text⟩
    | assigns target =>
      simp only [Mention.sites, mem_singleton, Prod.mk.injEq] at isSite
      obtain ⟨isTarget, isName, _⟩ := isSite
      obtain ⟨maker, isMaker⟩ := mirrors.exists_block (ScopeTree.assignmentScope_lt inRange)
      rw [isTarget, isName]
      exact .inl ⟨_, .assigned mentions rfl
        ((mirrors.assignmentScope_iff nested rooted inRange).mp rfl),
        mirrors.landsIn nested isMaker target.text⟩
    | spreads mark names =>
      simp only [Mention.sites, mem_map, Prod.mk.injEq] at isSite
      obtain ⟨spread, isSpread, isTarget, isName, _⟩ := isSite
      exact .inr ⟨mark, names, isTarget ▸ mentions, isName ▸ isSpread⟩
    | _ => cases isSite
  · have exists_binding {place : ScopeId} {said : Mention} {node : NodeId}
        (mentions : Mentions blocks place said)
        (isSite : (scope, name, node) ∈ said.sites survey.scopes place) :
        ∃ binding ∈ survey.bindings, binding.target = scope ∧ binding.name = name := by
      obtain ⟨binding, mem, same⟩ :=
        mem_map.mp ((tells.bindings _).mpr ⟨place, said, mentions, isSite⟩)
      simp only [Binding.site, Prod.mk.injEq] at same
      exact ⟨binding, mem, same.1, same.2.1⟩
    rintro (⟨maker, made, lands⟩ | ⟨mark, names, mentions, isName⟩)
    · cases made with
      | @bound _ _ binds isName =>
        obtain ⟨block, isBlock, _⟩ := id binds
        have isTarget := lands.unique (mirrors.landsIn nested isBlock name)
        apply exists_binding binds
        rw [Mention.sites, mem_singleton, isName, isTarget]
      | @assigned _ _ _ assigns isName closest =>
        obtain ⟨block, isBlock, _⟩ := id assigns
        have inRange := (mirrors.ofBlock isBlock).1
        obtain ⟨outer, isOuter⟩ := mirrors.exists_block (ScopeTree.assignmentScope_lt inRange)
        have isMaker := (mirrors.assignmentScope_iff nested rooted inRange).mpr closest
        rw [isMaker] at isOuter
        have isTarget := lands.unique (mirrors.landsIn nested isOuter name)
        apply exists_binding assigns
        rw [Mention.sites, mem_singleton, isName, isTarget, isMaker]
    · apply exists_binding mentions
      exact mem_map_of_mem isName

theorem declared_iff (tells : survey.Tells blocks) (wellFormed : survey.WellFormed)
    {scope : ScopeId} {name : String} :
    (∃ declaration ∈ survey.declarations,
        Resolution.declaredScope? survey.scopes declaration = some scope ∧
          declaration.name.text = name) ↔
      (scope = moduleScope ∧ ∃ place, Declares blocks true place name) ∨
        ∃ place, Declares blocks false place name ∧ EnclosedBy blocks place scope := by
  have mirrors := tells.scopes
  have nested := wellFormed.nested
  constructor
  · rintro ⟨declaration, mem, isTarget, rfl⟩
    obtain ⟨place, said, mentions, isDeclared⟩ := (tells.declarations declaration).mp mem
    obtain ⟨block, isBlock, _⟩ := id mentions
    cases said with
    | declares isGlobal identifier =>
      obtain rfl := mem_singleton.mp isDeclared
      cases isGlobal with
      | true => exact .inl ⟨(Option.some.inj isTarget).symm, place, identifier, mentions, rfl⟩
      | false =>
        exact .inr ⟨place, ⟨identifier, mentions, rfl⟩,
          (mirrors.enclosingFunction?_iff nested isBlock).mp isTarget⟩
    | _ => cases isDeclared
  · rintro (⟨rfl, place, identifier, mentions, rfl⟩ |
      ⟨place, ⟨identifier, mentions, rfl⟩, enclosed⟩)
    · exact ⟨_, (tells.declarations _).mpr ⟨place, _, mentions, mem_singleton_self _⟩, rfl, rfl⟩
    · obtain ⟨block, isBlock, _⟩ := id mentions
      exact ⟨_, (tells.declarations _).mpr ⟨place, _, mentions, mem_singleton_self _⟩,
        (mirrors.enclosingFunction?_iff nested isBlock).mpr enclosed, rfl⟩

end Survey.Tells

namespace Model

theorem binds_iff (around : Surroundings) (module' : Module) (scope : ScopeId) (name : String) :
    let blocks := module'.scopeBlocks around
    (Model.ofModule around module').table.Binds scope name ↔
      ((∃ maker, MadeIn blocks name maker ∧ LandsIn blocks maker name scope) ∨
        Spreads blocks scope name) ∨
      (scope = moduleScope ∧ ∃ place, Declares blocks true place name) ∨
        ∃ place, Declares blocks false place name ∧ EnclosedBy blocks place scope := by
  have wellFormed := Survey.wellFormed_ofModule around module'
  have tells := Survey.tells_ofModule around module'
  have rooted := module'.scopeBlocks_rooted around
  exact (resolve_binds around wellFormed scope name).trans
    (or_congr (tells.bound_iff wellFormed rooted) (tells.declared_iff wellFormed))

/-- A scope has symbols for just the names that land in it. -/
theorem localNames_exact (around : Surroundings) (module' : Module)
    (noProject : around.project = none) :
    let blocks := module'.scopeBlocks around
    let model := Model.ofModule around module'
    (model.scopes.size = blocks.length ∧ ∀ scope block, blocks[scope]? = some block →
      model.scopes.kind? scope = some block.kind ∧ model.scopes.parent? scope = block.parent) ∧
    (∀ scope name, model.table.Binds scope name ↔
      (∃ maker, MadeIn blocks name maker ∧ LandsIn blocks maker name scope) ∨
      (scope = moduleScope ∧ ∃ place, Declares blocks true place name) ∨
        ∃ place, Declares blocks false place name ∧ EnclosedBy blocks place scope) ∧
    ∀ scope name block, blocks[scope]? = some block → block.kind = .function →
      Declares blocks true scope name →
        (model.table.Binds scope name ↔
          ∃ place, Declares blocks false place name ∧ EnclosedBy blocks place scope) := by
  intro blocks model
  have mirrors := (Survey.tells_ofModule around module').scopes
  have rooted := module'.scopeBlocks_rooted around
  have noSpread (scope : ScopeId) (name : String) : ¬Spreads blocks scope name := by
    rintro ⟨mark, names, spreads, _⟩
    exact Module.project_ne_none_of_spreads spreads noProject
  have binds (scope : ScopeId) (name : String) : model.table.Binds scope name ↔ _ :=
    (binds_iff around module' scope name).trans
      (or_congr_left (or_iff_left (noSpread scope name)))
  refine ⟨⟨?_, ?_⟩, binds, ?_⟩
  · exact mirrors.size_eq.trans (List.length_map _)
  · intro scope block isBlock
    obtain ⟨_, kind, parent, _⟩ := mirrors.ofBlock isBlock
    exact ⟨kind, parent⟩
  · intro scope name block isBlock isFunction isGlobal
    have noModule : scope ≠ moduleScope := by
      intro isModule
      cases isFunction.symm.trans ((rooted.kind scope block isBlock).mpr isModule)
    rw [binds]
    constructor
    · rintro (⟨maker, _, lands⟩ | ⟨isModule, _⟩ | nonlocals)
      · cases lands with
        | module => exact absurd rfl noModule
        | enclosing _ isNonlocal enclosed => exact ⟨maker, isNonlocal, enclosed⟩
        | own notGlobal => exact absurd isGlobal notGlobal
      · exact absurd isModule noModule
      · exact nonlocals
    · intro nonlocals
      exact .inr (.inr nonlocals)

end Model

def Module.tallying : Module :=
  let mark (id : NodeId) : Mark := ⟨id, ⟨0, 0⟩⟩
  let name (id : NodeId) (text : String) : Expr := .name ⟨mark id, text⟩
  let assign (id : NodeId) (value : Expr) : Stmt :=
    .simple (mark id) (.assign [name (id + 1) "total"] value)
  let define (id : NodeId) (text : String) (body : List Stmt) : Stmt :=
    .functionDef ⟨mark id, ⟨mark (id + 1), text⟩, [], none, [], false⟩ body
  let each : Expr := .comprehension (mark 20) .list (.named (mark 21) ⟨mark 22, "last"⟩
    (name 23 "item")) none [⟨⟨0, 0⟩, name 25 "item", name 26 "items", [], false⟩]
  ⟨mark 0,
    [define 1 "tally"
      [assign 3 (.literal (mark 5) .int "0" []),
        define 6 "add"
          [.simple (mark 8) (.nonlocalNames [⟨mark 9, "total"⟩]), assign 10 each],
        define 12 "clear"
          [.simple (mark 14) (.globalNames [⟨mark 15, "total"⟩]),
            assign 16 (.literal (mark 18) .int "0" [])]]]⟩

theorem Module.tallying_localNames :
    let around : Surroundings := ⟨"", "tally.py", none, {}⟩
    let blocks := tallying.scopeBlocks around
    let model := Model.ofModule around tallying
    around.project = none ∧ model.scopes.kind? 3 = some .comprehension ∧
      model.table.Binds 2 "last" ∧ model.table.Binds 1 "total" ∧
      ¬∃ place, Declares blocks false place "total" ∧ EnclosedBy blocks place 4 := by
  intro around blocks model
  obtain ⟨⟨_, scopes⟩, binds, globals⟩ := Model.localNames_exact around tallying rfl
  have lands : LandsIn blocks 2 "last" 2 :=
    .own (by decide +kernel) fun _ _ => by decide +kernel
  have inner : blocks[3]? = some ⟨.comprehension, some 2, _⟩ := rfl
  have assigns : Mentions blocks 3 (.assigns ⟨⟨22, ⟨0, 0⟩⟩, "last"⟩) :=
    ⟨_, inner, by decide +kernel⟩
  have made : MadeIn blocks "last" 2 :=
    .assigned assigns rfl (.further inner rfl rfl (.here rfl rfl))
  have enclosed : EnclosedBy blocks 2 1 := ⟨_, 1, rfl, rfl, .here rfl rfl⟩
  refine ⟨rfl, (scopes 3 _ rfl).1, (binds 2 "last").mpr (.inl ⟨2, made, lands⟩),
    (binds 1 "total").mpr (.inr (.inr ⟨2, by decide +kernel, enclosed⟩)), ?_⟩
  rw [← globals 4 "total" _ rfl rfl (by decide +kernel)]
  decide +kernel

end PyStatic
