import PyStatic.Types.Inference
import PyStatic.Proofs.Binding.DeclaredNames
import PyStatic.Proofs.Binding.Standing
import PyStatic.Proofs.Syntax.Identifiers

/-!
Contract: a survey is a run of single notes.

Owns what one note adds, and what the notes on a piece of syntax say of it. Which notes are made for
which syntax is shown elsewhere.
-/

namespace PyStatic

open List ScopeItem

structure Opening where
  kind : ScopeKind
  parent : Option ScopeId
  globals : List String
  nonlocals : List String

def ScopeBlock.opening (block : ScopeBlock) : Opening :=
  ⟨block.kind, block.parent, Mention.declared true block.mentions,
    Mention.declared false block.mentions⟩

/-- One entry that is made while a module is surveyed. -/
inductive Note where
  | node (scope : ScopeId) (id : NodeId)
  | read (scope : ScopeId) (name : Identifier)
  | bound (scope : ScopeId) (usage : UsageKind) (origin : BindingOrigin) (name : Identifier)
  | assigned (scope : ScopeId) (target : Identifier)
  | member (value : Expr) (attr : Identifier)
  | receiver (scope : ScopeId) (value : Expr) (attr : Identifier)
  | declared (scope : ScopeId) (isGlobal : Bool) (names : List Identifier)
  | dynamic (scope : ScopeId)
  | opened (kind : ScopeKind) (parent : ScopeId) (mark : Mark) (name : Option String)
      (body : List Stmt) (receiver : Option String)
  | wildcard (scope : ScopeId) (mark : Mark) (module' : String) (exports : List Export)
  | unfollowed
  | function (site : FunctionSite)
  | ofClass (site : ClassSite)

namespace Note

def scope? : Note → Option ScopeId
  | node scope _ | read scope _ | bound scope _ _ _ | assigned scope _ | receiver scope _ _
  | declared scope _ _ | dynamic scope | opened _ scope _ _ _ _ | wildcard scope _ _ _ =>
    some scope
  | member _ _ | unfollowed | function _ | ofClass _ => none

def ids : Note → List NodeId
  | read _ name | bound _ _ _ name | assigned _ name | member _ name => [name.id]
  | declared _ _ names => names.map (·.id)
  | _ => []

def marks : Note → List Mark
  | bound _ _ _ name | assigned _ name | receiver _ _ name => [name.mark]
  | wildcard _ mark _ _ => [mark]
  | _ => []

def mentions : Note → List (ScopeId × Mention)
  | read scope name => [(scope, .reads name)]
  | bound scope _ _ name => [(scope, .binds name)]
  | assigned scope target => [(scope, .assigns target)]
  | declared scope isGlobal names => names.map fun name => (scope, .declares isGlobal name)
  | wildcard scope mark _ exports =>
    [(scope, .spreads mark ((exports.map (·.name)).filter (!·.isEmpty)))]
  | _ => []

def openings : Note → List Opening
  | opened kind parent _ _ body _ =>
    [⟨kind, some parent, Survey.declaredGlobal body, Survey.declaredNonlocal body⟩]
  | _ => []

def openers : Note → List NodeId
  | opened _ _ mark _ _ _ => [mark.id]
  | _ => []

end Note

namespace Survey

variable (survey : Survey) (scope : ScopeId)

def note (survey : Survey) : Note → Survey
  | .node scope id => survey.noteNode scope id
  | .read scope name => survey.addRead scope name
  | .bound scope usage origin name => survey.addBinding scope usage origin name
  | .assigned scope target =>
    (survey.addBinding (survey.scopes.assignmentScope scope) .assignmentTarget .plain
      target).addRead scope target
  | .member value attr => survey.addAttributeRead value attr
  | .receiver scope value attr => survey.addInstanceAttribute scope value attr
  | .declared scope isGlobal names => survey.addDeclarations scope isGlobal names
  | .dynamic scope => survey.markDynamicNamespace scope
  | .opened kind parent mark name body receiver =>
    survey.openScope kind (some parent) mark name body receiver
  | .wildcard scope mark module' exports => survey.addWildcard scope mark module' exports
  | .unfollowed => survey.markWildcard
  | .function site => { survey with functions := survey.functions ++ [site] }
  | .ofClass site => { survey with classes := survey.classes ++ [site] }

/-- A note goes into a scope that is there, and no class has the module for its body. -/
structure Fits (survey : Survey) (note : Note) : Prop where
  isOpen : ∀ scope, note.scope? = some scope → scope < survey.scopes.size
  isInner : ∀ site, note = .ofClass site → site.body ≠ moduleScope

/-- Each note fits when it is made. -/
inductive Run : Survey → List Note → Survey → Prop
  | nil (survey : Survey) : Run survey [] survey
  | cons {survey after : Survey} {note : Note} {notes : List Note} (fits : survey.Fits note)
      (rest : Run (survey.note note) notes after) : Run survey (note :: notes) after

theorem Run.append {before between after : Survey} {first second : List Note}
    (left : Run before first between) (right : Run between second after) :
    Run before (first ++ second) after := by
  induction left with
  | nil => exact right
  | cons fits _ ih => exact .cons fits (ih right)

theorem addDeclarations_eq (isGlobal : Bool) (names : List Identifier) :
    ∃ nodeScopes, survey.addDeclarations scope isGlobal names =
      { survey with
        nodeScopes
        declarations := survey.declarations ++ names.map fun name => ⟨name, scope, isGlobal⟩ } := by
  have noted : ∀ (names : List Identifier) (survey : Survey), ∃ nodeScopes,
      names.foldl (fun survey name => survey.noteNode scope name.id) survey =
        { survey with nodeScopes } := by
    intro names
    induction names with
    | nil => exact fun survey => ⟨survey.nodeScopes, rfl⟩
    | cons _ _ ih => exact fun survey => ih _
  obtain ⟨nodeScopes, same⟩ := noted names survey
  refine ⟨nodeScopes, ?_⟩
  rw [addDeclarations, same]

theorem addInstanceAttribute_eq (value : Expr) (attr : Identifier) :
    survey.addInstanceAttribute scope value attr = survey ∨
      ∃ classScope base, value = .name base ∧
        survey.addInstanceAttribute scope value attr =
          { survey with
            instanceAttributes := survey.instanceAttributes ++ [⟨classScope, attr⟩] } := by
  unfold addInstanceAttribute
  split
  next method base found isName =>
    split
    next receiver classScope _ _ =>
      split
      · refine .inr ⟨classScope, base, ?_, rfl⟩
        cases value with
        | name => exact congrArg Expr.name (Option.some.inj isName)
        | _ => cases isName
      · exact .inl rfl
    · exact .inl rfl
  · exact .inl rfl

theorem size_markDynamicNamespace :
    (survey.markDynamicNamespace scope).scopes.size = survey.scopes.size := by
  have marked : ∀ (ids : List ScopeId) (tree : ScopeTree),
      (ids.foldl (fun tree id => tree.modify id fun scope =>
        { scope with usesDynamicNamespace := true }) tree).size = tree.size := by
    intro ids
    induction ids with
    | nil => exact fun _ => rfl
    | cons _ _ ih =>
      exact fun tree => (ih _).trans Array.size_modify
  exact marked _ _

theorem scopes_receiver (value : Expr) (attr : Identifier) :
    (survey.addInstanceAttribute scope value attr).scopes = survey.scopes := by
  rcases survey.addInstanceAttribute_eq scope value attr with same | ⟨_, _, _, same⟩
  · rw [same]
  · rw [same]

theorem scopes_declared (isGlobal : Bool) (names : List Identifier) :
    (survey.addDeclarations scope isGlobal names).scopes = survey.scopes := by
  obtain ⟨_, same⟩ := survey.addDeclarations_eq scope isGlobal names
  rw [same]

theorem size_note (note : Note) :
    (survey.note note).scopes.size = survey.scopes.size + note.openings.length := by
  cases note with
  | receiver scope value attr =>
    exact congrArg ScopeTree.size (survey.scopes_receiver scope value attr)
  | declared scope isGlobal names =>
    exact congrArg ScopeTree.size (survey.scopes_declared scope isGlobal names)
  | member value => cases value <;> rfl
  | opened => exact Array.size_push _
  | dynamic scope => exact survey.size_markDynamicNamespace scope
  | _ => rfl

theorem Run.size_eq {before after : Survey} {notes : List Note} (run : Run before notes after) :
    after.scopes.size = before.scopes.size + (notes.flatMap Note.openings).length := by
  induction run with
  | nil => rfl
  | cons _ _ ih =>
    rw [ih, size_note, flatMap_cons, length_append, Nat.add_assoc]


theorem size_le_note (note : Note) : survey.scopes.size ≤ (survey.note note).scopes.size := by
  rw [size_note]
  exact Nat.le_add_right ..

end Survey

def Note.Tells (notes : List Note) (name : Identifier) : Prop :=
  (∃ scope, .read scope name ∈ notes) ∨ ∃ scope usage, .bound scope usage .plain name ∈ notes

theorem Note.Tells.mono {notes more : List Note} {name : Identifier} (tells : Note.Tells notes name)
    (subset : notes ⊆ more) : Note.Tells more name :=
  tells.imp (fun ⟨scope, isIn⟩ => ⟨scope, subset isIn⟩)
    fun ⟨scope, usage, isIn⟩ => ⟨scope, usage, subset isIn⟩

def Visited.owner? (node : Visited) : Option NodeId :=
  (node.stmt?.bind (·.inferenceBody?)).map (·.node)

/-- Notes that say in their order what `items` mention and open. -/
structure Note.Account (around : Surroundings) (scope next : ScopeId) (notes : List Note)
    (items : List ScopeItem) (identifiers : List Identifier) (visited : List Visited)
    (bindings : Bindings) : Prop where
  mentions : notes.flatMap Note.mentions = ScopeItem.placedOfAll scope next items
  openings : notes.flatMap Note.openings =
    (ScopeItem.blocksOfAll scope next items).map ScopeBlock.opening
  stand : ScopeItem.Stand scope next (ScopeItem.blocksOfAll scope next items)
  count_le : ∀ id, (notes.flatMap Note.ids).count id ≤ (identifiers.map (·.id)).count id
  marks_le : ∀ mark, (notes.flatMap Note.marks).count mark ≤ bindings.marks.count mark
  receivers : ∀ scope value attr, .receiver scope value attr ∈ notes → .member value attr ∈ notes
  wildcards : ∀ scope mark module' exports, .wildcard scope mark module' exports ∈ notes →
    around.project ≠ none
  names : (∀ node ∈ visited, node.Plain) → ∀ name, .expr (.name name) ∈ visited →
    Note.Tells notes name
  owners : ∀ node ∈ visited, ∀ owner, node.owner? = some owner → owner ∈ notes.flatMap Note.openers

def Surveys (around : Surroundings) (scope : ScopeId) (before after : Survey)
    (items : List ScopeItem) (identifiers : List Identifier) (visited : List Visited)
    (bindings : Bindings) : Prop :=
  ∃ notes, Survey.Run before notes after ∧
    Note.Account around scope before.nextScope notes items identifiers visited bindings

namespace Surveys

variable {around : Surroundings} {scope : ScopeId} {before between after : Survey}
variable {items others : List ScopeItem} {identifiers otherIdentifiers : List Identifier}
variable {visited further : List Visited} {bindings otherBindings : Bindings}

theorem size_eq (surveys : Surveys around scope before after items identifiers visited bindings) :
    after.nextScope = before.nextScope + ScopeItem.scopeCountOfAll items := by
  obtain ⟨notes, run, account⟩ := surveys
  rw [Survey.nextScope, run.size_eq, account.openings, length_map, length_blocksOfAll]
  rfl

theorem lt_size (surveys : Surveys around scope before after items identifiers visited bindings)
    {other : ScopeId} (isOpen : other < before.scopes.size) : other < after.scopes.size := by
  obtain ⟨notes, run, _⟩ := surveys
  rw [run.size_eq]
  exact Nat.lt_add_right _ isOpen

theorem nil (survey : Survey) : Surveys around scope survey survey [] [] [] .empty :=
  ⟨[], .nil survey, rfl, rfl, .nil scope _, by simp, by simp, by simp, by simp, by simp, by simp⟩

theorem trans (first : Surveys around scope before between items identifiers visited bindings)
    (second : Surveys around scope between after others otherIdentifiers further otherBindings) :
    Surveys around scope before after (items ++ others) (identifiers ++ otherIdentifiers)
      (visited ++ further) (bindings ++ otherBindings) := by
  have grown := first.size_eq
  obtain ⟨notes, run, account⟩ := first
  obtain ⟨rest, run', account'⟩ := second
  refine ⟨notes ++ rest, run.append run', ?_, ?_, ?_, ?_, ?_, ?_, ?_, ?_, ?_⟩
  · rw [flatMap_append, account.mentions, account'.mentions, grown, placedOfAll_append]
  · rw [flatMap_append, account.openings, account'.openings, grown,
      blocksOfAll_append, map_append]
  · have standRest := account'.stand
    rw [grown] at standRest
    rw [blocksOfAll_append]
    rw [← length_blocksOfAll items scope before.nextScope] at standRest ⊢
    exact account.stand.append standRest
  · intro id
    rw [flatMap_append, map_append, count_append, count_append]
    exact Nat.add_le_add (account.count_le id) (account'.count_le id)
  · intro mark
    rw [flatMap_append, Bindings.marks_append, count_append, count_append]
    exact Nat.add_le_add (account.marks_le mark) (account'.marks_le mark)
  · intro scope value attr mem
    exact mem_append.mpr ((mem_append.mp mem).imp (account.receivers scope value attr)
      (account'.receivers scope value attr))
  · intro scope mark module' exports mem
    exact (mem_append.mp mem).elim (account.wildcards scope mark module' exports)
      (account'.wildcards scope mark module' exports)
  · intro plain name mem
    rcases mem_append.mp mem with mem | mem
    · exact (account.names (fun node isIn => plain node (mem_append_left _ isIn)) name
        mem).mono (subset_append_left ..)
    · exact (account'.names (fun node isIn => plain node (mem_append_right _ isIn)) name
        mem).mono (subset_append_right ..)
  · intro node mem owner isOwner
    rw [flatMap_append, mem_append]
    exact (mem_append.mp mem).imp (account.owners node · owner isOwner)
      (account'.owners node · owner isOwner)

theorem mono (surveys : Surveys around scope before after items identifiers visited bindings)
    (count_le : ∀ id, (identifiers.map (·.id)).count id ≤ (otherIdentifiers.map (·.id)).count id)
    (marks_le : ∀ mark, bindings.marks.count mark ≤ otherBindings.marks.count mark)
    (subset : visited ⊆ further)
    (names : (∀ node ∈ further, node.Plain) → ∀ name, .expr (.name name) ∈ further →
      .expr (.name name) ∈ visited)
    (owners : ∀ node ∈ further, node.owner? ≠ none → node ∈ visited) :
    Surveys around scope before after items otherIdentifiers further otherBindings := by
  obtain ⟨notes, run, account⟩ := surveys
  refine ⟨notes, run, account.mentions, account.openings, account.stand,
    fun id => Nat.le_trans (account.count_le id) (count_le id),
    fun mark => Nat.le_trans (account.marks_le mark) (marks_le mark), account.receivers,
    account.wildcards, ?_, ?_⟩
  · intro plain name mem
    exact account.names (fun node isIn => plain node (subset isIn)) name (names plain name mem)
  · intro node mem owner isOwner
    exact account.owners node (owners node mem (by simp [isOwner])) owner isOwner

theorem opens {kind : ScopeKind} {mark : Mark} {name : Option String} {body : List Stmt}
    {receiver : Option String}
    (inside : Surveys around before.nextScope
      (before.openScope kind (some scope) mark name body receiver) after items identifiers visited
      bindings)
    (isOpen : scope < before.scopes.size) (noModule : kind ≠ .topLevel)
    (fits : kind.isDefinition = true ∨ ∀ block ∈ ScopeItem.blocksOfAll before.nextScope
      (before.nextScope + 1) items, block.kind.isDefinition = false)
    (globals : Survey.declaredGlobal body = ScopeItem.declared true items)
    (nonlocals : Survey.declaredNonlocal body = ScopeItem.declared false items)
    (definition : List Stmt)
    (owned : ∀ stmt ∈ definition, (Visited.stmt stmt).owner? = some mark.id) :
    Surveys around scope before after [.opens kind items] identifiers
      (definition.map .stmt ++ visited) bindings := by
  have grown : (before.openScope kind (some scope) mark name body receiver).nextScope =
      before.nextScope + 1 :=
    Survey.size_note before (.opened kind scope mark name body receiver)
  obtain ⟨notes, run, account⟩ := inside
  refine ⟨.opened kind scope mark name body receiver :: notes, .cons ?_ run, ?_, ?_, ?_,
    account.count_le, account.marks_le, ?_, ?_, ?_, ?_⟩
  · exact ⟨fun other speaks => Option.some.inj speaks ▸ isOpen, nofun⟩
  · rw [flatMap_cons, account.mentions, grown, ScopeItem.placedOfAll, ScopeItem.placed,
      ScopeItem.placedOfAll, append_nil]
    rfl
  · rw [flatMap_cons, account.openings, grown, ScopeItem.blocksOfAll, ScopeItem.blocks,
      ScopeItem.blocksOfAll, append_nil, map_cons, Note.openings, globals, nonlocals]
    rfl
  · have inside := account.stand
    rw [grown] at inside
    rw [ScopeItem.blocksOfAll, ScopeItem.blocks, ScopeItem.blocksOfAll, append_nil]
    exact inside.opens noModule fits
  · intro other value attr mem
    rcases mem_cons.mp mem with same | mem
    · cases same
    · exact mem_cons_of_mem _ (account.receivers other value attr mem)
  · intro other mark module' exports mem
    rcases mem_cons.mp mem with same | mem
    · cases same
    · exact account.wildcards other mark module' exports mem
  · intro plain told mem
    rcases mem_append.mp mem with mem | mem
    · obtain ⟨stmt, _, same⟩ := mem_map.mp mem
      cases same
    · exact (account.names (fun node isIn => plain node (mem_append_right _ isIn)) told
        mem).mono (subset_cons_self ..)
  · intro node mem owner isOwner
    rw [flatMap_cons, mem_append]
    rcases mem_append.mp mem with mem | mem
    · obtain ⟨stmt, isIn, rfl⟩ := mem_map.mp mem
      rw [owned stmt isIn] at isOwner
      exact .inl (mem_singleton.mpr (Option.some.inj isOwner).symm)
    · exact .inr (account.owners node mem owner isOwner)

end Surveys

namespace Survey

theorem nextScope_lt_openScope (survey : Survey) (kind : ScopeKind) (parent : Option ScopeId)
    (mark : Mark) (name : Option String) (body : List Stmt) (receiver : Option String) :
    survey.nextScope < (survey.openScope kind parent mark name body receiver).scopes.size := by
  show survey.scopes.scopes.size < (survey.scopes.scopes.push _).size
  rw [Array.size_push]
  exact Nat.lt_succ_self _

theorem lastScope_openScope (survey : Survey) (kind : ScopeKind) (parent : Option ScopeId)
    (mark : Mark) (name : Option String) (body : List Stmt) (receiver : Option String) :
    (survey.openScope kind parent mark name body receiver).lastScope = survey.nextScope := by
  show (survey.scopes.scopes.push _).size - 1 = survey.scopes.scopes.size
  rw [Array.size_push, Nat.add_sub_cancel]

end Survey

def Noted (around : Surroundings) (scope : ScopeId) (step : Survey → Survey)
    (items : List ScopeItem) (identifiers : List Identifier) (visited : List Visited)
    (bindings : Bindings) : Prop :=
  ∀ survey, scope < survey.scopes.size →
    Surveys around scope survey (step survey) items identifiers visited bindings

namespace Noted

variable {around : Surroundings} {scope : ScopeId} {step next : Survey → Survey}
variable {items others : List ScopeItem} {identifiers otherIdentifiers : List Identifier}
variable {visited further : List Visited} {bindings otherBindings : Bindings}
  {inside : ScopeId → Survey → Survey}

theorem nothing : Noted around scope (fun survey => survey) [] [] [] .empty :=
  fun survey _ => .nil survey

theorem andThen (first : Noted around scope step items identifiers visited bindings)
    (second : Noted around scope next others otherIdentifiers further otherBindings) :
    Noted around scope (fun survey => next (step survey)) (items ++ others)
      (identifiers ++ otherIdentifiers) (visited ++ further) (bindings ++ otherBindings) :=
  fun survey isOpen =>
    (first survey isOpen).trans (second _ ((first survey isOpen).lt_size isOpen))

theorem thenSilently (noted : Noted around scope step items identifiers visited bindings)
    (silent : Noted around scope next [] [] [] .empty) :
    Noted around scope (fun survey => next (step survey)) items identifiers visited bindings := by
  have both := noted.andThen silent
  rw [append_nil, append_nil, append_nil, Bindings.append_empty] at both
  exact both

theorem reorder (noted : Noted around scope step items identifiers visited bindings)
    (same : ∀ node, node ∈ further ↔ node ∈ visited) :
    Noted around scope step items identifiers further bindings :=
  fun survey isOpen => (noted survey isOpen).mono (fun _ => Nat.le_refl _) (fun _ => Nat.le_refl _)
    (fun node isIn => (same node).mpr isIn) (fun _ _ isIn => (same _).mp isIn)
    fun node isIn _ => (same node).mp isIn

theorem among (noted : Noted around scope step items identifiers visited bindings)
    (count_le : ∀ id, (identifiers.map (·.id)).count id ≤ (otherIdentifiers.map (·.id)).count id)
    (marks_le : ∀ mark, bindings.marks.count mark ≤ otherBindings.marks.count mark) :
    Noted around scope step items otherIdentifiers visited otherBindings :=
  fun survey isOpen => (noted survey isOpen).mono count_le marks_le (fun _ isIn => isIn)
    (fun _ _ isIn => isIn) fun _ isIn _ => isIn

theorem bindAmong (noted : Noted around scope step items identifiers visited bindings)
    (marks_le : ∀ mark, bindings.marks.count mark ≤ otherBindings.marks.count mark) :
    Noted around scope step items identifiers visited otherBindings :=
  noted.among (fun _ => Nat.le_refl _) marks_le

theorem visit (noted : Noted around scope step items identifiers visited bindings)
    {node : Visited} (isNoName : node.expr?.bind (·.name?) = none)
    (isNoOwner : node.owner? = none) :
    Noted around scope step items identifiers (node :: visited) bindings := by
  intro survey isOpen
  refine (noted survey isOpen).mono (fun _ => Nat.le_refl _) (fun _ => Nat.le_refl _)
    (subset_cons_self ..) ?_ ?_
  · intro _ name mem
    rcases mem_cons.mp mem with rfl | mem
    · cases isNoName
    · exact mem
  · intro other mem isOwner
    rcases mem_cons.mp mem with rfl | mem
    · exact absurd isNoOwner isOwner
    · exact mem

theorem opens
    (noted : ∀ inner, inner ≠ moduleScope →
      Noted around inner (inside inner) items identifiers visited bindings)
    (scope : ScopeId) (kind : ScopeKind) (mark : Mark) (name : Option String) (body : List Stmt)
    (receiver : Survey → Option String) (noModule : kind ≠ .topLevel)
    (fits : kind.isDefinition = true ∨ ScopeItem.AllInExpr items)
    (globals : Survey.declaredGlobal body = ScopeItem.declared true items)
    (nonlocals : Survey.declaredNonlocal body = ScopeItem.declared false items)
    (definition : List Stmt)
    (owned : ∀ stmt ∈ definition, (Visited.stmt stmt).owner? = some mark.id) :
    Noted around scope (fun survey => inside survey.nextScope
        (survey.openScope kind (some scope) mark name body (receiver survey)))
      [.opens kind items] identifiers (definition.map .stmt ++ visited) bindings :=
  fun survey isOpen =>
    (noted _ (Nat.ne_zero_of_lt isOpen) _
      (survey.nextScope_lt_openScope kind (some scope) mark name body _)).opens isOpen noModule
       (fits.imp id fun inExpr => (inExpr.stand _ _).2) globals nonlocals definition owned

theorem opensExpr
    (noted : ∀ inner, Noted around inner (inside inner) items identifiers visited bindings)
    (kind : ScopeKind) (mark : Mark) (noModule : kind ≠ .topLevel)
    (inExpr : ScopeItem.AllInExpr items) :
    Noted around scope (fun survey => inside survey.nextScope
        (survey.openScope kind (some scope) mark none [] none))
      [.opens kind items] identifiers visited bindings :=
  opens (fun inner _ => noted inner) scope kind mark none [] (fun _ => none) noModule (.inr inExpr)
    inExpr.declared.symm inExpr.declared.symm [] nofun

end Noted

def Note.Alone (around : Surroundings) : Note → Prop
  | receiver .. => False
  | wildcard .. => around.project ≠ none
  | ofClass site => site.body ≠ moduleScope
  | _ => True

namespace Survey

variable (around : Surroundings) {scope : ScopeId}

theorem noted_note (note : Note) (speaks : note.scope? = some scope ∨ note.scope? = none)
    (alone : note.Alone around)
    (opensNone : note.openings = []) (said : List Mention) (identifiers : List Identifier)
    (visited : List Visited) (bindings : Bindings) (isSaid : note.mentions = said.map (scope, ·))
    (sameIds : note.ids = identifiers.map (·.id)) (sameMarks : note.marks = bindings.marks)
    (told : ∀ node ∈ visited, ∃ name, node = .expr (.name name) ∧ Note.Tells [note] name) :
    Noted around scope (·.note note) (said.map .mention) identifiers visited bindings := by
  intro survey isOpen
  have fits : survey.Fits note := by
    constructor
    · intro other isOther
      rcases speaks with same | none'
      · exact Option.some.inj (same.symm.trans isOther) ▸ isOpen
      · cases none'.symm.trans isOther
    · rintro site rfl
      exact alone
  obtain ⟨placed, blocks⟩ := mentioning_eq scope survey.nextScope said
  refine ⟨[note], .cons fits (.nil _), ?_, ?_, ?_, ?_, ?_, ?_, ?_, ?_, ?_⟩
  · rw [flatMap_singleton, isSaid, placed]
  · rw [flatMap_singleton, opensNone, blocks, map_nil]
  · rw [blocks]
    exact .nil scope _
  · exact fun id => Nat.le_of_eq (by rw [flatMap_singleton, sameIds])
  · exact fun mark => Nat.le_of_eq (by rw [flatMap_singleton, sameMarks])
  · intro scope value attr mem
    obtain rfl := mem_singleton.mp mem
    exact alone.elim
  · intro scope mark module' exports mem
    obtain rfl := mem_singleton.mp mem
    exact alone
  · intro _ name mem
    obtain ⟨other, same, tells⟩ := told _ mem
    cases same
    exact tells
  · intro node mem owner isOwner
    obtain ⟨other, rfl, _⟩ := told node mem
    cases isOwner

theorem noted_silently (note : Note) (speaks : note.scope? = some scope ∨ note.scope? = none)
    (alone : note.Alone around) (opensNone : note.openings = []) (saysNone : note.mentions = [])
    (noIds : note.ids = []) (noMarks : note.marks = []) :
    Noted around scope (·.note note) [] [] [] .empty :=
  noted_note around note speaks alone opensNone [] [] [] .empty saysNone noIds noMarks nofun

theorem noted_noteNode (node : NodeId) :
    Noted around scope (·.noteNode scope node) [] [] [] .empty :=
  noted_silently around (.node scope node) (.inl rfl) trivial rfl rfl rfl rfl

theorem noted_markDynamicNamespace :
    Noted around scope (·.markDynamicNamespace scope) [] [] [] .empty :=
  noted_silently around (.dynamic scope) (.inl rfl) trivial rfl rfl rfl rfl

theorem noted_markWildcard : Noted around scope (·.markWildcard) [] [] [] .empty :=
  noted_silently around .unfollowed (.inr rfl) trivial rfl rfl rfl rfl

theorem noted_function (site : FunctionSite) :
    Noted around scope (·.note (.function site)) [] [] [] .empty :=
  noted_silently around (.function site) (.inr rfl) trivial rfl rfl rfl rfl

theorem noted_class (site : ClassSite) (isInner : site.body ≠ moduleScope) :
    Noted around scope (·.note (.ofClass site)) [] [] [] .empty :=
  noted_silently around (.ofClass site) (.inr rfl) isInner rfl rfl rfl rfl

theorem noted_addRead (name : Identifier) :
    Noted around scope (·.addRead scope name) [.mention (.reads name)] [name]
      [.expr (.name name)] .empty := by
  refine noted_note around (.read scope name) (.inl rfl) trivial rfl [.reads name] [name]
    [.expr (.name name)] .empty rfl rfl rfl fun node mem => ?_
  exact ⟨name, mem_singleton.mp mem, .inl ⟨scope, mem_singleton_self _⟩⟩

theorem noted_addBinding (usage : UsageKind) (origin : BindingOrigin) (name : Identifier) :
    Noted around scope (·.addBinding scope usage origin name) (ScopeItem.binding [name]) [name] []
      (.names [name]) :=
  noted_note around (.bound scope usage origin name) (.inl rfl) trivial rfl [.binds name] [name]
    [] (.names [name]) rfl rfl rfl nofun

theorem noted_addPlainBinding (usage : UsageKind) (name : Identifier) :
    Noted around scope (·.addBinding scope usage .plain name) [.mention (.binds name)] [name]
      [.expr (.name name)] (.names [name]) := by
  refine noted_note around (.bound scope usage .plain name) (.inl rfl) trivial rfl [.binds name]
    [name] [.expr (.name name)] (.names [name]) rfl rfl rfl fun node mem => ?_
  exact ⟨name, mem_singleton.mp mem, .inr ⟨scope, usage, mem_singleton_self _⟩⟩

theorem noted_addBindings (usage : UsageKind) (names : List Identifier) :
    Noted around scope (·.addBindings scope usage names) (ScopeItem.binding names) names []
      (.names names) := by
  induction names with
  | nil => exact .nothing
  | cons name _ ih =>
    exact (noted_addBinding around usage .plain name).andThen ih

theorem noted_assigned (target : Identifier) :
    Noted around scope (·.note (.assigned scope target)) [.mention (.assigns target)] [target] []
      (.names [target]) :=
  noted_note around (.assigned scope target) (.inl rfl) trivial rfl [.assigns target] [target]
    [] (.names [target]) rfl rfl rfl nofun

theorem noted_addAttributeRead (value : Expr) (attr : Identifier) :
    Noted around scope (·.addAttributeRead value attr) [] [attr] [] .empty :=
  noted_note around (.member value attr) (.inr rfl) trivial rfl [] [attr] [] .empty rfl rfl
    rfl nofun

theorem noted_addDeclarations (isGlobal : Bool) (names : List Identifier) :
    Noted around scope (·.addDeclarations scope isGlobal names)
      (ScopeItem.declaring isGlobal names) names [] .empty := by
  have noted : Noted around scope (·.note (.declared scope isGlobal names))
      ((names.map (.declares isGlobal)).map .mention) names [] .empty :=
    noted_note around (.declared scope isGlobal names) (.inl rfl) trivial rfl
      (names.map (.declares isGlobal)) names [] .empty (map_map ..).symm rfl rfl nofun
  rwa [map_map] at noted

end Survey

theorem Noted.receiver {around : Surroundings} {scope : ScopeId} {step : Survey → Survey}
    {items : List ScopeItem} {identifiers : List Identifier} {visited : List Visited}
    {bindings : Bindings} (noted : Noted around scope step items identifiers visited bindings)
    (value : Expr) (attr : Identifier) :
    Noted around scope (fun survey =>
        (step (survey.addInstanceAttribute scope value attr)).addAttributeRead value attr)
      items (identifiers ++ [attr]) visited (bindings ++ .names [attr]) := by
  intro survey isOpen
  have isOpenStill : scope < (survey.addInstanceAttribute scope value attr).scopes.size :=
    Nat.lt_of_lt_of_le isOpen (survey.size_le_note (.receiver scope value attr))
  obtain ⟨notes, run, account⟩ := noted _ isOpenStill
  have fits : survey.Fits (.receiver scope value attr) :=
    ⟨fun _ isOther => Option.some.inj isOther ▸ isOpen, nofun⟩
  have sameNext : (survey.addInstanceAttribute scope value attr).nextScope = survey.nextScope :=
    survey.size_note (.receiver scope value attr)
  have kept : notes ⊆ .receiver scope value attr :: notes ++ [.member value attr] :=
    fun _ isIn => mem_append_left _ (mem_cons_of_mem _ isIn)
  have cases' {note : Note} (isIn : note ∈ .receiver scope value attr :: notes ++
      [.member value attr]) : note = .receiver scope value attr ∨ note ∈ notes ∨
        note = .member value attr := by
    simpa using isIn
  have flat {α : Type} (part : Note → List α) :
      (Note.receiver scope value attr :: notes ++ [Note.member value attr]).flatMap part =
        part (.receiver scope value attr) ++ notes.flatMap part ++ part (.member value attr) := by
    simp
  refine ⟨.receiver scope value attr :: notes ++ [.member value attr], ?_, ?_, ?_,
    sameNext ▸ account.stand, ?_, ?_, ?_, ?_, ?_, ?_⟩
  · exact .cons fits (run.append (.cons ⟨nofun, nofun⟩ (.nil _)))
  · rw [flat, account.mentions, sameNext]
    exact append_nil _
  · rw [flat, account.openings, sameNext]
    exact append_nil _
  · intro id
    have below := account.count_le id
    simp only [flat, Note.ids, map_append, map_cons, map_nil, count_append, nil_append]
    omega
  · intro mark
    have below := account.marks_le mark
    simp only [flat, Note.marks, Bindings.marks_append, Bindings.names, map_cons,
      map_nil, count_append, append_nil]
    omega
  · intro other otherValue otherAttr mem
    rcases cases' mem with same | mem | same
    · cases same
      exact mem_append_right _ (mem_singleton_self _)
    · exact kept (account.receivers other otherValue otherAttr mem)
    · cases same
  · intro other mark module' exports mem
    rcases cases' mem with same | mem | same
    · cases same
    · exact account.wildcards other mark module' exports mem
    · cases same
  · exact fun plain name mem => (account.names plain name mem).mono kept
  · intro node mem owner isOwner
    obtain ⟨note, isIn, opens⟩ := mem_flatMap.mp (account.owners node mem owner isOwner)
    exact mem_flatMap.mpr ⟨note, kept isIn, opens⟩

end PyStatic
