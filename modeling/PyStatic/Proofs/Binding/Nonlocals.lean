import Mathlib.Data.List.Perm.Subperm
import PyStatic.Proofs.Binding.LocalNames
import PyStatic.Proofs.Binding.StaticScoping
import PyStatic.Proofs.Binding.SurveyedNodes
import PyStatic.Proofs.Syntax.Listings

/-!
Contract: what a name stands for in a function that declares it nonlocal.
-/

namespace PyStatic

open List

open ScopeBlock

namespace Resolution

variable {tree : ScopeTree} {blocks : List ScopeBlock} {table : SymbolTable} {name : String}
  {reader scope outer : ScopeId} {id : SymbolId}

theorem lookupIn_closest (mirrors : tree.Mirrors (blocks.map ScopeBlock.opening))
    (nested : tree.Nested) (rooted : Rooted blocks)
    (closest : Closest blocks (·.isFunctionLike) scope outer) (older : scope < reader)
    (stands : ∃ block, blocks[scope]? = some block ∧
      (block.kind = .topLevel ∨ block.kind.isDefinition = true))
    (notGlobal : ¬Declares blocks true outer name) (isBound : table.lookup? outer name = some id) :
    lookupIn tree table reader name (tree.ancestors scope) = some id := by
  induction closest with
  | @here scope block isBlock _ =>
    obtain ⟨_, isKind, _⟩ := mirrors.ofBlock isBlock
    have notGlobal : tree.isGlobal scope name ≠ true :=
      fun isGlobal => notGlobal ((mirrors.isGlobal_iff isBlock name).mp isGlobal)
    rw [mirrors.ancestors_eq_cons nested isBlock, lookupIn, isKind]
    cases kind : block.kind <;> simp_all [ScopeKind.isFunctionLike]
  | @further scope parent _ block isBlock _ isParent _ ih =>
    obtain ⟨_, isBlock', kind⟩ := stands
    obtain rfl := Option.some.inj (isBlock.symm.trans isBlock')
    have isClass : block.kind = .classBody := by
      rcases kind with isModule | isDefinition
      · have noParent := (rooted.parent scope block isBlock).mpr
          ((rooted.kind scope block isBlock).mp isModule)
        cases isParent.symm.trans noParent
      · cases kind : block.kind <;> simp_all [ScopeKind.isFunctionLike, ScopeKind.isDefinition]
    obtain ⟨_, isKind, _⟩ := mirrors.ofBlock isBlock
    have passed : (tree.kind? scope == some .classBody && scope != reader) = true := by
      rw [isKind, isClass]
      simpa using Nat.ne_of_lt older
    rw [mirrors.ancestors_eq_cons nested isBlock, lookupIn, if_pos passed, isParent]
    exact ih
      (Nat.lt_trans (mirrors.parent_lt nested isBlock isParent).1 older)
      (rooted.definition scope parent block isBlock (by rw [isClass]; rfl) isParent)
      notGlobal isBound

theorem lookup?_enclosed (mirrors : tree.Mirrors (blocks.map ScopeBlock.opening))
    (nested : tree.Nested) (rooted : Rooted blocks) {block : ScopeBlock}
    (isBlock : blocks[scope]? = some block) (isFunction : block.kind = .function)
    (notGlobal : ¬Declares blocks true scope name) (enclosed : EnclosedBy blocks scope outer)
    (outerNotGlobal : ¬Declares blocks true outer name)
    (isBound : table.lookup? outer name = some id) :
    lookup? tree table scope name = some ((table.lookup? scope name).getD id) := by
  rw [enclosedBy_iff isBlock] at enclosed
  obtain ⟨parent, isParent, closest⟩ := enclosed
  have around := lookupIn_closest mirrors nested rooted closest
    (mirrors.parent_lt nested isBlock isParent).1
    (rooted.definition scope parent block isBlock (by rw [isFunction]; rfl) isParent)
    outerNotGlobal isBound
  have isKind := (mirrors.ofBlock isBlock).2.1
  have notGlobal : tree.isGlobal scope name ≠ true :=
    fun isGlobal => notGlobal ((mirrors.isGlobal_iff isBlock name).mp isGlobal)
  rw [lookup?, mirrors.ancestors_eq_cons nested isBlock, lookupIn, isKind, isFunction, isParent,
    if_neg (by simp), if_neg notGlobal]
  cases table.lookup? scope name with
  | some => rfl
  | none => exact around

end Resolution

theorem Note.Account.nodup_marks {around : Surroundings} {module' : Module} {notes : List Note}
    {scope next : ScopeId} {items : List ScopeItem} {identifiers : List Identifier}
    {visited : List Visited}
    (account : Note.Account around scope next notes items identifiers visited
      (Stmt.bindingsOfAll module'.body)) (distinct : module'.ids.Nodup) :
    (notes.flatMap fun note => note.marks.map (·.id)).Nodup := by
  rw [← map_flatMap, nodup_iff_count_le_one]
  intro node
  have fewer : (notes.flatMap Note.marks).Subperm (Stmt.bindingsOfAll module'.body).marks :=
    subperm_ext_iff.mpr fun mark _ => account.marks_le mark
  have stand := Stmt.bindingsOfAll_standAt module'.body node
  rw [Bindings.count, List.count, countP_map] at stand
  rw [List.count, countP_map]
  rw [Module.ids] at distinct
  calc _ ≤ _ := fewer.countP_le _
    _ ≤ (Stmt.idsOfAll module'.body).count node := stand
    _ ≤ 1 := nodup_iff_count_le_one.mp (nodup_append.mp distinct).2.1 node

theorem Note.eq_bound_of_mentions {note : Note} {scope : ScopeId} {name : Identifier}
    (isSaid : (scope, .binds name) ∈ note.mentions) :
    ∃ usage origin, note = .bound scope usage origin name := by
  cases note with
  | bound _ usage origin =>
    obtain ⟨rfl, ⟨rfl⟩⟩ := Prod.mk.inj (mem_singleton.mp isSaid)
    exact ⟨usage, origin, rfl⟩
  | declared =>
    obtain ⟨_, _, same⟩ := mem_map.mp isSaid
    cases same
  | read _ _ | assigned _ _ | wildcard _ _ _ _ => cases mem_singleton.mp isSaid
  | _ => cases isSaid

namespace Model

open Resolution

variable {around : Surroundings} {module' : Module}

theorem symbolAt?_of_read (distinct : module'.ids.Nodup) {reference : Reference}
    (isRead : reference ∈ (Survey.ofModule around module').reads) {id : SymbolId}
    (found : lookup? (Model.ofModule around module').scopes (Model.ofModule around module').table
      reference.scope reference.name = some id) :
    (Model.ofModule around module').symbolAt? reference.node = some id := by
  have wellFormed := Survey.wellFormed_ofModule around module'
  obtain ⟨notes, noted, account, ids⟩ :=
    Survey.exists_noted around (Module.distinctIds_of_nodup distinct)
  have spares : (Survey.ofModule around module').Spares (· = reference.node) := by
    apply noted.spares account ids
    rintro _ rfl
    obtain ⟨note, isNote, mem⟩ := mem_flatMap.mp (noted.reads ▸ isRead)
    exact ⟨note, isNote, Note.node_mem_ids_of_reads mem, .inl (ne_nil_of_mem mem)⟩
  obtain ⟨answers, sameNode⟩ := resolve_answers wellFormed isRead
    (fun other isOther => noted.read_eq ids isOther isRead) spares
  exact sameNode.trans (answers.bound id ((lookup?_resolve wellFormed _ _).1 ▸ found))

theorem symbolAt?_of_binds (distinct : module'.ids.Nodup) {scope : ScopeId} {name : Identifier}
    (binds : Mentions (module'.scopeBlocks around) scope (.binds name)) :
    let model := Model.ofModule around module'
    ∃ id, model.table.lookup? (model.scopes.bindingScope scope name.text) name.text = some id ∧
      ∃ option ∈ model.table.options id, model.symbolAt? name.id = some option := by
  have wellFormed := Survey.wellFormed_ofModule around module'
  obtain ⟨notes, noted, account, ids⟩ :=
    Survey.exists_noted around (Module.distinctIds_of_nodup distinct)
  obtain ⟨note, isNote, isSaid⟩ :=
    mem_flatMap.mp (account.mentions ▸ Survey.mem_placed_scopeBlocks.mpr binds)
  obtain ⟨usage, origin, rfl⟩ := Note.eq_bound_of_mentions isSaid
  have isId : name.id ∈ Note.ids (.bound scope usage origin name) := mem_singleton_self _
  let tree := (Survey.ofModule around module').scopes
  let binding : Binding :=
    ⟨tree.bindingScope scope name.text, name.text, name.id, name.range, usage, origin⟩
  have isBinding : binding ∈ (Survey.ofModule around module').bindings := by
    rw [noted.bindings]
    exact mem_flatMap.mpr ⟨_, isNote, mem_singleton_self _⟩
  have stands := resolve_stands around wellFormed isBinding ?alone ?unread ?spares
  · obtain ⟨id, isBound, _, option, isOption, _, isThere⟩ := stands
    exact ⟨id, isBound, option, isOption, isThere⟩
  case alone =>
    intro other isOther (sameNode : other.node = name.id)
    obtain ⟨note, isNote', isOther⟩ := mem_flatMap.mp (noted.bindings ▸ isOther)
    have isMark : other.node ∈ note.marks.map (·.id) :=
      mem_map_of_mem (Note.mem_marks_of_bindings isOther)
    obtain rfl := Note.eq_of_mem_ids (account.nodup_marks distinct) isNote isNote'
      (mem_singleton_self name.id) (sameNode ▸ isMark)
    rw [mem_singleton.mp isOther]
    exact ⟨rfl, rfl⟩
  case unread =>
    intro reference isRead (sameNode : reference.node = name.id)
    obtain ⟨note, isNote', isRead⟩ := mem_flatMap.mp (noted.reads ▸ isRead)
    obtain rfl := Note.eq_of_mem_ids ids isNote isNote' isId
      (sameNode ▸ Note.node_mem_ids_of_reads isRead)
    cases isRead
  case spares =>
    apply noted.spares account ids
    rintro _ rfl
    exact ⟨_, isNote, isId, .inr ⟨tree, cons_ne_nil _ _⟩⟩

/-- What is declared nonlocal reaches the closest function around, whether that binds it or not. -/
theorem nonlocal_reaches (around : Surroundings) (module' : Module)
    (distinct : module'.ids.Nodup) {inner outer : ScopeId} {block : ScopeBlock} {name : String} :
    let blocks := module'.scopeBlocks around
    let model := Model.ofModule around module'
    blocks[inner]? = some block → block.kind = .function → Declares blocks false inner name →
    ¬Declares blocks true inner name → EnclosedBy blocks inner outer →
    ∃ id, model.table.lookup? outer name = some id ∧
      (∀ identifier, Mentions blocks inner (.binds identifier) → identifier.text = name →
        ∃ option ∈ model.table.options id, model.symbolAt? identifier.id = some option) ∧
      (¬Declares blocks true outer name → ∀ identifier,
        Mentions blocks inner (.reads identifier) ∨ Mentions blocks inner (.assigns identifier) →
        identifier.text = name →
        model.symbolAt? identifier.id = some ((model.table.lookup? inner name).getD id)) ∧
      (model.table.Binds inner name ↔
        (∃ place, Declares blocks false place name ∧ EnclosedBy blocks place inner) ∨
          Spreads blocks inner name) := by
  intro blocks model isBlock isFunction isNonlocal notGlobal enclosed
  have wellFormed := Survey.wellFormed_ofModule around module'
  have tells := Survey.tells_ofModule around module'
  have rooted := module'.scopeBlocks_rooted around
  have mirrors := tells.scopes
  have nested := wellFormed.nested
  obtain ⟨id, isBound⟩ := Option.isSome_iff_exists.mp
    ((binds_iff around module' outer name).mpr (.inr (.inr ⟨inner, isNonlocal, enclosed⟩)))
  refine ⟨id, isBound, ?binds, ?reads, ?own⟩
  case binds =>
    rintro identifier binds rfl
    obtain ⟨_, found, stands⟩ := symbolAt?_of_binds distinct binds
    have lands := LandsIn.unique (.enclosing notGlobal isNonlocal enclosed)
      (mirrors.landsIn nested isBlock identifier.text)
    obtain rfl := Option.some.inj (isBound.symm.trans (lands ▸ found))
    exact stands
  case reads =>
    rintro outerNotGlobal identifier mentions rfl
    have found := lookup?_enclosed mirrors nested rooted isBlock isFunction notGlobal enclosed
      outerNotGlobal isBound
    have isRead : ⟨identifier.text, identifier.id, identifier.range, inner⟩ ∈
        (Survey.ofModule around module').reads := by
      rcases mentions with reads | assigns
      · exact (tells.reads _).mpr ⟨inner, _, reads, List.mem_singleton_self _⟩
      · exact (tells.reads _).mpr ⟨inner, _, assigns, List.mem_singleton_self _⟩
    exact symbolAt?_of_read distinct isRead found
  case own =>
    have noModule : inner ≠ moduleScope := by
      intro isModule
      cases isFunction.symm.trans ((rooted.kind inner block isBlock).mpr isModule)
    refine (binds_iff around module' inner name).trans ⟨?_, ?_⟩
    · rintro ((⟨maker, _, lands⟩ | spreads) | ⟨isModule, _⟩ | declared)
      · cases lands with
        | module => exact absurd rfl noModule
        | enclosing _ isNonlocal enclosed => exact .inl ⟨maker, isNonlocal, enclosed⟩
        | own _ notNonlocal => exact absurd isNonlocal (notNonlocal outer enclosed)
      · exact .inr spreads
      · exact absurd isModule noModule
      · exact .inl declared
    · exact fun own => own.symm.imp .inr .inr

end Model

def Module.reaching : Module :=
  let mark (id : NodeId) : Mark := ⟨id, ⟨0, 0⟩⟩
  let name (id : NodeId) : Expr := .name ⟨mark id, "x"⟩
  let number (id : NodeId) : Expr := .literal (mark id) .int "1" []
  let define (id : NodeId) (text : String) (body : List Stmt) : Stmt :=
    .functionDef ⟨mark id, ⟨mark (id + 1), text⟩, [], none, [], false⟩ body
  let update (id : NodeId) (value : Expr) : List Stmt :=
    [.simple (mark id) (.nonlocalNames [⟨mark (id + 1), "x"⟩]),
      .simple (mark (id + 2)) (.assign [name (id + 3)] value)]
  ⟨mark 0,
    [define 1 "outer"
      [.simple (mark 3) (.assign [name 4] (number 5)),
        .classDef ⟨mark 6, ⟨mark 7, "Box"⟩, [], []⟩ [define 8 "add" (update 10 (name 14))],
        define 15 "relay"
          [.simple (mark 17) (.nonlocalNames [⟨mark 18, "x"⟩]),
            define 19 "leaf" (update 21 (number 25)), .simple (mark 26) (.ret (some (name 27)))]]]⟩

theorem Module.reaching_method :
    let around : Surroundings := ⟨"", "reach.py", none, {}⟩
    let blocks := reaching.scopeBlocks around
    let model := Model.ofModule around reaching
    (reaching.ids.Nodup ∧ Declares blocks false 3 "x" ∧ ¬Declares blocks true 3 "x" ∧
      EnclosedBy blocks 3 1) ∧
    ∃ id, model.table.lookup? 1 "x" = some id ∧ model.symbolAt? 14 = some id ∧
      ∃ option ∈ model.table.options id, model.symbolAt? 13 = some option := by
  intro around blocks model
  have distinct : reaching.ids.Nodup := by decide
  have isNonlocal : Declares blocks false 3 "x" := by decide +kernel
  have notGlobal : ¬Declares blocks true 3 "x" := by decide +kernel
  have enclosed : EnclosedBy blocks 3 1 :=
    ⟨_, 2, rfl, rfl, .further rfl rfl rfl (.here rfl rfl)⟩
  obtain ⟨id, isBound, binds, reads, _⟩ := Model.nonlocal_reaches around reaching distinct
    rfl rfl isNonlocal notGlobal enclosed
  have read := reads (by decide +kernel) ⟨⟨14, ⟨0, 0⟩⟩, "x"⟩ (.inl ⟨_, rfl, by decide +kernel⟩) rfl
  have noOwn : model.table.lookup? 3 "x" = none := by decide +kernel
  rw [noOwn] at read
  exact ⟨⟨distinct, isNonlocal, notGlobal, enclosed⟩, id, isBound, read,
    binds ⟨⟨13, ⟨0, 0⟩⟩, "x"⟩ ⟨_, rfl, by decide +kernel⟩ rfl⟩

/-- A function that declares the name nonlocal and never binds it has a symbol of its own for it. -/
theorem Module.relay_keeps_symbol :
    let around : Surroundings := ⟨"", "reach.py", none, {}⟩
    let blocks := reaching.scopeBlocks around
    let model := Model.ofModule around reaching
    (MadeIn blocks "x" 1 ∧ LandsIn blocks 1 "x" 1) ∧
    (Declares blocks false 4 "x" ∧ EnclosedBy blocks 4 1 ∧
      (¬∃ identifier, Mentions blocks 4 (.binds identifier) ∧ identifier.text = "x") ∧
      Mentions blocks 4 (.reads ⟨⟨27, ⟨0, 0⟩⟩, "x"⟩)) ∧
    (Declares blocks false 5 "x" ∧ EnclosedBy blocks 5 4 ∧
      Mentions blocks 5 (.binds ⟨⟨24, ⟨0, 0⟩⟩, "x"⟩)) ∧
    ∃ id, model.table.lookup? 4 "x" = some id ∧ model.table.lookup? 1 "x" ≠ some id ∧
      model.symbolAt? 27 = some id ∧ model.symbolAt? 24 = some id := by
  intro around blocks model
  have binds : Mentions blocks 1 (.binds ⟨⟨4, ⟨0, 0⟩⟩, "x"⟩) := ⟨_, rfl, by decide +kernel⟩
  refine ⟨⟨.bound binds rfl, .own (by decide +kernel) fun _ _ => by decide +kernel⟩,
    ⟨by decide +kernel, ⟨_, 1, rfl, rfl, .here rfl rfl⟩, ?_, ⟨_, rfl, by decide +kernel⟩⟩,
    ⟨by decide +kernel, ⟨_, 4, rfl, rfl, .here rfl rfl⟩, ⟨_, rfl, by decide +kernel⟩⟩, ?_⟩
  · rintro ⟨identifier, ⟨block, isBlock, isSaid⟩, isName⟩
    obtain rfl := Option.some.inj ((show blocks[4]? = some _ from rfl).symm.trans isBlock)
    obtain _ | ⟨_, _ | ⟨_, _ | ⟨_, ⟨⟩⟩⟩⟩ := isSaid
    exact absurd isName (by decide)
  · exact ⟨6, by decide +kernel, by decide +kernel, by decide +kernel, by decide +kernel⟩

end PyStatic
