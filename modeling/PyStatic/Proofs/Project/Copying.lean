import PyStatic.Project.Instance
import PyStatic.Proofs.Builtin.Making

/-!
Contract: how an export is copied into a pool, step by step.

What every step keeps is kept by the whole copy, whatever it is. What a copy looks like is not said.
-/

namespace PyStatic

def BaseLink.fqn? (link : BaseLink) : Option String :=
  (Project.linkNames link).2

def BaseLink.name (link : BaseLink) : String :=
  (Project.linkNames link).1

def ClassExport.filled (info : ClassExport) (bases members : List SymbolId) : ClassInfo :=
  ⟨bases, members, info.hasUnresolvedBase, info.metaclass, info.hasDecorators, none⟩

/-- A class is registered before it is filled, so a circular base finds it. -/
def SymbolPool.openClass (pool : SymbolPool) (name : String) (fqn : Option String) : SymbolPool :=
  let (pool, id) := pool.push (.fresh name fqn (.ofClass .blank) none)
  match fqn with
  | some fqn => pool.registerFirst fqn id
  | none => pool

theorem SymbolPool.openClass_of_unregistered {pool : SymbolPool} (name : String) {fqn : String}
    (unregistered : pool.registry[fqn]? = none) :
    pool.openClass name (some fqn) =
      (pool.push (.fresh name (some fqn) (.ofClass .blank) none)).1.register fqn pool.table.size :=
  (pool.push (.fresh name (some fqn) (.ofClass .blank) none)).1.registerFirst_of_unregistered
    unregistered _

namespace Project

/-- A base is found in the pool, copied from the project, or taken for a builtin class. -/
def follow (project : Project) (depth : Nat) (pool : SymbolPool) (link : BaseLink) :
    Option (SymbolPool × SymbolId) :=
  match linkNames link with
  | (name, none) => some (pushPlaceholder pool name none)
  | (name, some fqn) =>
    match project.symbol? fqn with
    | some exported =>
      match registered? pool (exported.kind != .ambiguous) (some fqn) with
      | some id => some (pool, id)
      | none => project.instantiate depth true pool exported
    | none =>
      match Builtin.symbol pool fqn with
      | (pool, some id) => some (pool, id)
      | (pool, none) => some (pushPlaceholder pool name (some fqn))

variable {project : Project} {depth : Nat} {reuse : Bool} {pool post : SymbolPool} {id : SymbolId}
  {fqn : Option String} {name : String}

theorem instantiate_class_eq_some_iff {info : ClassExport} {members : List Export}
    (unregistered : registered? pool reuse fqn = none) :
    project.instantiate (depth + 1) reuse pool (.ofClass name fqn info members) = some (post, id) ↔
      ∃ linked bases copied ids,
        Sequence.collect? (project.follow depth) (pool.openClass name fqn) info.bases =
          some (linked, bases) ∧
        Sequence.collect? (project.instantiate depth true) linked members = some (copied, ids) ∧
        copied.setData pool.table.size (.ofClass (info.filled bases ids)) = post ∧
        pool.table.size = id := by
  rw [instantiate, unregistered]
  constructor
  · intro made
    obtain ⟨⟨linked, bases⟩, followed, made⟩ := Option.bind_eq_some_iff.mp made
    obtain ⟨⟨copied, ids⟩, copies, made⟩ := Option.bind_eq_some_iff.mp made
    cases made
    exact ⟨linked, bases, copied, ids, followed, copies, rfl, rfl⟩
  · rintro ⟨linked, bases, copied, ids, followed, copies, rfl, rfl⟩
    exact Option.bind_eq_some_iff.mpr ⟨_, followed, Option.bind_eq_some_iff.mpr ⟨_, copies, rfl⟩⟩

theorem instantiate_class_of_registered {info : ClassExport} {members : List Export}
    (registered : registered? pool reuse fqn = some id) :
    project.instantiate (depth + 1) reuse pool (.ofClass name fqn info members) =
      some (pool, id) := by
  rw [instantiate, registered]

theorem instantiate_ambiguous_eq_some_iff {alternatives : List Export} :
    project.instantiate (depth + 1) reuse pool (.ambiguous name fqn alternatives) =
        some (post, id) ↔
      ∃ copied ids,
        Sequence.collect? (project.instantiate depth false) pool alternatives =
          some (copied, ids) ∧
        unite copied ids name fqn = (post, id) := by
  rw [instantiate]
  constructor
  · intro made
    obtain ⟨⟨copied, ids⟩, copies, made⟩ := Option.bind_eq_some_iff.mp made
    exact ⟨copied, ids, copies, Option.some.inj made⟩
  · rintro ⟨copied, ids, copies, united⟩
    exact Option.bind_eq_some_iff.mpr ⟨_, copies, congrArg some united⟩

theorem follow_cases (project : Project) (depth : Nat) (pool : SymbolPool) (link : BaseLink) :
    (link.fqn? = none ∧
      project.follow depth pool link = some (pushPlaceholder pool link.name none)) ∨
    ∃ fqn, link.fqn? = some fqn ∧
      ((∃ id, pool.registry[fqn]? = some id ∧ project.follow depth pool link = some (pool, id)) ∨
      (∃ exported, project.symbol? fqn = some exported ∧
        (exported.kind ≠ .ambiguous → pool.registry[fqn]? = none) ∧
        project.follow depth pool link = project.instantiate depth true pool exported) ∨
      (project.symbol? fqn = none ∧ pool.registry[fqn]? = none ∧
        ∃ post id, project.follow depth pool link = some (post, id) ∧
          Builtin.Makes (Builtin.isBuiltin · = true) pool post ∧ post.registry[fqn]? = some id) ∨
      (project.symbol? fqn = none ∧ pool.registry[fqn]? = none ∧ Builtin.isBuiltin fqn = false ∧
        project.follow depth pool link = some (pushPlaceholder pool link.name (some fqn)))) := by
  rw [BaseLink.fqn?, BaseLink.name, follow]
  obtain ⟨name, fqn?⟩ := linkNames link
  cases fqn? with
  | none => exact .inl ⟨rfl, rfl⟩
  | some fqn =>
    refine .inr ⟨fqn, rfl, ?_⟩
    dsimp only
    cases exported? : project.symbol? fqn with
    | some exported =>
      dsimp only
      cases registered : registered? pool (exported.kind != .ambiguous) (some fqn) with
      | some id =>
        refine .inl ⟨id, ?_, rfl⟩
        rw [registered?] at registered
        split at registered
        · exact registered
        · cases registered
      | none =>
        refine .inr (.inl ⟨exported, rfl, ?_, rfl⟩)
        intro unambiguous
        rw [registered?, if_pos (by simpa using unambiguous)] at registered
        exact registered
    | none =>
      rcases Builtin.symbol_cases pool fqn with ⟨id, registered, made⟩ |
        ⟨unregistered, _, post, id, made, makes, registered⟩ | ⟨unregistered, unknown, made⟩
      · exact .inl ⟨id, registered, by rw [made]⟩
      · exact .inr (.inr (.inl ⟨rfl, unregistered, post, id, by rw [made], makes, registered⟩))
      · exact .inr (.inr (.inr ⟨rfl, unregistered, unknown, by rw [made]⟩))

theorem get?_openClass (pool : SymbolPool) (name : String) (fqn : Option String) :
    (pool.openClass name fqn).table.get? pool.table.size =
      some (.fresh name fqn (.ofClass .blank) none) := by
  cases fqn <;> exact SymbolTable.get?_push_size ..

theorem openClass_extends (pool : SymbolPool) (name : String) (fqn : Option String) :
    pool.Extends (pool.openClass name fqn) := by
  have pushed := (SymbolPool.Extends.refl pool).push (.fresh name fqn (.ofClass .blank) none)
  cases fqn with
  | none => exact pushed
  | some fqn => exact pushed.registerFirst fqn _

theorem pushPlaceholder_extends (name : String) {fqn : String}
    (unregistered : pool.registry[fqn]? = none) :
    pool.Extends (pushPlaceholder pool name (some fqn)).1 :=
  ((SymbolPool.Extends.refl pool).push _).register unregistered _

end Project

structure CopyStep (Holds : SymbolPool → Prop) (Leads : SymbolPool → SymbolPool → Prop)
    (Result : SymbolPool → SymbolId → Prop) (pool post : SymbolPool) (id : SymbolId) : Prop where
  holds : Holds post
  leads : Leads pool post
  result : Result post id

/-- What each way of adding a symbol keeps, and the symbols that come of it. -/
structure CopyInvariant where
  Holds : SymbolPool → Prop
  Leads : SymbolPool → SymbolPool → Prop
  Result : SymbolPool → SymbolId → Prop
  refl : ∀ pool, Leads pool pool
  trans : ∀ {first second third}, Leads first second → Leads second third → Leads first third
  stable : ∀ {pool post id}, Leads pool post → Result pool id → Result post id
  registered : ∀ {pool : SymbolPool} {fqn : String} {id : SymbolId}, Holds pool →
    pool.registry[fqn]? = some id → Result pool id
  push : ∀ {pool} {symbol : Symbol}, Holds pool → symbol.usages = [] → symbol.kind ≠ .ambiguous →
    symbol.data.held = [] →
    CopyStep Holds Leads Result pool (pool.push symbol).1 pool.table.size
  registerFirst : ∀ {pool post id}, CopyStep Holds Leads Result pool post id → ∀ fqn,
    CopyStep Holds Leads Result pool (post.registerFirst fqn id) id
  makes : ∀ {pool post : SymbolPool} {fqn : String} {id : SymbolId}, Holds pool →
    Builtin.Makes (Builtin.isBuiltin · = true) pool post → post.registry[fqn]? = some id →
    CopyStep Holds Leads Result pool post id
  fill : ∀ {pool copied : SymbolPool} {name fqn} {info : ClassInfo}, Leads pool copied →
    Leads (pool.openClass name fqn) copied → Holds copied → Result copied pool.table.size →
    (∀ member ∈ info.members, Result copied member) →
    CopyStep Holds Leads Result pool (copied.setData pool.table.size (.ofClass info))
      pool.table.size
  pushAmbiguous : ∀ {pool ids symbol}, Holds pool → (∀ id ∈ ids, Result pool id) →
    pool.table.ambiguous? ids = .ok symbol →
    CopyStep Holds Leads Result pool (pool.push symbol).1 pool.table.size

namespace CopyInvariant

open Project

variable (invariant : CopyInvariant) {project : Project} {depth : Nat} {reuse : Bool}
variable {pool middle post : SymbolPool} {id : SymbolId}

abbrev Step (pool post : SymbolPool) (id : SymbolId) : Prop :=
  CopyStep invariant.Holds invariant.Leads invariant.Result pool post id

theorem after (second : invariant.Step middle post id) (first : invariant.Leads pool middle) :
    invariant.Step pool post id :=
  ⟨second.holds, invariant.trans first second.leads, second.result⟩

theorem again (holds : invariant.Holds pool) {fqn : String}
    (registered : pool.registry[fqn]? = some id) : invariant.Step pool pool id :=
  ⟨holds, invariant.refl pool, invariant.registered holds registered⟩

theorem openClass (holds : invariant.Holds pool) (name : String) (fqn : Option String) :
    invariant.Step pool (pool.openClass name fqn) pool.table.size := by
  have pushed := @invariant.push pool (.fresh name fqn (.ofClass .blank) none) holds rfl
    (by rintro ⟨⟩) rfl
  cases fqn with
  | none => exact pushed
  | some fqn => exact invariant.registerFirst pushed fqn

theorem pushPlaceholder (holds : invariant.Holds pool) (name : String) (fqn : Option String)
    (unregistered : ∀ known ∈ fqn, pool.registry[known]? = none) :
    invariant.Step pool (pushPlaceholder pool name fqn).1 (pushPlaceholder pool name fqn).2 := by
  have pushed := @invariant.push pool (.fresh name fqn (.other []) none) holds rfl
    (by rintro ⟨⟩) rfl
  cases fqn with
  | none => exact pushed
  | some fqn =>
    have registered := invariant.registerFirst pushed fqn
    rwa [(pool.push _).1.registerFirst_of_unregistered (unregistered fqn rfl)] at registered

theorem unite (holds : invariant.Holds pool) {ids : List SymbolId}
    (results : ∀ id ∈ ids, invariant.Result pool id) (name : String) (fqn : Option String) :
    invariant.Step pool (unite pool ids name fqn).1 (unite pool ids name fqn).2 := by
  unfold Project.unite SymbolTable.unite SymbolTable.pushAmbiguous
  cases made : pool.table.ambiguous? ids with
  | ok => exact invariant.pushAmbiguous holds results made
  | error =>
    dsimp only [Except.map]
    cases last : ids.getLast? with
    | none => exact invariant.push holds rfl (by rintro ⟨⟩) rfl
    | some id => exact ⟨holds, invariant.refl pool, results id (List.mem_of_getLast? last)⟩

theorem collect? {α : Type} {step : SymbolPool → α → Option (SymbolPool × SymbolId)}
    (steps : ∀ {item : α} {pool post : SymbolPool} {id : SymbolId}, invariant.Holds pool →
      step pool item = some (post, id) → invariant.Step pool post id)
    {items : List α} {ids : List SymbolId} (holds : invariant.Holds pool)
    (ran : Sequence.collect? step pool items = some (post, ids)) :
    invariant.Holds post ∧ invariant.Leads pool post ∧ ∀ id ∈ ids, invariant.Result post id := by
  obtain ⟨holds, leads, results⟩ := Sequence.collect?_keeps invariant.Holds invariant.Leads
    (fun post (_ : α) id => invariant.Result post id) invariant.refl invariant.trans
    (fun _ _ _ _ => invariant.stable)
    (fun _ _ _ _ _ holds made =>
      have step := steps holds made
      ⟨step.holds, step.leads, step.result⟩) holds ran
  refine ⟨holds, leads, ?_⟩
  intro id mem
  obtain ⟨_, _, result⟩ := Sequence.exists_of_forall₂ results.flip mem
  exact result

theorem follow
    (copies : ∀ {exported : Export} {pool post : SymbolPool} {id : SymbolId},
      invariant.Holds pool → project.instantiate depth true pool exported = some (post, id) →
      invariant.Step pool post id)
    {link : BaseLink} (holds : invariant.Holds pool)
    (made : project.follow depth pool link = some (post, id)) : invariant.Step pool post id := by
  rcases follow_cases project depth pool link with ⟨_, way⟩ | ⟨fqn, _,
    ⟨other, registered, way⟩ | ⟨exported, _, _, way⟩ |
    ⟨_, _, added, other, way, makes, registered⟩ | ⟨_, unregistered, _, way⟩⟩
  all_goals rw [way] at made
  · cases made
    exact invariant.pushPlaceholder holds link.name none (by simp)
  · cases made
    exact invariant.again holds registered
  · exact copies holds made
  · cases made
    exact invariant.makes holds makes registered
  · cases made
    exact invariant.pushPlaceholder holds link.name (some fqn) (by simpa using unregistered)

theorem instantiate {exported : Export} (holds : invariant.Holds pool)
    (made : project.instantiate depth reuse pool exported = some (post, id)) :
    invariant.Step pool post id := by
  induction depth generalizing reuse pool post id exported with
  | zero => cases made
  | succ _ ih =>
    cases exported with
    | other _ _
    | function =>
      cases made
      exact invariant.push holds rfl (by rintro ⟨⟩) rfl
    | ofClass name fqn =>
      cases registered : registered? pool reuse fqn with
      | some =>
        rw [instantiate_class_of_registered registered] at made
        cases made
        rw [registered?] at registered
        split at registered
        · obtain ⟨fqn, _, registered⟩ := Option.bind_eq_some_iff.mp registered
          exact invariant.again holds registered
        · cases registered
      | none =>
        obtain ⟨linked, bases, copied, ids, followed, copies, rfl, rfl⟩ :=
          (instantiate_class_eq_some_iff registered).mp made
        have opened := invariant.openClass holds name fqn
        obtain ⟨linkedHolds, links, _⟩ :=
          invariant.collect? (invariant.follow ih) opened.holds followed
        obtain ⟨copiedHolds, parts, results⟩ :=
          invariant.collect? ih linkedHolds copies
        have around := invariant.trans links parts
        exact invariant.fill (invariant.trans opened.leads around) around copiedHolds
          (invariant.stable around opened.result) results
    | ambiguous name fqn =>
      obtain ⟨copied, ids, copies, united⟩ := instantiate_ambiguous_eq_some_iff.mp made
      obtain ⟨copiedHolds, parts, results⟩ := invariant.collect? ih holds copies
      have joined := invariant.after (invariant.unite copiedHolds results name fqn) parts
      rwa [united] at joined

theorem instanceOf (project : Project) (holds : invariant.Holds pool) (exported : Export) :
    invariant.Step pool (project.instanceOf pool exported).1
      (project.instanceOf pool exported).2 := by
  rw [Project.instanceOf]
  cases made : project.instantiate (project.depthFor exported) true pool exported with
  | some => exact invariant.instantiate holds made
  | none => exact invariant.push holds rfl (by rintro ⟨⟩) rfl

theorem instance? (holds : invariant.Holds pool) {fqn : String}
    (made : project.instance? pool fqn = some (post, id)) : invariant.Step pool post id := by
  rw [Project.instance?] at made
  split at made
  · cases made
  next exported _ =>
    split at made
    next other registered =>
      cases made
      rw [registered?] at registered
      split at registered
      · exact invariant.again holds registered
      · cases registered
    next =>
      have copied := invariant.instanceOf project holds exported
      rwa [Option.some.inj made] at copied

theorem instancesOfModule (project : Project) (holds : invariant.Holds pool) (module' : String) :
    invariant.Holds (project.instancesOfModule pool module').1 ∧
      invariant.Leads pool (project.instancesOfModule pool module').1 := by
  obtain ⟨holds, leads, _⟩ := invariant.collect? (fun {item _ _ _} holds made => by
    have copied := invariant.instanceOf project holds item
    rwa [Option.some.inj made] at copied) holds
    (Sequence.collect?_some project.instanceOf pool ((project.exports? module').getD []))
  exact ⟨holds, leads⟩

end CopyInvariant

end PyStatic
