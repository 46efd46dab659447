import PyStatic.Proofs.Project.Hierarchies
import PyStatic.Proofs.Symbol.Usages

/-!
Contract: what the copy of an export has in common with it.

A copied class is registered by its full name and used again under that name. Alternatives of an
ambiguous export are never used again themselves, but what is nested in them is: where two of them
nest classes of one name, the second gets what belongs to the first.
-/

namespace PyStatic

open List Sequence SymbolTable Export

/-! ## Growing by unused symbols -/

structure SymbolPool.Brings (pool post : SymbolPool) : Prop where
  extended : pool.Extends post
  unused : ∀ id symbol, pool.table.size ≤ id → post.table.get? id = some symbol →
    symbol.usages = []

namespace SymbolPool.Brings

variable {pool middle post : SymbolPool}

theorem refl (pool : SymbolPool) : Brings pool pool :=
  ⟨.refl pool, fun _ _ added found =>
    absurd (lt_size_of_get? found) (Nat.not_lt.mpr added)⟩

theorem trans (first : Brings pool middle) (second : Brings middle post) : Brings pool post where
  extended := first.extended.trans second.extended
  unused id symbol added found := by
    by_cases older : id < middle.table.size
    · rw [second.extended.get? id older] at found
      exact first.unused id symbol added found
    · exact second.unused id symbol (Nat.le_of_not_lt older) found

theorem push (brings : Brings pool post) {symbol : Symbol} (unused : symbol.usages = []) :
    Brings pool (post.push symbol).1 where
  extended := brings.extended.push symbol
  unused id other added found := by
    change (post.table.push symbol).get? id = some other at found
    rw [get?_push] at found
    split at found
    · cases found
      exact unused
    · exact brings.unused id other added found

theorem setData (brings : Brings pool post) {id : SymbolId} (added : pool.table.size ≤ id)
    (data : SymbolData) : Brings pool (post.setData id data) where
  extended := brings.extended.setData added data
  unused other symbol isAdded found := by
    change (post.table.modify id _).get? other = some symbol at found
    rw [get?_modify] at found
    split at found
    · obtain ⟨old, isOld, rfl⟩ := Option.map_eq_some_iff.mp found
      exact brings.unused other old isAdded isOld
    · exact brings.unused other symbol isAdded found

theorem of_makes {Named : String → Prop} (makes : Builtin.Makes Named pool post) :
    Brings pool post where
  extended := makes.extended
  unused id symbol added found := by
    obtain ⟨name, fqn, data, rfl, -⟩ := makes.fresh id symbol added found
    rfl

theorem collect? {α : Type} {step : SymbolPool → α → Option (SymbolPool × SymbolId)}
    {items : List α} {ids : List SymbolId}
    (steps : ∀ item ∈ items, ∀ {pool post : SymbolPool} {id : SymbolId},
      step pool item = some (post, id) → Brings pool post)
    (ran : collect? step pool items = some (post, ids)) : Brings pool post :=
  (collect?_keeps (fun _ => True) Brings (fun _ _ _ => True) refl trans
    (fun _ _ _ _ _ _ => trivial)
    (fun item isItem {_ _ _} _ made => ⟨trivial, steps item isItem made, trivial⟩) trivial ran).2.1

end SymbolPool.Brings

namespace Project

open SymbolPool

variable {project : Project} {depth : Nat} {reuse : Bool} {pool post : SymbolPool} {id : SymbolId}

def bringing : CopyInvariant where
  Holds _ := True
  Leads := Brings
  Result _ _ := True
  refl := .refl
  trans := .trans
  stable _ _ := trivial
  registered _ _ := trivial
  push _ unused _ _ := ⟨trivial, (Brings.refl _).push unused, trivial⟩
  registerFirst step fqn :=
    ⟨trivial, ⟨step.leads.extended.registerFirst fqn _, step.leads.unused⟩, trivial⟩
  makes _ makes _ := ⟨trivial, .of_makes makes, trivial⟩
  fill whole _ _ _ _ := ⟨trivial, whole.setData (Nat.le_refl _) _, trivial⟩
  pushAmbiguous _ _ made :=
    ⟨trivial, (Brings.refl _).push (SymbolTable.ambiguous?_eq_ok made).1, trivial⟩

theorem unite_brings (pool : SymbolPool) (ids : List SymbolId) (name : String)
    (fqn : Option String) : Brings pool (unite pool ids name fqn).1 :=
  (bringing.unite trivial (fun _ _ => trivial) name fqn).leads

theorem instantiate_brings {exported : Export}
    (made : project.instantiate depth reuse pool exported = some (post, id)) : Brings pool post :=
  (bringing.instantiate trivial made).leads

theorem follow_brings {link : BaseLink}
    (followed : project.follow depth pool link = some (post, id)) : Brings pool post :=
  (bringing.follow bringing.instantiate trivial followed).leads

end Project

/-! ## Mirrors -/

def SymbolTable.Bears (table : SymbolTable) (id : SymbolId) (name : String) (fqn : Option String)
    (data : SymbolData) : Prop :=
  ∃ symbol, table.get? id = some symbol ∧ symbol.name = name ∧ symbol.fqn = fqn ∧
    symbol.data = data

/-- A symbol has the names, the kind and the parts of an export. -/
inductive SymbolTable.Mirrors (table : SymbolTable) : Export → SymbolId → Prop
  | other {id : SymbolId} {name : String} {fqn : Option String}
      (found : table.Bears id name fqn (.other [])) : Mirrors table (.other name fqn) id
  | function {id : SymbolId} {name : String} {fqn : Option String} {info : FunctionInfo}
      (found : table.Bears id name fqn (.function info.detached)) :
      Mirrors table (.function name fqn info) id
  | ofClass {id : SymbolId} {name : String} {fqn : Option String} {info : ClassExport}
      {members : List Export} {bases ids : List SymbolId}
      (found : table.Bears id name fqn (.ofClass (info.filled bases ids)))
      (mirrored : List.Forall₂ (Mirrors table) members ids) :
      Mirrors table (.ofClass name fqn info members) id
  | ambiguous {id : SymbolId} {name : String} {fqn : Option String} {alternatives : List Export}
      {ids : List SymbolId} (found : table.Bears id name fqn (.ambiguous ids))
      (distinct : ids.Nodup) (mirrored : List.Forall₂ (Mirrors table) alternatives ids) :
      Mirrors table (.ambiguous name fqn alternatives) id

namespace Export

def alternatives : Export → List Export
  | ambiguous _ _ alternatives => alternatives
  | _ => []

/-- The names that one symbol for these alternatives gets. -/
def unitedNames : List Export → Option (String × Option String)
  | [] => none
  | first :: rest =>
    let fqn := first.fqn.filter fun fqn => rest.all fun other => other.fqn == some fqn
    if rest.all (·.name == first.name) then some (first.name, fqn)
    else fqn.map fun fqn => ("", some fqn)

/-- What an export is made of; the flag tells whether a registered class is used. -/
inductive Comprises (start : Export) : Bool → Export → Prop
  | self : Comprises start true start
  | member {reuse : Bool} {owner member : Export} (owned : Comprises start reuse owner)
      (isMember : member ∈ owner.members) : Comprises start true member
  | alternative {reuse : Bool} {owner alternative : Export} (owned : Comprises start reuse owner)
      (isAlternative : alternative ∈ owner.alternatives) : Comprises start false alternative

end Export

namespace Project

/-- What an export is made of, and what its superclass links name. -/
inductive Meets (project : Project) (start : Export) : Export → Prop
  | start : Meets project start start
  | member {owner member : Export} (met : Meets project start owner)
      (isMember : member ∈ owner.members) : Meets project start member
  | alternative {owner alternative : Export} (met : Meets project start owner)
      (isAlternative : alternative ∈ owner.alternatives) : Meets project start alternative
  | base {owner base : Export} {link : BaseLink} {fqn : String} (met : Meets project start owner)
      (isLink : link ∈ owner.bases) (named : link.fqn? = some fqn)
      (found : project.symbol? fqn = some base) : Meets project start base

/-- A class that may be used again is the only one of its full name. -/
structure TellsApart (project : Project) (start : Export) : Prop where
  unique : ∀ exported other fqn, start.Comprises true exported → project.Meets start other →
    exported.kind = .ofClass → other.kind = .ofClass → exported.fqn = some fqn →
    other.fqn = some fqn → other = exported
  known : ∀ exported fqn, start.Comprises true exported → exported.kind = .ofClass →
    exported.fqn = some fqn → Builtin.isBuiltin fqn = false ∧
      ∀ owner link, project.Meets start owner → link ∈ owner.bases → link.fqn? = some fqn →
        project.symbol? fqn ≠ none
  united : ∀ reuse name fqn alternatives,
    start.Comprises reuse (.ambiguous name fqn alternatives) →
      2 ≤ alternatives.length ∧ Export.unitedNames alternatives = some (name, fqn) ∧
        ∀ alternative ∈ alternatives, alternative.kind ≠ .ambiguous

end Project

namespace SymbolTable

variable {table : SymbolTable} {id : SymbolId} {name : String} {fqn : Option String}
  {data : SymbolData} {origin : Origins}

theorem bears_of_get? {symbol : Symbol} (found : table.get? id = some symbol) :
    table.Bears id symbol.name symbol.fqn symbol.data :=
  ⟨symbol, found, rfl, rfl, rfl⟩

theorem Bears.setData_of_ne (bears : table.Bears id name fqn data) {other : SymbolId}
    (distinct : other ≠ id) (otherData : SymbolData) :
    (table.setData other otherData).Bears id name fqn data := by
  obtain ⟨symbol, found, names⟩ := bears
  exact ⟨symbol, (get?_modify_of_ne distinct _).trans found, names⟩

theorem Bears.nameOf (bears : table.Bears id name fqn data) : table.nameOf id = name := by
  obtain ⟨symbol, found, rfl, -⟩ := bears
  rw [nameOf, found]
  rfl

theorem Bears.fqnOf? (bears : table.Bears id name fqn data) : table.fqnOf? id = fqn := by
  obtain ⟨symbol, found, -, rfl, -⟩ := bears
  rw [fqnOf?, found]
  rfl

theorem Bears.plain (bears : table.Bears id name fqn data) (isPlain : data.kind ≠ .ambiguous) :
    table.Plain id := by
  obtain ⟨symbol, found, -, -, rfl⟩ := bears
  exact ⟨symbol, found, isPlain⟩

end SymbolTable

theorem SymbolPool.Extends.bears {pool post : SymbolPool} (extended : pool.Extends post)
    {id : SymbolId} {name : String} {fqn : Option String} {data : SymbolData}
    (bears : pool.table.Bears id name fqn data) : post.table.Bears id name fqn data := by
  obtain ⟨symbol, found, names⟩ := bears
  exact ⟨symbol, extended.get?_of_some found, names⟩

/-! ## Tracing copies to what they were made from -/

/-- Which exports symbols were made from. -/
abbrev Origins := SymbolId → Option Export

/-- What a copy looks like. -/
def Export.IsCopied (table : SymbolTable) (origin : Origins) : Export → SymbolId → Prop
  | .other name fqn, id => table.Bears id name fqn (.other [])
  | .function name fqn info, id => table.Bears id name fqn (.function info.detached)
  | .ofClass name fqn info members, id => ∃ bases ids,
      table.Bears id name fqn (.ofClass (info.filled bases ids)) ∧
        List.Forall₂ (fun member id => origin id = some member) members ids
  | .ambiguous name fqn alternatives, id => ∃ ids,
      table.Bears id name fqn (.ambiguous ids) ∧ ids.Nodup ∧
        List.Forall₂ (fun alternative id => origin id = some alternative) alternatives ids

def Origins.Copied (origin : Origins) (table : SymbolTable) : Prop :=
  ∀ id exported, origin id = some exported → exported.IsCopied table origin id

mutual

theorem Export.mirrored_of_copied {table : SymbolTable} {origin : Origins}
    (copied : origin.Copied table) : ∀ (exported : Export) {id : SymbolId},
    origin id = some exported → table.Mirrors exported id
  | .other _ _, id, made => .other (copied id _ made)
  | .function _ _ _, id, made => .function (copied id _ made)
  | .ofClass _ _ _ members, id, made => by
    obtain ⟨bases, ids, bears, membersMade⟩ := copied id _ made
    exact .ofClass bears (allMirrored_of_copied copied members membersMade)
  | .ambiguous _ _ alternatives, id, made => by
    obtain ⟨ids, bears, distinct, alternativesMade⟩ := copied id _ made
    exact .ambiguous bears distinct (allMirrored_of_copied copied alternatives alternativesMade)

theorem Export.allMirrored_of_copied {table : SymbolTable} {origin : Origins}
    (copied : origin.Copied table) : ∀ (exports : List Export) {ids : List SymbolId},
    List.Forall₂ (fun exported id => origin id = some exported) exports ids →
      List.Forall₂ table.Mirrors exports ids
  | [], _, .nil => .nil
  | exported :: rest, _, .cons made others =>
    .cons (mirrored_of_copied copied exported made) (allMirrored_of_copied copied rest others)

end

def recordOrigin (origin : Origins) (id : SymbolId) (made : Option Export) :
    Origins :=
  fun other => if other = id then made else origin other

theorem recordOrigin_self (origin : Origins) (id : SymbolId)
    (made : Option Export) : recordOrigin origin id made id = made :=
  if_pos rfl

theorem recordOrigin_of_ne {id other : SymbolId} (distinct : other ≠ id) (made : Option Export) :
    recordOrigin origin id made other = origin other :=
  if_neg distinct

theorem Export.IsCopied.mono {table post : SymbolTable} {origin later : Origins}
    {exported : Export} {id : SymbolId} (copied : exported.IsCopied table origin id)
    (bears : ∀ name fqn data, table.Bears id name fqn data → post.Bears id name fqn data)
    (kept : ∀ id exported, origin id = some exported → later id = some exported) :
    exported.IsCopied post later id := by
  cases exported with
  | other => exact bears _ _ _ copied
  | function => exact bears _ _ _ copied
  | ofClass =>
    obtain ⟨bases, ids, isClass, made⟩ := copied
    exact ⟨bases, ids, bears _ _ _ isClass, made.imp fun member id => kept id member⟩
  | ambiguous =>
    obtain ⟨ids, isAmbiguous, distinct, made⟩ := copied
    exact ⟨ids, bears _ _ _ isAmbiguous, distinct, made.imp fun member id => kept id member⟩

namespace Project

/-- Copies look like what they were made from, apart from open classes. -/
structure Traced (start : Export) (isOpen : SymbolId → Prop) (pool : SymbolPool)
    (origin : Origins) : Prop where
  inRange : ∀ id exported, origin id = some exported → id < pool.table.size
  open_lt : ∀ id, isOpen id → id < pool.table.size
  copied : ∀ id exported, origin id = some exported → ¬isOpen id →
    exported.IsCopied pool.table origin id
  registered : ∀ (fqn : String) (id : SymbolId) (exported : Export),
    pool.registry[fqn]? = some id → start.Comprises true exported → exported.kind = .ofClass →
      exported.fqn = some fqn → origin id = some exported

structure Traces (start : Export) (isOpen : SymbolId → Prop) (pool : SymbolPool)
    (origin : Origins) (post : SymbolPool)
    (later : Origins) : Prop where
  traced : Traced start isOpen post later
  size_le : pool.table.size ≤ post.table.size
  kept : ∀ id, id < pool.table.size → later id = origin id

section Trace

variable {project : Project} {start exported : Export} {isOpen : SymbolId → Prop}
  {pool middle post : SymbolPool} {origin between later : Origins}
  {id : SymbolId}

theorem Traces.refl (traced : Traced start isOpen pool origin) :
    Traces start isOpen pool origin pool origin :=
  ⟨traced, Nat.le_refl _, fun _ _ => rfl⟩

theorem Traces.trans (first : Traces start isOpen pool origin middle between)
    (second : Traces start isOpen middle between post later) :
    Traces start isOpen pool origin post later where
  traced := second.traced
  size_le := Nat.le_trans first.size_le second.size_le
  kept id older :=
    (second.kept id (Nat.lt_of_lt_of_le older first.size_le)).trans (first.kept id older)

theorem Traces.origin_eq (traces : Traces start isOpen pool origin post later)
    (traced : Traced start isOpen pool origin) (made : origin id = some exported) :
    later id = some exported :=
  (traces.kept id (traced.inRange id exported made)).trans made

theorem Traced.recordOrigin_kept (traced : Traced start isOpen pool origin) (made : Option Export)
    {other : SymbolId} {earlier : Export} (isMade : origin other = some earlier) :
    recordOrigin origin pool.table.size made other = some earlier :=
  (recordOrigin_of_ne (Nat.ne_of_lt (traced.inRange other earlier isMade)) made).trans isMade

theorem Traced.grow (traced : Traced start isOpen pool origin) (extended : pool.Extends post)
    (registry : ∀ (fqn : String) (id : SymbolId), post.registry[fqn]? = some id →
      pool.registry[fqn]? = some id ∨ ∀ exported, start.Comprises true exported →
        exported.kind = .ofClass → exported.fqn ≠ some fqn) :
    Traces start isOpen pool origin post origin := by
  refine ⟨⟨?_, ?_, ?_, ?_⟩, extended.size_le, fun _ _ => rfl⟩
  · exact fun id exported made =>
      Nat.lt_of_lt_of_le (traced.inRange id exported made) extended.size_le
  · exact fun id isOpen => Nat.lt_of_lt_of_le (traced.open_lt id isOpen) extended.size_le
  · intro id exported made isClosed
    exact (traced.copied id exported made isClosed).mono (fun _ _ _ => extended.bears)
      fun _ _ isMade => isMade
  · intro fqn id exported registered isPart isClass named
    rcases registry fqn id registered with earlier | isOther
    · exact traced.registered fqn id exported earlier isPart isClass named
    · exact absurd named (isOther exported isPart isClass)

theorem Traced.record (traced : Traced start isOpen pool origin) (extended : pool.Extends post)
    (inRange : pool.table.size < post.table.size) {made : Option Export}
    {isOpenNow : SymbolId → Prop}
    (sameOpen : ∀ other, other ≠ pool.table.size → (isOpenNow other ↔ isOpen other))
    (copied : ∀ exported, made = some exported → ¬isOpenNow pool.table.size →
      exported.IsCopied post.table (recordOrigin origin pool.table.size made) pool.table.size)
    (registry : ∀ (fqn : String) (id : SymbolId), post.registry[fqn]? = some id →
      pool.registry[fqn]? = some id ∨ id = pool.table.size ∧
        ∀ exported, start.Comprises true exported → exported.kind = .ofClass →
          exported.fqn = some fqn → made = some exported) :
    Traced start isOpenNow post (recordOrigin origin pool.table.size made) := by
  refine ⟨?_, ?_, ?_, ?_⟩
  · intro other exported isMade
    by_cases isNew : other = pool.table.size
    · rwa [isNew]
    · rw [recordOrigin_of_ne isNew] at isMade
      exact Nat.lt_of_lt_of_le (traced.inRange other exported isMade) extended.size_le
  · intro other isOpen
    by_cases isNew : other = pool.table.size
    · rwa [isNew]
    · have wasOpen := (sameOpen other isNew).mp isOpen
      exact Nat.lt_of_lt_of_le (traced.open_lt other wasOpen) extended.size_le
  · intro other exported isMade isClosed
    by_cases isNew : other = pool.table.size
    · subst isNew
      rw [recordOrigin_self] at isMade
      exact copied exported isMade isClosed
    · rw [recordOrigin_of_ne isNew] at isMade
      exact (traced.copied other exported isMade fun wasOpen =>
        isClosed ((sameOpen other isNew).mpr wasOpen)).mono (fun _ _ _ => extended.bears)
          fun _ _ => traced.recordOrigin_kept made
  · intro fqn other exported registered isPart isClass named
    rcases registry fqn other registered with earlier | ⟨rfl, isNew⟩
    · exact traced.recordOrigin_kept made
        (traced.registered fqn other exported earlier isPart isClass named)
    · rw [recordOrigin_self]
      exact isNew exported isPart isClass named

theorem Traced.collect? {α : Type} {step : SymbolPool → α → Option (SymbolPool × SymbolId)}
    {Result : Origins → α → SymbolId → Prop}
    (stable : ∀ {pool post : SymbolPool} {origin later : Origins} {item : α}
      {id : SymbolId}, Traced start isOpen pool origin →
      Traces start isOpen pool origin post later → Result origin item id → Result later item id)
    {items : List α} {ids : List SymbolId}
    (steps : ∀ item ∈ items, ∀ {pool post : SymbolPool} {origin : Origins}
      {id : SymbolId}, Traced start isOpen pool origin → step pool item = some (post, id) →
        ∃ later, Traces start isOpen pool origin post later ∧ Result later item id)
    (traced : Traced start isOpen pool origin)
    (ran : collect? step pool items = some (post, ids)) :
    ∃ later, Traces start isOpen pool origin post later ∧
      List.Forall₂ (Result later) items ids := by
  induction items generalizing pool origin ids with
  | nil =>
    obtain ⟨rfl, rfl⟩ : pool = post ∧ [] = ids := by simpa [collect?] using ran
    exact ⟨origin, .refl traced, .nil⟩
  | cons item _ ih =>
    obtain ⟨⟨middle, id⟩, first, ran⟩ := Option.bind_eq_some_iff.mp ran
    obtain ⟨⟨last, others⟩, second, ran⟩ := Option.bind_eq_some_iff.mp ran
    obtain ⟨rfl, rfl⟩ : last = post ∧ id :: others = ids := by simpa using ran
    obtain ⟨between, firstTraces, result⟩ := steps item mem_cons_self traced first
    obtain ⟨later, restTraces, results⟩ := ih
      (fun other isOther => steps other (mem_cons_of_mem item isOther)) firstTraces.traced
      second
    exact ⟨later, firstTraces.trans restTraces,
      .cons (stable firstTraces.traced restTraces result) results⟩

theorem Traced.push (traced : Traced start isOpen pool origin) {symbol : Symbol}
    (copied : ∀ table : SymbolTable,
      table.Bears pool.table.size symbol.name symbol.fqn symbol.data →
      exported.IsCopied table (recordOrigin origin pool.table.size exported) pool.table.size) :
    Traces start isOpen pool origin (pool.push symbol).1
      (recordOrigin origin pool.table.size exported) := by
  have larger : pool.table.size < (pool.push symbol).1.table.size := size_lt_push ..
  refine ⟨traced.record ((SymbolPool.Extends.refl pool).push symbol) larger
    (fun _ _ => Iff.rfl) ?_ fun _ _ => .inl, Nat.le_of_lt larger,
    fun other older => recordOrigin_of_ne (Nat.ne_of_lt older) _⟩
  rintro _ ⟨⟩ -
  exact copied _ (bears_of_get? (get?_push_size ..))

theorem registry_openClass {name : String} {fqn : Option String} {known : String}
    (registered : (pool.openClass name fqn).registry[known]? = some id) :
    pool.registry[known]? = some id ∨ fqn = some known ∧ id = pool.table.size := by
  cases fqn with
  | none => exact .inl registered
  | some fqn =>
    change (pool.registry.insertIfNew fqn pool.table.size)[known]? = some id at registered
    rw [Std.ExtTreeMap.getElem?_insertIfNew] at registered
    split at registered
    next isNew =>
      obtain rfl : fqn = known := by simpa using isNew.1
      exact .inr ⟨rfl, (Option.some.inj registered).symm⟩
    · exact .inl registered

theorem Traced.openClass (apart : project.TellsApart start)
    (traced : Traced start isOpen pool origin) {name : String} {fqn : Option String}
    {info : ClassExport} {members : List Export}
    (met : project.Meets start (.ofClass name fqn info members)) :
    ∃ opened, Traced start (fun other => isOpen other ∨ other = pool.table.size)
        (pool.openClass name fqn) opened ∧
      (∀ other, other < pool.table.size → opened other = origin other) ∧
      ∀ made, opened pool.table.size = some made ↔
        made = .ofClass name fqn info members ∧ ∃ reuse, start.Comprises reuse made := by
  obtain ⟨made, isMade⟩ : ∃ made : Option Export, ∀ exported, made = some exported ↔
      exported = .ofClass name fqn info members ∧ ∃ reuse, start.Comprises reuse exported := by
    by_cases isPart : ∃ reuse, start.Comprises reuse (.ofClass name fqn info members)
    · refine ⟨some (.ofClass name fqn info members), fun exported => ⟨?_, ?_⟩⟩
      · rintro ⟨⟩
        exact ⟨rfl, isPart⟩
      · exact fun isOwn => congrArg some isOwn.1.symm
    · refine ⟨none, fun exported => ⟨nofun, ?_⟩⟩
      rintro ⟨rfl, isComprised⟩
      exact absurd isComprised isPart
  refine ⟨recordOrigin origin pool.table.size made, ?_,
    fun other isOlder => recordOrigin_of_ne (Nat.ne_of_lt isOlder) _, ?_⟩
  · refine traced.record (openClass_extends pool name fqn)
      (lt_size_of_get? (get?_openClass pool name fqn))
      (fun other isOld => ⟨fun isOpen => isOpen.resolve_right isOld, .inl⟩)
      (fun _ _ isClosed => absurd (.inr rfl) isClosed) fun known other registered => ?_
    -- a part that is registered by this name is this class
    refine (registry_openClass registered).imp_right fun isNew =>
      ⟨isNew.2, fun exported isPart isClass named => (isMade exported).mpr ⟨?_, true, isPart⟩⟩
    exact (apart.unique exported _ known isPart met isClass rfl named isNew.1).symm
  · intro exported
    rw [recordOrigin_self]
    exact isMade exported

theorem Traced.setData
    (traced : Traced start (fun other => isOpen other ∨ other = id) pool origin)
    {data : SymbolData}
    (copied : ∀ exported, origin id = some exported →
      exported.IsCopied (pool.setData id data).table origin id) :
    Traced start isOpen (pool.setData id data) origin := by
  have sameSize : (pool.setData id data).table.size = pool.table.size :=
    size_setData ..
  refine ⟨?_, ?_, ?_, traced.registered⟩
  · intro other exported made
    rw [sameSize]
    exact traced.inRange other exported made
  · intro other wasOpen
    rw [sameSize]
    exact traced.open_lt other (.inl wasOpen)
  · intro other exported made isClosed
    by_cases isOwn : other = id
    · subst isOwn
      exact copied exported made
    · refine (traced.copied other exported made fun isOpen => ?_).mono
        (fun _ _ _ bears => bears.setData_of_ne (Ne.symm isOwn) data) fun _ _ isMade => isMade
      exact isOpen.elim isClosed isOwn

theorem Traced.follow (apart : project.TellsApart start) {depth : Nat}
    (copies : ∀ {pool post : SymbolPool} {origin : Origins} {id : SymbolId}
      {exported : Export}, project.Meets start exported → Traced start isOpen pool origin →
      project.instantiate depth true pool exported = some (post, id) →
        ∃ later, Traces start isOpen pool origin post later)
    (traced : Traced start isOpen pool origin) {owner : Export} {link : BaseLink}
    (met : project.Meets start owner) (isLink : link ∈ owner.bases)
    (followed : project.follow depth pool link = some (post, id)) :
    ∃ later, Traces start isOpen pool origin post later := by
  rcases project.follow_cases depth pool link with ⟨_, isPlaceholder⟩ | ⟨fqn, named,
    ⟨_, _, isRegistered⟩ | ⟨base, found, _, isCopied⟩ | ⟨_, _, _, _, isMade, makes, _⟩ |
    ⟨unknown, unregistered, _, isPlaceholder⟩⟩
  · obtain rfl := congrArg Prod.fst (Option.some.inj (isPlaceholder.symm.trans followed))
    exact ⟨origin, traced.grow ((SymbolPool.Extends.refl pool).push _)
      fun _ _ registered => .inl registered⟩
  · obtain rfl := congrArg Prod.fst (Option.some.inj (isRegistered.symm.trans followed))
    exact ⟨origin, .refl traced⟩
  · exact copies (.base met isLink named found) traced (isCopied.symm.trans followed)
  · obtain rfl := congrArg Prod.fst (Option.some.inj (isMade.symm.trans followed))
    refine ⟨origin, traced.grow makes.extended fun known other registered => ?_⟩
    rcases makes.registered known other registered with earlier | ⟨isBuiltin, -⟩
    · exact .inl earlier
    · refine .inr fun exported isPart isClass isNamed => ?_
      have notBuiltin := (apart.known exported known isPart isClass isNamed).1
      rw [isBuiltin] at notBuiltin
      cases notBuiltin
  · obtain rfl := congrArg Prod.fst (Option.some.inj (isPlaceholder.symm.trans followed))
    refine ⟨origin, traced.grow (pushPlaceholder_extends _ unregistered)
      fun known other registered => ?_⟩
    by_cases isLinked : fqn = known
    · subst isLinked
      exact .inr fun exported isPart isClass isNamed =>
        (apart.known exported fqn isPart isClass isNamed).2 owner link met isLink named unknown
    · exact .inl ((SymbolPool.registry_register_of_ne _ isLinked _).symm.trans registered)

end Trace

end Project

/-! ## Alternatives -/

theorem Sequence.all_eq_of_forall₂ {α β : Type} {first : α → Bool} {second : β → Bool}
    {items : List α} {others : List β}
    (agree : List.Forall₂ (fun item other => first item = second other) items others) :
    items.all first = others.all second := by
  induction agree with
  | nil => rfl
  | cons head _ ih =>
    rw [all_cons, all_cons, head, ih]

namespace SymbolTable

variable {table : SymbolTable} {ids : List SymbolId}

theorem flattened_of_plain (isPlain : ∀ id ∈ ids, table.Plain id) (distinct : ids.Nodup) :
    table.flattened ids = ids := by
  have opened : ids.flatMap (table.leaves table.size) = ids.flatMap fun id => [id] :=
    flatMap_congr fun id isIn => leaves_of_plain (isPlain id isIn) table.size
  rw [flattened, opened, flatMap_singleton', eraseDups_of_nodup distinct]

def NamedLike (table : SymbolTable) (exported : Export) (id : SymbolId) : Prop :=
  table.nameOf id = exported.name ∧ table.fqnOf? id = exported.fqn

section Named

variable {first : Export} {rest : List Export} {id : SymbolId}
  (firstNamed : table.NamedLike first id) (restNamed : List.Forall₂ table.NamedLike rest ids)

include firstNamed restNamed

theorem commonName?_of_named :
    table.commonName? (id :: ids) =
      if rest.all (·.name == first.name) then some first.name else none := by
  have sameNames : ids.all (fun other => table.nameOf other == first.name) =
      rest.all (·.name == first.name) := by
    refine (all_eq_of_forall₂ (restNamed.imp fun other otherId named => ?_)).symm
    rw [named.1]
  rw [commonName?, firstNamed.1, sameNames]

theorem commonFqn?_of_named :
    table.commonFqn? (id :: ids) =
      first.fqn.filter fun fqn => rest.all fun other => other.fqn == some fqn := by
  have sameNames : ∀ fqn, ids.all (fun other => table.fqnOf? other == some fqn) =
      rest.all fun other => other.fqn == some fqn := by
    intro fqn
    refine (all_eq_of_forall₂ (restNamed.imp fun other otherId named => ?_)).symm
    rw [named.2]
  simp only [commonFqn?, firstNamed.2, sameNames]

end Named

theorem ambiguous?_of_named {alternatives : List Export} (several : 2 ≤ alternatives.length)
    (distinct : ids.Nodup) (isPlain : ∀ id ∈ ids, table.Plain id)
    (named : List.Forall₂ table.NamedLike alternatives ids) {name : String} {fqn : Option String}
    (united : unitedNames alternatives = some (name, fqn)) :
    ∃ symbol, table.ambiguous? ids = .ok symbol ∧ symbol.name = name ∧ symbol.fqn = fqn ∧
      symbol.data = .ambiguous ids := by
  have isFlat := flattened_of_plain isPlain distinct
  cases named with
  | nil => cases several
  | cons firstNamed restNamed =>
    have isName := commonName?_of_named firstNamed restNamed
    have isFqn := commonFqn?_of_named firstNamed restNamed
    cases restNamed with
    | nil => simp at several
    | cons =>
      rw [ambiguous?, isFlat]
      dsimp only
      rw [isName, isFqn]
      unfold unitedNames at united
      dsimp only at united
      split at united
      next sameName =>
        cases united
        rw [if_pos sameName]
        exact ⟨_, rfl, rfl, rfl, rfl⟩
      next differ =>
        obtain ⟨shared, isShared, names⟩ := Option.map_eq_some_iff.mp united
        obtain ⟨rfl, rfl⟩ := Prod.mk.inj names
        rw [if_neg differ, isShared]
        exact ⟨_, rfl, rfl, rfl, rfl⟩

end SymbolTable

theorem Export.IsCopied.bears {table : SymbolTable} {exported : Export} {id : SymbolId}
    (copied : exported.IsCopied table origin id) :
    ∃ data, table.Bears id exported.name exported.fqn data ∧ data.kind = exported.kind := by
  cases exported with
  | other => exact ⟨_, copied, rfl⟩
  | function => exact ⟨_, copied, rfl⟩
  | ofClass =>
    obtain ⟨_, _, bears, _⟩ := copied
    exact ⟨_, bears, rfl⟩
  | ambiguous =>
    obtain ⟨_, bears, _⟩ := copied
    exact ⟨_, bears, rfl⟩

namespace Project

open SymbolPool

variable {project : Project} {depth : Nat} {pool post : SymbolPool} {id : SymbolId}

theorem instantiate_fresh {exported : Export} (isPlain : exported.kind ≠ .ambiguous)
    (made : project.instantiate depth false pool exported = some (post, id)) :
    id = pool.table.size ∧ id < post.table.size := by
  cases depth with
  | zero =>
    cases made
  | succ =>
    cases exported with
    | other =>
      cases made
      exact ⟨rfl, size_lt_push ..⟩
    | function =>
      cases made
      exact ⟨rfl, size_lt_push ..⟩
    | ofClass name fqn =>
      have unregistered : registered? pool false fqn = none := rfl
      obtain ⟨linked, bases, copied, ids, followed, copies, rfl, rfl⟩ :=
        (instantiate_class_eq_some_iff unregistered).mp made
      have links := Brings.collect? (fun _ _ => follow_brings) followed
      have parts := Brings.collect? (fun _ _ => instantiate_brings) copies
      have filled := (links.trans parts).extended.get?_of_some (get?_openClass pool name fqn)
      refine ⟨rfl, ?_⟩
      show pool.table.size < (copied.table.setData _ _).size
      rw [size_setData]
      exact lt_size_of_get? filled
    | ambiguous => exact absurd rfl isPlain

theorem collect?_fresh {exports : List Export} {ids : List SymbolId}
    (isPlain : ∀ exported ∈ exports, exported.kind ≠ .ambiguous)
    (ran : collect? (project.instantiate depth false) pool exports = some (post, ids)) :
    ids.Nodup ∧ ∀ id ∈ ids, pool.table.size ≤ id := by
  induction exports generalizing pool ids with
  | nil =>
    obtain ⟨-, rfl⟩ : pool = post ∧ [] = ids := by simpa [collect?] using ran
    exact ⟨nodup_nil, by simp⟩
  | cons _ _ ih =>
    rw [forall_mem_cons] at isPlain
    obtain ⟨⟨middle, id⟩, first, ran⟩ := Option.bind_eq_some_iff.mp ran
    obtain ⟨⟨last, others⟩, second, ran⟩ := Option.bind_eq_some_iff.mp ran
    obtain ⟨rfl, rfl⟩ : last = post ∧ id :: others = ids := by simpa using ran
    obtain ⟨rfl, isOlder⟩ := instantiate_fresh isPlain.1 first
    obtain ⟨distinct, areNew⟩ := ih isPlain.2 second
    refine ⟨nodup_cons.mpr ⟨?_, distinct⟩, ?_⟩
    · intro isOther
      exact absurd isOlder (Nat.not_lt.mpr (areNew _ isOther))
    · intro other isIn
      rcases mem_cons.mp isIn with rfl | isIn
      · exact Nat.le_refl _
      · exact Nat.le_trans (Nat.le_of_lt isOlder) (areNew other isIn)

variable {start : Export} {isOpen : SymbolId → Prop} {origin : Origins}

theorem registry_unite (pool : SymbolPool) (ids : List SymbolId) (name : String)
    (fqn : Option String) : (unite pool ids name fqn).1.registry = pool.registry := by
  unfold unite
  split <;> rfl

theorem Traced.unite {name : String} {fqn : Option String} {alternatives : List Export}
    {ids : List SymbolId} (traced : Traced start isOpen pool origin)
    (several : 2 ≤ alternatives.length)
    (isPlain : ∀ alternative ∈ alternatives, alternative.kind ≠ .ambiguous)
    (united : unitedNames alternatives = some (name, fqn)) (distinct : ids.Nodup)
    (closed : ∀ id ∈ ids, ¬isOpen id)
    (made : List.Forall₂ (fun alternative id => origin id = some alternative) alternatives ids) :
    (unite pool ids name fqn).2 = pool.table.size ∧
      Traces start isOpen pool origin (unite pool ids name fqn).1
        (recordOrigin origin pool.table.size (Export.ambiguous name fqn alternatives)) := by
  have copies : List.Forall₂ (fun alternative id => alternative.IsCopied pool.table origin id)
      alternatives ids :=
    (((forall₂_and_left ids alternatives).mpr ⟨closed, made.flip⟩).imp
      fun id alternative isMade => traced.copied id alternative isMade.2 isMade.1).flip
  have named : List.Forall₂ pool.table.NamedLike alternatives ids :=
    copies.imp fun alternative id copied =>
      have ⟨_, bears, _⟩ := copied.bears
      ⟨bears.nameOf, bears.fqnOf?⟩
  have plainCopies : ∀ id ∈ ids, pool.table.Plain id := by
    intro id isIn
    obtain ⟨alternative, _, notAmbiguous, copied⟩ := exists_of_forall₂
      ((forall₂_and_left alternatives ids).mpr ⟨isPlain, copies⟩).flip isIn
    obtain ⟨data, bears, sameKind⟩ := copied.bears
    exact bears.plain (sameKind ▸ notAmbiguous)
  obtain ⟨symbol, isMade, rfl, rfl, isAmbiguous⟩ :=
    ambiguous?_of_named several distinct plainCopies named united
  have isPushed : Project.unite pool ids symbol.name symbol.fqn = pool.push symbol := by
    unfold Project.unite SymbolTable.unite SymbolTable.pushAmbiguous
    rw [isMade]
    rfl
  rw [isPushed]
  refine ⟨rfl, traced.push fun table bears => ⟨ids, isAmbiguous ▸ bears, distinct, ?_⟩⟩
  exact made.imp fun alternative id => traced.recordOrigin_kept _

/-! ## Copying -/

def CopiesTraced (project : Project) (start : Export) (depth : Nat) : Prop :=
  ∀ ⦃reuse : Bool⦄ ⦃isOpen : SymbolId → Prop⦄ ⦃pool post : SymbolPool⦄
    ⦃origin : Origins⦄ ⦃id : SymbolId⦄ ⦃exported : Export⦄,
    project.Meets start exported → Traced start isOpen pool origin →
    project.instantiate depth reuse pool exported = some (post, id) →
      ∃ later, Traces start isOpen pool origin post later ∧
        (start.Comprises reuse exported → later id = some exported)

section Copying

variable {reuse : Bool} {name : String} {fqn : Option String} (apart : project.TellsApart start)
  (copies : CopiesTraced project start depth)

include copies

theorem CopiesTraced.collect? {exports : List Export} {ids : List SymbolId}
    (met : ∀ exported ∈ exports, project.Meets start exported)
    (traced : Traced start isOpen pool origin)
    (ran : collect? (project.instantiate depth reuse) pool exports = some (post, ids)) :
    ∃ later, Traces start isOpen pool origin post later ∧
      List.Forall₂ (fun exported id => start.Comprises reuse exported → later id = some exported)
        exports ids := by
  refine traced.collect? ?_ (fun exported isIn => copies (met exported isIn)) ran
  intro _ _ _ _ _ _ traced traces result isPart
  exact traces.origin_eq traced (result isPart)

include apart

theorem CopiesTraced.links {owner : Export} (met : project.Meets start owner)
    (traced : Traced start isOpen pool origin) {ids : List SymbolId}
    (ran : Sequence.collect? (project.follow depth) pool owner.bases = some (post, ids)) :
    ∃ later, Traces start isOpen pool origin post later := by
  have follows : ∀ link ∈ owner.bases, ∀ {pool post : SymbolPool}
      {origin : Origins} {id : SymbolId}, Traced start isOpen pool origin →
      project.follow depth pool link = some (post, id) →
        ∃ later, Traces start isOpen pool origin post later ∧ True := by
    intro link isLink pool post origin id traced followed
    obtain ⟨later, traces⟩ := traced.follow apart
      (fun met traced made => (copies met traced made).imp fun _ => And.left) met isLink followed
    exact ⟨later, traces, trivial⟩
  obtain ⟨later, traces, -⟩ := traced.collect? (fun _ _ _ => trivial) follows ran
  exact ⟨later, traces⟩

theorem CopiesTraced.class {info : ClassExport} {members : List Export}
    (met : project.Meets start (.ofClass name fqn info members))
    (traced : Traced start isOpen pool origin) (unregistered : registered? pool reuse fqn = none)
    (made : project.instantiate (depth + 1) reuse pool (.ofClass name fqn info members) =
      some (post, id)) :
    ∃ later, Traces start isOpen pool origin post later ∧
      (start.Comprises reuse (.ofClass name fqn info members) →
        later id = some (.ofClass name fqn info members)) := by
  obtain ⟨linked, bases, copied, ids, followed, copying, rfl, rfl⟩ :=
    (instantiate_class_eq_some_iff unregistered).mp made
  obtain ⟨opened, openedTraced, openedKept, own⟩ := traced.openClass apart met
  obtain ⟨between, linkTraces⟩ := copies.links apart met openedTraced followed
  obtain ⟨later, memberTraces, results⟩ :=
    copies.collect? (fun _ => .member met) linkTraces.traced copying
  have traces := linkTraces.trans memberTraces
  have inRange := lt_size_of_get? (get?_openClass pool name fqn)
  have ownKept : later pool.table.size = opened pool.table.size := traces.kept _ inRange
  have links := Brings.collect? (fun _ _ => follow_brings) followed
  have parts := Brings.collect? (fun _ _ => instantiate_brings) copying
  have isBlank := (links.trans parts).extended.get?_of_some (get?_openClass pool name fqn)
  have filled : Traced start isOpen
      (copied.setData pool.table.size (.ofClass (info.filled bases ids))) later := by
    refine traces.traced.setData fun exported isMade => ?_
    rw [ownKept, own] at isMade
    obtain ⟨rfl, mode, isPart⟩ := isMade
    refine ⟨bases, ids, bears_of_get? (get?_setData_self isBlank _), ?_⟩
    exact ((forall₂_and_left members ids).mpr
      ⟨fun _ => Comprises.member isPart, results⟩).imp fun _ _ both => both.2 both.1
  refine ⟨later, ⟨filled, ?_, ?_⟩, fun isPart => ?_⟩
  · show pool.table.size ≤ (copied.table.setData _ _).size
    rw [size_setData]
    exact Nat.le_of_lt (lt_size_of_get? isBlank)
  · intro other older
    exact (traces.kept other (Nat.lt_trans older inRange)).trans (openedKept other older)
  · exact ownKept.trans ((own _).mpr ⟨rfl, reuse, isPart⟩)

theorem CopiesTraced.ambiguous {alternatives : List Export}
    (met : project.Meets start (.ambiguous name fqn alternatives))
    (traced : Traced start isOpen pool origin)
    (made : project.instantiate (depth + 1) reuse pool (.ambiguous name fqn alternatives) =
      some (post, id)) :
    ∃ later, Traces start isOpen pool origin post later ∧
      (start.Comprises reuse (.ambiguous name fqn alternatives) →
        later id = some (.ambiguous name fqn alternatives)) := by
  obtain ⟨copied, ids, copying, united⟩ := instantiate_ambiguous_eq_some_iff.mp made
  obtain ⟨later, traces, results⟩ := copies.collect? (fun _ => .alternative met) traced copying
  by_cases isPart : ∃ mode, start.Comprises mode (.ambiguous name fqn alternatives)
  · obtain ⟨mode, isPart⟩ := isPart
    obtain ⟨several, isUnited, isPlain⟩ := apart.united mode name fqn alternatives isPart
    obtain ⟨distinct, areNew⟩ := collect?_fresh isPlain copying
    have alternativesMade : List.Forall₂ (fun alternative id => later id = some alternative)
        alternatives ids :=
      ((forall₂_and_left alternatives ids).mpr
        ⟨fun _ => Comprises.alternative isPart, results⟩).imp fun _ _ both => both.2 both.1
    have closed : ∀ id ∈ ids, ¬isOpen id := fun id isIn wasOpen =>
      absurd (traced.open_lt id wasOpen) (Nat.not_lt.mpr (areNew id isIn))
    obtain ⟨isNew, unites⟩ := traces.traced.unite several isPlain isUnited distinct closed
      alternativesMade
    rw [united] at isNew unites
    obtain rfl : id = copied.table.size := isNew
    exact ⟨_, traces.trans unites, fun _ => recordOrigin_self ..⟩
  · have joined := (unite_brings copied ids name fqn).extended
    have sameRegistry := registry_unite copied ids name fqn
    rw [united] at joined sameRegistry
    refine ⟨later, traces.trans (traces.traced.grow joined ?_),
      fun isComprised => absurd ⟨reuse, isComprised⟩ isPart⟩
    intro known id registered
    exact .inl (sameRegistry ▸ registered)

end Copying

theorem Traced.reuse (traced : Traced start isOpen pool origin) {reuse : Bool} {exported : Export}
    (isClass : exported.kind = .ofClass)
    (registered : registered? pool reuse exported.fqn = some id)
    (isPart : start.Comprises reuse exported) : origin id = some exported := by
  unfold registered? at registered
  split at registered
  next mayReuse =>
    subst mayReuse
    obtain ⟨fqn, isNamed, isRegistered⟩ := Option.bind_eq_some_iff.mp registered
    exact traced.registered fqn id exported isRegistered isPart isClass isNamed
  · cases registered

theorem copiesTraced (apart : project.TellsApart start) (depth : Nat) :
    CopiesTraced project start depth := by
  induction depth with
  | zero =>
    intro reuse isOpen pool post origin id exported _ _ made
    cases made
  | succ _ ih =>
    intro reuse isOpen pool post origin id exported met traced made
    cases exported with
    | other name fqn =>
      cases made
      exact ⟨recordOrigin origin pool.table.size (Export.other name fqn),
        traced.push fun _ bears => bears, fun _ => recordOrigin_self ..⟩
    | function name fqn info =>
      cases made
      exact ⟨recordOrigin origin pool.table.size (Export.function name fqn info),
        traced.push fun _ bears => bears, fun _ => recordOrigin_self ..⟩
    | ofClass _ fqn =>
      cases registered : registered? pool reuse fqn with
      | some =>
        rw [instantiate_class_of_registered registered] at made
        cases made
        exact ⟨origin, .refl traced, traced.reuse rfl registered⟩
      | none => exact ih.class apart met traced registered made
    | ambiguous =>
      exact ih.ambiguous apart met traced made

/-- If copying tells the parts of an export apart, the new symbol mirrors the export. -/
theorem instantiate_mirrors (project : Project) (table : SymbolTable) (exported : Export)
    (depth : Nat) (post : SymbolPool) (id : SymbolId)
    (made : project.instantiate depth true ⟨table, ∅⟩ exported = some (post, id)) :
    (∀ old, old < table.size → post.table.get? old = table.get? old) ∧
      (∀ new symbol, table.size ≤ new → post.table.get? new = some symbol → symbol.usages = []) ∧
      (project.TellsApart exported → table.size ≤ id ∧ post.table.Mirrors exported id) := by
  have brings := instantiate_brings made
  refine ⟨brings.extended.get?, brings.unused, fun apart => ?_⟩
  have untraced : Traced exported (fun _ => False) ⟨table, ∅⟩ (fun _ => none) := by
    refine ⟨?_, fun _ => False.elim, ?_, ?_⟩
    · rintro _ _ ⟨⟩
    · rintro _ _ ⟨⟩
    · intro fqn id exported registered
      rw [Std.ExtTreeMap.getElem?_empty] at registered
      cases registered
  obtain ⟨origin, traces, isOrigin⟩ := copiesTraced apart depth .start untraced made
  have isCopied : ∀ id exported, origin id = some exported →
      exported.IsCopied post.table origin id :=
    fun id exported isMade => traces.traced.copied id exported isMade fun isOpen => isOpen
  refine ⟨?_, exported.mirrored_of_copied isCopied (isOrigin .self)⟩
  by_contra isOlder
  have untraced : origin id = none := traces.kept id (Nat.lt_of_not_le isOlder)
  rw [isOrigin .self] at untraced
  cases untraced

end Project

/-! ## Classes in two variants -/

namespace Project

variable {project : Project} {start exported : Export}

theorem Meets.mem_of_closed {met : List Export} (isStart : start ∈ met)
    (members : ∀ owner ∈ met, ∀ member ∈ owner.members, member ∈ met)
    (alternatives : ∀ owner ∈ met, ∀ alternative ∈ owner.alternatives, alternative ∈ met)
    (bases : ∀ owner ∈ met, ∀ link ∈ owner.bases, ∀ fqn base, link.fqn? = some fqn →
      project.symbol? fqn = some base → base ∈ met)
    (isMet : project.Meets start exported) : exported ∈ met := by
  induction isMet with
  | start => exact isStart
  | member _ isMember ih => exact members _ ih _ isMember
  | alternative _ isAlternative ih =>
    exact alternatives _ ih _ isAlternative
  | base _ isLink named found ih =>
    exact bases _ ih _ isLink _ _ named found

end Project

namespace Export

theorem Comprises.mem_of_closed {start exported : Export} {reused apart : List Export}
    {reuse : Bool} (isStart : start ∈ reused)
    (members : ∀ owner ∈ reused ++ apart, ∀ member ∈ owner.members, member ∈ reused)
    (alternatives : ∀ owner ∈ reused ++ apart, ∀ alternative ∈ owner.alternatives,
      alternative ∈ apart)
    (isPart : start.Comprises reuse exported) : exported ∈ if reuse then reused else apart := by
  have either : ∀ {reuse : Bool} {owner : Export}, (owner ∈ if reuse then reused else apart) →
      owner ∈ reused ++ apart := by
    intro reuse owner isIn
    cases reuse with
    | true => exact mem_append_left _ isIn
    | false => exact mem_append_right _ isIn
  induction isPart with
  | self => exact isStart
  | member _ isMember ih =>
    exact members _ (either ih) _ isMember
  | alternative _ isAlternative ih =>
    exact alternatives _ (either ih) _ isAlternative

def inside (name fqn method : String) : Export :=
  linkedClass name fqn [] [.function method none .blank]

def around (inner : Export) : Export :=
  linkedClass "A" "lib.A" [.toClass "lib.Base"] [inner]

def variants (first second : Export) : Export :=
  .ambiguous "A" (some "lib.A") [around first, around second]

def namedApart : Export :=
  variants (inside "B" "lib.A.B" "f") (inside "C" "lib.A.C" "g")

def namedAlike : Export :=
  variants (inside "B" "lib.A.B" "f") (inside "B" "lib.A.B" "g")

end Export

namespace Project

def library : Project where
  modules := (∅ : Std.ExtTreeMap String (List Export)).insert "lib"
    [.linkedClass "Base" "lib.Base" [] []]
  settings := {}

section

attribute [local simp] Export.members Export.alternatives Export.bases Export.kind Export.fqn
  namedApart variants around inside linkedClass

theorem tellsApart_namedApart : library.TellsApart .namedApart := by
  let classB := inside "B" "lib.A.B" "f"
  let classC := inside "C" "lib.A.C" "g"
  let base := linkedClass "Base" "lib.Base" [] []
  let reused : List Export :=
    [.namedApart, classB, classC, .function "f" none .blank, .function "g" none .blank]
  let apart : List Export := [.around classB, .around classC]
  have isBase : library.symbol? "lib.Base" = some base := rfl
  have links : ∀ owner ∈ base :: (reused ++ apart), ∀ link ∈ owner.bases,
      link = .toClass "lib.Base" := by
    simp [reused, apart, base, classB, classC]
  have parts : ∀ {exported reuse}, namedApart.Comprises reuse exported →
      exported ∈ if reuse then reused else apart :=
    Export.Comprises.mem_of_closed mem_cons_self (by simp [reused, apart, classB, classC])
      (by simp [reused, apart, classB, classC])
  have met : ∀ {exported}, library.Meets .namedApart exported →
      exported ∈ base :: (reused ++ apart) := by
    refine Meets.mem_of_closed (mem_cons_of_mem _ mem_cons_self)
      (by simp [reused, apart, base, classB, classC])
      (by simp [reused, apart, base, classB, classC]) ?_
    intro owner isOwner link isLink fqn linked named found
    obtain rfl := links owner isOwner link isLink
    cases named
    obtain rfl := Option.some.inj (isBase.symm.trans found)
    exact mem_cons_self
  have classes : ∀ exported ∈ reused, exported.kind = .ofClass →
      exported = classB ∨ exported = classC := by
    simp [reused, classB, classC]
  have only : ∀ exported, exported = classB ∨ exported = classC →
      ∀ other ∈ base :: (reused ++ apart), other.kind = .ofClass →
        other.fqn = exported.fqn → other = exported := by
    simp [reused, apart, base, classB, classC]
  have onlyAmbiguous : ∀ exported ∈ reused ++ apart, exported.kind = .ambiguous →
      exported = .namedApart := by
    simp [reused, apart, classB, classC]
  refine ⟨?_, ?_, ?_⟩
  · intro exported other fqn isPart isMet isClass otherClass named otherNamed
    exact only exported (classes exported (parts isPart) isClass) other (met isMet) otherClass
      (otherNamed.trans named.symm)
  · intro exported fqn isPart isClass named
    have isInner : fqn = "lib.A.B" ∨ fqn = "lib.A.C" := by
      rcases classes exported (parts isPart) isClass with rfl | rfl
      · exact .inl (Option.some.inj named).symm
      · exact .inr (Option.some.inj named).symm
    constructor
    · rcases isInner with rfl | rfl <;> decide +kernel
    · intro owner link isMet isLink linked
      obtain rfl := links owner (met isMet) link isLink
      cases linked
      exact absurd isInner (by decide)
  · intro reuse name fqn alternatives isPart
    have isIn : Export.ambiguous name fqn alternatives ∈ reused ++ apart := by
      cases reuse with
      | true => exact mem_append_left _ (parts isPart)
      | false => exact mem_append_right _ (parts isPart)
    obtain ⟨rfl, rfl, rfl⟩ := Export.ambiguous.inj (onlyAmbiguous _ isIn rfl)
    exact ⟨Nat.le_refl 2, rfl, by simp⟩

end

theorem instantiate_mirrors_namedApart :
    ∃ post id,
      library.instantiate (library.depthFor .namedApart) true
        ⟨SymbolTable.empty.push ⟨"x", none, .other [], none, false, [⟨0, ⟨0, 1⟩, .other⟩]⟩, ∅⟩
        .namedApart = some (post, id) ∧
      (post.table.get? 0).map (·.usages.length) = some 1 ∧ 1 ≤ id ∧
      post.table.Mirrors .namedApart id := by
  have copied : (library.instantiate (library.depthFor .namedApart) true
      ⟨SymbolTable.empty.push ⟨"x", none, .other [], none, false, [⟨0, ⟨0, 1⟩, .other⟩]⟩, ∅⟩
      .namedApart).isSome = true := by decide +kernel
  obtain ⟨⟨post, id⟩, made⟩ := Option.isSome_iff_exists.mp copied
  obtain ⟨unchanged, -, mirrors⟩ := instantiate_mirrors _ _ _ _ _ _ made
  obtain ⟨isNew, mirrors⟩ := mirrors tellsApart_namedApart
  refine ⟨post, id, made, ?_, isNew, mirrors⟩
  rw [unchanged 0 (by decide)]
  rfl

end Project

namespace SymbolTable.Mirrors

variable {table : SymbolTable} {id : SymbolId} {name : String} {fqn : Option String}

theorem name_eq {info : FunctionInfo} (mirrors : table.Mirrors (.function name fqn info) id) :
    table.nameOf id = name := by
  cases mirrors with
  | function found => exact found.nameOf

theorem members {info : ClassExport} {members : List Export}
    (mirrors : table.Mirrors (.ofClass name fqn info members) id) :
    List.Forall₂ table.Mirrors members (table.members id) := by
  cases mirrors with
  | ofClass found =>
    obtain ⟨symbol, isSymbol, -, -, isClass⟩ := found
    rwa [SymbolTable.members, SymbolTable.class?, isSymbol, Option.bind_some, Symbol.class?,
      isClass]

theorem only_member {fqn : String} {bases : List BaseLink} {member : Export}
    (mirrors : table.Mirrors (.linkedClass name fqn bases [member]) id) :
    ∃ only, table.members id = [only] ∧ table.Mirrors member only := by
  have mirrored := mirrors.members
  generalize table.members id = ids at mirrored
  cases mirrored with
  | cons first rest =>
    cases rest
    exact ⟨_, rfl, first⟩

theorem alternatives {alternatives : List Export}
    (mirrors : table.Mirrors (.ambiguous name fqn alternatives) id) :
    List.Forall₂ table.Mirrors alternatives (table.alternatives id) := by
  cases mirrors with
  | ambiguous found =>
    obtain ⟨symbol, isSymbol, -, -, isAmbiguous⟩ := found
    rwa [SymbolTable.alternatives, isSymbol, Option.map_some, Symbol.alternatives, isAmbiguous]

end SymbolTable.Mirrors

namespace Project

/-- Where inner classes have one name, the second variant gets the class of the first. -/
theorem not_instantiate_mirrors :
    ¬ ∀ (project : Project) (table : SymbolTable) (exported : Export) (depth : Nat)
      (post : SymbolPool) (id : SymbolId),
      project.instantiate depth true ⟨table, ∅⟩ exported = some (post, id) →
        post.table.Mirrors exported id := by
  intro every
  have leaks : (library.instantiate (library.depthFor .namedAlike) true ⟨.empty, ∅⟩
      .namedAlike).map (fun made => (((made.1.table.alternatives made.2).flatMap
        made.1.table.members).flatMap made.1.table.members).map made.1.table.nameOf) =
      some ["f", "f"] := by decide +kernel
  obtain ⟨⟨post, id⟩, made, names⟩ := Option.map_eq_some_iff.mp leaks
  have variants := (every library .empty .namedAlike _ post id made).alternatives
  dsimp only at names
  generalize post.table.alternatives id = ids at variants names
  obtain _ | ⟨first, _ | ⟨second, _ | _⟩⟩ := variants
  obtain ⟨firstInner, isFirst, firstMirrors⟩ := first.only_member
  obtain ⟨secondInner, isSecond, secondMirrors⟩ := second.only_member
  obtain ⟨firstMethod, isFirstMethod, _⟩ := firstMirrors.only_member
  obtain ⟨secondMethod, isSecondMethod, mirrors⟩ := secondMirrors.only_member
  simp only [List.flatMap_cons, List.flatMap_nil, isFirst, isSecond, isFirstMethod,
    isSecondMethod, mirrors.name_eq, List.append_nil, List.cons_append, List.nil_append,
    List.map_cons, List.map_nil] at names
  simp at names

end Project

end PyStatic
