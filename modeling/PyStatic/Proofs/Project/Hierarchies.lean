import PyStatic.Proofs.Project.Copying

/-!
Contract: hierarchies of classes that span modules, copied with one symbol for each class.

The measure that ends the copying is the number of names that exports carry and that are not
registered yet: a class is registered before its links are followed, and no registered name is
followed again.
-/

namespace PyStatic

open List SymbolTable SymbolPool Export

namespace Export

def bases : Export → List BaseLink
  | ofClass _ _ info _ => info.bases
  | _ => []

def memberClasses (exported : Export) : List String :=
  exported.members.filterMap fun member => if member.kind = .ofClass then member.fqn else none

theorem mem_memberClasses {exported : Export} {fqn : String} :
    fqn ∈ exported.memberClasses ↔
      ∃ member ∈ exported.members, member.kind = .ofClass ∧ member.fqn = some fqn := by
  simp only [memberClasses, mem_filterMap, Option.ite_none_right_eq_some]

end Export

namespace Project

/-- Members of what it leads to, and the exports that superclass links name. -/
inductive Reaches (project : Project) (start : Export) : Export → Prop
  | start : Reaches project start start
  | member {owner member : Export} (reached : Reaches project start owner)
      (isMember : member ∈ owner.members) : Reaches project start member
  | base {owner base : Export} {link : BaseLink} {fqn : String}
      (reached : Reaches project start owner) (isLink : link ∈ owner.bases)
      (named : link.fqn? = some fqn) (found : project.symbol? fqn = some base) :
      Reaches project start base

/-- Nothing that an export leads to is ambiguous, and full names lead to what carries them. -/
structure Coherent (project : Project) (start : Export) : Prop where
  unambiguous : ∀ exported, project.Reaches start exported → exported.kind ≠ .ambiguous
  named : ∀ exported, project.Reaches start exported →
    ∃ fqn found, exported.fqn = some fqn ∧ Builtin.isBuiltin fqn = false ∧
      project.symbol? fqn = some found ∧ found.fqn = some fqn ∧
      (exported.kind = .ofClass → found.kind = .ofClass ∧ found.bases = exported.bases)
  linked : ∀ exported link fqn base, project.Reaches start exported → link ∈ exported.bases →
    link.fqn? = some fqn → project.symbol? fqn = some base → base.fqn = some fqn

/-- The class that is found by a full name nests classes of the same full names. -/
def MembersAgree (project : Project) (start : Export) : Prop :=
  ∀ exported fqn found, project.Reaches start exported → exported.kind = .ofClass →
    exported.fqn = some fqn → project.symbol? fqn = some found →
    ∀ member, member ∈ found.memberClasses ↔ member ∈ exported.memberClasses

/-- The copy of a superclass link carries the name of the link. -/
def LinkedBy (project : Project) (pool : SymbolPool) (link : BaseLink) (entry : SymbolId) : Prop :=
  ∀ fqn, link.fqn? = some fqn → pool.table.fqnOf? entry = some fqn ∧
    (((∃ base, project.symbol? fqn = some base ∧ base.kind = .ofClass) ∨
        Builtin.isBuiltin fqn = true ∨ project.symbol? fqn = none) →
      pool.registry[fqn]? = some entry)

end Project

/-! ## The names that can be registered -/

namespace Export

mutual

def parts : Export → List Export
  | other name fqn => [other name fqn]
  | function name fqn info => [function name fqn info]
  | ofClass name fqn info members => ofClass name fqn info members :: partsOfAll members
  | ambiguous name fqn alternatives => [ambiguous name fqn alternatives]

def partsOfAll : List Export → List Export
  | [] => []
  | exported :: rest => exported.parts ++ partsOfAll rest

end

theorem mem_parts_self (exported : Export) : exported ∈ exported.parts := by
  cases exported <;> rw [parts] <;> exact mem_cons_self

theorem parts_subset_partsOfAll {exported : Export} {exports : List Export}
    (mem : exported ∈ exports) : exported.parts ⊆ partsOfAll exports := by
  induction exports with
  | nil => cases mem
  | cons _ _ ih =>
    rcases mem_cons.mp mem with rfl | mem
    · exact subset_append_left ..
    · exact Subset.trans (ih mem) (subset_append_right ..)

mutual

theorem member_mem_parts : ∀ {whole owner member : Export}, owner ∈ whole.parts →
    member ∈ owner.members → member ∈ whole.parts
  | other _ _, _, _, isPart, isMember
  | function _ _ _, _, _, isPart, isMember
  | ambiguous _ _ _, _, _, isPart, isMember => by
    obtain rfl := mem_singleton.mp isPart
    cases isMember
  | ofClass _ _ _ _, _, member, isPart, isMember => by
    apply mem_cons_of_mem
    rcases mem_cons.mp isPart with rfl | isPart
    · exact parts_subset_partsOfAll isMember (mem_parts_self member)
    · exact member_mem_partsOfAll isPart isMember

theorem member_mem_partsOfAll : ∀ {exports : List Export} {owner member : Export},
    owner ∈ partsOfAll exports → member ∈ owner.members → member ∈ partsOfAll exports
  | [], _, _, isPart, _ => by cases isPart
  | first :: _, _, _, isPart, isMember => by
    rcases mem_append.mp isPart with isPart | isPart
    · exact mem_append_left _ (member_mem_parts isPart isMember)
    · exact mem_append_right _ (member_mem_partsOfAll isPart isMember)

end

mutual

theorem length_parts_le : ∀ exported : Export, exported.parts.length ≤ exported.weight
  | other _ _ => by simp [parts, weight]
  | function _ _ _ => by simp [parts, weight]
  | ambiguous _ _ _ => by simp [parts, weight]
  | ofClass _ _ _ members => by
    have below := length_partsOfAll_le members
    simp only [parts, weight, length_cons]
    omega

theorem length_partsOfAll_le : ∀ exports : List Export,
    (partsOfAll exports).length ≤ weightOfAll exports
  | [] => by simp [partsOfAll, weightOfAll]
  | exported :: rest => by
    have first := length_parts_le exported
    have others := length_partsOfAll_le rest
    simp only [partsOfAll, weightOfAll, length_append]
    omega

end

end Export

namespace Project

def parts (project : Project) : List Export :=
  project.modules.values.flatMap Export.partsOfAll

theorem length_parts_le (project : Project) : project.parts.length ≤ project.weight := by
  rw [parts, weight]
  induction project.modules.values with
  | nil => simp
  | cons exports =>
    have first := length_partsOfAll_le exports
    simp only [flatMap_cons, length_append, foldr_cons]
    omega

theorem mem_values {map : Std.ExtTreeMap String (List Export)} {key : String}
    {exports : List Export} (found : map[key]? = some exports) : exports ∈ map.values := by
  have valuesEq : map.values = map.toList.map (·.2) := by
    rcases map with ⟨⟨inner⟩⟩
    induction inner using Quotient.ind with
    | _ tree =>
      show tree.inner.values = (Std.DTreeMap.Internal.Impl.Const.toList tree.inner).map (·.2)
      rw [Std.DTreeMap.Internal.Impl.values_eq_map_snd,
        Std.DTreeMap.Internal.Impl.Const.toList_eq_toListModel_map, map_map]
      rfl
  rw [valuesEq]
  exact mem_map.mpr ⟨(key, exports), Std.ExtTreeMap.mem_toList_iff_getElem?_eq_some.mpr found, rfl⟩

theorem descend_mem {exports : List Export} {path : List String} :
    ∀ {first : Option Export} {found : Export},
      (∀ exported ∈ first, exported ∈ partsOfAll exports) →
      descend first path = some found → found ∈ partsOfAll exports := by
  induction path with
  | nil =>
    intro first found isPart reached
    exact isPart found reached
  | cons _ _ ih =>
    intro first found isPart reached
    refine ih ?_ reached
    intro member isMember
    obtain ⟨owner, isOwner, isMember⟩ := Option.bind_eq_some_iff.mp isMember
    exact member_mem_partsOfAll (isPart owner isOwner) (mem_of_find?_eq_some isMember)

theorem symbol?_mem_parts {project : Project} {fqn : String} {found : Export}
    (named : project.symbol? fqn = some found) : found ∈ project.parts := by
  obtain ⟨⟨module', path⟩, _, inModule⟩ := exists_of_findSome?_eq_some named
  cases path with
  | nil => cases inModule
  | cons =>
    obtain ⟨exports, indexed, reached⟩ := Option.bind_eq_some_iff.mp inModule
    refine mem_flatMap.mpr ⟨exports, mem_values indexed, ?_⟩
    refine descend_mem ?_ reached
    intro exported isFirst
    exact parts_subset_partsOfAll (mem_of_find?_eq_some isFirst)
      (mem_parts_self exported)

variable {project : Project} {start : Export}

def knownNames (project : Project) (start : Export) : List String :=
  (project.parts ++ start.parts).filterMap (·.fqn)

theorem Reaches.mem_parts {exported : Export} (reached : project.Reaches start exported) :
    exported ∈ project.parts ++ start.parts := by
  induction reached with
  | start => exact mem_append_right _ start.mem_parts_self
  | member _ isMember ih =>
    rcases mem_append.mp ih with isPart | isPart
    · obtain ⟨exports, indexed, isPart⟩ := mem_flatMap.mp isPart
      exact mem_append_left _ (mem_flatMap.mpr
        ⟨exports, indexed, member_mem_partsOfAll isPart isMember⟩)
    · exact mem_append_right _ (member_mem_parts isPart isMember)
  | base _ _ _ found =>
    exact mem_append_left _ (symbol?_mem_parts found)

theorem Reaches.mem_knownNames {exported : Export} (reached : project.Reaches start exported)
    {fqn : String} (named : exported.fqn = some fqn) : fqn ∈ project.knownNames start :=
  mem_filterMap.mpr ⟨exported, reached.mem_parts, named⟩

theorem length_knownNames_lt (project : Project) (start : Export) :
    (project.knownNames start).length < project.depthFor start := by
  have named : (project.knownNames start).length ≤ (project.parts ++ start.parts).length :=
    length_filterMap_le ..
  have inProject := project.length_parts_le
  have inStart := start.length_parts_le
  rw [length_append] at named
  have square := Nat.le_mul_self (project.weight + start.weight + 2)
  rw [depthFor]
  omega

end Project

def SymbolPool.missing (pool : SymbolPool) (names : List String) : Nat :=
  names.countP fun fqn => pool.registry[fqn]?.isNone

namespace SymbolPool

variable {pool post : SymbolPool} {names : List String}

theorem missing_le (extended : pool.Extends post) (names : List String) :
    post.missing names ≤ pool.missing names := by
  apply countP_mono_left
  intro fqn _ isMissing
  cases registered : pool.registry[fqn]? with
  | none => rfl
  | some id =>
    rw [extended.registry fqn id registered] at isMissing
    cases isMissing

theorem missing_lt (extended : pool.Extends post) {fqn : String} {id : SymbolId}
    (listed : fqn ∈ names) (before : pool.registry[fqn]? = none)
    (after : post.registry[fqn]? = some id) : post.missing names < pool.missing names := by
  have split := perm_cons_erase listed
  have others := missing_le extended (names.erase fqn)
  unfold missing at others ⊢
  rw [split.countP_eq, split.countP_eq, countP_cons_of_neg (by rw [after]; simp),
    countP_cons_of_pos (by rw [before]; rfl)]
  omega

end SymbolPool

/-! ## What copying keeps -/

namespace SymbolTable

theorem fqnOf?_setData (table : SymbolTable) (id : SymbolId) (data : SymbolData)
    (other : SymbolId) : (table.setData id data).fqnOf? other = table.fqnOf? other := by
  rw [fqnOf?, fqnOf?, setData, get?_modify]
  split
  · cases table.get? other <;> rfl
  · rfl

end SymbolTable

namespace Project

variable {project : Project} {start : Export} {older : Nat} {pool middle post : SymbolPool}

/-- Registered symbols carry their names, and new classes are registered. -/
structure Sound (older : Nat) (pool : SymbolPool) : Prop where
  older_le : older ≤ pool.table.size
  named : ∀ (fqn : String) (id : SymbolId), pool.registry[fqn]? = some id →
    pool.table.fqnOf? id = some fqn
  registered : ∀ id info, older ≤ id → pool.table.class? id = some info →
    ∃ fqn, pool.table.fqnOf? id = some fqn ∧ pool.registry[fqn]? = some id

def Settled (project : Project) (start : Export) (pool : SymbolPool) (fqn : String)
    (own : SymbolId) : Prop :=
  ∃ exported, project.Reaches start exported ∧ exported.kind = .ofClass ∧
    exported.fqn = some fqn ∧ (∃ info, pool.table.class? own = some info) ∧
    List.Forall₂ (project.LinkedBy pool) exported.bases (pool.table.superClasses own) ∧
    ∀ member ∈ exported.memberClasses, ∃ id, pool.registry[member]? = some id

structure Settles (project : Project) (start : Export) (pool post : SymbolPool) : Prop where
  extended : pool.Extends post
  settled : ∀ (fqn : String) (own : SymbolId), post.registry[fqn]? = some own →
    pool.registry[fqn]? = some own ∨ Builtin.isBuiltin fqn = true ∨ project.symbol? fqn = none ∨
      project.Settled start post fqn own

end Project

namespace SymbolPool.Extends

variable {pool post : SymbolPool} {id : SymbolId}

theorem fqnOf?_of_some (extended : pool.Extends post) {fqn : String}
    (named : pool.table.fqnOf? id = some fqn) : post.table.fqnOf? id = some fqn := by
  obtain ⟨symbol, found, named⟩ := Option.bind_eq_some_iff.mp named
  exact Option.bind_eq_some_iff.mpr ⟨symbol, extended.get?_of_some found, named⟩

theorem class?_of_some (extended : pool.Extends post) {info : ClassInfo}
    (isClass : pool.table.class? id = some info) : post.table.class? id = some info := by
  obtain ⟨symbol, found, isClass⟩ := Option.bind_eq_some_iff.mp isClass
  exact Option.bind_eq_some_iff.mpr ⟨symbol, extended.get?_of_some found, isClass⟩

theorem class?_of_lt (extended : pool.Extends post) (inRange : id < pool.table.size) :
    post.table.class? id = pool.table.class? id := by
  rw [class?, class?, extended.get? id inRange]

end SymbolPool.Extends

namespace Project

variable {project : Project} {start : Export} {older : Nat} {pool middle post : SymbolPool}
  {link : BaseLink} {fqn : String} {depth : Nat}

theorem LinkedBy.mono {entry : SymbolId} (linked : project.LinkedBy pool link entry)
    (extended : pool.Extends post) : project.LinkedBy post link entry := by
  intro fqn named
  obtain ⟨carries, registered⟩ := linked fqn named
  exact ⟨extended.fqnOf?_of_some carries,
    fun known => extended.registry fqn entry (registered known)⟩

theorem Settled.mono {own : SymbolId} (settled : project.Settled start pool fqn own)
    (extended : pool.Extends post) : project.Settled start post fqn own := by
  obtain ⟨exported, reached, kind, named, ⟨info, isClass⟩, linked, members⟩ := settled
  have isClassStill := extended.class?_of_some isClass
  refine ⟨exported, reached, kind, named, ⟨info, isClassStill⟩, ?_, ?_⟩
  · rw [superClasses, isClass] at linked
    rw [superClasses, isClassStill]
    exact linked.imp fun _ _ entry => entry.mono extended
  · intro member isMember
    obtain ⟨id, registered⟩ := members member isMember
    exact ⟨id, extended.registry member id registered⟩

theorem LinkedBy.setData {entry : SymbolId} (linked : project.LinkedBy pool link entry)
    (id : SymbolId) (data : SymbolData) : project.LinkedBy (pool.setData id data) link entry := by
  intro fqn named
  obtain ⟨carries, registered⟩ := linked fqn named
  exact ⟨(fqnOf?_setData ..).trans carries, registered⟩

theorem Settled.setData_of_ne {own id : SymbolId} (settled : project.Settled start pool fqn own)
    (distinct : id ≠ own) (data : SymbolData) :
    project.Settled start (pool.setData id data) fqn own := by
  have same : (pool.setData id data).table.class? own = pool.table.class? own := by
    show ((pool.table.modify id _).get? own).bind _ = _
    rw [get?_modify_of_ne distinct]
    rfl
  obtain ⟨exported, reached, kind, named, isClass, linked, members⟩ := settled
  refine ⟨exported, reached, kind, named, same ▸ isClass, ?_, members⟩
  rw [superClasses, same]
  exact linked.imp fun _ _ entry => entry.setData id data

namespace Settles

theorem refl (pool : SymbolPool) : project.Settles start pool pool :=
  ⟨.refl pool, fun _ _ registered => .inl registered⟩

theorem trans (first : project.Settles start pool middle)
    (second : project.Settles start middle post) : project.Settles start pool post where
  extended := first.extended.trans second.extended
  settled fqn own registered := by
    rcases second.settled fqn own registered with earlier | builtin | unknown | settled
    · rcases first.settled fqn own earlier with oldest | builtin | unknown | settled
      · exact .inl oldest
      · exact .inr (.inl builtin)
      · exact .inr (.inr (.inl unknown))
      · exact .inr (.inr (.inr (settled.mono second.extended)))
    · exact .inr (.inl builtin)
    · exact .inr (.inr (.inl unknown))
    · exact .inr (.inr (.inr settled))

end Settles

namespace Sound

theorem push (sound : Sound older pool) {symbol : Symbol} (isNoClass : symbol.class? = none) :
    Sound older (pool.push symbol).1 := by
  have grown := (Extends.refl pool).push symbol
  refine ⟨Nat.le_trans sound.older_le grown.size_le, ?_, ?_⟩
  · intro fqn id registered
    exact grown.fqnOf?_of_some (sound.named fqn id registered)
  · intro id info added isClass
    change ((pool.table.push symbol).get? id).bind _ = some info at isClass
    rw [get?_push] at isClass
    split at isClass
    · rw [Option.bind_some, isNoClass] at isClass
      cases isClass
    · obtain ⟨fqn, named, registered⟩ := sound.registered id info added isClass
      exact ⟨fqn, grown.fqnOf?_of_some named, registered⟩

theorem registered_of_lt (sound : Sound older pool) (grown : pool.Extends post) {id : SymbolId}
    {info : ClassInfo} (added : older ≤ id) (earlier : id < pool.table.size)
    (isClass : post.table.class? id = some info) :
    ∃ fqn, post.table.fqnOf? id = some fqn ∧ post.registry[fqn]? = some id := by
  rw [grown.class?_of_lt earlier] at isClass
  obtain ⟨fqn, named, registered⟩ := sound.registered id info added isClass
  exact ⟨fqn, grown.fqnOf?_of_some named, grown.registry fqn id registered⟩

theorem pushRegistered (sound : Sound older pool) {symbol : Symbol} {fqn : String}
    (carries : symbol.fqn = some fqn) (unregistered : pool.registry[fqn]? = none) :
    Sound older ((pool.push symbol).1.register fqn pool.table.size) := by
  have grown := ((Extends.refl pool).push symbol).register unregistered pool.table.size
  have own : ((pool.push symbol).1.register fqn pool.table.size).table.fqnOf? pool.table.size =
      some fqn := by
    show ((pool.table.push symbol).get? pool.table.size).bind _ = some fqn
    rw [get?_push_size]
    exact carries
  refine ⟨Nat.le_trans sound.older_le grown.size_le, ?_, ?_⟩
  · intro other id registered
    by_cases same : fqn = other
    · subst same
      rw [registry_register_self] at registered
      cases registered
      exact own
    · rw [registry_register_of_ne _ same] at registered
      exact grown.fqnOf?_of_some (sound.named other id registered)
  · intro id info added isClass
    by_cases earlier : id < pool.table.size
    · exact sound.registered_of_lt grown added earlier isClass
    · obtain ⟨_, found, _⟩ := Option.bind_eq_some_iff.mp isClass
      have inRange := lt_size_of_get? found
      change id < (pool.table.push symbol).size at inRange
      rw [size_push] at inRange
      obtain rfl : id = pool.table.size :=
        Nat.le_antisymm (Nat.le_of_lt_succ inRange) (Nat.le_of_not_lt earlier)
      exact ⟨fqn, own, registry_register_self ..⟩

theorem openClass (sound : Sound older pool) (name : String) {fqn : String}
    (unregistered : pool.registry[fqn]? = none) :
    Sound older (pool.openClass name (some fqn)) := by
  rw [openClass_of_unregistered name unregistered]
  exact sound.pushRegistered rfl unregistered

theorem setClass (sound : Sound older pool) {own : SymbolId} {info : ClassInfo}
    (isClass : pool.table.class? own = some info) (filled : ClassInfo) :
    Sound older (pool.setData own (.ofClass filled)) := by
  have carries (id : SymbolId) :
      (pool.setData own (.ofClass filled)).table.fqnOf? id = pool.table.fqnOf? id :=
    fqnOf?_setData ..
  refine ⟨?_, ?_, ?_⟩
  · show older ≤ (pool.table.setData own _).size
    rw [size_setData]
    exact sound.older_le
  · intro fqn id registered
    rw [carries]
    exact sound.named fqn id registered
  · intro id other added isOther
    rw [carries]
    by_cases same : own = id
    · subst same
      exact sound.registered own info added isClass
    · refine sound.registered id other added ?_
      rw [← isOther]
      show _ = ((pool.table.modify own _).get? id).bind _
      rw [get?_modify_of_ne same]
      rfl

theorem makes (sound : Sound older pool) {Named : String → Prop}
    (makes : Builtin.Makes Named pool post) : Sound older post := by
  have grown := makes.extended
  refine ⟨Nat.le_trans sound.older_le grown.size_le, ?_, ?_⟩
  · intro fqn id registered
    rcases makes.registered fqn id registered with earlier | ⟨_, _, data, found⟩
    · exact grown.fqnOf?_of_some (sound.named fqn id earlier)
    · rw [fqnOf?, found]
      rfl
  · intro id info added isClass
    by_cases earlier : id < pool.table.size
    · exact sound.registered_of_lt grown added earlier isClass
    · obtain ⟨symbol, found, isClass⟩ := Option.bind_eq_some_iff.mp isClass
      obtain ⟨name, fqn, data, rfl, _, registered⟩ :=
        makes.fresh id symbol (Nat.le_of_not_lt earlier) found
      refine ⟨fqn, ?_, registered ?_⟩
      · rw [fqnOf?, found]
        rfl
      · cases data with
        | ofClass => rfl
        | _ => cases isClass

end Sound

/-! ## One step of copying -/

def RegisteredAs (pool : SymbolPool) (exported : Export) (id : SymbolId) : Prop :=
  exported.kind = .ofClass → ∀ fqn : String, exported.fqn = some fqn →
    pool.registry[fqn]? = some id

/-- A copy is sound, has the name of its export, and is found under it. -/
structure CopiedTo (project : Project) (start : Export) (older : Nat) (pool : SymbolPool)
    (exported : Export) (post : SymbolPool) (id : SymbolId) : Prop where
  sound : Sound older post
  settles : project.Settles start pool post
  carries : post.table.fqnOf? id = exported.fqn
  registered : RegisteredAs post exported id

/-- Fewer names are missing in the registry than `depth` tells. -/
structure Ready (project : Project) (start : Export) (older depth : Nat) (pool : SymbolPool) :
    Prop where
  sound : Sound older pool
  few : pool.missing (project.knownNames start) < depth

theorem Ready.settles (ready : project.Ready start older depth pool)
    (settles : project.Settles start pool post) (sound : Sound older post) :
    project.Ready start older depth post :=
  ⟨sound, Nat.lt_of_le_of_lt (missing_le settles.extended _) ready.few⟩

def CopiesWithin (project : Project) (start : Export) (older depth : Nat) : Prop :=
  ∀ pool exported, project.Ready start older depth pool → project.Reaches start exported →
    ∃ post id, project.instantiate depth true pool exported = some (post, id) ∧
      project.CopiedTo start older pool exported post id

theorem Coherent.exists_follow (coherent : project.Coherent start)
    (copies : project.CopiesWithin start older depth) {owner : Export}
    (reached : project.Reaches start owner) (isLink : link ∈ owner.bases)
    (ready : project.Ready start older depth pool) :
    ∃ post entry, project.follow depth pool link = some (post, entry) ∧ Sound older post ∧
      project.Settles start pool post ∧ project.LinkedBy post link entry := by
  have sound := ready.sound
  rcases follow_cases project depth pool link with ⟨unnamed, way⟩ | ⟨fqn, named,
    ⟨id, registered, way⟩ | ⟨base, found, unregistered, way⟩ |
    ⟨unknown, unregistered, post, id, way, makes, registered⟩ |
    ⟨unknown, unregistered, noBuiltin, way⟩⟩
  · refine ⟨_, _, way, sound.push rfl, ⟨(Extends.refl pool).push _,
      fun _ _ registered => .inl registered⟩, ?_⟩
    intro fqn named
    rw [unnamed] at named
    cases named
  · refine ⟨pool, id, way, sound, .refl pool, ?_⟩
    intro other named'
    obtain rfl : fqn = other := Option.some.inj (named.symm.trans named')
    exact ⟨sound.named fqn id registered, fun _ => registered⟩
  · have baseReached := Reaches.base reached isLink named found
    have carries := coherent.linked owner link fqn base reached isLink named found
    obtain ⟨post, id, made, copied⟩ := copies pool base ready baseReached
    refine ⟨post, id, way.trans made, copied.sound, copied.settles, ?_⟩
    intro other named'
    obtain rfl : fqn = other := Option.some.inj (named.symm.trans named')
    refine ⟨copied.carries.trans carries, ?_⟩
    rintro (⟨base', found', isClass⟩ | builtin | unknown)
    · obtain rfl : base = base' := Option.some.inj (found.symm.trans found')
      exact copied.registered isClass fqn carries
    · obtain ⟨_, _, carries', noBuiltin, _⟩ := coherent.named base baseReached
      obtain rfl := Option.some.inj (carries.symm.trans carries')
      rw [noBuiltin] at builtin
      cases builtin
    · rw [unknown] at found
      cases found
  · refine ⟨post, id, way, sound.makes makes, ⟨makes.extended, ?_⟩, ?_⟩
    · intro other own registered'
      rcases makes.registered other own registered' with earlier | ⟨builtin, _⟩
      · exact .inl earlier
      · exact .inr (.inl builtin)
    · intro other named'
      obtain rfl : fqn = other := Option.some.inj (named.symm.trans named')
      exact ⟨(sound.makes makes).named fqn id registered, fun _ => registered⟩
  · have soundPost : Sound older (pushPlaceholder pool link.name (some fqn)).1 :=
      sound.pushRegistered rfl unregistered
    refine ⟨_, _, way, soundPost, ⟨pushPlaceholder_extends link.name unregistered, ?_⟩, ?_⟩
    · intro other own registered
      by_cases same : fqn = other
      · exact .inr (.inr (.inl (same ▸ unknown)))
      · exact .inl ((registry_register_of_ne _ same _).symm.trans registered)
    · intro other named'
      obtain rfl : fqn = other := Option.some.inj (named.symm.trans named')
      have registered := registry_register_self
        (pool.push (.fresh link.name (some fqn) (.other []) none)).1 fqn pool.table.size
      exact ⟨soundPost.named fqn _ registered, fun _ => registered⟩

theorem Settles.fillClass {name fqn : String} {data : SymbolData}
    (unregistered : pool.registry[fqn]? = none)
    (settles : project.Settles start (pool.openClass name (some fqn)) middle)
    (sound : Sound older (middle.setData pool.table.size data))
    (registered : middle.registry[fqn]? = some pool.table.size)
    (settled : project.Settled start (middle.setData pool.table.size data) fqn pool.table.size) :
    project.Settles start pool (middle.setData pool.table.size data) := by
  have opens := openClass_extends pool name (some fqn)
  refine ⟨(opens.trans settles.extended).setData (Nat.le_refl _) _, ?_⟩
  intro other id registeredOther
  by_cases isOwn : pool.table.size = id
  · subst isOwn
    obtain rfl : fqn = other := Option.some.inj
      ((sound.named fqn _ registered).symm.trans (sound.named other _ registeredOther))
    exact .inr (.inr (.inr settled))
  · rcases settles.settled other id registeredOther with earlier | builtin | unknown | done
    · rw [openClass_of_unregistered name unregistered] at earlier
      have distinct : fqn ≠ other := by
        rintro rfl
        rw [registry_register_self] at earlier
        exact isOwn (Option.some.inj earlier)
      rw [registry_register_of_ne _ distinct] at earlier
      exact .inl earlier
    · exact .inr (.inl builtin)
    · exact .inr (.inr (.inl unknown))
    · exact .inr (.inr (.inr (done.setData_of_ne isOwn _)))

theorem Coherent.exists_copy_of_unregistered (coherent : project.Coherent start)
    (copies : project.CopiesWithin start older depth) {name fqn : String} {info : ClassExport}
    {members : List Export}
    (reached : project.Reaches start (.ofClass name (some fqn) info members))
    (ready : project.Ready start older (depth + 1) pool)
    (unregistered : pool.registry[fqn]? = none) :
    ∃ post id,
      project.instantiate (depth + 1) true pool (.ofClass name (some fqn) info members) =
        some (post, id) ∧
      project.CopiedTo start older pool (.ofClass name (some fqn) info members) post id := by
  have opens := openClass_extends pool name (some fqn)
  have own : (pool.openClass name (some fqn)).registry[fqn]? = some pool.table.size := by
    rw [openClass_of_unregistered name unregistered]
    exact registry_register_self ..
  -- opening the class registers a known name, which pays for the depth
  have opened : project.Ready start older depth (pool.openClass name (some fqn)) := by
    have few := ready.few
    have fewer := missing_lt opens (reached.mem_knownNames rfl) unregistered own
    exact ⟨ready.sound.openClass name unregistered, by omega⟩
  obtain ⟨linked, bases, followed, readyLinked, settlesLinked, entries⟩ :=
    Sequence.exists_collect?_keeps (project.Ready start older depth) (project.Settles start)
      project.LinkedBy Settles.refl Settles.trans
      (fun _ _ _ _ settles entry => entry.mono settles.extended)
      (fun link isLink state before => by
        obtain ⟨next, entry, way, after, settles, entryLinked⟩ :=
          coherent.exists_follow copies reached isLink before
        exact ⟨next, entry, way, before.settles settles after, settles, entryLinked⟩)
      opened
  obtain ⟨copied, ids, copiedMembers, readyCopied, settlesCopied, memberIds⟩ :=
    Sequence.exists_collect?_keeps (project.Ready start older depth) (project.Settles start)
      RegisteredAs Settles.refl Settles.trans
      (fun _ _ _ _ settles registered isClass fqn named =>
        settles.extended.registry _ _ (registered isClass fqn named))
      (fun member isMember state before => by
        obtain ⟨next, id, made, copy⟩ := copies state member before (.member reached isMember)
        exact ⟨next, id, made, before.settles copy.settles copy.sound, copy.settles,
          copy.registered⟩)
      readyLinked
  have notReused : registered? pool true (some fqn) = none := unregistered
  refine ⟨_, pool.table.size, (instantiate_class_eq_some_iff notReused).mpr
    ⟨linked, bases, copied, ids, followed, copiedMembers, rfl, rfl⟩, ?_⟩
  -- bases and members only extend the pool, so the opened class is still blank
  have settlesBoth := settlesLinked.trans settlesCopied
  have blank := settlesBoth.extended.get?_of_some (get?_openClass pool name (some fqn))
  have isClass : copied.table.class? pool.table.size = some .blank := by
    rw [class?, blank]
    rfl
  have filled : (copied.setData pool.table.size (.ofClass (info.filled bases ids))).table.class?
      pool.table.size = some (info.filled bases ids) := by
    show ((copied.table.setData _ _).get? _).bind _ = _
    rw [get?_setData_self blank]
    rfl
  have sound := readyCopied.sound.setClass isClass (info.filled bases ids)
  have registered := settlesBoth.extended.registry fqn _ own
  have settled : project.Settled start
      (copied.setData pool.table.size (.ofClass (info.filled bases ids))) fqn pool.table.size := by
    refine ⟨_, reached, rfl, rfl, ⟨_, filled⟩, ?_, ?_⟩
    · rw [superClasses, filled]
      exact entries.imp fun _ _ entry => (entry.mono settlesCopied.extended).setData _ _
    · intro member isMember
      obtain ⟨exported, mem, kind, named⟩ := mem_memberClasses.mp isMember
      obtain ⟨id, _, memberRegistered⟩ := Sequence.exists_of_forall₂ memberIds mem
      exact ⟨id, memberRegistered kind member named⟩
  refine ⟨sound, settlesBoth.fillClass unregistered sound registered settled,
    sound.named fqn _ registered, ?_⟩
  rintro _ _ ⟨rfl⟩
  exact registered

theorem Coherent.copiesWithin (coherent : project.Coherent start) (older : Nat) :
    ∀ depth, project.CopiesWithin start older depth := by
  intro depth
  induction depth with
  | zero =>
    intro pool exported ready
    exact absurd ready.few (Nat.not_lt_zero _)
  | succ _ ih =>
    intro pool exported ready reached
    have pushes {symbol : Symbol} (isNoClass : symbol.class? = none)
        (sameName : symbol.fqn = exported.fqn) (noClass : exported.kind ≠ .ofClass) :
        project.CopiedTo start older pool exported (pool.push symbol).1 pool.table.size := by
      refine ⟨ready.sound.push isNoClass, ⟨(Extends.refl pool).push symbol,
        fun _ _ registered => .inl registered⟩, ?_, fun isClass => absurd isClass noClass⟩
      show ((pool.table.push symbol).get? pool.table.size).bind _ = exported.fqn
      rw [get?_push_size]
      exact sameName
    cases exported with
    | other => exact ⟨_, _, rfl, pushes rfl rfl nofun⟩
    | function => exact ⟨_, _, rfl, pushes rfl rfl nofun⟩
    | ofClass _ fqn? _ _ =>
      obtain ⟨fqn, _, named, _⟩ := coherent.named _ reached
      obtain rfl : fqn? = some fqn := named
      cases registered : pool.registry[fqn]? with
      | none =>
        exact coherent.exists_copy_of_unregistered ih reached ready registered
      | some id =>
        refine ⟨pool, id, instantiate_class_of_registered registered, ready.sound,
          .refl pool, ready.sound.named fqn id registered, ?_⟩
        rintro _ _ ⟨rfl⟩
        exact registered
    | ambiguous => exact absurd rfl (coherent.unambiguous _ reached)

/-! ## The copied hierarchy -/

theorem ready_empty (project : Project) (start : Export) (table : SymbolTable) :
    project.Ready start table.size (project.depthFor start) ⟨table, ∅⟩ where
  sound := by
    refine ⟨Nat.le_refl _, ?_, ?_⟩
    · intro fqn id registered
      cases registered
    · intro id info added isClass
      obtain ⟨_, found, _⟩ := Option.bind_eq_some_iff.mp isClass
      exact absurd (lt_size_of_get? found) (Nat.not_lt.mpr added)
  few := Nat.lt_of_le_of_lt countP_le_length (project.length_knownNames_lt start)

theorem Sound.class_unique (sound : Sound older pool) {first second : SymbolId}
    {firstInfo secondInfo : ClassInfo} (firstAdded : older ≤ first) (secondAdded : older ≤ second)
    (isFirst : pool.table.class? first = some firstInfo)
    (isSecond : pool.table.class? second = some secondInfo)
    (sameName : pool.table.fqnOf? first = pool.table.fqnOf? second) : first = second := by
  obtain ⟨fqn, named, registered⟩ := sound.registered first firstInfo firstAdded isFirst
  obtain ⟨other, otherNamed, otherRegistered⟩ :=
    sound.registered second secondInfo secondAdded isSecond
  rw [named, otherNamed] at sameName
  cases sameName
  exact Option.some.inj (registered.symm.trans otherRegistered)

theorem Coherent.settled (coherent : project.Coherent start) {table : SymbolTable}
    (settles : project.Settles start ⟨table, ∅⟩ pool) {exported : Export} {own : SymbolId}
    (reached : project.Reaches start exported) (named : exported.fqn = some fqn)
    (registered : pool.registry[fqn]? = some own) : project.Settled start pool fqn own := by
  obtain ⟨_, found, carries, noBuiltin, isFound, _⟩ := coherent.named exported reached
  obtain rfl := Option.some.inj (named.symm.trans carries)
  rcases settles.settled fqn own registered with earlier | builtin | unknown | settled
  · cases earlier
  · rw [noBuiltin] at builtin
    cases builtin
  · rw [unknown] at isFound
    cases isFound
  · exact settled

theorem Coherent.bases_eq (coherent : project.Coherent start) {first second : Export}
    (isFirst : project.Reaches start first) (isSecond : project.Reaches start second)
    (firstKind : first.kind = .ofClass) (secondKind : second.kind = .ofClass)
    (firstNamed : first.fqn = some fqn) (secondNamed : second.fqn = some fqn) :
    first.bases = second.bases := by
  obtain ⟨_, found, carries, _, isFound, _, same⟩ := coherent.named first isFirst
  obtain ⟨_, other, otherCarries, _, isOther, _, otherSame⟩ := coherent.named second isSecond
  obtain rfl := Option.some.inj (firstNamed.symm.trans carries)
  obtain rfl := Option.some.inj (secondNamed.symm.trans otherCarries)
  obtain rfl := Option.some.inj (isFound.symm.trans isOther)
  exact (same firstKind).2.symm.trans (otherSame secondKind).2

theorem kind_of_mem_members {owner member : Export} (isMember : member ∈ owner.members) :
    owner.kind = .ofClass := by
  cases owner with
  | ofClass => rfl
  | _ => cases isMember

theorem kind_of_mem_bases {owner : Export} (isLink : link ∈ owner.bases) :
    owner.kind = .ofClass := by
  cases owner with
  | ofClass => rfl
  | _ => cases isLink

theorem Coherent.exists_registered (coherent : project.Coherent start)
    (agree : project.MembersAgree start) {table : SymbolTable}
    (settles : project.Settles start ⟨table, ∅⟩ pool) {id : SymbolId}
    (registered : RegisteredAs pool start id) {exported : Export}
    (reached : project.Reaches start exported) :
    ∀ fqn, exported.kind = .ofClass → exported.fqn = some fqn →
      ∃ own, pool.registry[fqn]? = some own := by
  induction reached with
  | start =>
    intro fqn isClass named
    exact ⟨id, registered isClass fqn named⟩
  | @member owner member reached isMember ih =>
    intro fqn isClass named
    have ownerClass := kind_of_mem_members isMember
    obtain ⟨ownerFqn, found, ownerNamed, _, isFound, _⟩ := coherent.named owner reached
    obtain ⟨own, ownerRegistered⟩ := ih ownerFqn ownerClass ownerNamed
    obtain ⟨copied, copiedReached, copiedClass, copiedNamed, _, _, members⟩ :=
      coherent.settled settles reached ownerNamed ownerRegistered
    refine members fqn ?_
    rw [← agree copied ownerFqn found copiedReached copiedClass copiedNamed isFound,
      agree owner ownerFqn found reached ownerClass ownerNamed isFound]
    exact mem_memberClasses.mpr ⟨member, isMember, isClass, named⟩
  | @base owner base link linkFqn reached isLink linkNamed found ih =>
    intro fqn isClass named
    have ownerClass := kind_of_mem_bases isLink
    obtain ⟨ownerFqn, _, ownerNamed, _⟩ := coherent.named owner reached
    obtain ⟨own, ownerRegistered⟩ := ih ownerFqn ownerClass ownerNamed
    obtain ⟨copied, copiedReached, copiedClass, copiedNamed, _, linked, _⟩ :=
      coherent.settled settles reached ownerNamed ownerRegistered
    rw [coherent.bases_eq copiedReached reached copiedClass ownerClass copiedNamed ownerNamed]
      at linked
    obtain ⟨entry, _, entryLinked⟩ := Sequence.exists_of_forall₂ linked isLink
    have carries := coherent.linked owner link linkFqn base reached isLink linkNamed found
    obtain rfl := Option.some.inj (carries.symm.trans named)
    exact ⟨entry, (entryLinked linkFqn linkNamed).2 (.inl ⟨base, found, isClass⟩)⟩

/-- A hierarchy is copied with one symbol for each class, however its links run in circles. -/
theorem instanceOf_hierarchy (project : Project) (table : SymbolTable) (start : Export)
    (coherent : project.Coherent start) :
    ∃ pool id,
      project.instantiate (project.depthFor start) true ⟨table, ∅⟩ start = some (pool, id) ∧
      project.instanceOf ⟨table, ∅⟩ start = (pool, id) ∧
      (∀ first second, table.size ≤ first → table.size ≤ second →
        (pool.table.class? first).isSome → (pool.table.class? second).isSome →
        pool.table.fqnOf? first = pool.table.fqnOf? second → first = second) ∧
      (∀ exported fqn own, project.Reaches start exported → exported.kind = .ofClass →
        exported.fqn = some fqn → pool.registry[fqn]? = some own →
        pool.table.fqnOf? own = some fqn ∧ (pool.table.class? own).isSome ∧
          List.Forall₂ (project.LinkedBy pool) exported.bases (pool.table.superClasses own)) ∧
      (project.MembersAgree start → ∀ exported fqn, project.Reaches start exported →
        exported.kind = .ofClass → exported.fqn = some fqn →
        ∃ own, pool.registry[fqn]? = some own) := by
  obtain ⟨pool, id, made, copied⟩ := coherent.copiesWithin table.size (project.depthFor start)
    ⟨table, ∅⟩ start (project.ready_empty start table) .start
  refine ⟨pool, id, made, by rw [instanceOf, made], ?_, ?_, ?_⟩
  · intro first second firstAdded secondAdded isFirst isSecond sameName
    obtain ⟨_, isFirst⟩ := Option.isSome_iff_exists.mp isFirst
    obtain ⟨_, isSecond⟩ := Option.isSome_iff_exists.mp isSecond
    exact copied.sound.class_unique firstAdded secondAdded isFirst isSecond sameName
  · intro exported fqn own reached isClass named registered
    obtain ⟨other, otherReached, otherClass, otherNamed, ⟨_, ownClass⟩, linked, _⟩ :=
      coherent.settled copied.settles reached named registered
    refine ⟨copied.sound.named fqn own registered, by rw [ownClass]; rfl, ?_⟩
    rw [coherent.bases_eq reached otherReached isClass otherClass named otherNamed]
    exact linked
  · intro agree exported fqn reached
    exact coherent.exists_registered agree copied.settles copied.registered reached fqn

end Project

/-! ## Circles, and members that were missed -/

namespace Project

theorem Coherent.of_closed {project : Project} {start : Export} (closed : List Export)
    (isStart : start ∈ closed)
    (members : ∀ owner ∈ closed, ∀ member ∈ owner.members, member ∈ closed)
    (bases : ∀ owner ∈ closed, ∀ link ∈ owner.bases, ∀ fqn base, link.fqn? = some fqn →
      project.symbol? fqn = some base → base ∈ closed ∧ base.fqn = some fqn)
    (plain : ∀ exported ∈ closed, exported.kind ≠ .ambiguous)
    (named : ∀ exported ∈ closed, ∃ fqn found, exported.fqn = some fqn ∧
      Builtin.isBuiltin fqn = false ∧ project.symbol? fqn = some found ∧ found.fqn = some fqn ∧
      (exported.kind = .ofClass → found.kind = .ofClass ∧ found.bases = exported.bases)) :
    (∀ exported, project.Reaches start exported → exported ∈ closed) ∧ project.Coherent start := by
  have within : ∀ exported, project.Reaches start exported → exported ∈ closed := by
    intro exported reached
    induction reached with
    | start => exact isStart
    | member _ isMember ih => exact members _ ih _ isMember
    | base _ isLink linkNamed found ih =>
      exact (bases _ ih _ isLink _ _ linkNamed found).1
  refine ⟨within, fun exported reached => plain exported (within exported reached),
    fun exported reached => named exported (within exported reached), ?_⟩
  intro exported link fqn base reached isLink linkNamed found
  exact (bases exported (within exported reached) link isLink fqn base linkNamed found).2

end Project

namespace Export

def linkedClass (name fqn : String) (bases : List BaseLink) (members : List Export) : Export :=
  .ofClass name (some fqn) ⟨bases, false, none, false⟩ members

def innerC : Export :=
  linkedClass "C" "a.A.C" [.toClass "a.A"] []

def outerA : Export :=
  linkedClass "A" "a.A" [.toClass "b.B"] [innerC]

def outerB : Export :=
  linkedClass "B" "b.B" [.toClass "a.A", .toClass "int", .toOther "Y" (some "x.Y")] []

end Export

namespace Project

def circular : Project where
  modules := ((∅ : Std.ExtTreeMap String (List Export)).insert "a" [.outerA]).insert "b" [.outerB]
  settings := {}

theorem coherent_circular :
    (∀ exported, circular.Reaches .outerA exported →
      exported ∈ [outerA, .innerC, .outerB]) ∧ circular.Coherent .outerA := by
  have isA : circular.symbol? "a.A" = some .outerA := rfl
  have isB : circular.symbol? "b.B" = some .outerB := rfl
  have isC : circular.symbol? "a.A.C" = some .innerC := rfl
  have noInt : circular.symbol? "int" = none := rfl
  have noY : circular.symbol? "x.Y" = none := rfl
  have links : ∀ owner ∈ [outerA, .innerC, .outerB], ∀ link ∈ owner.bases,
      link = .toClass "a.A" ∨ link = .toClass "b.B" ∨ link = .toClass "int" ∨
        link = .toOther "Y" (some "x.Y") := by
    simp [bases, outerA, outerB, innerC, linkedClass]
  apply Coherent.of_closed
  · exact mem_cons_self
  · simp [Export.members, Export.outerA, Export.outerB, Export.innerC, Export.linkedClass]
  · intro owner isOwner link isLink fqn base named found
    rcases links owner isOwner link isLink with rfl | rfl | rfl | rfl
    all_goals obtain rfl := Option.some.inj named
    · obtain rfl := Option.some.inj (isA.symm.trans found)
      exact ⟨by simp, rfl⟩
    · obtain rfl := Option.some.inj (isB.symm.trans found)
      exact ⟨by simp, rfl⟩
    · cases noInt.symm.trans found
    · cases noY.symm.trans found
  · simp [kind, outerA, outerB, innerC, linkedClass]
  · simp only [forall_mem_cons, not_mem_nil, false_imp_iff, implies_true, and_true]
    exact ⟨⟨"a.A", _, rfl, by decide +kernel, isA, rfl, fun _ => ⟨rfl, rfl⟩⟩,
      ⟨"a.A.C", _, rfl, by decide +kernel, isC, rfl, fun _ => ⟨rfl, rfl⟩⟩,
      ⟨"b.B", _, rfl, by decide +kernel, isB, rfl, fun _ => ⟨rfl, rfl⟩⟩⟩

theorem membersAgree_circular : circular.MembersAgree .outerA := by
  intro exported fqn found reached _ named isFound member
  have same : circular.symbol? fqn = some exported := by
    have mem := coherent_circular.1 exported reached
    simp only [mem_cons, not_mem_nil, or_false] at mem
    rcases mem with rfl | rfl | rfl
    all_goals
      cases named
      rfl
  obtain rfl := Option.some.inj (isFound.symm.trans same)
  rfl

theorem instanceOf_circular :
    circular.Coherent .outerA ∧ ∃ pool id,
      circular.instanceOf ⟨.empty, ∅⟩ .outerA = (pool, id) ∧
      ∃ own, pool.registry["b.B"]? = some own ∧
        List.Forall₂ (circular.LinkedBy pool) Export.outerB.bases
          (pool.table.superClasses own) := by
  refine ⟨coherent_circular.2, ?_⟩
  obtain ⟨pool, id, _, made, _, entries, registered⟩ :=
    instanceOf_hierarchy circular .empty .outerA coherent_circular.2
  have isB : circular.symbol? "b.B" = some .outerB := rfl
  have reached : circular.Reaches .outerA .outerB := .base .start List.mem_cons_self rfl isB
  obtain ⟨own, isOwn⟩ := registered membersAgree_circular .outerB "b.B" reached rfl rfl
  exact ⟨pool, id, made, own, isOwn, (entries .outerB "b.B" own reached rfl rfl isOwn).2.2⟩

def renewed : Project where
  modules := (∅ : Std.ExtTreeMap String (List Export)).insert "a"
    [.linkedClass "A" "a.A" [.toClass "a.A"] [.linkedClass "B" "a.A.B" [] []]]
  settings := {}

/-- Members of a class that has changed since it was exported are not copied. -/
theorem not_every_class_registered :
    ¬ ∀ (project : Project) (table : SymbolTable) (start : Export), project.Coherent start →
      ∃ pool id,
        project.instantiate (project.depthFor start) true ⟨table, ∅⟩ start = some (pool, id) ∧
        ∀ exported fqn, project.Reaches start exported → exported.kind = .ofClass →
          exported.fqn = some fqn → ∃ own, pool.registry[fqn]? = some own ∧
            List.Forall₂ (project.LinkedBy pool) exported.bases (pool.table.superClasses own) := by
  intro every
  have isA : renewed.symbol? "a.A" =
      some (.linkedClass "A" "a.A" [.toClass "a.A"] [.linkedClass "B" "a.A.B" [] []]) := rfl
  have isB : renewed.symbol? "a.A.B" = some (.linkedClass "B" "a.A.B" [] []) := rfl
  have coherent : renewed.Coherent (.linkedClass "A" "a.A" [.toClass "a.A"] []) := by
    have links : ∀ owner ∈ [Export.linkedClass "A" "a.A" [.toClass "a.A"] [],
        .linkedClass "A" "a.A" [.toClass "a.A"] [.linkedClass "B" "a.A.B" [] []],
        .linkedClass "B" "a.A.B" [] []], ∀ link ∈ owner.bases, link = .toClass "a.A" := by
      simp [Export.bases, Export.linkedClass]
    apply And.right
    apply Coherent.of_closed [.linkedClass "A" "a.A" [.toClass "a.A"] [],
      .linkedClass "A" "a.A" [.toClass "a.A"] [.linkedClass "B" "a.A.B" [] []],
      .linkedClass "B" "a.A.B" [] []]
    · exact List.mem_cons_self
    · simp [Export.members, Export.linkedClass]
    · intro owner isOwner link isLink fqn base named found
      obtain rfl := links owner isOwner link isLink
      obtain rfl := Option.some.inj named
      obtain rfl := Option.some.inj (isA.symm.trans found)
      exact ⟨by simp, rfl⟩
    · simp [Export.kind, Export.linkedClass]
    · simp only [List.forall_mem_cons, List.not_mem_nil, false_imp_iff, implies_true, and_true]
      exact ⟨⟨"a.A", _, rfl, by decide +kernel, isA, rfl, fun _ => ⟨rfl, rfl⟩⟩,
        ⟨"a.A", _, rfl, by decide +kernel, isA, rfl, fun _ => ⟨rfl, rfl⟩⟩,
        ⟨"a.A.B", _, rfl, by decide +kernel, isB, rfl, fun _ => ⟨rfl, rfl⟩⟩⟩
  obtain ⟨pool, id, made, registered⟩ := every renewed .empty _ coherent
  have reached : renewed.Reaches (.linkedClass "A" "a.A" [.toClass "a.A"] [])
      (.linkedClass "B" "a.A.B" [] []) :=
    .member (.base .start List.mem_cons_self rfl isA) List.mem_cons_self
  obtain ⟨own, isOwn, _⟩ := registered _ "a.A.B" reached rfl rfl
  have unregistered : (renewed.instantiate
      (renewed.depthFor (.linkedClass "A" "a.A" [.toClass "a.A"] [])) true ⟨.empty, ∅⟩
      (.linkedClass "A" "a.A" [.toClass "a.A"] [])).map (·.1.registry["a.A.B"]?) = some none := by
    decide +kernel
  rw [made, Option.map_some, isOwn] at unregistered
  cases unregistered

end Project

end PyStatic
