import PyStatic.Builtin.Symbols
import PyStatic.Proofs.Symbol.Growth

/-!
Contract: what making the symbol of a builtin name adds to a pool.
-/

namespace PyStatic.Builtin

open List SymbolTable SymbolPool

/-- One pool grows into another by builtin symbols alone. -/
structure Makes (Named : String → Prop) (pool post : SymbolPool) : Prop where
  extended : pool.Extends post
  fresh : ∀ id symbol, pool.table.size ≤ id → post.table.get? id = some symbol →
    ∃ (name fqn : String) (data : SymbolData), symbol = .builtin name fqn data ∧
      data.kind ≠ .ambiguous ∧ (data.kind = .ofClass → post.registry[fqn]? = some id)
  registered : ∀ (fqn : String) (id : SymbolId), post.registry[fqn]? = some id →
    pool.registry[fqn]? = some id ∨
      (Named fqn ∧ pool.table.size ≤ id ∧ ∃ data, post.table.get? id = some (.builtin fqn fqn data))
  closed : post.table.ClosedFrom pool.table.size

namespace Makes

variable {Named : String → Prop} {pool middle post : SymbolPool}

theorem refl (pool : SymbolPool) : Makes Named pool pool where
  extended := .refl pool
  fresh _ _ added found :=
    absurd (lt_size_of_get? found) (Nat.not_lt.mpr added)
  registered _ _ found := .inl found
  closed := pool.table.closedFrom_size

theorem trans (first : Makes Named pool middle) (second : Makes Named middle post) :
    Makes Named pool post where
  extended := first.extended.trans second.extended
  fresh id symbol added found := by
    by_cases older : id < middle.table.size
    · rw [second.extended.get? id older] at found
      obtain ⟨name, fqn, data, made, plain, registered⟩ := first.fresh id symbol added found
      exact ⟨name, fqn, data, made, plain,
        fun isClass => second.extended.registry fqn id (registered isClass)⟩
    · exact second.fresh id symbol (Nat.le_of_not_lt older) found
  registered fqn id found := by
    rcases second.registered fqn id found with earlier | ⟨named, added, data, made⟩
    · rcases first.registered fqn id earlier with oldest | ⟨named, added, data, made⟩
      · exact .inl oldest
      · exact .inr ⟨named, added, data, second.extended.get?_of_some made⟩
    · exact .inr ⟨named, Nat.le_trans first.extended.size_le added, data, made⟩
  closed := second.extended.closedFrom first.closed first.extended.size_le second.closed

theorem mono {Weaker : String → Prop} (made : Makes Named pool post)
    (weaker : ∀ name, Named name → Weaker name) : Makes Weaker pool post where
  extended := made.extended
  fresh := made.fresh
  registered fqn id found := by
    rcases made.registered fqn id found with earlier | ⟨named, added⟩
    · exact .inl earlier
    · exact .inr ⟨weaker fqn named, added⟩
  closed := made.closed

theorem push (made : Makes Named pool post) (name fqn : String) {data : SymbolData}
    (isPlain : data.kind ≠ .ambiguous) (isNoClass : data.kind ≠ .ofClass) :
    Makes Named pool (post.push (.builtin name fqn data)).1 where
  extended := made.extended.push _
  fresh id symbol added found := by
    change (post.table.push _).get? id = some symbol at found
    rw [get?_push] at found
    split at found
    · cases found
      exact ⟨name, fqn, data, rfl, isPlain, fun isClass => absurd isClass isNoClass⟩
    · exact made.fresh id symbol added found
  registered other id found := by
    rcases made.registered other id found with earlier | ⟨named, added, data, present⟩
    · exact .inl earlier
    · refine .inr ⟨named, added, data, ?_⟩
      exact (Extends.refl post |>.push _).get?_of_some present
  closed := made.closed.push (by simp [Symbol.builtin, data.held_eq_nil isPlain isNoClass])

theorem pushRegistered (made : Makes Named pool post) {name : String} (named : Named name)
    (unregistered : post.registry[name]? = none) {data : SymbolData}
    (isPlain : data.kind ≠ .ambiguous) (isEmpty : data.held = []) :
    Makes Named pool (Builtin.pushRegistered post name data).1 := by
  have grown : post.Extends (Builtin.pushRegistered post name data).1 :=
    (Extends.refl post |>.push _).register unregistered _
  have own : (Builtin.pushRegistered post name data).1.table.get? post.table.size =
      some (.builtin name name data) :=
    get?_push_size ..
  refine ⟨made.extended.trans grown, ?_, ?_, made.closed.push (by simp [Symbol.builtin, isEmpty])⟩
  · intro id symbol added found
    by_cases older : id < post.table.size
    · rw [grown.get? id older] at found
      obtain ⟨otherName, fqn, data, isMade, plain, registered⟩ := made.fresh id symbol added found
      exact ⟨otherName, fqn, data, isMade, plain,
        fun isClass => grown.registry fqn id (registered isClass)⟩
    · have inRange := lt_size_of_get? found
      change id < (post.table.push _).size at inRange
      rw [size_push] at inRange
      obtain rfl : id = post.table.size :=
        Nat.le_antisymm (Nat.le_of_lt_succ inRange) (Nat.le_of_not_lt older)
      rw [own] at found
      cases found
      exact ⟨name, name, data, rfl, isPlain, fun _ => registry_register_self ..⟩
  · intro fqn id found
    by_cases same : name = fqn
    · subst same
      obtain rfl : post.table.size = id := by
        have registered := (registry_register_self
          (post.push (.builtin name name data)).1 name post.table.size).symm.trans found
        exact Option.some.inj registered
      exact .inr ⟨named, made.extended.size_le, data, own⟩
    · have earlier : post.registry[fqn]? = some id :=
        (registry_register_of_ne _ same _).symm.trans found
      rcases made.registered fqn id earlier with oldest | ⟨named, added, data, present⟩
      · exact .inl oldest
      · exact .inr ⟨named, added, data, grown.get?_of_some present⟩

theorem setClass (made : Makes Named pool post) {id : SymbolId} {name fqn : String}
    {info : ClassInfo} (added : pool.table.size ≤ id)
    (found : post.table.get? id = some (.builtin name fqn (.ofClass info))) {filled : ClassInfo}
    (areNew : ∀ member ∈ filled.members, pool.table.size ≤ member ∧ member < post.table.size) :
    Makes Named pool (post.setData id (.ofClass filled)) := by
  have own : (post.setData id (.ofClass filled)).table.get? id =
      some (.builtin name fqn (.ofClass filled)) :=
    get?_setData_self found _
  have others : ∀ {other : SymbolId}, id ≠ other →
      (post.setData id (.ofClass filled)).table.get? other = post.table.get? other :=
    fun distinct => get?_modify_of_ne distinct _
  refine ⟨made.extended.setData added _, ?_, ?_, made.closed.setData id areNew⟩
  · intro other symbol otherAdded present
    by_cases same : id = other
    · subst same
      obtain ⟨_, _, _, isMade, _, registered⟩ := made.fresh id _ added found
      rw [own] at present
      cases present
      cases isMade
      exact ⟨name, fqn, .ofClass filled, rfl, nofun, fun _ => registered rfl⟩
    · rw [others same] at present
      exact made.fresh other symbol otherAdded present
  · intro otherFqn other registered
    rcases made.registered otherFqn other registered with earlier |
      ⟨named, otherAdded, data, present⟩
    · exact .inl earlier
    · refine .inr ⟨named, otherAdded, ?_⟩
      by_cases same : id = other
      · subst same
        rw [found] at present
        cases present
        exact ⟨.ofClass filled, own⟩
      · exact ⟨data, (others same).trans present⟩

theorem collect {α β : Type} {step : SymbolPool → α → SymbolPool × β}
    (steps : ∀ pool item, Makes Named pool (step pool item).1) (pool : SymbolPool)
    (items : List α) : Makes Named pool (Sequence.collect step pool items).1 :=
  (Sequence.collect_keeps (fun _ => True) (Makes Named) (fun _ _ _ => True) refl trans
    (fun _ _ _ _ _ _ => trivial) (fun item _ state _ => ⟨trivial, steps state item, trivial⟩)
    trivial).2.1

end Makes

theorem pushMethod_makes {Named : String → Prop} (className : String) (pool : SymbolPool)
    (method : Routine) : Makes Named pool (pushMethod className pool method).1 :=
  (Makes.refl pool).push _ _ nofun nofun

theorem mem_methods {size : Nat} (className : String) (methods : List Routine) {pool : SymbolPool}
    (older : size ≤ pool.table.size) :
    ∀ id ∈ (Sequence.collect (pushMethod className) pool methods).2, size ≤ id ∧
      id < (Sequence.collect (pushMethod className) pool methods).1.table.size := by
  induction methods generalizing pool with
  | nil => exact fun id isMethod => absurd isMethod not_mem_nil
  | cons method rest ih =>
    have grown : (pushMethod className pool method).1.table.size = pool.table.size + 1 :=
      pool.table.size_push _
    have made := (Makes.collect (@pushMethod_makes (fun _ => True) className)
      (pushMethod className pool method).1 rest).extended.size_le
    rw [grown] at made
    refine forall_mem_cons.mpr ⟨⟨older, made⟩, ?_⟩
    exact ih (grown ▸ Nat.le_succ_of_le older)

theorem classSymbol_makes {Named : String → Prop} {entries : List ClassEntry}
    (named : ∀ entry ∈ entries, Named entry.name) :
    ∀ (pool : SymbolPool) (name : String), Makes Named pool (classSymbol entries pool name).1 ∧
      ∀ id, (classSymbol entries pool name).2 = some id →
        (classSymbol entries pool name).1.registry[name]? = some id := by
  induction entries with
  | nil =>
    intro pool name
    exact ⟨.refl pool, nofun⟩
  | cons entry _ ih =>
    intro pool name
    have olderMakes := ih fun other mem => named other (.tail _ mem)
    rw [classSymbol]
    split
    next same =>
      obtain rfl : entry.name = name := by simpa using same
      split
      next id registered =>
        refine ⟨.refl pool, ?_⟩
        rintro _ ⟨rfl⟩
        exact registered
      next unregistered =>
        -- The class is registered first, so what its bases and methods add grows around it.
        have own : Makes Named pool (pushRegistered pool entry.name (.ofClass .blank)).1 :=
          (Makes.refl pool).pushRegistered (named entry (.head _)) unregistered nofun rfl
        have bases := Makes.collect (fun state base => (olderMakes state base).1)
          (pushRegistered pool entry.name (.ofClass .blank)).1 entry.bases
        have around := bases.trans (Makes.collect (pushMethod_makes entry.name) _ entry.methods)
        have found := around.extended.get?_of_some (get?_push_size pool.table
          (.builtin entry.name entry.name (.ofClass .blank)))
        refine ⟨(own.trans around).setClass (Nat.le_refl _) found
          (mem_methods _ _ (own.trans bases).extended.size_le), ?_⟩
        rintro _ ⟨rfl⟩
        exact around.extended.registry _ _ (registry_register_self ..)
    next => exact olderMakes pool name

theorem classSymbol_isSome {entries : List ClassEntry} {name : String}
    (listed : ∃ entry ∈ entries, entry.name = name) :
    ∀ pool : SymbolPool, ((classSymbol entries pool name).2).isSome := by
  intro pool
  induction entries with
  | nil =>
    obtain ⟨_, mem, _⟩ := listed
    cases mem
  | cons _ _ ih =>
    rw [classSymbol]
    split
    next => split <;> rfl
    next distinct =>
      apply ih
      obtain ⟨other, mem, same⟩ := listed
      rcases mem_cons.mp mem with rfl | mem
      · simp [same] at distinct
      · exact ⟨other, mem, same⟩

theorem isBuiltin_of_mem_classes {entry : ClassEntry} (mem : entry ∈ classes) :
    isBuiltin entry.name = true := by
  have listed : (class? entry.name).isSome = true :=
    find?_isSome.mpr ⟨entry, mem, beq_self_eq_true _⟩
  rw [isBuiltin, listed]
  rfl

theorem symbol_cases (pool : SymbolPool) (name : String) :
    (∃ id, pool.registry[name]? = some id ∧ symbol pool name = (pool, some id)) ∨
    (pool.registry[name]? = none ∧ isBuiltin name = true ∧
      ∃ post id, symbol pool name = (post, some id) ∧
        Makes (isBuiltin · = true) pool post ∧ post.registry[name]? = some id) ∨
    (pool.registry[name]? = none ∧ isBuiltin name = false ∧ symbol pool name = (pool, none)) := by
  rw [symbol]
  cases registered : pool.registry[name]? with
  | some id => exact .inl ⟨id, rfl, rfl⟩
  | none =>
    right
    have made (builtin : isBuiltin name = true) (data : SymbolData)
        (isPlain : data.kind ≠ .ambiguous) (isEmpty : data.held = []) :
        Makes (isBuiltin · = true) pool (pushRegistered pool name data).1 :=
      (Makes.refl pool).pushRegistered builtin registered isPlain isEmpty
    cases isClass : class? name with
    | some entry =>
      have builtin : isBuiltin name = true := by simp [isBuiltin, isClass]
      have listed : ∃ other ∈ classes.reverse, other.name = name :=
        ⟨entry, mem_reverse.mpr (mem_of_find?_eq_some isClass),
          by simpa using find?_some isClass⟩
      obtain ⟨id, found⟩ := Option.isSome_iff_exists.mp (classSymbol_isSome listed pool)
      have makes := @classSymbol_makes (isBuiltin · = true) classes.reverse
        (fun _ mem => isBuiltin_of_mem_classes (mem_reverse.mp mem)) pool name
      exact .inl ⟨rfl, builtin, _, id, Prod.ext rfl found, makes.1, makes.2 id found⟩
    | none =>
      cases isRoutine : function? name with
      | some =>
        have builtin : isBuiltin name = true := by simp [isBuiltin, isFunction, isRoutine]
        exact .inl ⟨rfl, builtin, _, _, rfl, made builtin _ nofun rfl,
          registry_register_self ..⟩
      | none =>
        by_cases constant : isConstant name = true
        · have builtin : isBuiltin name = true := by simp [isBuiltin, constant]
          rw [if_pos constant]
          exact .inl ⟨rfl, builtin, _, _, rfl, made builtin _ nofun rfl,
            registry_register_self ..⟩
        · rw [if_neg constant]
          exact .inr ⟨rfl, by simp [isBuiltin, isFunction, isClass, isRoutine, constant], rfl⟩

end PyStatic.Builtin
