import Mathlib.Data.List.Forall2
import PyStatic.Sequence.Collect
import PyStatic.Symbol.Table

/-!
Contract: what adding to a symbol table leaves as it was.
-/

namespace PyStatic

open SymbolTable Std.ExtTreeMap

namespace SymbolTable

variable (table : SymbolTable) {id : SymbolId} {symbol : Symbol}

@[simp] theorem size_push (symbol : Symbol) : (table.push symbol).size = table.size + 1 :=
  Array.size_push ..

@[simp] theorem size_modify (id : SymbolId) (change : Symbol → Symbol) :
    (table.modify id change).size = table.size :=
  Array.size_modify ..

@[simp] theorem size_setData (id : SymbolId) (data : SymbolData) :
    (table.setData id data).size = table.size :=
  size_modify ..

theorem get?_push (symbol : Symbol) (id : SymbolId) :
    (table.push symbol).get? id = if id = table.size then some symbol else table.get? id :=
  Array.getElem?_push

@[simp] theorem get?_push_size (symbol : Symbol) :
    (table.push symbol).get? table.size = some symbol := by
  rw [get?_push, if_pos rfl]

theorem get?_modify (id : SymbolId) (change : Symbol → Symbol) (other : SymbolId) :
    (table.modify id change).get? other =
      if id = other then (table.get? other).map change else table.get? other :=
  Array.getElem?_modify

variable {table}

theorem lt_size_of_get? (found : table.get? id = some symbol) : id < table.size :=
  (Array.getElem?_eq_some_iff.mp found).1

theorem exists_get? (inRange : id < table.size) : ∃ symbol, table.get? id = some symbol :=
  ⟨_, Array.getElem?_eq_getElem inRange⟩

theorem get?_push_of_lt (older : id < table.size) :
    (table.push symbol).get? id = table.get? id := by
  rw [get?_push, if_neg (Nat.ne_of_lt older)]

theorem get?_modify_of_ne {id other : SymbolId} (distinct : id ≠ other)
    (change : Symbol → Symbol) : (table.modify id change).get? other = table.get? other := by
  rw [get?_modify, if_neg distinct]

theorem get?_setData_self (found : table.get? id = some symbol) (data : SymbolData) :
    (table.setData id data).get? id = some { symbol with data } := by
  rw [setData, get?_modify, if_pos rfl, found]
  rfl

theorem names_bind (table : SymbolTable) (scope : ScopeId) (name : String) (id : SymbolId)
    (other : ScopeId) :
    (table.bind scope name id).names other =
      if scope = other then (table.names scope).insert name id else table.names other := by
  show (table.bound.insert scope ((table.names scope).insert name id)).getD other ∅ = _
  rw [getD_insert]
  simp only [Std.compare_eq_iff_eq]
  rfl

theorem lookup?_bind (table : SymbolTable) (scope : ScopeId) (name : String) (id : SymbolId)
    (otherScope : ScopeId) (otherName : String) :
    (table.bind scope name id).lookup? otherScope otherName =
      if scope = otherScope ∧ name = otherName then some id
      else table.lookup? otherScope otherName := by
  rw [lookup?, names_bind]
  by_cases sameScope : scope = otherScope
  · subst sameScope
    rw [if_pos rfl, getElem?_insert]
    simp only [Std.compare_eq_iff_eq, true_and]
    rfl
  · rw [if_neg sameScope, if_neg fun both => sameScope both.1]
    rfl

end SymbolTable

def SymbolData.held : SymbolData → List SymbolId
  | ofClass info => info.members
  | ambiguous alternatives => alternatives
  | _ => []

theorem SymbolData.held_eq_nil {data : SymbolData} (isPlain : data.kind ≠ .ambiguous)
    (isNoClass : data.kind ≠ .ofClass) : data.held = [] := by
  cases data with
  | ofClass => exact absurd rfl isNoClass
  | ambiguous => exact absurd rfl isPlain
  | _ => rfl

namespace SymbolTable

def Holds (table : SymbolTable) (id held : SymbolId) : Prop :=
  ∃ symbol, table.get? id = some symbol ∧ held ∈ symbol.data.held

def ClosedFrom (table : SymbolTable) (size : Nat) : Prop :=
  ∀ id held, size ≤ id → table.Holds id held → size ≤ held ∧ held < table.size

variable {table : SymbolTable} {id held : SymbolId} {size : Nat}

theorem holds_push {symbol : Symbol} (holds : (table.push symbol).Holds id held) :
    table.Holds id held ∨ id = table.size ∧ held ∈ symbol.data.held := by
  obtain ⟨other, found, isHeld⟩ := holds
  rw [get?_push] at found
  split at found
  next isNew => exact .inr ⟨isNew, Option.some.inj found ▸ isHeld⟩
  next => exact .inl ⟨other, found, isHeld⟩

theorem holds_modify {changed : SymbolId} {change : Symbol → Symbol}
    (same : ∀ symbol, (change symbol).data.held = symbol.data.held)
    (holds : (table.modify changed change).Holds id held) : table.Holds id held := by
  obtain ⟨symbol, found, isHeld⟩ := holds
  rw [get?_modify] at found
  split at found
  · obtain ⟨old, isOld, rfl⟩ := Option.map_eq_some_iff.mp found
    exact ⟨old, isOld, same old ▸ isHeld⟩
  · exact ⟨symbol, found, isHeld⟩

theorem holds_setData {changed : SymbolId} {data : SymbolData}
    (holds : (table.setData changed data).Holds id held) :
    table.Holds id held ∨ id = changed ∧ held ∈ data.held := by
  obtain ⟨symbol, found, isHeld⟩ := holds
  rw [setData, get?_modify] at found
  split at found
  next isChanged =>
    obtain ⟨old, _, rfl⟩ := Option.map_eq_some_iff.mp found
    exact .inr ⟨isChanged.symm, isHeld⟩
  · exact .inl ⟨symbol, found, isHeld⟩

theorem closedFrom_size (table : SymbolTable) : table.ClosedFrom table.size := by
  rintro id held isNew ⟨symbol, found, _⟩
  exact absurd (lt_size_of_get? found) (Nat.not_lt.mpr isNew)

theorem ClosedFrom.push (closed : table.ClosedFrom size) {symbol : Symbol}
    (areNew : ∀ held ∈ symbol.data.held, size ≤ held ∧ held < table.size) :
    (table.push symbol).ClosedFrom size := by
  intro id held isNew holds
  have bounds : size ≤ held ∧ held < table.size := by
    rcases holds_push holds with earlier | ⟨_, isHeld⟩
    · exact closed id held isNew earlier
    · exact areNew held isHeld
  exact ⟨bounds.1, Nat.lt_of_lt_of_le bounds.2 (by simp)⟩

theorem ClosedFrom.setData (closed : table.ClosedFrom size) (changed : SymbolId)
    {data : SymbolData} (areNew : ∀ held ∈ data.held, size ≤ held ∧ held < table.size) :
    (table.setData changed data).ClosedFrom size := by
  intro id held isNew holds
  rw [size_setData]
  rcases holds_setData holds with earlier | ⟨_, isHeld⟩
  · exact closed id held isNew earlier
  · exact areNew held isHeld

end SymbolTable

namespace SymbolPool

/-- Each symbol is at its place, and each registered name has its symbol. -/
structure Extends (pool post : SymbolPool) : Prop where
  size_le : pool.table.size ≤ post.table.size
  get? : ∀ id, id < pool.table.size → post.table.get? id = pool.table.get? id
  registry : ∀ (fqn : String) (id : SymbolId), pool.registry[fqn]? = some id →
    post.registry[fqn]? = some id
  bound : post.table.bound = pool.table.bound

variable {pool middle post : SymbolPool}

namespace Extends

theorem refl (pool : SymbolPool) : Extends pool pool :=
  ⟨Nat.le_refl _, fun _ _ => rfl, fun _ _ found => found, rfl⟩

theorem trans (first : Extends pool middle) (second : Extends middle post) : Extends pool post where
  size_le := Nat.le_trans first.size_le second.size_le
  get? id inRange := by
    rw [second.get? id (Nat.lt_of_lt_of_le inRange first.size_le), first.get? id inRange]
  registry fqn id found := second.registry fqn id (first.registry fqn id found)
  bound := second.bound.trans first.bound

theorem closedFrom (extended : Extends pool post) {size : Nat}
    (closed : pool.table.ClosedFrom size) (older : size ≤ pool.table.size)
    (fresh : post.table.ClosedFrom pool.table.size) : post.table.ClosedFrom size := by
  intro id held isNew holds
  by_cases isOld : id < pool.table.size
  · obtain ⟨symbol, found, isHeld⟩ := holds
    rw [extended.get? id isOld] at found
    obtain ⟨isAfter, inRange⟩ := closed id held isNew ⟨symbol, found, isHeld⟩
    exact ⟨isAfter, Nat.lt_of_lt_of_le inRange extended.size_le⟩
  · obtain ⟨isAfter, inRange⟩ := fresh id held (Nat.le_of_not_lt isOld) holds
    exact ⟨Nat.le_trans older isAfter, inRange⟩

theorem get?_of_some (extended : Extends pool post) {id : SymbolId} {symbol : Symbol}
    (found : pool.table.get? id = some symbol) : post.table.get? id = some symbol := by
  rw [extended.get? id (lt_size_of_get? found), found]

theorem push (extended : Extends pool post) (symbol : Symbol) :
    Extends pool (post.push symbol).1 where
  size_le := by
    show pool.table.size ≤ (post.table.push symbol).size
    have grown := extended.size_le
    rw [size_push]
    omega
  get? id inRange := by
    show (post.table.push symbol).get? id = pool.table.get? id
    rw [get?_push_of_lt (Nat.lt_of_lt_of_le inRange extended.size_le),
      extended.get? id inRange]
  registry := extended.registry
  bound := extended.bound

theorem setData (extended : Extends pool post) {id : SymbolId} (added : pool.table.size ≤ id)
    (data : SymbolData) : Extends pool (post.setData id data) where
  size_le := by
    show pool.table.size ≤ (post.table.setData id data).size
    rw [size_setData]
    exact extended.size_le
  get? other inRange := by
    have distinct : id ≠ other := Nat.ne_of_gt (Nat.lt_of_lt_of_le inRange added)
    show (post.table.modify id _).get? other = pool.table.get? other
    rw [get?_modify_of_ne distinct, extended.get? other inRange]
  registry := extended.registry
  bound := extended.bound

theorem register (extended : Extends pool post) {fqn : String}
    (unregistered : pool.registry[fqn]? = none) (id : SymbolId) :
    Extends pool (post.register fqn id) where
  size_le := extended.size_le
  get? := extended.get?
  registry name found registered := by
    have distinct : fqn ≠ name := by
      rintro rfl
      rw [unregistered] at registered
      cases registered
    show (post.registry.insert fqn id)[name]? = some found
    rw [getElem?_insert, if_neg (by simpa using distinct)]
    exact extended.registry name found registered
  bound := extended.bound

theorem registerFirst (extended : Extends pool post) (fqn : String) (id : SymbolId) :
    Extends pool (post.registerFirst fqn id) where
  size_le := extended.size_le
  get? := extended.get?
  registry name found registered := by
    have kept := extended.registry name found registered
    show (post.registry.insertIfNew fqn id)[name]? = some found
    rw [getElem?_insertIfNew, if_neg]
    · exact kept
    · rintro ⟨same, unregistered⟩
      obtain rfl : fqn = name := by simpa using same
      apply unregistered
      rw [mem_iff_isSome_getElem?, kept]
      rfl
  bound := extended.bound

end Extends

@[simp] theorem registry_register_self (pool : SymbolPool) (fqn : String) (id : SymbolId) :
    (pool.register fqn id).registry[fqn]? = some id :=
  getElem?_insert_self

theorem registry_register_of_ne (pool : SymbolPool) {fqn other : String} (distinct : fqn ≠ other)
    (id : SymbolId) : (pool.register fqn id).registry[other]? = pool.registry[other]? := by
  show (pool.registry.insert fqn id)[other]? = pool.registry[other]?
  rw [getElem?_insert, if_neg (by simpa using distinct)]

theorem registerFirst_of_unregistered (pool : SymbolPool) {fqn : String}
    (unregistered : pool.registry[fqn]? = none) (id : SymbolId) :
    pool.registerFirst fqn id = pool.register fqn id := by
  have absent : ¬ fqn ∈ pool.registry := by
    rw [mem_iff_isSome_getElem?, unregistered]
    exact Bool.false_ne_true
  rw [registerFirst, register]
  congr 1
  apply ext_getElem?
  intro name
  rw [getElem?_insertIfNew, getElem?_insert]
  simp only [absent, not_false_eq_true, and_true]

end SymbolPool

namespace Sequence

theorem exists_of_forall₂ {α β : Type} {Result : α → β → Prop} {items : List α}
    {results : List β} (all : List.Forall₂ Result items results) {item : α} (mem : item ∈ items) :
    ∃ result ∈ results, Result item result := by
  induction all with
  | nil => cases mem
  | cons first _ ih =>
    rcases List.mem_cons.mp mem with rfl | mem
    · exact ⟨_, List.mem_cons_self, first⟩
    · obtain ⟨result, isResult, holds⟩ := ih mem
      exact ⟨result, List.mem_cons_of_mem _ isResult, holds⟩

variable {σ α β : Type} (Holds : σ → Prop) (Leads : σ → σ → Prop) (Result : σ → α → β → Prop)

theorem exists_collect? {step : σ → α → Option (σ × β)} :
    ∀ {items : List α} {state : σ},
      (∀ item ∈ items, ∀ {state}, Holds state →
        ∃ next result, step state item = some (next, result) ∧ Holds next) →
      Holds state →
        ∃ next results, collect? step state items = some (next, results) ∧ Holds next := by
  intro items
  induction items with
  | nil =>
    intro state _ holds
    exact ⟨state, [], rfl, holds⟩
  | cons item rest ih =>
    intro state steps holds
    obtain ⟨middle, result, first, holds⟩ := steps item List.mem_cons_self holds
    obtain ⟨next, results, second, holds⟩ := ih
      (fun other mem => steps other (List.mem_cons_of_mem item mem)) holds
    refine ⟨next, result :: results, ?_, holds⟩
    rw [collect?, first]
    show (collect? step middle rest).bind _ = _
    rw [second]
    rfl

theorem collect?_some (step : σ → α → σ × β) (state : σ) (items : List α) :
    collect? (fun state item => some (step state item)) state items =
      some (collect step state items) := by
  induction items generalizing state with
  | nil => rfl
  | cons item rest ih =>
    rw [collect?, collect]
    show (collect? _ (step state item).1 rest).bind _ = _
    rw [ih]
    rfl

variable (refl : ∀ state, Leads state state)
  (trans : ∀ {first second third}, Leads first second → Leads second third → Leads first third)
  (stable : ∀ state next item result, Leads state next → Result state item result →
    Result next item result)

include refl trans stable

theorem collect?_keeps {step : σ → α → Option (σ × β)} :
    ∀ {items : List α} {state next : σ} {results : List β},
      (∀ item ∈ items, ∀ {state next result}, Holds state →
        step state item = some (next, result) →
          Holds next ∧ Leads state next ∧ Result next item result) →
      Holds state → collect? step state items = some (next, results) →
        Holds next ∧ Leads state next ∧ List.Forall₂ (Result next) items results := by
  intro items
  induction items with
  | nil =>
    intro state next results steps holds ran
    obtain ⟨rfl, rfl⟩ : state = next ∧ [] = results := by simpa [collect?] using ran
    exact ⟨holds, refl _, .nil⟩
  | cons item _ ih =>
    intro state next results steps holds ran
    rw [collect?] at ran
    obtain ⟨⟨middle, result⟩, first, ran⟩ := Option.bind_eq_some_iff.mp ran
    obtain ⟨⟨last, others⟩, second, ran⟩ := Option.bind_eq_some_iff.mp ran
    obtain ⟨rfl, rfl⟩ : last = next ∧ result :: others = results := by simpa using ran
    obtain ⟨holds, leads, correct⟩ := steps item List.mem_cons_self holds first
    obtain ⟨holds, onwards, correctRest⟩ := ih
      (fun other mem => steps other (List.mem_cons_of_mem item mem)) holds second
    exact ⟨holds, trans leads onwards, .cons (stable _ _ _ _ onwards correct) correctRest⟩

theorem exists_collect?_keeps {step : σ → α → Option (σ × β)} {items : List α} {state : σ}
    (steps : ∀ item ∈ items, ∀ state, Holds state →
      ∃ next result, step state item = some (next, result) ∧
        Holds next ∧ Leads state next ∧ Result next item result)
    (holds : Holds state) :
    ∃ next results, collect? step state items = some (next, results) ∧
      Holds next ∧ Leads state next ∧ List.Forall₂ (Result next) items results := by
  obtain ⟨next, results, ran, _⟩ := exists_collect? Holds (fun item mem {state} holds => by
    obtain ⟨next, result, made, holds, _⟩ := steps item mem state holds
    exact ⟨next, result, made, holds⟩) holds
  refine ⟨next, results, ran, collect?_keeps Holds Leads Result refl trans stable ?_ holds ran⟩
  intro item mem state next result holds made
  obtain ⟨other, otherResult, made', kept⟩ := steps item mem state holds
  obtain ⟨rfl, rfl⟩ := Prod.mk.inj (Option.some.inj (made'.symm.trans made))
  exact kept

theorem collect_keeps {step : σ → α → σ × β} {items : List α} {state : σ}
    (steps : ∀ item ∈ items, ∀ {state}, Holds state →
      Holds (step state item).1 ∧ Leads state (step state item).1 ∧
        Result (step state item).1 item (step state item).2)
    (holds : Holds state) :
    Holds (collect step state items).1 ∧ Leads state (collect step state items).1 ∧
      List.Forall₂ (Result (collect step state items).1) items (collect step state items).2 := by
  refine collect?_keeps Holds Leads Result refl trans stable ?_ holds
    (collect?_some step state items)
  intro item mem state next result holds made
  have kept := steps item mem holds
  rw [Option.some.inj made] at kept
  exact kept

end Sequence

end PyStatic
