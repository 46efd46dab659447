import PyStatic.Proofs.Binding.Usages
import PyStatic.Proofs.Symbol.Roles

/-!
Contract: symbols are called as the names that stand for them.
-/

namespace PyStatic

structure Label where
  name : String
  fqn : Option String
  isBuiltin : Bool
  isAmbiguous : Bool

def Symbol.label (symbol : Symbol) : Label :=
  ⟨symbol.name, symbol.fqn, symbol.isBuiltin, symbol.kind == .ambiguous⟩

theorem Symbol.Matures.label {symbol later : Symbol} (matures : symbol.Matures later) :
    later.label = symbol.label := by
  have sameKind : (later.kind == .ambiguous) = (symbol.kind == .ambiguous) := by
    rw [Bool.eq_iff_iff, beq_iff_eq, beq_iff_eq, ← not_iff_not]
    rw [← ne_eq, ← ne_eq, kind_ne_ambiguous, kind_ne_ambiguous, matures.role]
  rw [Symbol.label, matures.name, matures.fqn, matures.isBuiltin, sameKind]
  rfl

namespace SymbolTable

def label? (table : SymbolTable) (id : SymbolId) : Option Label :=
  (table.get? id).map (·.label)

def Calls (table : SymbolTable) (id : SymbolId) (name : String) : Prop :=
  ∃ label, table.label? id = some label ∧ label.name = name

def CallsPlain (table : SymbolTable) (id : SymbolId) (name : String) : Prop :=
  ∃ label, table.label? id = some label ∧ label.name = name ∧ label.isAmbiguous = false

variable {table post : SymbolTable} {id : SymbolId} {name : String}

theorem CallsPlain.calls (calls : table.CallsPlain id name) : table.Calls id name := by
  obtain ⟨label, found, isName, _⟩ := calls
  exact ⟨label, found, isName⟩

theorem CallsPlain.plain (calls : table.CallsPlain id name) : table.Plain id := by
  obtain ⟨label, found, _, isPlain⟩ := calls
  obtain ⟨symbol, present, rfl⟩ := Option.map_eq_some_iff.mp found
  exact ⟨symbol, present, by simpa [Symbol.label] using isPlain⟩

theorem Calls.exists_get? (calls : table.Calls id name) :
    ∃ symbol, table.get? id = some symbol ∧ symbol.name = name := by
  obtain ⟨label, found, isName⟩ := calls
  obtain ⟨symbol, present, rfl⟩ := Option.map_eq_some_iff.mp found
  exact ⟨symbol, present, isName⟩

theorem Calls.nameOf (calls : table.Calls id name) : table.nameOf id = name := by
  obtain ⟨symbol, found, rfl⟩ := calls.exists_get?
  rw [SymbolTable.nameOf, found]
  rfl

theorem label?_of_get? {symbol : Symbol} (found : table.get? id = some symbol) :
    table.label? id = some symbol.label := by
  rw [label?, found]
  rfl

theorem Evolves.label? (evolves : Evolves table post) {label : Label}
    (found : table.label? id = some label) : post.label? id = some label := by
  obtain ⟨symbol, present, rfl⟩ := Option.map_eq_some_iff.mp found
  obtain ⟨later, isLater, matures⟩ := evolves id symbol present
  rw [label?_of_get? isLater, matures.label]

theorem Evolves.calls (evolves : Evolves table post) (calls : table.Calls id name) :
    post.Calls id name := by
  obtain ⟨label, found, isName⟩ := calls
  exact ⟨label, evolves.label? found, isName⟩

theorem callsPlain_push (table : SymbolTable) {symbol : Symbol}
    (isPlain : symbol.kind ≠ .ambiguous) :
    (table.push symbol).CallsPlain table.size symbol.name :=
  ⟨symbol.label, label?_of_get? (get?_push_size table symbol), rfl,
    by simpa [Symbol.label] using isPlain⟩

theorem usageTarget_of_plain (isPlain : table.Plain id) : table.usageTarget id = id := by
  rw [usageTarget, alternatives_of_plain isPlain]
  rfl

theorem commonName?_of_calls {ids : List SymbolId} (calls : ∀ id ∈ ids, table.Calls id name)
    (some' : ids ≠ []) : table.commonName? ids = some name := by
  cases ids with
  | nil => exact absurd rfl some'
  | cons first rest =>
    have isFirst : table.nameOf first = name := (calls first List.mem_cons_self).nameOf
    have isRest : (rest.all fun id => table.nameOf id == name) = true := by
      rw [List.all_eq_true]
      intro id mem
      rw [(calls id (List.mem_cons_of_mem _ mem)).nameOf]
      exact beq_self_eq_true name
    rw [commonName?, isFirst, if_pos isRest]

theorem ambiguous?_of_called {ids : List SymbolId}
    (calls : ∀ id ∈ table.flattened ids, table.Calls id name)
    (several : 2 ≤ (table.flattened ids).length) :
    ∃ symbol, table.ambiguous? ids = .ok symbol ∧ symbol.name = name ∧
      symbol.data = .ambiguous (table.flattened ids) := by
  rw [ambiguous?]
  generalize table.flattened ids = all at calls several
  rcases all with _ | ⟨first, _ | ⟨second, rest⟩⟩
  · simp at several
  · simp at several
  · dsimp only
    rw [commonName?_of_calls calls (List.cons_ne_nil _ _)]
    exact ⟨_, rfl, rfl, rfl⟩

theorem bound_unite (table : SymbolTable) (ids : List SymbolId) :
    (table.unite ids).1.bound = table.bound := by
  rw [unite, pushAmbiguous]
  cases table.ambiguous? ids <;> rfl

end SymbolTable

namespace Resolution

open SymbolTable

structure Called (resolution : Resolution) : Prop where
  bound : ∀ scope name id, resolution.table.lookup? scope name = some id →
    resolution.table.Calls id name
  builtin : ∀ (name : String) (id : SymbolId), resolution.builtins[name]? = some id →
    resolution.table.label? id = some ⟨name, some name, true, false⟩

variable {resolution post : Resolution}

theorem Called.of_evolves (called : resolution.Called)
    (evolves : Evolves resolution.table post.table)
    (sameBound : post.table.bound = resolution.table.bound)
    (sameBuiltins : post.builtins = resolution.builtins) : post.Called := by
  refine ⟨?_, ?_⟩
  · intro scope name id found
    rw [SymbolTable.lookup?_congr sameBound] at found
    exact evolves.calls (called.bound scope name id found)
  · intro name id found
    rw [sameBuiltins] at found
    exact evolves.label? (called.builtin name id found)

theorem Called.bind (called : resolution.Called) {name : String} {id : SymbolId}
    (calls : resolution.table.Calls id name) (scope : ScopeId) :
    Called { resolution with table := resolution.table.bind scope name id } := by
  refine ⟨?_, called.builtin⟩
  intro otherScope otherName found isBound
  change (resolution.table.bind scope name id).lookup? otherScope otherName = some found at isBound
  rw [lookup?_bind] at isBound
  split at isBound
  next same =>
    cases isBound
    exact same.2 ▸ calls
  next => exact called.bound otherScope otherName found isBound

theorem recordUsage_of_plain {id : SymbolId} (isPlain : resolution.table.Plain id) (usage : Usage) :
    resolution.recordUsage id usage =
      { resolution with
        table := resolution.table.addUsage id usage
        nameSymbols := resolution.nameSymbols.insert usage.node id } := by
  rw [recordUsage, usageTarget_of_plain isPlain]

end Resolution

namespace BindingOrigin

def role : BindingOrigin → SymbolRole
  | .functionDef node | .classDef node => .definition (some node)
  | _ => .other

theorem kind_ne_ambiguous {symbol : Symbol} {origin : BindingOrigin}
    (isRole : symbol.role = origin.role) : symbol.kind ≠ .ambiguous := by
  rw [Symbol.kind_ne_ambiguous, isRole]
  cases origin <;> simp [role]

end BindingOrigin

end PyStatic
