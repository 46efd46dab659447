import PyStatic.Builtin.Symbols
import PyStatic.Project.Table
import PyStatic.Symbol.Ambiguous

/-!
Contract: symbols of other modules, brought into a symbol table.

A class is registered before its superclasses are followed, so a hierarchy that leads back to it
finds it. A registered class is used again, except by the alternatives of an ambiguous symbol, which
share their name and stay apart.
-/

namespace PyStatic.Project

def linkNames : BaseLink → String × Option String
  | .toClass fqn => (Dotted.lastPart fqn, some fqn)
  | .toOther name fqn => (name, fqn)

def pushPlaceholder (pool : SymbolPool) (name : String) (fqn : Option String) :
    SymbolPool × SymbolId :=
  let (pool, id) := pool.push (.fresh name fqn (.other []) none)
  match fqn with
  | some fqn => (pool.register fqn id, id)
  | none => (pool, id)

def unite (pool : SymbolPool) (ids : List SymbolId) (name : String) (fqn : Option String) :
    SymbolPool × SymbolId :=
  match pool.table.unite ids with
  | (table, some id) => ({ pool with table }, id)
  | (table, none) => SymbolPool.push { pool with table } (.fresh name fqn (.other []) none)

def registered? (pool : SymbolPool) (reuse : Bool) (fqn : Option String) : Option SymbolId :=
  if reuse then fqn.bind (pool.registry[·]?) else none

/-- There is no answer when `depth` does not suffice; with `reuse` registered classes are taken. -/
def instantiate (project : Project) :
    Nat → Bool → SymbolPool → Export → Option (SymbolPool × SymbolId)
  | 0, _, _, _ => none
  | _ + 1, _, pool, .other name fqn => some (pool.push (.fresh name fqn (.other []) none))
  | _ + 1, _, pool, .function name fqn info =>
    some (pool.push (.fresh name fqn (.function info.detached) none))
  | depth + 1, reuse, pool, .ofClass name fqn info members =>
    match registered? pool reuse fqn with
    | some id => some (pool, id)
    | none => do
        let (pool, id) := pool.push (.fresh name fqn (.ofClass .blank) none)
        let pool := match fqn with
          | some fqn => pool.registerFirst fqn id
          | none => pool
        let follow (pool : SymbolPool) (link : BaseLink) : Option (SymbolPool × SymbolId) :=
          match linkNames link with
          | (linkName, none) => some (pushPlaceholder pool linkName none)
          | (linkName, some linkFqn) =>
            match project.symbol? linkFqn with
            | some exported =>
              match registered? pool (exported.kind != .ambiguous) (some linkFqn) with
              | some id => some (pool, id)
              | none => project.instantiate depth true pool exported
            | none =>
              match Builtin.symbol pool linkFqn with
              | (pool, some id) => some (pool, id)
              | (pool, none) => some (pushPlaceholder pool linkName (some linkFqn))
        let (pool, bases) ← Sequence.collect? follow pool info.bases
        let (pool, members) ← Sequence.collect? (project.instantiate depth true) pool members
        let filled : ClassInfo :=
          ⟨bases, members, info.hasUnresolvedBase, info.metaclass, info.hasDecorators, none⟩
        return (pool.setData id (.ofClass filled), id)
  | depth + 1, _, pool, .ambiguous name fqn alternatives => do
      let (pool, ids) ← Sequence.collect? (project.instantiate depth false) pool alternatives
      return unite pool ids name fqn

/-- Between two new registrations no export is met twice. -/
def depthFor (project : Project) (exported : Export) : Nat :=
  let weight := project.weight + exported.weight + 2
  weight * weight

/-- A hierarchy that has no end is cut off at its first symbol. -/
def instanceOf (project : Project) (pool : SymbolPool) (exported : Export) :
    SymbolPool × SymbolId :=
  match project.instantiate (project.depthFor exported) true pool exported with
  | some result => result
  | none => pool.push (.fresh exported.name exported.fqn (.other []) none)

def instance? (project : Project) (pool : SymbolPool) (fqn : String) :
    Option (SymbolPool × SymbolId) :=
  match project.symbol? fqn with
  | none => none
  | some exported =>
    match registered? pool (exported.kind != .ambiguous) (some fqn) with
    | some id => some (pool, id)
    | none => some (project.instanceOf pool exported)

def instancesOfModule (project : Project) (pool : SymbolPool) (module' : String) :
    SymbolPool × List SymbolId :=
  Sequence.collect project.instanceOf pool ((project.exports? module').getD [])

end PyStatic.Project
