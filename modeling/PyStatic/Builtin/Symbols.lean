import PyStatic.Builtin.Namespace
import PyStatic.Sequence.Collect
import PyStatic.Symbol.Table

/-!
Contract: the symbols of builtin names.
-/

namespace PyStatic.Builtin

def routineInfo (routine : Routine) (isMethod : Bool) : FunctionInfo :=
  { FunctionInfo.blank with
    isInstanceMethod := isMethod
    declaredReturnType := routine.returns.map TypeHint.builtin }

def pushMethod (className : String) (pool : SymbolPool) (method : Routine) :
    SymbolPool × SymbolId :=
  pool.push (.builtin method.name (className ++ "." ++ method.name)
    (.function (routineInfo method true)))

def classSymbol : List ClassEntry → SymbolPool → String → SymbolPool × Option SymbolId
  | [], pool, _ => (pool, none)
  | entry :: older, pool, name =>
    if entry.name == name then
      match pool.registry[name]? with
      | some id => (pool, some id)
      | none =>
        let (pool, id) := pool.push (.builtin name name (.ofClass .blank))
        let pool := pool.register name id
        let (pool, bases) := Sequence.collect (classSymbol older) pool entry.bases
        let (pool, methods) := Sequence.collect (pushMethod name) pool entry.methods
        let info := { ClassInfo.blank with
          superClasses := bases.filterMap (fun base => base)
          members := methods }
        (pool.setData id (.ofClass info), some id)
    else classSymbol older pool name

def pushRegistered (pool : SymbolPool) (name : String) (data : SymbolData) :
    SymbolPool × SymbolId :=
  let (pool, id) := pool.push (.builtin name name data)
  (pool.register name id, id)

def symbol (pool : SymbolPool) (name : String) : SymbolPool × Option SymbolId :=
  match pool.registry[name]? with
  | some id => (pool, some id)
  | none =>
    match class? name with
    | some _ => classSymbol classes.reverse pool name
    | none =>
      match function? name with
      | some routine =>
        let (pool, id) := pushRegistered pool name (.function (routineInfo routine false))
        (pool, some id)
      | none =>
        if isConstant name then
          let (pool, id) := pushRegistered pool name (.other [])
          (pool, some id)
        else (pool, none)

def extraSymbol (pool : SymbolPool) (name : String) : SymbolPool × SymbolId :=
  match pool.registry[name]? with
  | some id => (pool, id)
  | none => pushRegistered pool name (.other [])

end PyStatic.Builtin
