import PyStatic.Binding.Symbols

/-!
Contract: the symbols that declared and read names stand for.
-/

namespace PyStatic

def moduleScope : ScopeId := 0

namespace Resolution

def declaredScope? (tree : ScopeTree) (declaration : Declaration) : Option ScopeId :=
  if declaration.isGlobal then some moduleScope else tree.enclosingFunction? declaration.scope

def addDeclaration (tree : ScopeTree) (resolution : Resolution) (declaration : Declaration) :
    Resolution :=
  match declaredScope? tree declaration with
  | none => resolution
  | some target =>
    let name := declaration.name
    let usage : Usage := ⟨name.id, name.range, .globalDeclaration⟩
    match resolution.table.lookup? target name.text with
    | some id => resolution.recordUsage id usage
    | none =>
      let fqn :=
        if target = moduleScope then some (Dotted.join (tree.pathOf moduleScope) name.text)
        else none
      let (resolution, id) := resolution.push (.fresh name.text fqn (.other []) (some target))
      let table := resolution.table.bind target name.text id
      recordUsage id usage { resolution with table }

/-- Bodies of classes other than `reader` are passed over. -/
def lookupIn (tree : ScopeTree) (table : SymbolTable) (reader : ScopeId) (name : String) :
    List ScopeId → Option SymbolId
  | [] => none
  | scope :: outer =>
    if tree.kind? scope == some .classBody && scope != reader then
      lookupIn tree table reader name outer
    else if tree.isGlobal scope name then table.lookup? moduleScope name
    else
      match table.lookup? scope name with
      | some id => some id
      | none => lookupIn tree table reader name outer

def lookup? (tree : ScopeTree) (table : SymbolTable) (scope : ScopeId) (name : String) :
    Option SymbolId :=
  lookupIn tree table scope name (tree.ancestors scope)

def builtin? (settings : Settings) (name : String) (resolution : Resolution) :
    Resolution × Option SymbolId :=
  let pool : SymbolPool := ⟨resolution.table, resolution.builtins⟩
  match Builtin.symbol pool name with
  | (pool, some id) =>
    ({ resolution with table := pool.table, builtins := pool.registry }, some id)
  | (_, none) =>
    if settings.extraBuiltins.contains name then
      let (pool, id) := Builtin.extraSymbol pool name
      ({ resolution with table := pool.table, builtins := pool.registry }, some id)
    else (resolution, none)

def resolve (settings : Settings) (tree : ScopeTree) (reference : Reference)
    (resolution : Resolution) : Resolution × Option SymbolId :=
  match lookup? tree resolution.table reference.scope reference.name with
  | some id => (resolution, some id)
  | none => resolution.builtin? settings reference.name

def addRead (settings : Settings) (tree : ScopeTree) (resolution : Resolution)
    (reference : Reference) : Resolution :=
  match resolution.resolve settings tree reference with
  | (resolution, some id) =>
    let usage : Usage := ⟨reference.node, reference.range, .other⟩
    let resolution := resolution.recordUsage id usage
    { resolution with nameSymbols := resolution.nameSymbols.insert reference.node id }
  | (resolution, none) =>
    { resolution with unresolved := resolution.unresolved ++ [reference] }

def addAttributeRead (resolution : Resolution) (read : AttributeRead) : Resolution :=
  let child? := resolution.nameSymbols[read.base]?.bind fun base =>
    resolution.table.named? (resolution.table.children base) read.attr.text
  match child? with
  | some child => resolution.recordUsage child ⟨read.attr.id, read.attr.range, .other⟩
  | none => resolution

def addReads (settings : Settings) (survey : Survey) (resolution : Resolution) : Resolution :=
  let resolution := survey.declarations.foldl (addDeclaration survey.scopes) resolution
  let resolution := survey.reads.foldl (addRead settings survey.scopes) resolution
  survey.attributeReads.foldl addAttributeRead resolution

end Resolution

end PyStatic
