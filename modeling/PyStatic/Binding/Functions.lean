import PyStatic.Binding.Hint
import PyStatic.Binding.Survey

/-!
Contract: what is known of the functions that a module defines.
-/

namespace PyStatic

namespace Resolution

def parameterInfo (resolution : Resolution) (parameter : Parameter) : ParameterInfo where
  name := parameter.target.name?.map (·.text)
  kind := parameter.kind
  hasDefault := parameter.default.isSome
  positionalOnly := parameter.positionalOnly
  keywordOnly := parameter.keywordOnly
  declaredType := parameter.hint.map resolution.hint

def functionInfo (resolution : Resolution) (tree : ScopeTree) (head : FunctionHead)
    (scope : ScopeId) : FunctionInfo where
  parameters := head.parameters.map resolution.parameterInfo
  decorators := head.decorators.map (·.decoratorText)
  isAsync := head.isAsync
  isInstanceMethod := tree.kind? scope == some .classBody && !head.bindsNoReceiver
  declaredReturnType := head.returns.map resolution.hint
  definition := some head.mark.id

def completeFunction (tree : ScopeTree) (resolution : Resolution) (site : FunctionSite) :
    Resolution :=
  match resolution.definitions[site.head.mark.id]? with
  | none => resolution
  | some id =>
    resolution.setData id (.function (resolution.functionInfo tree site.head site.enclosing))

def completeFunctions (survey : Survey) (resolution : Resolution) : Resolution :=
  survey.functions.foldl (completeFunction survey.scopes) resolution

end Resolution

end PyStatic
