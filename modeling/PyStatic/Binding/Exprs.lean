import PyStatic.Binding.Survey

/-!
Contract: what expressions, parameters and patterns bind and read.
-/

namespace PyStatic

inductive Role where
  | read
  | bind (usage : UsageKind)
  deriving DecidableEq, Repr

def Expr.showsNamespace : Expr → Bool
  | .name function => function.text == "locals" || function.text == "globals"
  | _ => false

def Parameter.bindAll (scope : ScopeId) (parameters : List Parameter) (survey : Survey) : Survey :=
  parameters.foldl (fun survey parameter =>
    (survey.noteNode scope parameter.mark.id).addBindings scope .parameter
      parameter.target.names) survey

mutual

/-- Only names, tuples, lists and starred expressions bind; of an attribute the object is read. -/
def Expr.survey (scope : ScopeId) : Expr → Role → Survey → Survey
  | .name identifier, .read, survey => survey.addRead scope identifier
  | .name identifier, .bind usage, survey => survey.addBinding scope usage .plain identifier
  | .member _ value attr, role, survey =>
    let survey := match role with
      | .bind _ => survey.addInstanceAttribute scope value attr
      | .read => survey
    (value.survey scope .read survey).addAttributeRead value attr
  | .subscript _ value slice, _, survey =>
    Expr.surveyAll scope slice .read (value.survey scope .read survey)
  | .slice _ parts, _, survey => Expr.surveyAll scope parts .read survey
  | .call _ func arguments, _, survey =>
    let survey := if func.showsNamespace then survey.markDynamicNamespace scope else survey
    Argument.surveyAll scope arguments (func.survey scope .read survey)
  | .literal _ _ _ interpolations, _, survey => Expr.surveyAll scope interpolations .read survey
  | .collection _ .set elements, _, survey => Expr.surveyAll scope elements .read survey
  | .collection _ .tuple elements, role, survey => Expr.surveyAll scope elements role survey
  | .collection _ .list elements, role, survey => Expr.surveyAll scope elements role survey
  | .dict _ items, _, survey => DictItem.surveyAll scope items survey
  | .comprehension mark _ element value generators, _, survey =>
    if generators.isEmpty then survey
    else
      let survey := Generator.surveyFirst scope generators survey
      let inner := survey.nextScope
      let survey := survey.openScope .comprehension (some scope) mark none [] none
      let survey := Generator.surveyAll inner true generators survey
      Expr.surveyOption inner value (element.survey inner .read survey)
  | .lambda mark parameters body, _, survey =>
    let survey := Parameter.surveyDefaults scope parameters survey
    let inner := survey.nextScope
    let survey := survey.openScope .lambda (some scope) mark none [] none
    body.survey inner .read (Parameter.bindAll inner parameters survey)
  | .conditional _ test body orelse, _, survey =>
    orelse.survey scope .read (body.survey scope .read (test.survey scope .read survey))
  | .binary _ _ left _ right, _, survey =>
    right.survey scope .read (left.survey scope .read survey)
  | .unary _ _ operand, _, survey => operand.survey scope .read survey
  | .compare _ operands _, _, survey => Expr.surveyAll scope operands .read survey
  | .named _ target value, _, survey =>
    let survey := value.survey scope .read survey
    let binder := survey.scopes.assignmentScope scope
    (survey.addBinding binder .assignmentTarget .plain target).addRead scope target
  | .starred _ value _, role, survey => value.survey scope role survey
  | .await _ value, _, survey => value.survey scope .read survey
  | .yield _ value _, _, survey => Expr.surveyOption scope value survey
  | .invalid _ children, _, survey => Expr.surveyAll scope children .read survey

def Expr.surveyAll (scope : ScopeId) : List Expr → Role → Survey → Survey
  | [], _, survey => survey
  | expr :: rest, role, survey => Expr.surveyAll scope rest role (expr.survey scope role survey)

def Expr.surveyOption (scope : ScopeId) : Option Expr → Survey → Survey
  | none, survey => survey
  | some expr, survey => expr.survey scope .read survey

def Argument.surveyAll (scope : ScopeId) : List Argument → Survey → Survey
  | [], survey => survey
  | ⟨_, value⟩ :: rest, survey => Argument.surveyAll scope rest (value.survey scope .read survey)

def DictItem.surveyAll (scope : ScopeId) : List DictItem → Survey → Survey
  | [], survey => survey
  | ⟨key, value⟩ :: rest, survey =>
    DictItem.surveyAll scope rest
      (value.survey scope .read (Expr.surveyOption scope key survey))

def Generator.surveyFirst (scope : ScopeId) : List Generator → Survey → Survey
  | [], survey => survey
  | ⟨_, _, iter, _, _⟩ :: _, survey => iter.survey scope .read survey

def Generator.surveyAll (scope : ScopeId) (isFirst : Bool) : List Generator → Survey → Survey
  | [], survey => survey
  | ⟨_, target, iter, conditions, _⟩ :: rest, survey =>
    let survey := if isFirst then survey else iter.survey scope .read survey
    let survey := target.survey scope (.bind .comprehensionDeclaration) survey
    Generator.surveyAll scope false rest (Expr.surveyAll scope conditions .read survey)

def Parameter.surveyDefaults (scope : ScopeId) : List Parameter → Survey → Survey
  | [], survey => survey
  | ⟨_, _, _, default, _, _, _⟩ :: rest, survey =>
    Parameter.surveyDefaults scope rest (Expr.surveyOption scope default survey)

end

def Parameter.surveyHeads (scope : ScopeId) (parameters : List Parameter) (survey : Survey) :
    Survey :=
  parameters.foldl (fun survey parameter =>
    Expr.surveyOption scope parameter.default
      (Expr.surveyOption scope parameter.hint survey)) survey

mutual

def Pattern.survey (scope : ScopeId) : Pattern → Survey → Survey
  | .capture identifier, survey => survey.addBinding scope .patternDeclaration .plain identifier
  | .wildcard _, survey => survey
  | .value expr, survey => expr.survey scope .read survey
  | .group items, survey => Pattern.surveyAll scope items survey
  | .ofClass subject arguments, survey =>
    Pattern.surveyAll scope arguments (subject.survey scope .read survey)

def Pattern.surveyAll (scope : ScopeId) : List Pattern → Survey → Survey
  | [], survey => survey
  | pattern :: rest, survey => Pattern.surveyAll scope rest (pattern.survey scope survey)

end

end PyStatic
