import PyStatic.Binding.Exprs
import PyStatic.Binding.Imports
import PyStatic.Project.ModuleName

/-!
Contract: what statements bind and read, and the survey of a whole module.
-/

namespace PyStatic

def SimpleStmt.survey (around : Surroundings) (scope : ScopeId) (mark : Mark) :
    SimpleStmt → Survey → Survey
  | .assign targets value, survey =>
    Expr.surveyAll scope targets (.bind .assignmentTarget) (value.survey scope .read survey)
  | .annotatedAssign target hint value, survey =>
    let survey := Expr.surveyOption scope value (hint.survey scope .read survey)
    target.survey scope (.bind .assignmentTarget) survey
  | .augmentedAssign target _ value, survey =>
    let survey := value.survey scope .read survey
    match target.name? with
    | some name => survey.addBinding scope .compoundAssignmentTarget .plain name
    | none => target.survey scope .read survey
  | .expr value, survey => value.survey scope .read survey
  | .ret value, survey => Expr.surveyOption scope value survey
  | .delete targets, survey => Expr.surveyAll scope targets .read survey
  | .raise exception cause, survey =>
    Expr.surveyOption scope cause (Expr.surveyOption scope exception survey)
  | .assert test message, survey =>
    Expr.surveyOption scope message (test.survey scope .read survey)
  | .pass, survey | .leaveLoop, survey | .nextRound, survey => survey
  | .globalNames names, survey => survey.addDeclarations scope true names
  | .nonlocalNames names, survey => survey.addDeclarations scope false names
  | .plainImport names, survey => names.foldl (Survey.addPlainImport scope) survey
  | .fromImport imported, survey => survey.addFromImport around scope mark imported

def WithItem.surveyAll (scope : ScopeId) (items : List WithItem) (survey : Survey) : Survey :=
  items.foldl (fun survey item =>
    let survey := item.context.survey scope .read survey
    match item.target with
    | some target => target.survey scope (.bind .withInstance) survey
    | none => survey) survey

def FunctionHead.receiver? (head : FunctionHead) (tree : ScopeTree) (scope : ScopeId) :
    Option String :=
  if tree.kind? scope == some .classBody && !head.bindsNoReceiver then
    head.parameters.head?.bind fun parameter => parameter.target.name?.map (·.text)
  else none

def FunctionHead.survey (head : FunctionHead) (scope : ScopeId) (body : List Stmt)
    (survey : Survey) : Survey :=
  let survey := Expr.surveyAll scope head.decorators .read survey
  let survey := Parameter.surveyHeads scope head.parameters survey
  let survey := Expr.surveyOption scope head.returns survey
  let survey := survey.addBinding scope .functionDeclaration (.functionDef head.mark.id) head.name
  let inner := survey.nextScope
  let survey := survey.openScope .function (some scope) head.mark (some head.name.text) body
    (head.receiver? survey.scopes scope)
  Parameter.bindAll inner head.parameters survey

def ClassHead.survey (head : ClassHead) (scope : ScopeId) (body : List Stmt) (survey : Survey) :
    Survey :=
  let survey := Expr.surveyAll scope head.decorators .read survey
  let survey := Argument.surveyAll scope head.arguments survey
  let survey := survey.addBinding scope .classDeclaration (.classDef head.mark.id) head.name
  survey.openScope .classBody (some scope) head.mark (some head.name.text) body none

def HandlerHead.survey (head : HandlerHead) (scope : ScopeId) (survey : Survey) : Survey :=
  let survey := Expr.surveyOption scope head.kind (survey.noteNode scope head.mark.id)
  survey.addBindings scope .exceptionInstance head.name.toList

def CaseHead.survey (head : CaseHead) (scope : ScopeId) (survey : Survey) : Survey :=
  Expr.surveyOption scope head.guard (head.pattern.survey scope survey)

def Survey.lastScope (survey : Survey) : ScopeId :=
  survey.nextScope - 1

mutual

def Stmt.survey (around : Surroundings) (scope : ScopeId) : Stmt → Survey → Survey
  | .simple mark form, survey => form.survey around scope mark (survey.noteNode scope mark.id)
  | .functionDef head body, survey =>
    let survey := head.survey scope body (survey.noteNode scope head.mark.id)
    let survey := Stmt.surveyAll around survey.lastScope body survey
    { survey with functions := survey.functions ++ [⟨head, scope⟩] }
  | .classDef head body, survey =>
    let survey := head.survey scope body (survey.noteNode scope head.mark.id)
    let inner := survey.lastScope
    let survey := Stmt.surveyAll around inner body survey
    { survey with classes := survey.classes ++ [⟨head, inner⟩] }
  | .branch mark test body orelse, survey =>
    let survey := test.survey scope .read (survey.noteNode scope mark.id)
    Stmt.surveyAll around scope orelse (Stmt.surveyAll around scope body survey)
  | .forLoop mark target iter _ body orelse, survey =>
    let survey := iter.survey scope .read (survey.noteNode scope mark.id)
    let survey := target.survey scope (.bind .loopDeclaration) survey
    Stmt.surveyAll around scope orelse (Stmt.surveyAll around scope body survey)
  | .whileLoop mark test body orelse, survey =>
    let survey := test.survey scope .read (survey.noteNode scope mark.id)
    Stmt.surveyAll around scope orelse (Stmt.surveyAll around scope body survey)
  | .tryBlock mark body handlers orelse finalbody, survey =>
    let survey := Stmt.surveyAll around scope body (survey.noteNode scope mark.id)
    let survey := Handler.surveyAll around scope handlers survey
    Stmt.surveyAll around scope finalbody (Stmt.surveyAll around scope orelse survey)
  | .withBlock mark items _ body, survey =>
    let survey := WithItem.surveyAll scope items (survey.noteNode scope mark.id)
    Stmt.surveyAll around scope body survey
  | .matchOn mark subject cases, survey =>
    let survey := subject.survey scope .read (survey.noteNode scope mark.id)
    MatchCase.surveyAll around scope cases survey

def Stmt.surveyAll (around : Surroundings) (scope : ScopeId) : List Stmt → Survey → Survey
  | [], survey => survey
  | stmt :: rest, survey =>
    Stmt.surveyAll around scope rest (stmt.survey around scope survey)

def Handler.surveyAll (around : Surroundings) (scope : ScopeId) : List Handler → Survey → Survey
  | [], survey => survey
  | ⟨head, body⟩ :: rest, survey =>
    let survey := Stmt.surveyAll around scope body (head.survey scope survey)
    Handler.surveyAll around scope rest survey

def MatchCase.surveyAll (around : Surroundings) (scope : ScopeId) :
    List MatchCase → Survey → Survey
  | [], survey => survey
  | ⟨head, body⟩ :: rest, survey =>
    let survey := Stmt.surveyAll around scope body (head.survey scope survey)
    MatchCase.surveyAll around scope rest survey

end

def Survey.ofModule (around : Surroundings) (module' : Module) : Survey :=
  let opened := Survey.empty.openScope .topLevel none module'.mark
    (some (moduleName around.package around.file)) module'.body none
  Stmt.surveyAll around opened.lastScope module'.body opened

end PyStatic
