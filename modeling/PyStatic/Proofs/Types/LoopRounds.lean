import PyStatic.Types.Inference

/-!
Contract: the limit on the rounds of a loop bears on nothing but the walks of loops.

Most functions do not read the limit, so both sides unfold to the same term.
-/

namespace PyStatic

def Settings.withRounds (settings : Settings) (rounds : Nat) : Settings :=
  { settings with maxLoopRounds := rounds }

def Surroundings.withRounds (around : Surroundings) (rounds : Nat) : Surroundings :=
  { around with settings := around.settings.withRounds rounds }

def Model.withRounds (model : Model) (rounds : Nat) : Model :=
  { model with settings := model.settings.withRounds rounds }

def BodyContext.withRounds (context : BodyContext) (rounds : Nat) : BodyContext :=
  { context with model := context.model.withRounds rounds, maxLoopRounds := rounds }

section Survey

variable (around : Surroundings) (rounds : Nat)

theorem Stmt.surveyAll_withRounds :
    Stmt.surveyAll (around.withRounds rounds) = Stmt.surveyAll around := by
  delta Stmt.surveyAll
  rfl

theorem Model.ofModule_withRounds (module' : Module) :
    ofModule (around.withRounds rounds) module' = (ofModule around module').withRounds rounds := by
  have sameSurvey : Survey.ofModule (around.withRounds rounds) module' =
      Survey.ofModule around module' := by
    unfold Survey.ofModule
    rw [Stmt.surveyAll_withRounds]
    rfl
  have sameResolution : resolve (around.withRounds rounds) = resolve around := rfl
  rw [ofModule, sameSurvey, sameResolution]
  rfl

end Survey

namespace Model

variable (model : Model) (rounds : Nat)

theorem declaredType_withRounds : (model.withRounds rounds).declaredType = model.declaredType := by
  have declared : (model.withRounds rounds).declared? = model.declared? := by
    delta declared?
    rfl
  unfold declaredType
  rw [declared]

theorem callResultWithin_withRounds (depth : Nat) :
    (model.withRounds rounds).callResultWithin depth = model.callResultWithin depth := by
  have functionResult : (model.withRounds rounds).functionResult = model.functionResult := by
    unfold Model.functionResult
    rw [declaredType_withRounds]
    rfl
  induction depth with
  | zero => rfl
  | succ depth ih =>
    funext id
    unfold callResultWithin
    rw [functionResult, ih]
    rfl

theorem callResult_withRounds : (model.withRounds rounds).callResult = model.callResult := by
  funext id
  exact congrFun (model.callResultWithin_withRounds rounds _) id

theorem bodyContext_withRounds (scope : ScopeId) (body : InferenceBody) (isFinal : Bool) :
    (model.withRounds rounds).bodyContext scope body isFinal =
      (model.bodyContext scope body isFinal).withRounds rounds := by
  have addParameterType : (model.withRounds rounds).addParameterType scope =
      model.addParameterType scope := by
    unfold Model.addParameterType
    rw [declaredType_withRounds]
    rfl
  unfold bodyContext parameterTypes
  rw [addParameterType]
  rfl

end Model

namespace BodyContext

variable (context : BodyContext) (rounds : Nat)

theorem callType_withRounds : (context.withRounds rounds).callType = context.callType := by
  have callResult : (context.withRounds rounds).model.callResult = context.model.callResult :=
    context.model.callResult_withRounds rounds
  have methodResult : (context.withRounds rounds).model.methodResult =
      context.model.methodResult := by
    unfold Model.methodResult
    rw [callResult]
    rfl
  unfold callType
  dsimp only
  rw [callResult, methodResult]
  rfl

theorem eval_withRounds (state : TypeState) : ∀ expr : Expr,
    (context.withRounds rounds).eval state expr = context.eval state expr
  | .name _ | .literal _ _ _ _ | .collection _ _ _ | .dict _ _ | .comprehension _ _ _ _ _
  | .slice _ _ => by
    rw [eval, eval]
    rfl
  | .member _ _ _ | .subscript _ _ _ | .lambda _ _ _ | .compare _ _ _ | .starred _ _ _
  | .await _ _ | .yield _ _ _ | .invalid _ _ => by rw [eval, eval]
  | .conditional _ _ body orelse => by
    rw [eval, eval, eval_withRounds state body, eval_withRounds state orelse]
  | .binary _ .logical left _ right
  | .binary _ .arithmetic left _ right => by
    rw [eval, eval, eval_withRounds state left, eval_withRounds state right]
  | .unary _ _ operand => by
    rw [eval, eval, eval_withRounds state operand]
    rfl
  | .named _ _ value => by rw [eval, eval, eval_withRounds state value]
  | .call _ func _ => by
    cases func with
    | member _ value =>
      rw [eval, eval, eval_withRounds state value, callType_withRounds]
    | _ => simp only [eval, callType_withRounds]

end BodyContext

end PyStatic
