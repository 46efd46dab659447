import PyStatic.Proofs.Types.Closed

/-!
Contract: evaluation in a covering state finds covering types.

Evaluation is not monotone at a variable that is not assigned: a method called on one gives
anything, on a string perhaps a string. Along a path such a read stops evaluation, so expressions
are compared only where everything they read is assigned.
-/

namespace PyStatic

open List

open ValueType

namespace Model

variable (model : Model)

theorem methodResult_of_same {receiver other : ClassSummary} (agree : receiver.same other = true)
    (method : String) : model.methodResult receiver method = model.methodResult other method := by
  unfold methodResult
  rw [(ClassSummary.same_iff.mp agree).2]

end Model

namespace BodyContext

def ParametersWellFormed (context : BodyContext) : Prop :=
  ∀ symbol, (context.parameters.getD symbol .any).WellFormed

def onPath (context : BodyContext) : BodyContext :=
  { context with isFinal := false }

section Covers

variable {wide narrow : ValueType} {otherWide otherNarrow : ValueType}

theorem class?_cases (type : ValueType) :
    type.class? = none ∨ ∃ summary, type = .instanceOf summary := by
  cases type with
  | instanceOf summary => exact Or.inr ⟨summary, rfl⟩
  | _ => exact Or.inl rfl

theorem unaryType_covers (context : BodyContext) (op : String) (covers : wide.Covers narrow) :
    (context.unaryType op wide).Covers (context.unaryType op narrow) := by
  have narrowWellFormed := closed_wellFormed.unaryType context op covers.wellFormed
  by_cases isNot : op == "not"
  · unfold unaryType
    rw [if_pos isNot, if_pos isNot]
    exact (closed_wellFormed.instanceType context.model _).covers_self
  · rcases class?_cases wide with uncertain | ⟨summary, rfl⟩
    · have isAny : context.unaryType op wide = .any := by
        simp [unaryType, isNot, uncertain]
      rw [isAny]
      exact narrowWellFormed.covers_any
    · obtain ⟨other, rfl, agree⟩ := covers.of_instanceOf
      unfold unaryType
      rw [if_neg isNot]
      simp only [class?, (ClassSummary.same_iff.mp agree).2]
      split
      · exact covers
      · exact WellFormed.covers_any trivial

theorem arithmeticType_covers (op : String) (left : wide.Covers narrow)
    (right : otherWide.Covers otherNarrow) :
    (arithmeticType op wide otherWide).Covers (arithmeticType op narrow otherNarrow) := by
  have narrowWellFormed := closed_wellFormed.arithmeticType op left.wellFormed otherNarrow
  rcases class?_cases wide with uncertain | ⟨leftClass, rfl⟩
  · have isAny : arithmeticType op wide otherWide = .any := by
      simp [arithmeticType, uncertain]
    rw [isAny]
    exact narrowWellFormed.covers_any
  · rcases class?_cases otherWide with uncertain | ⟨rightClass, rfl⟩
    · have isAny : arithmeticType op (.instanceOf leftClass) otherWide = .any := by
        simp [arithmeticType, uncertain]
      rw [isAny]
      exact narrowWellFormed.covers_any
    · obtain ⟨leftOther, rfl, leftAgree⟩ := left.of_instanceOf
      obtain ⟨rightOther, rfl, rightAgree⟩ := right.of_instanceOf
      obtain ⟨leftName, leftFqn⟩ := ClassSummary.same_iff.mp leftAgree
      obtain ⟨rightName, rightFqn⟩ := ClassSummary.same_iff.mp rightAgree
      have sameTest : leftClass.same rightClass = leftOther.same rightOther := by
        simp only [ClassSummary.same, leftName, leftFqn, rightName, rightFqn]
      simp only [arithmeticType, class?, sameTest, leftFqn]
      by_cases isSum : (op == "+" && leftOther.same rightOther &&
          (leftOther.fqn == "int" || leftOther.fqn == "str")) = true
      · rw [if_pos isSum, if_pos isSum]
        exact left
      · rw [if_neg isSum, if_neg isSum]
        exact WellFormed.covers_any trivial

theorem callType_covers (context : BodyContext) (mark : Mark) (value : Expr) (attr : Identifier)
    (covers : wide.Covers narrow) :
    (context.callType (.member mark value attr) (some wide)).Covers
      (context.callType (.member mark value attr) (some narrow)) := by
  have narrowWellFormed :=
    closed_wellFormed.callType context (.member mark value attr) (some narrow)
  cases symbolOf : context.model.symbolAt? attr.id with
  | some symbol =>
    simp only [callType, symbolOf]
    exact (closed_wellFormed.callResult context.model symbol).covers_self
  | none =>
    simp only [callType, symbolOf, Option.bind_some] at narrowWellFormed ⊢
    rcases class?_cases wide with uncertain | ⟨summary, rfl⟩
    · rw [uncertain]
      exact narrowWellFormed.covers_any
    · obtain ⟨other, rfl, agree⟩ := covers.of_instanceOf
      simp only [class?, context.model.methodResult_of_same agree]
      exact (closed_wellFormed.methodResult context.model other attr.text).covers_self

theorem eitherType_covers (left : wide.Covers narrow) (right : otherWide.Covers otherNarrow) :
    (unionOf [wide, otherWide]).Covers (unionOf [narrow, otherNarrow]) := by
  refine covers_unionOf (by simp) fun type isIn => ?_
  rcases mem_pair.mp isIn with rfl | rfl
  · exact ⟨wide, by simp, left⟩
  · exact ⟨otherWide, by simp, right⟩

end Covers

end BodyContext

def TypeVisit.isAssigned (context : BodyContext) (state : TypeState) (visit : TypeVisit) : Bool :=
  match visit.expr with
  | some (.name name) => (context.readType state name).isSome
  | _ => true

namespace BodyContext

variable {context : BodyContext} {wide narrow : TypeState}

def EvalCovers (context : BodyContext) (wide narrow : TypeState) (expr : Expr) : Prop :=
  ∃ narrowType, context.onPath.eval narrow expr = some narrowType ∧
    ∃ wideType, context.eval wide expr = some wideType ∧ wideType.Covers narrowType

theorem EvalCovers.of_eq {expr : Expr} {type : ValueType}
    (narrowEval : context.onPath.eval narrow expr = some type)
    (wideEval : context.eval wide expr = some type) (wellFormed : type.WellFormed) :
    context.EvalCovers wide narrow expr :=
  ⟨type, narrowEval, type, wideEval, wellFormed.covers_self⟩

theorem evalCovers_name (parameters : context.ParametersWellFormed) (covers : wide.Covers narrow)
    {name : Identifier} (assigned : (context.onPath.readType narrow name).isSome = true) :
    context.EvalCovers wide narrow (.name name) := by
  unfold EvalCovers
  simp only [eval]
  unfold readType onPath at *
  cases symbolOf : context.model.symbolAt? name.id with
  | none => exact ⟨.any, rfl, .any, rfl, WellFormed.covers_any trivial⟩
  | some symbol =>
    rw [symbolOf] at assigned
    dsimp only at assigned ⊢
    by_cases isTracked : context.tracked.contains symbol = true
    · rw [if_pos isTracked] at assigned
      rw [if_pos isTracked, if_pos isTracked]
      cases found : narrow[symbol]? with
      | none => simp [found] at assigned
      | some type =>
        obtain ⟨wideType, wideFound, typeCovers⟩ := covers symbol type found
        rw [wideFound]
        exact ⟨type, rfl, wideType, rfl, typeCovers⟩
    · rw [if_neg isTracked, if_neg isTracked]
      exact ⟨_, rfl, _, rfl, (parameters symbol).covers_self⟩

theorem evalCovers_of_assigned (parameters : context.ParametersWellFormed)
    (covers : wide.Covers narrow) : ∀ expr : Expr,
    (∀ visit ∈ expr.typeVisits .read, visit.isAssigned context.onPath narrow = true) →
      context.EvalCovers wide narrow expr
  | .name identifier, assigned =>
    evalCovers_name parameters covers (assigned ⟨identifier.id, some (.name identifier)⟩ (by
      simp [Expr.typeVisits]))
  | .literal _ kind _ _, _ => .of_eq rfl rfl (closed_wellFormed.literalType context kind)
  | .collection _ shape _, _ => .of_eq rfl rfl (closed_wellFormed.collectionType context shape)
  | .dict _ _, _ => .of_eq rfl rfl (closed_wellFormed.instanceType context.model "dict")
  | .comprehension _ kind _ _ _, _ =>
    .of_eq rfl rfl (closed_wellFormed.comprehensionType context kind)
  | .conditional _ _ body orelse, assigned => by
    simp only [Expr.typeVisits, mem_append] at assigned
    obtain ⟨left, leftNarrow, leftWide, leftEval, leftCovers⟩ :=
      evalCovers_of_assigned parameters covers body (by grind)
    obtain ⟨right, rightNarrow, rightWide, rightEval, rightCovers⟩ :=
      evalCovers_of_assigned parameters covers orelse (by grind)
    exact ⟨_, by rw [eval, leftNarrow, rightNarrow]; rfl, _,
      by rw [eval, leftEval, rightEval]; rfl, eitherType_covers leftCovers rightCovers⟩
  | .binary _ .logical left _ right, assigned => by
    simp only [Expr.typeVisits, mem_append] at assigned
    obtain ⟨_, leftNarrow, _, leftEval, leftCovers⟩ :=
      evalCovers_of_assigned parameters covers left (by grind)
    obtain ⟨_, rightNarrow, _, rightEval, rightCovers⟩ :=
      evalCovers_of_assigned parameters covers right (by grind)
    exact ⟨_, by rw [eval, leftNarrow, rightNarrow]; rfl, _,
      by rw [eval, leftEval, rightEval]; rfl, eitherType_covers leftCovers rightCovers⟩
  | .binary _ .arithmetic left op right, assigned => by
    simp only [Expr.typeVisits, mem_append] at assigned
    obtain ⟨_, leftNarrow, _, leftEval, leftCovers⟩ :=
      evalCovers_of_assigned parameters covers left (by grind)
    obtain ⟨_, rightNarrow, _, rightEval, rightCovers⟩ :=
      evalCovers_of_assigned parameters covers right (by grind)
    exact ⟨_, by rw [eval, leftNarrow, rightNarrow], _, by rw [eval, leftEval, rightEval],
      arithmeticType_covers op leftCovers rightCovers⟩
  | .unary _ op operand, assigned => by
    simp only [Expr.typeVisits, mem_append] at assigned
    obtain ⟨_, narrowEval, _, wideEval, operandCovers⟩ :=
      evalCovers_of_assigned parameters covers operand (by grind)
    exact ⟨_, by rw [eval, narrowEval]; rfl, _, by rw [eval, wideEval]; rfl,
      context.unaryType_covers op operandCovers⟩
  | .named _ _ value, assigned => by
    simp only [Expr.typeVisits, mem_append] at assigned
    exact evalCovers_of_assigned parameters covers value (by grind)
  | .call _ func _, assigned => by
    cases func with
    | member mark value attr =>
      simp only [Expr.typeVisits, mem_append] at assigned
      obtain ⟨_, narrowEval, _, wideEval, receiverCovers⟩ :=
        evalCovers_of_assigned parameters covers value (by grind)
      exact ⟨_, by rw [eval, narrowEval]; rfl, _, by rw [eval, wideEval],
        context.callType_covers mark value attr receiverCovers⟩
    | _ => exact .of_eq rfl rfl (closed_wellFormed.callType context.onPath _ none)
  | .slice _ _, _ => .of_eq rfl rfl (closed_wellFormed.instanceType context.model "slice")
  | .member _ _ _, _ | .subscript _ _ _, _ | .lambda _ _ _, _ | .compare _ _ _, _
  | .starred _ _ _, _ | .await _ _, _ | .yield _ _ _, _ | .invalid _ _, _ => .of_eq rfl rfl trivial

end BodyContext

section InOrder

variable {context : BodyContext} {wide narrow : TypeState} {first second : List TypeVisit}

/-- Visits before the first unassigned read find covering types. -/
def CoveredInOrder (context : BodyContext) (wide narrow : TypeState) : List TypeVisit → Prop
  | [] => True
  | visit :: rest => visit.isAssigned context.onPath narrow = true →
      (visit.type context wide).Covers (visit.type context.onPath narrow) ∧
        CoveredInOrder context wide narrow rest

theorem CoveredInOrder.append (covered : CoveredInOrder context wide narrow first)
    (later : (∀ visit ∈ first, visit.isAssigned context.onPath narrow = true) →
      CoveredInOrder context wide narrow second) :
    CoveredInOrder context wide narrow (first ++ second) := by
  induction first with
  | nil => exact later (by simp)
  | cons _ _ ih =>
    intro assigned
    obtain ⟨covers, restCovered⟩ := covered assigned
    refine ⟨covers, ih restCovered fun allAssigned => later ?_⟩
    rw [forall_mem_cons]
    exact ⟨assigned, allAssigned⟩

theorem CoveredInOrder.and (covered : CoveredInOrder context wide narrow first)
    (later : CoveredInOrder context wide narrow second) :
    CoveredInOrder context wide narrow (first ++ second) :=
  covered.append fun _ => later

theorem coveredInOrder_untyped (node : NodeId) :
    CoveredInOrder context wide narrow [⟨node, none⟩] :=
  fun _ => ⟨ValueType.WellFormed.covers_any trivial, trivial⟩

theorem BodyContext.EvalCovers.type {expr : Expr} (evaluated : context.EvalCovers wide narrow expr)
    (node : NodeId) : (TypeVisit.type ⟨node, some expr⟩ context wide).Covers
      (TypeVisit.type ⟨node, some expr⟩ context.onPath narrow) := by
  obtain ⟨narrowType, narrowEval, wideType, wideEval, covers⟩ := evaluated
  simp only [TypeVisit.type, BodyContext.noted, narrowEval, wideEval, Option.getD_some]
  exact covers

variable (parameters : context.ParametersWellFormed) (covers : wide.Covers narrow)

include parameters covers

theorem CoveredInOrder.whole {expr : Expr} {parts : List TypeVisit} {node : NodeId}
    (isWhole : expr.typeVisits .read = parts ++ [⟨node, some expr⟩])
    (isNoName : TypeVisit.isAssigned context.onPath narrow ⟨node, some expr⟩ = true)
    (covered : CoveredInOrder context wide narrow parts) :
    CoveredInOrder context wide narrow (parts ++ [⟨node, some expr⟩]) := by
  refine covered.append fun allAssigned _ => ⟨?_, trivial⟩
  have evaluated : context.EvalCovers wide narrow expr := by
    refine BodyContext.evalCovers_of_assigned parameters covers expr fun visit isIn => ?_
    rw [isWhole, mem_append, mem_singleton] at isIn
    rcases isIn with isPart | rfl
    · exact allAssigned visit isPart
    · exact isNoName
  exact evaluated.type node

end InOrder

end PyStatic
