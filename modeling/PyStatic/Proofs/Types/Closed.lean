import PyStatic.Proofs.Types.Covering
import PyStatic.Types.Eval

/-!
Contract: properties of types that evaluation never loses.

Evaluation makes unions in two places only, for a symbol with alternatives and for an expression
with two outcomes, and both go through `ValueType.unionOf`.
-/

namespace PyStatic

open ValueType

/-- A union takes the property over from the types it is made of. -/
structure ValueType.Closed (Holds : ValueType → Prop) : Prop where
  single : ∀ {type : ValueType}, type.isSingle = true → Holds type
  unionOf : ∀ {types : List ValueType}, (∀ type ∈ types, Holds type) → Holds (unionOf types)

theorem ValueType.closed_wellFormed : Closed WellFormed where
  single := by
    intro type single
    cases type with
    | union => cases single
    | _ => trivial
  unionOf := wellFormed_unionOf

namespace ValueType.Closed

variable {Holds : ValueType → Prop} (closed : Closed Holds)

include closed

section Model

variable (model : Model)

theorem instanceType (fqn : String) : Holds (model.instanceType fqn) := by
  apply closed.single
  unfold Model.instanceType
  split <;> rfl

theorem declaredType (hint : TypeHint) : Holds (model.declaredType hint) := by
  apply closed.single
  unfold Model.declaredType
  split <;> rfl

theorem functionResult (isBuiltin : Bool) (info : FunctionInfo) :
    Holds (model.functionResult isBuiltin info) := by
  unfold Model.functionResult
  split
  · exact closed.instanceType model _
  · exact closed.declaredType model _
  · exact closed.single rfl

theorem callResultWithin (depth : Nat) (id : SymbolId) :
    Holds (model.callResultWithin depth id) := by
  induction depth generalizing id with
  | zero => exact closed.single rfl
  | succ _ ih =>
    unfold Model.callResultWithin
    split
    · exact closed.single rfl
    · split
      · exact closed.single rfl
      · exact closed.functionResult model _ _
      · split <;> exact closed.single rfl
      · apply closed.unionOf
        intro type isIn
        obtain ⟨alternative, -, rfl⟩ := List.mem_map.mp isIn
        exact ih alternative

theorem callResult (id : SymbolId) : Holds (model.callResult id) :=
  closed.callResultWithin model _ id

theorem methodResult (receiver : ClassSummary) (method : String) :
    Holds (model.methodResult receiver method) := by
  unfold Model.methodResult
  dsimp only
  split
  · split
    · exact closed.instanceType model _
    · exact closed.single rfl
  · split
    · split
      · exact closed.instanceType model _
      · exact closed.single rfl
    · split
      · exact closed.callResult model _
      · exact closed.single rfl

end Model

section Context

variable (context : BodyContext)

theorem literalType (kind : LiteralKind) : Holds (context.literalType kind) := by
  cases kind with
  | ellipsis => exact closed.single rfl
  | _ => exact closed.instanceType context.model _

theorem collectionType (shape : CollectionShape) : Holds (context.collectionType shape) := by
  cases shape <;> exact closed.instanceType context.model _

theorem comprehensionType (kind : ComprehensionKind) : Holds (context.comprehensionType kind) := by
  cases kind with
  | generator => exact closed.single rfl
  | _ => exact closed.instanceType context.model _

theorem callType (func : Expr) (receiver : Option ValueType) :
    Holds (context.callType func receiver) := by
  unfold BodyContext.callType
  dsimp only
  split
  · cases context.model.symbolAt? _ with
    | none => exact closed.single rfl
    | some symbol => exact closed.callResult context.model symbol
  · split
    · exact closed.callResult context.model _
    · split
      · exact closed.methodResult context.model _ _
      · exact closed.single rfl
  · split
    · split
      · exact closed.callResult context.model _
      · exact closed.single rfl
    · exact closed.single rfl
  · exact closed.single rfl

theorem unaryType (op : String) {operand : ValueType} (holds : Holds operand) :
    Holds (context.unaryType op operand) := by
  unfold BodyContext.unaryType
  split
  · exact closed.instanceType context.model _
  · split
    · split
      · exact holds
      · exact closed.single rfl
    · exact closed.single rfl

theorem arithmeticType (op : String) {left : ValueType} (holds : Holds left)
    (right : ValueType) : Holds (BodyContext.arithmeticType op left right) := by
  unfold BodyContext.arithmeticType
  split
  · split
    · exact holds
    · exact closed.single rfl
  · exact closed.single rfl

theorem eitherType {left right : Option ValueType} (leftHolds : ∀ type ∈ left, Holds type)
    (rightHolds : ∀ type ∈ right, Holds type) :
    ∀ type ∈ BodyContext.eitherType left right, Holds type := by
  intro type isEither
  cases left with
  | none => exact rightHolds type isEither
  | some =>
    cases right with
    | none => exact leftHolds type isEither
    | some =>
      cases isEither
      apply closed.unionOf
      intro part isPart
      rcases List.mem_pair.mp isPart with rfl | rfl
      · exact leftHolds _ rfl
      · exact rightHolds _ rfl

end Context

end ValueType.Closed

def TypeState.All (Holds : ValueType → Prop) (state : TypeState) : Prop :=
  ∀ (symbol : SymbolId) (type : ValueType), state[symbol]? = some type → Holds type

namespace ValueType.Closed

variable {Holds : ValueType → Prop} (closed : Closed Holds) {context : BodyContext}
  {state : TypeState} (parameters : ∀ symbol, Holds (context.parameters.getD symbol .any))
  (all : state.All Holds)

include closed parameters all

theorem readType (name : Identifier) : ∀ type ∈ context.readType state name, Holds type := by
  intro type isRead
  unfold BodyContext.readType at isRead
  split at isRead
  · cases isRead
    exact closed.single rfl
  next symbol _ =>
    split at isRead
    · split at isRead
      next known found =>
        obtain rfl := Option.some.inj isRead
        exact all symbol known found
      · split at isRead
        · cases isRead
          exact closed.single rfl
        · cases isRead
    · cases isRead
      exact parameters symbol

theorem eval : ∀ expr : Expr, ∀ type ∈ context.eval state expr, Holds type
  | .name name, type, isType => closed.readType parameters all name type isType
  | .literal _ kind _ _, _, rfl => closed.literalType context kind
  | .collection _ shape _, _, rfl => closed.collectionType context shape
  | .dict _ _, _, rfl => closed.instanceType context.model _
  | .comprehension _ kind _ _ _, _, rfl => closed.comprehensionType context kind
  | .conditional _ _ body orelse, type, isType =>
    closed.eitherType (eval body) (eval orelse) type isType
  | .binary _ .logical left _ right, type, isType =>
    closed.eitherType (eval left) (eval right) type isType
  | .binary _ .arithmetic left op _, _, isType => by
    rw [BodyContext.eval] at isType
    split at isType
    next leftType rightType isLeft _ =>
      cases isType
      exact closed.arithmeticType op (eval left leftType isLeft) rightType
    · cases isType
  | .unary _ op operand, _, isType => by
    obtain ⟨operandType, isOperand, rfl⟩ := Option.map_eq_some_iff.mp isType
    exact closed.unaryType context op (eval operand operandType isOperand)
  | .named _ _ value, type, isType => eval value type isType
  | .call _ func _, _, isType => by
    cases func with
    | member =>
      cases isType
      exact closed.callType context _ _
    | _ =>
      cases isType
      exact closed.callType context _ _
  | .slice _ _, _, rfl => closed.instanceType context.model _
  | .member _ _ _, _, rfl | .subscript _ _ _, _, rfl | .lambda _ _ _, _, rfl
  | .compare _ _ _, _, rfl | .starred _ _ _, _, rfl | .await _ _, _, rfl | .yield _ _ _, _, rfl
  | .invalid _ _, _, rfl => closed.single rfl

theorem noted (expr : Expr) : Holds (context.noted state expr) := by
  unfold BodyContext.noted
  cases found : context.eval state expr with
  | none => exact closed.single rfl
  | some type => exact closed.eval parameters all expr type found

end ValueType.Closed

end PyStatic
