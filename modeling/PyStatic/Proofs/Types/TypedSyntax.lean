import PyStatic.Proofs.Types.Accounts
import PyStatic.Proofs.Types.EvalCovering

/-!
Contract: the visits of every piece of syntax can be covered, and account for its nodes.
-/

namespace PyStatic

open TypeVisit List

/-- In every pair of states, one covering the other. -/
def Coverable (visits : List TypeVisit) : Prop :=
  ∀ ⦃context : BodyContext⦄ ⦃wide narrow : TypeState⦄, context.ParametersWellFormed →
    wide.Covers narrow → CoveredInOrder context wide narrow visits

structure Typed (visits : List TypeVisit) (outlines : List (Outline Visited)) : Prop where
  coverable : Coverable visits
  accounts : Accounts (TypeVisit.nodes visits) outlines

section Combining

variable {visits further : List TypeVisit} {outlines below : List (Outline Visited)} {expr : Expr}
  {node : NodeId}

theorem Coverable.nil : Coverable [] :=
  fun _ _ _ _ _ => trivial

theorem Coverable.append (first : Coverable visits) (second : Coverable further) :
    Coverable (visits ++ further) :=
  fun _ _ _ parameters covers => (first parameters covers).and (second parameters covers)

theorem Coverable.untyped (node : NodeId) : Coverable [⟨node, none⟩] :=
  fun _ _ _ _ _ => coveredInOrder_untyped node

theorem Coverable.whole (parts : Coverable visits)
    (isWhole : expr.typeVisits .read = visits ++ [⟨node, some expr⟩])
    (isNoName : ∀ context state, isAssigned context state ⟨node, some expr⟩ = true) :
    Coverable (visits ++ [⟨node, some expr⟩]) :=
  fun _ _ _ parameters covers =>
    .whole parameters covers isWhole (isNoName _ _) (parts parameters covers)

namespace Typed

theorem nil : Typed [] [] :=
  ⟨.nil, accounts_nil⟩

theorem append (first : Typed visits outlines) (second : Typed further below) :
    Typed (visits ++ further) (outlines ++ below) :=
  ⟨first.coverable.append second.coverable, first.accounts.visits second.accounts⟩

theorem of_count_eq (typed : Typed visits outlines) {ids : List NodeId}
    (accounts : Accounts ids below)
    (same : ∀ node, (nodes visits).count node = ids.count node) :
    Typed visits below :=
  ⟨typed.coverable, accounts.of_count_eq same⟩

theorem whole (parts : Typed visits below)
    (isWhole : expr.typeVisits .read = visits ++ [⟨node, some expr⟩])
    (isNoName : ∀ context state, isAssigned context state ⟨node, some expr⟩ = true)
    (isOwn : Visited.typedIds (.expr expr) = [node])
    (noneSkipped : Visited.skippedIds (.expr expr) = []) :
    Typed (visits ++ [⟨node, some expr⟩]) [.node (.expr expr) below] :=
  ⟨parts.coverable.whole isWhole isNoName, parts.accounts.visit isOwn rfl noneSkipped⟩

theorem target (parts : Typed visits below)
    (isOwn : Visited.typedIds (.expr expr) = [node])
    (noneSkipped : Visited.skippedIds (.expr expr) = []) :
    Typed (visits ++ [⟨node, none⟩]) [.node (.expr expr) below] :=
  ⟨parts.coverable.append (.untyped node), parts.accounts.visit isOwn rfl noneSkipped⟩

theorem inner (parts : Typed visits below) {pattern : Pattern}
    (noneOwn : Visited.typedIds (.pattern pattern) = []) :
    Typed visits [.node (.pattern pattern) below] :=
  ⟨parts.coverable, parts.accounts.inner noneOwn rfl rfl⟩

end Typed

end Combining

mutual

theorem Expr.typed : ∀ (expr : Expr) (use : TargetUse),
    Typed (expr.typeVisits use) [expr.outline]
  | .name identifier, .read =>
    ⟨fun _ _ _ parameters covers assigned =>
      ⟨(BodyContext.evalCovers_name parameters covers assigned).type identifier.id, trivial⟩,
      accounts_nil.expr rfl rfl rfl⟩
  | .name _, .target => Typed.nil.target rfl rfl
  | .member _ value _, _ | .starred _ value _, .read | .await _ value, _ | .unary _ _ value, _ =>
    (Expr.typed value .read).whole rfl (fun _ _ => rfl) rfl rfl
  | .subscript _ value slices, _ =>
    ((Expr.typed value .read).append (Expr.typedOfAll slices .read)).whole rfl (fun _ _ => rfl)
      rfl rfl
  | .call _ func arguments, _ =>
    ((Expr.typed func .read).append (Argument.typed arguments)).whole rfl (fun _ _ => rfl) rfl rfl
  | .slice _ parts, _ | .literal _ _ _ parts, _ | .collection _ .set parts, _
  | .collection _ .tuple parts, .read | .collection _ .list parts, .read | .compare _ parts _, _
  | .invalid _ parts, _ =>
    (Expr.typedOfAll parts .read).whole rfl (fun _ _ => rfl) rfl rfl
  | .collection _ .tuple elements, .target | .collection _ .list elements, .target =>
    (Expr.typedOfAll elements .target).target rfl rfl
  | .dict _ items, _ => (DictItem.typed items).whole rfl (fun _ _ => rfl) rfl rfl
  | .comprehension _ _ element value generators, _ => by
    have parts := ((Generator.typed generators).append (Expr.typed element .read)).append
      (Expr.typedOfOption value)
    rw [append_assoc (Generator.outlines generators)] at parts
    exact parts.whole rfl (fun _ _ => rfl) rfl rfl
  | .lambda mark parameters body, _ => by
    have parts := (Parameter.coverable parameters).append (Expr.typed body .read).coverable
    have accounts := (Parameter.accounts parameters).append (Expr.typed body .read).accounts
    refine ⟨parts.whole rfl fun _ _ => rfl, ?_⟩
    have noBody : Visited.bodyIds (.expr (.lambda mark parameters body)) = [] := rfl
    rw [Expr.outline, Expr.typeVisits, nodes_append]
    refine Accounts.node (accounts.of_count_eq fun node => ?_) rfl noBody rfl
    simp only [Visited.skippedIds, Visited.lambdaParameters, nodes_append,
      count_append, count_nil, Parameter.count_typeVisits]
    omega
  | .conditional _ test body orelse, _ => by
    have parts := ((Expr.typed test .read).append (Expr.typed body .read)).append
      (Expr.typed orelse .read)
    -- the test is visited first and outlined second
    have accounts := (Expr.typed body .read).accounts.append
      ((Expr.typed test .read).accounts.append (Expr.typed orelse .read).accounts)
    refine (parts.of_count_eq accounts fun node => ?_).whole rfl (fun _ _ => rfl) rfl rfl
    simp only [nodes_append, count_append]
    omega
  | .binary _ _ left _ right, _ =>
    ((Expr.typed left .read).append (Expr.typed right .read)).whole rfl (fun _ _ => rfl) rfl rfl
  | .named mark target value, _ => by
    have parts := Expr.typed value .read
    refine ⟨fun context wide narrow parameters covers => ?_, parts.accounts.visit rfl rfl rfl⟩
    refine (parts.coverable parameters covers).append fun allAssigned => ?_
    have evaluated : context.EvalCovers wide narrow value :=
      BodyContext.evalCovers_of_assigned parameters covers value allAssigned
    -- the target and the whole are typed as the value
    have whole : context.EvalCovers wide narrow (.named mark target value) := evaluated
    exact fun _ => ⟨evaluated.type target.id, fun _ => ⟨whole.type mark.id, trivial⟩⟩
  | .starred _ value _, .target => (Expr.typed value .target).target rfl rfl
  | .yield _ value _, _ => (Expr.typedOfOption value).whole rfl (fun _ _ => rfl) rfl rfl

theorem Expr.typedOfAll : ∀ (exprs : List Expr) (use : TargetUse),
    Typed (Expr.typeVisitsOfAll exprs use) (Expr.outlines exprs)
  | [], _ => .nil
  | expr :: rest, use => (Expr.typed expr use).append (Expr.typedOfAll rest use)

theorem Expr.typedOfOption : ∀ expr : Option Expr,
    Typed (Expr.typeVisitsOfOption expr) (Expr.outlineOf expr)
  | none => .nil
  | some expr => Expr.typed expr .read

theorem Argument.typed : ∀ arguments : List Argument,
    Typed (Argument.typeVisits arguments) (Argument.outlines arguments)
  | [] => .nil
  | ⟨_, value⟩ :: rest => (Expr.typed value .read).append (Argument.typed rest)

theorem DictItem.typed : ∀ items : List DictItem,
    Typed (DictItem.typeVisits items) (DictItem.outlines items)
  | [] => .nil
  | ⟨key, value⟩ :: rest => by
    have parts := ((Expr.typedOfOption key).append (Expr.typed value .read)).append
      (DictItem.typed rest)
    rw [append_assoc (Expr.outlineOf key)] at parts
    exact parts

theorem Generator.typed : ∀ generators : List Generator,
    Typed (Generator.typeVisits generators) (Generator.outlines generators)
  | [] => .nil
  | ⟨_, target, iter, conditions, _⟩ :: rest =>
    (((Expr.typed iter .read).append (Expr.typed target .target)).append
      (Expr.typedOfAll conditions .read)).append (Generator.typed rest)

theorem Parameter.coverable : ∀ parameters : List Parameter,
    Coverable (Parameter.defaultTypeVisits parameters)
  | [] => .nil
  | ⟨_, _, _, default, _, _, _⟩ :: rest =>
    (Expr.typedOfOption default).coverable.append (Parameter.coverable rest)

theorem Parameter.accounts : ∀ parameters : List Parameter,
    Accounts (nodes (parameters.flatMap fun parameter =>
      Expr.typeVisitsOfOption parameter.default ++ Expr.typeVisitsOfOption parameter.hint))
      (Parameter.outlines parameters)
  | [] => accounts_nil
  | ⟨_, _, hint, default, _, _, _⟩ :: rest => by
    -- a hint is outlined before the default, and typed after it
    have parts := (Expr.typedOfOption hint).accounts.append (Expr.typedOfOption default).accounts
    refine Accounts.visits (Accounts.inner (parts.of_count_eq fun node => ?_) rfl rfl rfl)
      (Parameter.accounts rest)
    simp only [nodes_append, count_append]
    omega

end

mutual

theorem Pattern.typed : ∀ pattern : Pattern,
    Typed pattern.typeVisits [pattern.outline]
  | .capture identifier => ⟨.untyped identifier.id, accounts_nil.expr rfl rfl rfl⟩
  | .wildcard _ => Typed.nil.inner rfl
  | .value expr => (expr.typed .read).inner rfl
  | .group items => (Pattern.typedOfAll items).inner rfl
  | .ofClass subject arguments =>
    ((subject.typed .read).append (Pattern.typedOfAll arguments)).inner rfl

theorem Pattern.typedOfAll : ∀ patterns : List Pattern,
    Typed (Pattern.typeVisitsOfAll patterns) (Pattern.outlines patterns)
  | [] => .nil
  | pattern :: rest => (Pattern.typed pattern).append (Pattern.typedOfAll rest)

end

theorem Parameter.typed (parameters : List Parameter) :
    Typed (parameters.flatMap fun parameter =>
        Expr.typeVisitsOfOption parameter.default ++ Expr.typeVisitsOfOption parameter.hint)
      (Parameter.outlines parameters) := by
  refine ⟨?_, Parameter.accounts parameters⟩
  induction parameters with
  | nil => exact .nil
  | cons parameter _ ih =>
    exact ((Expr.typedOfOption parameter.default).coverable.append
      (Expr.typedOfOption parameter.hint).coverable).append ih

theorem FunctionHead.typed (head : FunctionHead) :
    Typed head.typeVisits head.outlines :=
  ((Expr.typedOfAll head.decorators .read).append (Parameter.typed head.parameters)).append
    (Expr.typedOfOption head.returns)

theorem ClassHead.typed (head : ClassHead) :
    Typed head.typeVisits head.outlines :=
  (Expr.typedOfAll head.decorators .read).append (Argument.typed head.arguments)

theorem WithItem.typed : ∀ items : List WithItem,
    Typed (items.flatMap (·.typeVisits)) (WithItem.outlines items)
  | [] => .nil
  | ⟨_, manager, none⟩ :: rest =>
    ((manager.typed .read).append .nil).append (WithItem.typed rest)
  | ⟨_, manager, some target⟩ :: rest =>
    ((manager.typed .read).append (target.typed .target)).append (WithItem.typed rest)

theorem CaseHead.typed (head : CaseHead) :
    Typed head.typeVisits (head.pattern.outline :: Expr.outlineOf head.guard) :=
  head.pattern.typed.append (Expr.typedOfOption head.guard)

end PyStatic
