import PyStatic.Proofs.Syntax.NodeIds
import PyStatic.Syntax.Outline

/-!
Contract: every identifier that occurs in a module.

They are listed in the order in which a survey comes by them, whether they are bound there or read.
-/

namespace PyStatic

open List

mutual

def Expr.identifiers : Expr → List Identifier
  | .name identifier => [identifier]
  | .member _ value attr => value.identifiers ++ [attr]
  | .subscript _ value slice => value.identifiers ++ Expr.identifiersOfAll slice
  | .slice _ parts => Expr.identifiersOfAll parts
  | .call _ func arguments => func.identifiers ++ Argument.identifiers arguments
  | .literal _ _ _ interpolations => Expr.identifiersOfAll interpolations
  | .collection _ _ elements => Expr.identifiersOfAll elements
  | .dict _ items => DictItem.identifiers items
  | .comprehension _ _ element value generators =>
    Generator.identifiers generators ++ element.identifiers ++ Expr.identifiersOfOption value
  | .lambda _ parameters body => Parameter.identifiers parameters ++ body.identifiers
  | .conditional _ test body orelse =>
    test.identifiers ++ body.identifiers ++ orelse.identifiers
  | .binary _ _ left _ right => left.identifiers ++ right.identifiers
  | .unary _ _ operand => operand.identifiers
  | .compare _ operands _ => Expr.identifiersOfAll operands
  | .named _ target value => value.identifiers ++ [target]
  | .starred _ value _ => value.identifiers
  | .await _ value => value.identifiers
  | .yield _ value _ => Expr.identifiersOfOption value
  | .invalid _ children => Expr.identifiersOfAll children

def Expr.identifiersOfAll : List Expr → List Identifier
  | [] => []
  | expr :: rest => expr.identifiers ++ Expr.identifiersOfAll rest

def Expr.identifiersOfOption : Option Expr → List Identifier
  | none => []
  | some expr => expr.identifiers

def Argument.identifiers : List Argument → List Identifier
  | [] => []
  | ⟨keyword, value⟩ :: rest =>
    keyword.toList ++ value.identifiers ++ Argument.identifiers rest

def DictItem.identifiers : List DictItem → List Identifier
  | [] => []
  | ⟨key, value⟩ :: rest =>
    Expr.identifiersOfOption key ++ value.identifiers ++ DictItem.identifiers rest

def Generator.identifiers : List Generator → List Identifier
  | [] => []
  | ⟨_, target, iter, conditions, _⟩ :: rest =>
    iter.identifiers ++ target.identifiers ++ Expr.identifiersOfAll conditions ++
      Generator.identifiers rest

def Parameter.identifiers : List Parameter → List Identifier
  | [] => []
  | ⟨_, target, hint, default, _, _, _⟩ :: rest =>
    target.names ++ Expr.identifiersOfOption hint ++ Expr.identifiersOfOption default ++
      Parameter.identifiers rest

end

mutual

def Pattern.identifiers : Pattern → List Identifier
  | .capture identifier => [identifier]
  | .wildcard _ => []
  | .value expr => expr.identifiers
  | .group items => Pattern.identifiersOfAll items
  | .ofClass subject arguments => subject.identifiers ++ Pattern.identifiersOfAll arguments

def Pattern.identifiersOfAll : List Pattern → List Identifier
  | [] => []
  | pattern :: rest => pattern.identifiers ++ Pattern.identifiersOfAll rest

end

def Alias.identifiers (imported : Alias) : List Identifier :=
  imported.name.parts ++ imported.asName.toList

theorem Alias.boundName?_sublist (imported : Alias) :
    imported.boundName?.toList.Sublist imported.identifiers := by
  rw [Alias.boundName?, Alias.identifiers]
  cases imported.asName with
  | some => exact sublist_append_right ..
  | none =>
    cases imported.name.parts with
    | nil => exact Sublist.refl _
    | cons => exact singleton_sublist.mpr (mem_cons_self ..)

def SimpleStmt.identifiers : SimpleStmt → List Identifier
  | .assign targets value => value.identifiers ++ Expr.identifiersOfAll targets
  | .annotatedAssign target hint value =>
    hint.identifiers ++ Expr.identifiersOfOption value ++ target.identifiers
  | .augmentedAssign target _ value => value.identifiers ++ target.identifiers
  | .expr value => value.identifiers
  | .ret value => Expr.identifiersOfOption value
  | .delete targets => Expr.identifiersOfAll targets
  | .raise exception cause =>
    Expr.identifiersOfOption exception ++ Expr.identifiersOfOption cause
  | .assert test message => test.identifiers ++ Expr.identifiersOfOption message
  | .pass | .leaveLoop | .nextRound => []
  | .globalNames names | .nonlocalNames names => names
  | .plainImport names => names.flatMap (·.identifiers)
  | .fromImport imported =>
    (imported.target.map (·.parts)).getD [] ++ imported.names.flatMap (·.identifiers)

def FunctionHead.identifiers (head : FunctionHead) : List Identifier :=
  Expr.identifiersOfAll head.decorators ++ Parameter.identifiers head.parameters ++
    Expr.identifiersOfOption head.returns ++ [head.name]

def ClassHead.identifiers (head : ClassHead) : List Identifier :=
  Expr.identifiersOfAll head.decorators ++ Argument.identifiers head.arguments ++ [head.name]

def WithItem.identifiers (item : WithItem) : List Identifier :=
  item.context.identifiers ++ Expr.identifiersOfOption item.target

def HandlerHead.identifiers (head : HandlerHead) : List Identifier :=
  Expr.identifiersOfOption head.kind ++ head.name.toList

def CaseHead.identifiers (head : CaseHead) : List Identifier :=
  head.pattern.identifiers ++ Expr.identifiersOfOption head.guard

mutual

def Stmt.identifiers : Stmt → List Identifier
  | .simple _ form => form.identifiers
  | .functionDef head body => head.identifiers ++ Stmt.identifiersOfAll body
  | .classDef head body => head.identifiers ++ Stmt.identifiersOfAll body
  | .branch _ test body orelse =>
    test.identifiers ++ Stmt.identifiersOfAll body ++ Stmt.identifiersOfAll orelse
  | .forLoop _ target iter _ body orelse =>
    iter.identifiers ++ target.identifiers ++ Stmt.identifiersOfAll body ++
      Stmt.identifiersOfAll orelse
  | .whileLoop _ test body orelse =>
    test.identifiers ++ Stmt.identifiersOfAll body ++ Stmt.identifiersOfAll orelse
  | .tryBlock _ body handlers orelse finalbody =>
    Stmt.identifiersOfAll body ++ Handler.identifiers handlers ++
      Stmt.identifiersOfAll orelse ++ Stmt.identifiersOfAll finalbody
  | .withBlock _ items _ body =>
    items.flatMap (·.identifiers) ++ Stmt.identifiersOfAll body
  | .matchOn _ subject cases => subject.identifiers ++ MatchCase.identifiers cases

def Stmt.identifiersOfAll : List Stmt → List Identifier
  | [] => []
  | stmt :: rest => stmt.identifiers ++ Stmt.identifiersOfAll rest

def Handler.identifiers : List Handler → List Identifier
  | [] => []
  | ⟨head, body⟩ :: rest =>
    head.identifiers ++ Stmt.identifiersOfAll body ++ Handler.identifiers rest

def MatchCase.identifiers : List MatchCase → List Identifier
  | [] => []
  | ⟨head, body⟩ :: rest =>
    head.identifiers ++ Stmt.identifiersOfAll body ++ MatchCase.identifiers rest

end

def Module.identifiers (module' : Module) : List Identifier :=
  Stmt.identifiersOfAll module'.body

/-- No two identifiers of a module have the same identity. -/
def Module.DistinctIds (module' : Module) : Prop :=
  (module'.identifiers.map (·.id)).Nodup

theorem Module.visited_of_mem_readNames {module' : Module} {name : Identifier}
    (mem : name ∈ module'.readNames) : .expr (.name name) ∈ module'.visited := by
  obtain ⟨node, isVisited, isName⟩ := List.mem_filterMap.mp mem
  cases node with
  | expr value =>
    cases value with
    | name identifier =>
      obtain rfl : identifier = name := Option.some.inj isName
      exact isVisited
    | _ => cases isName
  | _ => cases isName

instance (module' : Module) : Decidable module'.DistinctIds :=
  inferInstanceAs (Decidable (List.Nodup _))

namespace Visited

def Plain : Visited → Prop
  | .expr (.lambda _ parameters _) => ∀ parameter ∈ parameters, parameter.hint = none
  | .expr (.comprehension _ _ _ _ generators) => generators ≠ []
  | _ => True

def isPlain : Visited → Bool
  | .expr (.lambda _ parameters _) => parameters.all (·.hint.isNone)
  | .expr (.comprehension _ _ _ _ generators) => !generators.isEmpty
  | _ => true

theorem isPlain_iff (node : Visited) : node.isPlain = true ↔ node.Plain := by
  cases node with
  | expr value =>
    cases value with
    | lambda => simp [isPlain, Plain]
    | comprehension => simp [isPlain, Plain]
    | _ => exact iff_of_true rfl trivial
  | _ => exact iff_of_true rfl trivial

instance : DecidablePred Plain := fun node =>
  decidable_of_iff _ node.isPlain_iff

end Visited

end PyStatic
