import PyStatic.Syntax.Expr
import PyStatic.Text.Dotted

/-!
Contract: the statements, match patterns and modules of Python.

A statement that holds no other statement is one constructor, `simple`, with a form of its own
(`SimpleStmt`); a compound statement keeps its header apart from its suites, so that recursion over
statements only meets suites.
-/

namespace PyStatic

/-- Match patterns, reduced to what name binding needs. -/
inductive Pattern where
  | capture (identifier : Identifier)
  | wildcard (range : TextRange)
  | value (expr : Expr)
  | group (items : List Pattern)
  | ofClass (subject : Expr) (arguments : List Pattern)

def Pattern.formName : Pattern → String
  | capture _ => "Capture"
  | wildcard _ => "Wildcard"
  | value _ => "Value"
  | group _ => "Group"
  | ofClass _ _ => "Class"

structure DottedName where
  range : TextRange
  parts : List Identifier

def DottedName.text (name : DottedName) : String :=
  Dotted.ofParts (name.parts.map (·.text))

structure Alias where
  mark : Mark
  name : DottedName
  asName : Option Identifier

def Alias.boundName? (imported : Alias) : Option Identifier :=
  imported.asName <|> imported.name.parts.head?

structure FromImport where
  target : Option DottedName
  level : Nat
  names : List Alias
  isWildcard : Bool

inductive SimpleStmt where
  | assign (targets : List Expr) (value : Expr)
  | annotatedAssign (target hint : Expr) (value : Option Expr)
  | augmentedAssign (target : Expr) (op : String) (value : Expr)
  | expr (value : Expr)
  | ret (value : Option Expr)
  | delete (targets : List Expr)
  | raise (exception cause : Option Expr)
  | assert (test : Expr) (message : Option Expr)
  | pass
  | leaveLoop
  | nextRound
  | globalNames (names : List Identifier)
  | nonlocalNames (names : List Identifier)
  | plainImport (names : List Alias)
  | fromImport (imported : FromImport)

structure FunctionHead where
  mark : Mark
  name : Identifier
  parameters : List Parameter
  returns : Option Expr
  decorators : List Expr
  isAsync : Bool

structure ClassHead where
  mark : Mark
  name : Identifier
  arguments : List Argument
  decorators : List Expr

structure WithItem where
  range : TextRange
  context : Expr
  target : Option Expr

structure HandlerHead where
  mark : Mark
  kind : Option Expr
  name : Option Identifier
  isGroup : Bool

structure CaseHead where
  mark : Mark
  pattern : Pattern
  guard : Option Expr

mutual

inductive Stmt where
  | simple (mark : Mark) (form : SimpleStmt)
  | functionDef (head : FunctionHead) (body : List Stmt)
  | classDef (head : ClassHead) (body : List Stmt)
  | branch (mark : Mark) (test : Expr) (body orelse : List Stmt)
  | forLoop (mark : Mark) (target iter : Expr) (isAsync : Bool) (body orelse : List Stmt)
  | whileLoop (mark : Mark) (test : Expr) (body orelse : List Stmt)
  | tryBlock (mark : Mark) (body : List Stmt) (handlers : List Handler)
      (orelse finalbody : List Stmt)
  | withBlock (mark : Mark) (items : List WithItem) (isAsync : Bool) (body : List Stmt)
  | matchOn (mark : Mark) (subject : Expr) (cases : List MatchCase)

structure Handler where
  head : HandlerHead
  body : List Stmt

structure MatchCase where
  head : CaseHead
  body : List Stmt

end

structure FunctionDef where
  head : FunctionHead
  body : List Stmt

structure Module where
  mark : Mark
  body : List Stmt

def FunctionDef.id (function : FunctionDef) : NodeId :=
  function.head.mark.id

def FunctionHead.bindsNoReceiver (head : FunctionHead) : Bool :=
  head.decorators.any fun decorator =>
    decorator.decoratorText == "staticmethod" || decorator.decoratorText == "classmethod"

namespace SimpleStmt

def formName : SimpleStmt → String
  | assign _ _ => "Assign"
  | annotatedAssign _ _ _ => "AnnAssign"
  | augmentedAssign _ _ _ => "AugAssign"
  | expr _ => "Expr"
  | ret _ => "Return"
  | delete _ => "Delete"
  | raise _ _ => "Raise"
  | assert _ _ => "Assert"
  | pass => "Pass"
  | leaveLoop => "Break"
  | nextRound => "Continue"
  | globalNames _ => "Global"
  | nonlocalNames _ => "Nonlocal"
  | plainImport _ => "Import"
  | fromImport _ => "ImportFrom"

def isJump : SimpleStmt → Bool
  | ret _ | raise _ _ | leaveLoop | nextRound => true
  | _ => false

end SimpleStmt

namespace Stmt

def mark : Stmt → Mark
  | simple mark _ => mark
  | functionDef head _ => head.mark
  | classDef head _ => head.mark
  | branch mark _ _ _ => mark
  | forLoop mark _ _ _ _ _ => mark
  | whileLoop mark _ _ _ => mark
  | tryBlock mark _ _ _ _ => mark
  | withBlock mark _ _ _ => mark
  | matchOn mark _ _ => mark

def id (stmt : Stmt) : NodeId :=
  stmt.mark.id

def range (stmt : Stmt) : TextRange :=
  stmt.mark.range

def formName : Stmt → String
  | simple _ form => form.formName
  | functionDef _ _ => "FunctionDef"
  | classDef _ _ => "ClassDef"
  | branch _ _ _ _ => "If"
  | forLoop _ _ _ _ _ _ => "For"
  | whileLoop _ _ _ _ => "While"
  | tryBlock _ _ _ _ _ => "Try"
  | withBlock _ _ _ _ => "With"
  | matchOn _ _ _ => "Match"

def isJump : Stmt → Bool
  | simple _ form => form.isJump
  | _ => false

def function? : Stmt → Option FunctionDef
  | functionDef head body => some ⟨head, body⟩
  | _ => none

end Stmt

def MatchCase.id (clause : MatchCase) : NodeId :=
  clause.head.mark.id

end PyStatic
