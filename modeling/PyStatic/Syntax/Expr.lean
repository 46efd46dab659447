import PyStatic.Text.Range

/-!
Contract: the expressions of a Python module, with an identity and a byte range on every node.

Side tables of the analyses are keyed by `NodeId`, so the tree itself never changes.
-/

namespace PyStatic

abbrev NodeId := Nat

structure Mark where
  id : NodeId
  range : TextRange
  deriving DecidableEq, Repr, Inhabited

structure Identifier where
  mark : Mark
  text : String
  deriving DecidableEq, Repr, Inhabited

namespace Identifier

def id (identifier : Identifier) : NodeId :=
  identifier.mark.id

def range (identifier : Identifier) : TextRange :=
  identifier.mark.range

end Identifier

inductive ParameterTarget where
  | name (identifier : Identifier)
  | tuple (items : List ParameterTarget)

namespace ParameterTarget

def name? : ParameterTarget → Option Identifier
  | name identifier => some identifier
  | tuple _ => none

mutual

def names : ParameterTarget → List Identifier
  | name identifier => [identifier]
  | tuple items => namesOfAll items

def namesOfAll : List ParameterTarget → List Identifier
  | [] => []
  | item :: rest => names item ++ namesOfAll rest

end

end ParameterTarget

inductive ParameterKind where
  | regular
  | varArgs
  | kwArgs
  deriving DecidableEq, Repr

inductive LiteralKind where
  | int
  | float
  | complex
  | str
  | fString
  | bytes
  | true
  | false
  | none
  | ellipsis
  deriving DecidableEq, Repr

inductive CollectionShape where
  | tuple
  | list
  | set
  deriving DecidableEq, Repr

inductive ComprehensionKind where
  | list
  | set
  | dict
  | generator
  deriving DecidableEq, Repr

inductive BinaryKind where
  | arithmetic
  | logical
  deriving DecidableEq, Repr

mutual

/-- Expressions; `invalid` keeps the recognised parts of a stretch without meaning. -/
inductive Expr where
  | name (identifier : Identifier)
  | member (mark : Mark) (value : Expr) (attr : Identifier)
  | subscript (mark : Mark) (value : Expr) (slice : List Expr)
  | slice (mark : Mark) (parts : List Expr)
  | call (mark : Mark) (func : Expr) (arguments : List Argument)
  | literal (mark : Mark) (kind : LiteralKind) (text : String) (interpolations : List Expr)
  | collection (mark : Mark) (shape : CollectionShape) (elements : List Expr)
  | dict (mark : Mark) (items : List DictItem)
  | comprehension (mark : Mark) (kind : ComprehensionKind) (element : Expr)
      (value : Option Expr) (generators : List Generator)
  | lambda (mark : Mark) (parameters : List Parameter) (body : Expr)
  | conditional (mark : Mark) (test body orelse : Expr)
  | binary (mark : Mark) (kind : BinaryKind) (left : Expr) (op : String) (right : Expr)
  | unary (mark : Mark) (op : String) (operand : Expr)
  | compare (mark : Mark) (operands : List Expr) (ops : List String)
  | named (mark : Mark) (target : Identifier) (value : Expr)
  | starred (mark : Mark) (value : Expr) (double : Bool)
  | await (mark : Mark) (value : Expr)
  | yield (mark : Mark) (value : Option Expr) (isFrom : Bool)
  | invalid (mark : Mark) (children : List Expr)

structure Argument where
  keyword : Option Identifier
  value : Expr

structure DictItem where
  key : Option Expr
  value : Expr

structure Generator where
  range : TextRange
  target : Expr
  iter : Expr
  conditions : List Expr
  isAsync : Bool

structure Parameter where
  mark : Mark
  target : ParameterTarget
  hint : Option Expr
  default : Option Expr
  kind : ParameterKind
  positionalOnly : Bool
  keywordOnly : Bool

end

namespace Expr

def mark : Expr → Mark
  | name identifier => identifier.mark
  | member mark _ _ => mark
  | subscript mark _ _ => mark
  | slice mark _ => mark
  | call mark _ _ => mark
  | literal mark _ _ _ => mark
  | collection mark _ _ => mark
  | dict mark _ => mark
  | comprehension mark _ _ _ _ => mark
  | lambda mark _ _ => mark
  | conditional mark _ _ _ => mark
  | binary mark _ _ _ _ => mark
  | unary mark _ _ => mark
  | compare mark _ _ => mark
  | named mark _ _ => mark
  | starred mark _ _ => mark
  | await mark _ => mark
  | yield mark _ _ => mark
  | invalid mark _ => mark

def id (expr : Expr) : NodeId :=
  expr.mark.id

def range (expr : Expr) : TextRange :=
  expr.mark.range

def name? : Expr → Option Identifier
  | name identifier => some identifier
  | _ => none

def dottedText : Expr → String
  | name identifier => identifier.text
  | member _ value attr =>
    let base := dottedText value
    if base.isEmpty then "" else base ++ "." ++ attr.text
  | _ => ""

def decoratorText : Expr → String
  | call _ func _ => func.dottedText
  | expr => expr.dottedText

def formName : Expr → String
  | name _ => "Name"
  | member _ _ _ => "Attribute"
  | subscript _ _ _ => "Subscript"
  | slice _ _ => "Slice"
  | call _ _ _ => "Call"
  | literal _ _ _ _ => "Literal"
  | collection _ .tuple _ => "Tuple"
  | collection _ .list _ => "List"
  | collection _ .set _ => "Set"
  | dict _ _ => "Dict"
  | comprehension _ _ _ _ _ => "Comprehension"
  | lambda _ _ _ => "Lambda"
  | conditional _ _ _ _ => "IfExp"
  | binary _ .logical _ _ _ => "BoolOp"
  | binary _ .arithmetic _ _ _ => "BinOp"
  | unary _ _ _ => "UnaryOp"
  | compare _ _ _ => "Compare"
  | named _ _ _ => "Named"
  | starred _ _ _ => "Starred"
  | await _ _ => "Await"
  | yield _ _ _ => "Yield"
  | invalid _ _ => "Invalid"

end Expr

end PyStatic
