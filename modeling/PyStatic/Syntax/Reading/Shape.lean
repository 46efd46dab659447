import PyStatic.Concrete.Tree
import PyStatic.Syntax.Reading.Numbered
import PyStatic.Syntax.Stmt

/-!
Contract: a concrete node together with every way in which its children can be read.

Each meaning is an action: reading a node takes identities only when its parent asks for it. A
meaning may look at the children and at their children in turn, so a reading keeps the readings
below it.
-/

namespace PyStatic

/-- The meanings of a concrete tree; `assignment` continues one whose mark is taken. -/
structure Reading where
  info : TreeNode
  text : String
  children : List Reading
  expr : Numbered Expr
  statements : Numbered (List Stmt)
  pattern : Numbered Pattern
  target : Numbered ParameterTarget
  assignment : Mark → List Expr → Numbered Stmt

structure Shape where
  info : TreeNode
  text : String
  children : List Reading

def Reading.shape (reading : Reading) : Shape :=
  ⟨reading.info, reading.text, reading.children⟩

def Reading.kind (reading : Reading) : String :=
  reading.info.kind

def Reading.range (reading : Reading) : TextRange :=
  reading.info.range

namespace Shape

def kind (shape : Shape) : String :=
  shape.info.kind

def range (shape : Shape) : TextRange :=
  shape.info.range

def named (shape : Shape) : List Reading :=
  shape.children.filter fun child => child.info.flags.isNamed && !child.info.flags.isExtra

def firstNamed? (shape : Shape) : Option Reading :=
  shape.children.find? (·.info.flags.isNamed)

def labelled? (shape : Shape) (label : String) : Option Reading :=
  shape.children.find? (·.info.label == some label)

def labelled (shape : Shape) (label : String) : List Reading :=
  shape.children.filter (·.info.label == some label)

def hasToken (shape : Shape) (kind : String) : Bool :=
  shape.children.any (·.kind == kind)

def labelledText? (shape : Shape) (label : String) : Option String :=
  (shape.labelled? label).map (·.text)

def identifier (shape : Shape) : Numbered Identifier := do
  return ⟨← Numbered.freshMark shape.range, shape.text⟩

def labelledIdentifier (shape : Shape) (label : String) : Numbered Identifier :=
  match shape.labelled? label with
  | some child => child.shape.identifier
  | none => do return ⟨← Numbered.freshMark shape.range.collapse, ""⟩

def unreadable (shape : Shape) : Numbered Expr := do
  return .invalid (← Numbered.freshMark shape.range) []

def labelledExpr (shape : Shape) (label : String) : Numbered Expr :=
  match shape.labelled? label with
  | some child => child.expr
  | none => shape.unreadable

def firstNamedExpr (shape : Shape) : Numbered Expr :=
  match shape.firstNamed? with
  | some child => child.expr
  | none => shape.unreadable

def namedExprs (shape : Shape) : Numbered (List Expr) :=
  shape.named.mapM (·.expr)

def suite (shape : Shape) : Numbered (List Stmt) := do
  return (← shape.named.mapM (·.statements)).flatten

end Shape

def Reading.suiteOf (block : Option Reading) : Numbered (List Stmt) :=
  match block with
  | some block => block.shape.suite
  | none => pure []

def Reading.aliasTarget? (reading : Reading) : Option Reading :=
  if reading.kind == "as_pattern_target" then reading.shape.firstNamed? else some reading

end PyStatic
