import PyStatic.Syntax.Reading.Stmt
import PyStatic.Text.Source

/-!
Contract: the module that a concrete tree writes.
-/

namespace PyStatic

def Shape.reading (shape : Shape) : Reading where
  info := shape.info
  text := shape.text
  children := shape.children
  expr := shape.expr
  statements := shape.statements shape.expr
  pattern := shape.pattern shape.expr
  target := shape.parameterTarget
  assignment := shape.assignment

namespace Tree

mutual

def reading (source : Source) : Tree → Reading
  | node info children =>
    Shape.reading ⟨info, source.slice info.range, readings source children⟩

def readings (source : Source) : List Tree → List Reading
  | [] => []
  | tree :: rest => reading source tree :: readings source rest

end

def readModule (source : Source) (root : Tree) : Module × NodeId :=
  let action : Numbered Module := do
    let mark ← Numbered.freshMark root.info.range
    return ⟨mark, ← (root.reading source).shape.suite⟩
  action 0

end Tree

def Module.ofTree (source : Source) (root : Tree) : Module :=
  (root.readModule source).1

end PyStatic
