import PyStatic.Sequence.Collect
import PyStatic.Symbol.Table

/-!
Contract: copies of symbols that no occurrence refers to yet.
-/

namespace PyStatic.SymbolTable

def copyWithin : Nat → SymbolTable → SymbolId → SymbolTable × SymbolId
  | 0, table, id => (table, id)
  | depth + 1, table, id =>
    match table.get? id with
    | none => (table, id)
    | some symbol =>
      match symbol.data with
      | .ambiguous alternatives =>
        let (table, copies) := Sequence.collect (copyWithin depth) table alternatives
        (table.push { symbol with data := .ambiguous copies, usages := [] }, table.size)
      | _ => (table.push { symbol with usages := [] }, table.size)

def copy (table : SymbolTable) (id : SymbolId) : SymbolTable × SymbolId :=
  copyWithin table.size table id

end PyStatic.SymbolTable
