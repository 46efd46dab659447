import PyStatic.Types.ValueType

/-!
Contract: what is known of the types of variables at a point of a program.
-/

namespace PyStatic

abbrev TypeState := Std.ExtTreeMap SymbolId ValueType

namespace TypeState

def joinType (known : Option ValueType) (type : ValueType) : ValueType :=
  match known with
  | some known => .unionOf [known, type]
  | none => type

/-- A variable assigned on either way has the types of both. -/
def join (left right : TypeState) : TypeState :=
  right.toList.foldl (fun joined (symbol, type) =>
    joined.insert symbol (joinType joined[symbol]? type)) left

def joinAll : List TypeState → Option TypeState
  | [] => none
  | state :: rest => some (rest.foldl join state)

def same (left right : TypeState) : Bool :=
  left.size == right.size &&
    left.toList.all fun (symbol, type) => right[symbol]?.any fun other => type.same other

def widen (state : TypeState) : TypeState :=
  state.map fun _ _ => .any

end TypeState

end PyStatic
