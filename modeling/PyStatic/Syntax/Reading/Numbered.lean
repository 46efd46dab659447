import PyStatic.Syntax.Expr

/-!
Contract: a supply of node identities.
-/

namespace PyStatic

abbrev Numbered := StateM NodeId

namespace Numbered

def fresh : Numbered NodeId :=
  fun next => (next, next + 1)

def freshMark (range : TextRange) : Numbered Mark :=
  fun next => (⟨next, range⟩, next + 1)

def onSome {α β : Type} (action : α → Numbered β) : Option α → Numbered (Option β)
  | none => pure none
  | some value => do return some (← action value)

end Numbered

end PyStatic
