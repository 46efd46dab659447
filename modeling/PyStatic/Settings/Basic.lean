/-!
Contract: what can be adjusted from outside.
-/

namespace PyStatic

structure Settings where
  extraBuiltins : List String := []
  maxLoopRounds : Nat := 32
  maxLivenessVisits : Nat := 10000
  deriving DecidableEq, Repr, Inhabited

end PyStatic
