/-!
Contract: breadth-first walks along links.

Links may run in circles.
-/

namespace PyStatic.BreadthFirst

variable {α : Type} [BEq α]

def unseen (links : α → List α) (seen : List α) (current : α) : List α :=
  ((links current).filter fun item => !seen.contains item).eraseDups

def serve (links : α → List α) : Nat → List α → List α → List α
  | 0, _, _ => []
  | _ + 1, [], _ => []
  | rounds + 1, current :: queue, seen =>
    let fresh := unseen links seen current
    current :: serve links rounds (queue ++ fresh) (seen ++ fresh)

def walk (links : α → List α) (count : Nat) (start : α) : List α :=
  serve links count [start] [start]

/-- All links join the queue, and an item whose turn comes again is passed over. -/
def sweep (links : α → List α) : Nat → List α → List α → List α
  | 0, _, order => order
  | _ + 1, [], order => order
  | rounds + 1, current :: queue, order =>
    if order.contains current then sweep links rounds queue order
    else sweep links rounds (queue ++ links current) (order ++ [current])

end PyStatic.BreadthFirst
