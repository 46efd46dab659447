import PyStatic.Types.ClassSummary

/-!
Contract: the types that type hints name.

A declared type only says what a value is supposed to be.
-/

namespace PyStatic

/-- Without a class and alternatives it names something unknown. -/
structure DeclaredType where
  name : String
  ofClass : Option ClassSummary
  args : List DeclaredType
  alternatives : List DeclaredType
  deriving Inhabited

namespace DeclaredType

def unionName : String := "Union"

def sameClass : Option ClassSummary → Option ClassSummary → Bool
  | none, none => true
  | some left, some right => left.same right
  | _, _ => false

mutual

def same : DeclaredType → DeclaredType → Bool
  | ⟨name, ofClass, args, alternatives⟩, other =>
    name == other.name && sameClass ofClass other.ofClass && sameAll args other.args &&
      sameAll alternatives other.alternatives

def sameAll : List DeclaredType → List DeclaredType → Bool
  | [], [] => true
  | declared :: rest, other :: others => same declared other && sameAll rest others
  | _, _ => false

end

def isUnion (declared : DeclaredType) : Bool :=
  !declared.alternatives.isEmpty

mutual

def branches : DeclaredType → List DeclaredType
  | ⟨name, ofClass, args, []⟩ => [⟨name, ofClass, args, []⟩]
  | ⟨_, _, _, first :: rest⟩ => branches first ++ branchesOfAll rest

def branchesOfAll : List DeclaredType → List DeclaredType
  | [] => []
  | declared :: rest => branches declared ++ branchesOfAll rest

end

def canOnlyBe (declared : DeclaredType) (fqn : String) : Bool :=
  declared.branches.all fun branch => branch.ofClass.any (·.fqn == fqn)

def mustBeOrExtend (declared : DeclaredType) (fqn : String) : Bool :=
  declared.branches.any fun branch => branch.ofClass.all (·.isOrExtends fqn)

def canHaveMember (declared : DeclaredType) (name : String) : Bool :=
  declared.branches.any fun branch => branch.ofClass.all (·.canHaveMember name)

mutual

def render : DeclaredType → String
  | ⟨name, _, args, alternatives⟩ =>
    if !alternatives.isEmpty && name == unionName then
      String.intercalate " | " (renderAll alternatives)
    else if args.isEmpty then name
    else name ++ "[" ++ String.intercalate ", " (renderAll args) ++ "]"

def renderAll : List DeclaredType → List String
  | [] => []
  | declared :: rest => render declared :: renderAll rest

end

end DeclaredType

end PyStatic
