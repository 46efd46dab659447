import PyStatic.Types.Declared

/-!
Contract: the types of values.

`any` is the top of the order: it absorbs what it is joined with. A type of an instance says what
the class of a value is, a declared one what a hint claims it to be.
-/

namespace PyStatic

inductive ValueType where
  | any
  | instanceOf (summary : ClassSummary)
  | declared (declared : DeclaredType)
  | union (members : List ValueType)
  deriving Inhabited

namespace ValueType

mutual

def same : ValueType → ValueType → Bool
  | any, any => true
  | instanceOf left, instanceOf right => left.same right
  | declared left, declared right => left.same right
  | union members, union others =>
    members.length == others.length && allSameAsSome members others
  | _, _ => false

def allSameAsSome : List ValueType → List ValueType → Bool
  | [], _ => true
  | member :: rest, others => others.any (fun other => same member other) &&
      allSameAsSome rest others

end

def occursIn (type : ValueType) (members : List ValueType) : Bool :=
  members.any fun member => member.same type

def members : ValueType → List ValueType
  | union members => members
  | type => [type]

def isAny : ValueType → Bool
  | any => true
  | _ => false

def addNew (known fresh : List ValueType) : List ValueType :=
  fresh.foldl (fun known type => if type.occursIn known then known else known ++ [type]) known

/-- Unions are opened, repeats dropped, and `any` absorbs the rest. -/
def unionOf (types : List ValueType) : ValueType :=
  if types.any (·.isAny) then any
  else
    match addNew [] (types.flatMap (·.members)) with
    | [] => any
    | [type] => type
    | members => union members

def builtin (name : String) : ValueType :=
  match ClassSummary.builtin? name with
  | some summary => instanceOf summary
  | none => any

def class? : ValueType → Option ClassSummary
  | instanceOf summary => some summary
  | _ => none

section Questions

variable (ofAny : Bool) (ofClass : ClassSummary → Bool) (ofHint : DeclaredType → Bool)

mutual

/-- A question that a union answers with yes if all its members do. -/
def asksAll : ValueType → Bool
  | any => ofAny
  | instanceOf summary => ofClass summary
  | declared hinted => ofHint hinted
  | union members => asksAllOf members

def asksAllOf : List ValueType → Bool
  | [] => true
  | type :: rest => asksAll type && asksAllOf rest

end

mutual

/-- A question that a union answers with yes if one of its members does. -/
def asksSome : ValueType → Bool
  | any => ofAny
  | instanceOf summary => ofClass summary
  | declared hinted => ofHint hinted
  | union members => asksSomeOf members

def asksSomeOf : List ValueType → Bool
  | [] => false
  | type :: rest => asksSome type || asksSomeOf rest

end

end Questions

def canOnlyBe (fqn : String) : ValueType → Bool :=
  asksAll false (·.fqn == fqn) (·.canOnlyBe fqn)

def mustBeOrExtend (fqn : String) : ValueType → Bool :=
  asksAll false (·.isOrExtends fqn) (·.mustBeOrExtend fqn)

def canBeOrExtend (fqn : String) : ValueType → Bool :=
  asksSome true (fun summary => summary.isOrExtends fqn || summary.hasUnresolvedHierarchy)
    fun _ => true

def canHaveMember (name : String) : ValueType → Bool :=
  asksSome true (·.canHaveMember name) (·.canHaveMember name)

def declaresMember (name : String) : ValueType → Bool :=
  asksSome false (·.declaresMember name) fun _ => false

def isUncertain : ValueType → Bool
  | any | declared _ => true
  | _ => false

def overlapsClass (summary : ClassSummary) : ValueType → Bool :=
  asksSome true summary.overlaps fun _ => true

/-- A union is comparable with an uncertain type whatever its members are. -/
def isIdentityComparableWith (other : ValueType) : ValueType → Bool
  | union members =>
    other.isUncertain || asksSomeOf true other.overlapsClass (fun _ => true) members
  | type => asksSome true other.overlapsClass (fun _ => true) type

mutual

def category? : ValueType → Option String
  | any | declared _ => none
  | instanceOf summary => Builtin.category? summary.fqn
  | union [] => none
  | union (first :: rest) =>
    match category? first with
    | some category => if allInCategory category rest then some category else none
    | none => none

def allInCategory (category : String) : List ValueType → Bool
  | [] => true
  | type :: rest => category? type == some category && allInCategory category rest

end

mutual

def render : ValueType → String
  | any => "Any"
  | instanceOf summary => summary.name
  | declared hinted => "Declared[" ++ hinted.render ++ "]"
  | union members => "Union[" ++ String.intercalate ", " (renderAll members) ++ "]"

def renderAll : List ValueType → List String
  | [] => []
  | type :: rest => render type :: renderAll rest

end

end ValueType

end PyStatic
