import PyStatic.Types.Eval

/-!
Contract: how types flow through the statements of a body.

The first walk of a body settles what is known at each loop header, by going round the loop until
nothing changes; the final walk passes each statement once and starts loops from there.
-/

namespace PyStatic

abbrev LoopHeaders := Std.ExtTreeMap NodeId TypeState

structure InferenceBody where
  node : NodeId
  suite : List Stmt
  isFunction : Bool

/-- Headers, the states that control leaves with, the types found, and the bodies of the definitions
come by. -/
structure Outcome where
  headers : LoopHeaders
  exit : Option TypeState
  breaks : List TypeState := []
  continues : List TypeState := []
  notes : List TypeNote := []
  bodies : List InferenceBody := []

namespace Outcome

def withNotes (outcome : Outcome) (notes : List TypeNote) : Outcome :=
  { outcome with notes := notes ++ outcome.notes }

def followedBy (first second : Outcome) (exit : Option TypeState) : Outcome :=
  ⟨second.headers, exit, first.breaks ++ second.breaks, first.continues ++ second.continues,
    first.notes ++ second.notes, first.bodies ++ second.bodies⟩

end Outcome

abbrev WalkPart := TypeState → LoopHeaders → Outcome

/-- The states that control leaves clauses with are listed apart from what they have in common. -/
abbrev WalkClauses := TypeState → LoopHeaders → List TypeState × Outcome

namespace BodyContext

/-- Only the final walk keeps what it finds. -/
@[macro_inline] def keep {α : Type} (context : BodyContext) (found : List α) : List α :=
  if context.isFinal then found else []

/-- What is noted of the visits of a piece of syntax that leaves the state as it is. -/
abbrev notes (context : BodyContext) (visits : List TypeVisit) (state : TypeState) :
    List TypeNote :=
  visits.map (·.note context state)

def assign (context : BodyContext) (type : Option ValueType) (state : TypeState) (target : Expr) :
    TypeState :=
  match target.name?.bind fun name => context.model.symbolAt? name.id with
  | none => state
  | some symbol =>
    if context.tracked.contains symbol then
      match type with
      | some type => state.insert symbol type
      | none => state.erase symbol
    else state

def assignNotes (context : BodyContext) (type : Option ValueType) (state : TypeState)
    (target : Expr) : List TypeNote :=
  match target.name? with
  | some name => [(name.id, type.getD .any)]
  | none => context.notes (target.typeVisits .target) state

def assignNotesOfAll (context : BodyContext) (type : Option ValueType) :
    TypeState → List Expr → List TypeNote
  | _, [] => []
  | state, target :: rest =>
    context.assignNotes type state target ++
      context.assignNotesOfAll type (context.assign type state target) rest

/-- If the header never stops changing, nothing is known of any variable. -/
def settle (round : WalkPart) (entry : TypeState) :
    Nat → TypeState → LoopHeaders → LoopHeaders × TypeState
  | 0, header, headers => (headers, header.widen)
  | rounds + 1, header, headers =>
    let outcome := round header headers
    let next := (outcome.exit.toList ++ outcome.continues).foldl TypeState.join
      (entry.join header)
    if next.same header then (outcome.headers, header)
    else settle round entry rounds next outcome.headers

def loopHeader (context : BodyContext) (node : NodeId) (round : WalkPart) (entry : TypeState)
    (headers : LoopHeaders) : LoopHeaders × TypeState :=
  if context.isFinal then
    match headers[node]? with
    | some stored => (headers, entry.join stored)
    | none => (headers, entry)
  else
    let (headers, header) := settle round entry (max 1 context.maxLoopRounds) entry headers
    (headers.insert node header, header)

def walkLoop (context : BodyContext) (node : NodeId) (notes : TypeState → List TypeNote)
    (body orelse : WalkPart) (entry : TypeState) (headers : LoopHeaders) : Outcome :=
  let (headers, header) := context.loopHeader node body entry headers
  let inside := body header headers
  let after := orelse header inside.headers
  { headers := after.headers
    exit := TypeState.joinAll (after.exit.toList ++ inside.breaks)
    breaks := after.breaks
    continues := after.continues
    notes := context.keep (notes header) ++ inside.notes ++ after.notes
    bodies := inside.bodies ++ after.bodies }

def simpleExit (context : BodyContext) (state : TypeState) : SimpleStmt → Option TypeState
  | .assign targets value =>
    some (targets.foldl (context.assign (context.eval state value)) state)
  | .annotatedAssign target _ (some value) =>
    some (context.assign (context.eval state value) state target)
  | .ret _ | .raise _ _ | .leaveLoop | .nextRound => none
  | _ => some state

def simpleNotes (context : BodyContext) (state : TypeState) (form : SimpleStmt) : List TypeNote :=
  context.notes form.typeVisits state ++
    match form.assignment? with
    | some (targets, value) => context.assignNotesOfAll (context.eval state value) state targets
    | none => []

def walkSimple (context : BodyContext) (form : SimpleStmt) (state : TypeState)
    (headers : LoopHeaders) : Outcome :=
  { headers
    exit := context.simpleExit state form
    breaks := match form with
      | .leaveLoop => [state]
      | _ => []
    continues := match form with
      | .nextRound => [state]
      | _ => []
    notes := context.keep (context.simpleNotes state form) }

def walkFinally (finalbody : Option WalkPart) (exits : List TypeState) (fallback : TypeState)
    (headers : LoopHeaders) : Outcome :=
  match finalbody with
  | none => { headers, exit := TypeState.joinAll exits }
  | some finalbody =>
    let outcome := finalbody ((TypeState.joinAll exits).getD fallback) headers
    if exits.isEmpty then { outcome with exit := none } else outcome

/-- All clauses of a statement start from the same state. -/
def walkClause (context : BodyContext) (visits : List TypeVisit) (body : WalkPart)
    (rest : WalkClauses) (state : TypeState) (headers : LoopHeaders) :
    List TypeState × Outcome :=
  let first := (body state headers).withNotes (context.keep (context.notes visits state))
  let others := rest state first.headers
  (first.exit.toList ++ others.1, first.followedBy others.2 none)

end BodyContext

mutual

def Stmt.walk (context : BodyContext) : Stmt → TypeState → LoopHeaders → Outcome
  | .simple _ form, state, headers => context.walkSimple form state headers
  | .functionDef head body, state, headers =>
    { headers, exit := some state, notes := context.keep (context.notes head.typeVisits state),
      bodies := context.keep [⟨head.mark.id, body, true⟩] }
  | .classDef head body, state, headers =>
    { headers, exit := some state, notes := context.keep (context.notes head.typeVisits state),
      bodies := context.keep [⟨head.mark.id, body, false⟩] }
  | .branch _ test body orelse, state, headers =>
    let first := Stmt.walkAll context body (some state) headers
    let second := Stmt.walkAll context orelse (some state) first.headers
    (first.followedBy second
      (TypeState.joinAll (first.exit.toList ++ second.exit.toList))).withNotes
      (context.keep (context.notes (test.typeVisits .read) state))
  | .forLoop mark target iter _ body orelse, state, headers =>
    (context.walkLoop mark.id (context.notes (target.typeVisits .target))
      (fun state => Stmt.walkAll context body (some state))
      (fun state => Stmt.walkAll context orelse (some state))
      state headers).withNotes (context.keep (context.notes (iter.typeVisits .read) state))
  | .whileLoop mark test body orelse, state, headers =>
    context.walkLoop mark.id (context.notes (test.typeVisits .read))
      (fun state => Stmt.walkAll context body (some state))
      (fun state => Stmt.walkAll context orelse (some state)) state headers
  | .tryBlock _ body handlers orelse finalbody, state, headers =>
    let first := Stmt.walkAll context body (some state) headers
    let interrupted := first.exit.toList.foldl TypeState.join state
    let handled := Handler.walkAll context handlers interrupted first.headers
    let otherwise := Stmt.walkAll context orelse first.exit handled.2.headers
    let exits := handled.1 ++ otherwise.exit.toList
    let last := BodyContext.walkFinally
      (if finalbody.isEmpty then none
        else some fun state => Stmt.walkAll context finalbody (some state))
      exits interrupted otherwise.headers
    ((first.followedBy handled.2 none).followedBy otherwise none).followedBy last last.exit
  | .withBlock _ items _ body, state, headers =>
    (Stmt.walkAll context body (some state) headers).withNotes
      (context.keep (context.notes (items.flatMap (·.typeVisits)) state))
  | .matchOn _ subject cases, state, headers =>
    let found := MatchCase.walkAll context cases state headers
    { found.2 with exit := TypeState.joinAll (state :: found.1) }.withNotes
      (context.keep (context.notes (subject.typeVisits .read) state))

/-- What control does not reach is walked with nothing assigned. -/
def Stmt.walkAll (context : BodyContext) :
    List Stmt → Option TypeState → LoopHeaders → Outcome
  | [], state, headers => { headers, exit := state }
  | stmt :: rest, some state, headers =>
    let first := stmt.walk context state headers
    let others := Stmt.walkAll context rest first.exit first.headers
    first.followedBy others others.exit
  | stmt :: rest, none, headers =>
    let first := stmt.walk context ∅ headers
    let others := Stmt.walkAll context rest none first.headers
    first.followedBy others others.exit

def Handler.walkAll (context : BodyContext) :
    List Handler → TypeState → LoopHeaders → List TypeState × Outcome
  | [], _, headers => ([], { headers, exit := none })
  | ⟨head, body⟩ :: rest, state, headers =>
    context.walkClause (Expr.typeVisitsOfOption head.kind)
      (fun state => Stmt.walkAll context body (some state)) (Handler.walkAll context rest)
      state headers

def MatchCase.walkAll (context : BodyContext) :
    List MatchCase → TypeState → LoopHeaders → List TypeState × Outcome
  | [], _, headers => ([], { headers, exit := none })
  | ⟨head, body⟩ :: rest, state, headers =>
    context.walkClause head.typeVisits (fun state => Stmt.walkAll context body (some state))
      (MatchCase.walkAll context rest) state headers

end

end PyStatic
