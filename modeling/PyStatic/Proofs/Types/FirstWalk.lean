import PyStatic.Proofs.Types.PathRun

/-!
Contract: when the loops of a body settle in its first walk.

Owns the checks that are made of every loop on the way, and what a header covers that passes them.
The final walk is not spoken of.
-/

namespace PyStatic

open List

open BodyContext

namespace Outcome

def Receives (outcome : Outcome) : Ending → TypeState → Prop
  | .falls, state => ∃ wide, outcome.exit = some wide ∧ wide.Covers state
  | .breaks, state => ∃ wide ∈ outcome.breaks, wide.Covers state
  | .continues, state => ∃ wide ∈ outcome.continues, wide.Covers state
  | .leaves, _ => True

variable {first second : Outcome} {ending : Ending} {state : TypeState}
  {others : List TypeState × Outcome} {exit : Option TypeState}

theorem receives_falls_of_mem {exits : List TypeState} {wide : TypeState}
    (isJoin : first.exit = TypeState.joinAll exits) (isIn : wide ∈ exits)
    (covers : wide.Covers state) : first.Receives .falls state := by
  obtain ⟨joined, found, covers⟩ := covers.joinAll isIn
  exact ⟨joined, isJoin.trans found, covers⟩

theorem Receives.exit_mem (received : first.Receives .falls state) :
    ∃ wide ∈ first.exit.toList, wide.Covers state := by
  obtain ⟨wide, found, covers⟩ := received
  exact ⟨wide, by simp [found], covers⟩

theorem Receives.followedBy_left (received : first.Receives ending state)
    (jumps : ending ≠ .falls) : (first.followedBy second exit).Receives ending state := by
  cases ending with
  | falls => exact absurd rfl jumps
  | breaks
  | continues =>
    obtain ⟨wide, isIn, covers⟩ := received
    exact ⟨wide, mem_append_left _ isIn, covers⟩
  | leaves => trivial

theorem Receives.followedBy_right (received : second.Receives ending state)
    (jumps : ending ≠ .falls) : (first.followedBy second exit).Receives ending state := by
  cases ending with
  | falls => exact absurd rfl jumps
  | breaks
  | continues =>
    obtain ⟨wide, isIn, covers⟩ := received
    exact ⟨wide, mem_append_right _ isIn, covers⟩
  | leaves => trivial

theorem Receives.sequence (received : second.Receives ending state) :
    (first.followedBy second second.exit).Receives ending state := by
  by_cases fallsOut : ending = .falls
  · subst fallsOut
    exact received
  · exact received.followedBy_right fallsOut

theorem Receives.either
    (received : first.Receives ending state ∨ second.Receives ending state) :
    (first.followedBy second
      (TypeState.joinAll (first.exit.toList ++ second.exit.toList))).Receives ending state := by
  by_cases fallsOut : ending = .falls
  · subst fallsOut
    rcases received with received | received
    · obtain ⟨wide, isIn, covers⟩ := received.exit_mem
      exact receives_falls_of_mem rfl (mem_append_left _ isIn) covers
    · obtain ⟨wide, isIn, covers⟩ := received.exit_mem
      exact receives_falls_of_mem rfl (mem_append_right _ isIn) covers
  · rcases received with received | received
    · exact received.followedBy_left fallsOut
    · exact received.followedBy_right fallsOut

def OneReceives (found : List TypeState × Outcome) : Ending → TypeState → Prop
  | .falls, state => ∃ wide ∈ found.1, wide.Covers state
  | ending, state => found.2.Receives ending state

theorem Receives.one_left (received : first.Receives ending state) :
    OneReceives (first.exit.toList ++ others.1, first.followedBy others.2 none) ending state := by
  cases ending with
  | falls =>
    obtain ⟨wide, isIn, covers⟩ := received.exit_mem
    exact ⟨wide, mem_append_left _ isIn, covers⟩
  | breaks => exact received.followedBy_left (by simp)
  | continues => exact received.followedBy_left (by simp)
  | leaves => trivial

theorem OneReceives.one_right (received : OneReceives others ending state) :
    OneReceives (first.exit.toList ++ others.1, first.followedBy others.2 none) ending state := by
  cases ending with
  | falls =>
    obtain ⟨wide, isIn, covers⟩ := received
    exact ⟨wide, mem_append_right _ isIn, covers⟩
  | breaks =>
    have received : others.2.Receives .breaks state := received
    exact received.followedBy_right (by simp)
  | continues =>
    have received : others.2.Receives .continues state := received
    exact received.followedBy_right (by simp)
  | leaves => trivial

theorem OneReceives.joined {found : List TypeState × Outcome} {entry : TypeState}
    (received : OneReceives found ending state) :
    Receives { found.2 with exit := TypeState.joinAll (entry :: found.1) } ending state := by
  cases ending with
  | falls =>
    obtain ⟨wide, isIn, covers⟩ := received
    exact receives_falls_of_mem rfl (mem_cons_of_mem entry isIn) covers
  | breaks => exact received
  | continues => exact received
  | leaves => trivial

end Outcome

namespace BodyContext

def afterRound (entry header : TypeState) (outcome : Outcome) : TypeState :=
  (outcome.exit.toList ++ outcome.continues).foldl TypeState.join (entry.join header)

section Loop

variable (context : BodyContext) (node : NodeId) (body orelse : WalkPart) (entry : TypeState)
  (headers : LoopHeaders)

def loopRound : Outcome :=
  let found := context.loopHeader node body entry headers
  body found.2 found.1

def loopElse : Outcome :=
  orelse (context.loopHeader node body entry headers).2
    (context.loopRound node body entry headers).headers

theorem walkLoop_eq (notes : TypeState → List TypeNote) :
    context.walkLoop node notes body orelse entry headers =
      { headers := (context.loopElse node body orelse entry headers).headers
        exit := TypeState.joinAll ((context.loopElse node body orelse entry headers).exit.toList ++
          (context.loopRound node body entry headers).breaks)
        breaks := (context.loopElse node body orelse entry headers).breaks
        continues := (context.loopElse node body orelse entry headers).continues
        notes := context.keep (notes (context.loopHeader node body entry headers).2) ++
          (context.loopRound node body entry headers).notes ++
          (context.loopElse node body orelse entry headers).notes
        bodies := (context.loopRound node body entry headers).bodies ++
          (context.loopElse node body orelse entry headers).bodies } :=
  rfl

variable {context node body orelse entry headers} {notes : TypeState → List TypeNote}
  {state : TypeState}

theorem walkLoop_receives_else {ending : Ending}
    (received : (context.loopElse node body orelse entry headers).Receives ending state) :
    (context.walkLoop node notes body orelse entry headers).Receives ending state := by
  cases ending with
  | falls =>
    obtain ⟨wide, isIn, covers⟩ := received.exit_mem
    exact Outcome.receives_falls_of_mem rfl (mem_append_left _ isIn) covers
  | breaks => exact received
  | continues => exact received
  | leaves => trivial

theorem walkLoop_receives_break
    (received : (context.loopRound node body entry headers).Receives .breaks state) :
    (context.walkLoop node notes body orelse entry headers).Receives .falls state := by
  obtain ⟨wide, isIn, covers⟩ := received
  exact Outcome.receives_falls_of_mem rfl (mem_append_right _ isIn) covers

end Loop

section Settle

variable {round : WalkPart} {entry header : TypeState} {rounds : Nat} {headers : LoopHeaders}

theorem settle_of_same
    (isSame : (afterRound entry header (round header headers)).same header = true) :
    settle round entry (rounds + 1) header headers = ((round header headers).headers, header) :=
  if_pos isSame

theorem settle_of_change
    (changes : ¬(afterRound entry header (round header headers)).same header = true) :
    settle round entry (rounds + 1) header headers =
      settle round entry rounds (afterRound entry header (round header headers))
        (round header headers).headers :=
  if_neg changes

variable {state : TypeState} {outcome : Outcome}

theorem afterRound_covers_entry (covers : entry.Covers state) :
    (afterRound entry header outcome).Covers state :=
  (covers.join_left header).foldl_join _

theorem afterRound_covers_end {ending : Ending} (received : outcome.Receives ending state)
    (goesOn : ending = .falls ∨ ending = .continues) :
    (afterRound entry header outcome).Covers state := by
  rcases goesOn with rfl | rfl
  · obtain ⟨wide, isIn, covers⟩ := received.exit_mem
    exact covers.foldl_join_of_mem (mem_append_left _ isIn)
  · obtain ⟨wide, isIn, covers⟩ := received
    exact covers.foldl_join_of_mem (mem_append_right _ isIn)

end Settle

end BodyContext

/-- A question asked of every loop that a walk comes by: whether a loop may be given up, and what
its header has to be, given what one more round makes of it. -/
structure LoopCheck where
  mayGiveUp : Bool
  ofHeader : TypeState → TypeState → Bool

namespace LoopCheck

open BodyContext

def settled : LoopCheck :=
  ⟨false, fun _ _ => true⟩

def within (check : LoopCheck) (round : WalkPart) (ofRound : TypeState → LoopHeaders → Bool)
    (entry : TypeState) : Nat → TypeState → LoopHeaders → Bool
  | 0, _, _ => check.mayGiveUp
  | rounds + 1, header, headers =>
    let outcome := round header headers
    let next := afterRound entry header outcome
    ofRound header headers && (next.same header ||
      check.within round ofRound entry rounds next outcome.headers)

def loop (check : LoopCheck) (context : BodyContext) (node : NodeId) (body : WalkPart)
    (ofBody ofElse : TypeState → LoopHeaders → Bool) (entry : TypeState) (headers : LoopHeaders) :
    Bool :=
  let found := context.loopHeader node body entry headers
  let again := context.loopRound node body entry headers
  check.within body ofBody entry (max 1 context.maxLoopRounds) entry headers &&
    check.ofHeader found.2 (afterRound entry found.2 again) &&
    ofBody found.2 found.1 && ofElse found.2 again.headers

section Within

variable {check : LoopCheck} {round : WalkPart} {ofRound : TypeState → LoopHeaders → Bool}
  {entry header : TypeState} {headers : LoopHeaders} {rounds : Nat}

theorem within_succ
    (passes : check.within round ofRound entry (rounds + 1) header headers = true) :
    ofRound header headers = true ∧
      (¬(afterRound entry header (round header headers)).same header = true →
        check.within round ofRound entry rounds (afterRound entry header (round header headers))
          (round header headers).headers = true) := by
  unfold within at passes
  rw [Bool.and_eq_true, Bool.or_eq_true] at passes
  exact ⟨passes.1, passes.2.resolve_left⟩

/-- What each round keeps of a header, and either way of ending makes a result of, is a result of
settling. -/
theorem settle_of_within (Holds Ends : TypeState → Prop)
    (step : ∀ header headers, Holds header → ofRound header headers = true →
      Holds (afterRound entry header (round header headers)))
    (same : ∀ header headers, Holds header → ofRound header headers = true →
      (afterRound entry header (round header headers)).same header = true → Ends header)
    (givenUp : check.mayGiveUp = true → ∀ header, Holds header → Ends header.widen)
    (passes : check.within round ofRound entry rounds header headers = true)
    (holds : Holds header) : Ends (settle round entry rounds header headers).2 := by
  induction rounds generalizing header headers with
  | zero => exact givenUp passes header holds
  | succ _ ih =>
    obtain ⟨roundPasses, later⟩ := within_succ passes
    by_cases isSame : (afterRound entry header (round header headers)).same header = true
    · rw [settle_of_same isSame]
      exact same header headers holds roundPasses isSame
    · rw [settle_of_change isSame]
      exact ih (later isSame) (step header headers holds roundPasses)

theorem settle_cases (passes : check.within round ofRound entry rounds header headers = true)
    {ended : TypeState} (found : (settle round entry rounds header headers).2 = ended) :
    (∃ last, ofRound ended last = true ∧
      (afterRound entry ended (round ended last)).same ended = true) ∨
    check.mayGiveUp = true ∧ ∃ given : TypeState, ended = given.widen := by
  subst found
  refine settle_of_within (fun _ => True) (fun ended => (∃ last, ofRound ended last = true ∧
    (afterRound entry ended (round ended last)).same ended = true) ∨
      check.mayGiveUp = true ∧ ∃ given : TypeState, ended = given.widen)
    (fun _ _ _ _ => trivial) ?_ ?_ passes trivial
  · exact fun _ headers _ roundPasses isSame => .inl ⟨headers, roundPasses, isSame⟩
  · exact fun mayGiveUp header _ => .inr ⟨mayGiveUp, header, rfl⟩

end Within

end LoopCheck

mutual

def Stmt.passes (check : LoopCheck) (context : BodyContext) :
    Stmt → TypeState → LoopHeaders → Bool
  | .branch _ _ body orelse, state, headers =>
    Stmt.passesAll check context body (some state) headers &&
      Stmt.passesAll check context orelse (some state)
        (Stmt.walkAll context body (some state) headers).headers
  | .forLoop mark _ _ _ body orelse, state, headers
  | .whileLoop mark _ body orelse, state, headers =>
    check.loop context mark.id
      (fun state headers => Stmt.walkAll context body (some state) headers)
      (fun state headers => Stmt.passesAll check context body (some state) headers)
      (fun state headers => Stmt.passesAll check context orelse (some state) headers) state headers
  | .tryBlock _ body handlers orelse finalbody, state, headers =>
    let first := Stmt.walkAll context body (some state) headers
    let interrupted := first.exit.toList.foldl TypeState.join state
    let handled := Handler.walkAll context handlers interrupted first.headers
    let otherwise := Stmt.walkAll context orelse first.exit handled.2.headers
    let exits := handled.1 ++ otherwise.exit.toList
    Stmt.passesAll check context body (some state) headers &&
      Handler.passesAll check context handlers interrupted first.headers &&
      Stmt.passesAll check context orelse first.exit handled.2.headers &&
      Stmt.passesAll check context finalbody
        (some ((TypeState.joinAll exits).getD interrupted)) otherwise.headers
  | .withBlock _ _ _ body, state, headers => Stmt.passesAll check context body (some state) headers
  | .matchOn _ _ cases, state, headers => MatchCase.passesAll check context cases state headers
  | .simple _ _, _, _ | .functionDef _ _, _, _ | .classDef _ _, _, _ => true

def Stmt.passesAll (check : LoopCheck) (context : BodyContext) :
    List Stmt → Option TypeState → LoopHeaders → Bool
  | [], _, _ => true
  | stmt :: rest, some state, headers =>
    let first := stmt.walk context state headers
    stmt.passes check context state headers &&
      Stmt.passesAll check context rest first.exit first.headers
  | stmt :: rest, none, headers =>
    stmt.passes check context ∅ headers &&
      Stmt.passesAll check context rest none (stmt.walk context ∅ headers).headers

def Handler.passesAll (check : LoopCheck) (context : BodyContext) :
    List Handler → TypeState → LoopHeaders → Bool
  | [], _, _ => true
  | ⟨_, body⟩ :: rest, state, headers =>
    Stmt.passesAll check context body (some state) headers &&
      Handler.passesAll check context rest state
        (Stmt.walkAll context body (some state) headers).headers

def MatchCase.passesAll (check : LoopCheck) (context : BodyContext) :
    List MatchCase → TypeState → LoopHeaders → Bool
  | [], _, _ => true
  | ⟨_, body⟩ :: rest, state, headers =>
    Stmt.passesAll check context body (some state) headers &&
      MatchCase.passesAll check context rest state
        (Stmt.walkAll context body (some state) headers).headers

end

/-- Whether each loop that the first walk comes by settles within its rounds. -/
abbrev Stmt.settlesAll (context : BodyContext) (body : List Stmt) (state : Option TypeState)
    (headers : LoopHeaders) : Bool :=
  Stmt.passesAll .settled context body state headers

mutual

/-- Bodies of nested definitions are not entered. -/
def Stmt.isTryFree : Stmt → Bool
  | .branch _ _ body orelse | .forLoop _ _ _ _ body orelse | .whileLoop _ _ body orelse =>
    Stmt.allTryFree body && Stmt.allTryFree orelse
  | .withBlock _ _ _ body => Stmt.allTryFree body
  | .matchOn _ _ cases => MatchCase.allTryFree cases
  | .tryBlock _ _ _ _ _ => false
  | .simple _ _ | .functionDef _ _ | .classDef _ _ => true

def Stmt.allTryFree : List Stmt → Bool
  | [] => true
  | stmt :: rest => stmt.isTryFree && Stmt.allTryFree rest

def MatchCase.allTryFree : List MatchCase → Bool
  | [] => true
  | ⟨_, body⟩ :: rest => Stmt.allTryFree body && MatchCase.allTryFree rest

end

def Step.Keeps (context : BodyContext) (step : Step) : Prop :=
  ∀ state after, (step.run context state).exit = some after → after = state

section Keeps

variable {context : BodyContext} {step : Step} {rest begins : List Step} {state after : TypeState}

theorem Step.keeps_of_visits {visits : List TypeVisit}
    (isVisit : ∀ state, step.run context state = context.visitOnPath state visits) :
    step.Keeps context := by
  intro state after ended
  rw [isVisit] at ended
  exact (exit_visitOnPath ended).1

theorem Step.keeps_forLoop (mark : Mark) (target iter : Expr) (isAsync : Bool)
    (body orelse : List Stmt) :
    Step.Keeps context (.element (.stmt (.forLoop mark target iter isAsync body orelse))) :=
  Step.keeps_of_visits fun _ => (rfl : _ = context.visitOnPath _ [])

theorem Step.keeps_target (target : Expr) : ∀ step ∈ [Step.target target], step.Keeps context := by
  rw [forall_mem_singleton]
  exact Step.keeps_of_visits fun _ => rfl

theorem Step.Keeps.exit_rest (keeps : step.Keeps context)
    (ended : (Step.runAll context (step :: rest) state).exit = some after) :
    (Step.runAll context rest state).exit = some after := by
  obtain ⟨middle, stepEnds, ended⟩ := PathRun.exit_andThen.mp ended
  rwa [keeps state middle stepEnds] at ended

theorem Step.exit_rest_of_keeps (keeps : ∀ step ∈ begins, step.Keeps context)
    (ended : (Step.runAll context (begins ++ rest) state).exit = some after) :
    (Step.runAll context rest state).exit = some after := by
  induction begins with
  | nil => exact ended
  | cons _ _ ih =>
    rw [forall_mem_cons] at keeps
    exact ih keeps.2 (keeps.1.exit_rest ended)

end Keeps

theorem walkSimple_receives {context : BodyContext} {form : SimpleStmt} {wide after : TypeState}
    {headers : LoopHeaders} (covers : (context.assigned wide form).Covers after) :
    (context.walkSimple form wide headers).Receives form.ending after := by
  cases form with
  | annotatedAssign _ _ value => cases value <;> exact ⟨_, rfl, covers⟩
  | ret => trivial
  | raise => trivial
  | leaveLoop => exact ⟨wide, mem_singleton_self wide, covers⟩
  | nextRound => exact ⟨wide, mem_singleton_self wide, covers⟩
  | _ => exact ⟨_, rfl, covers⟩

end PyStatic
