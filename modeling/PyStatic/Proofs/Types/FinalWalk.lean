import PyStatic.Proofs.Types.FirstWalk

/-!
Contract: the final walk of a body notes covering types for every path through it.

A settled header agrees with what its last round gives back to it, so what it covers at one visit,
it covers at the next. The first walk passes an inner loop again and again, and only its last visit,
from the settled header of the loop around, leaves a header.
-/

namespace PyStatic

open List

open BodyContext

def BodyContext.walking (context : BodyContext) (isFinal : Bool) : BodyContext :=
  { context with isFinal }

theorem BodyContext.ParametersWellFormed.walking {context : BodyContext}
    (parameters : context.ParametersWellFormed) (isFinal : Bool) :
    (context.walking isFinal).ParametersWellFormed :=
  parameters

mutual

def Stmt.loopIds : Stmt → List NodeId
  | .branch _ _ body orelse => Stmt.loopIdsOfAll body ++ Stmt.loopIdsOfAll orelse
  | .forLoop mark _ _ _ body orelse | .whileLoop mark _ body orelse =>
    mark.id :: (Stmt.loopIdsOfAll body ++ Stmt.loopIdsOfAll orelse)
  | .tryBlock _ body handlers orelse finalbody =>
    Stmt.loopIdsOfAll body ++ Handler.loopIds handlers ++ Stmt.loopIdsOfAll orelse ++
      Stmt.loopIdsOfAll finalbody
  | .withBlock _ _ _ body => Stmt.loopIdsOfAll body
  | .matchOn _ _ cases => MatchCase.loopIds cases
  | .simple _ _ | .functionDef _ _ | .classDef _ _ => []

def Stmt.loopIdsOfAll : List Stmt → List NodeId
  | [] => []
  | stmt :: rest => stmt.loopIds ++ Stmt.loopIdsOfAll rest

def Handler.loopIds : List Handler → List NodeId
  | [] => []
  | ⟨_, body⟩ :: rest => Stmt.loopIdsOfAll body ++ Handler.loopIds rest

def MatchCase.loopIds : List MatchCase → List NodeId
  | [] => []
  | ⟨_, body⟩ :: rest => Stmt.loopIdsOfAll body ++ MatchCase.loopIds rest

end

section Frame

variable {context : BodyContext} {id : NodeId}

def KeepsHeader (part : WalkPart) (id : NodeId) : Prop :=
  ∀ state headers, (part state headers).headers[id]? = headers[id]?

theorem settle_headers {round : WalkPart} (keeps : KeepsHeader round id) (entry : TypeState)
    (rounds : Nat) (header : TypeState) (headers : LoopHeaders) :
    (settle round entry rounds header headers).1[id]? = headers[id]? := by
  induction rounds generalizing header headers with
  | zero => rfl
  | succ _ ih =>
    by_cases isSame : (afterRound entry header (round header headers)).same header = true
    · rw [settle_of_same isSame]
      exact keeps header headers
    · rw [settle_of_change isSame, ih]
      exact keeps header headers

theorem loopHeader_headers {node : NodeId} {body : WalkPart} (keeps : KeepsHeader body id)
    (isOther : context.isFinal = false → id ≠ node) (entry : TypeState) (headers : LoopHeaders) :
    (context.loopHeader node body entry headers).1[id]? = headers[id]? := by
  unfold loopHeader
  by_cases isFinal : context.isFinal = true
  · rw [if_pos isFinal]
    cases headers[node]? <;> rfl
  · rw [if_neg isFinal]
    have differs : node ≠ id := (isOther (eq_false_of_ne_true isFinal)).symm
    rw [Std.ExtTreeMap.getElem?_insert, if_neg (by rwa [Std.compare_eq_iff_eq])]
    exact settle_headers keeps entry _ entry headers

theorem loopElse_headers {node : NodeId} {body orelse : WalkPart}
    (keepsBody : KeepsHeader body id) (keepsElse : KeepsHeader orelse id)
    (isOther : context.isFinal = false → id ≠ node) :
    KeepsHeader (context.loopElse node body orelse) id := by
  intro entry headers
  calc (context.loopElse node body orelse entry headers).headers[id]?
      = (context.loopRound node body entry headers).headers[id]? := keepsElse _ _
    _ = (context.loopHeader node body entry headers).1[id]? := keepsBody _ _
    _ = headers[id]? := loopHeader_headers keepsBody isOther entry headers

theorem walkFinally_headers {finalbody : Option WalkPart}
    (keeps : ∀ part ∈ finalbody, KeepsHeader part id) (exits : List TypeState)
    (fallback : TypeState) (headers : LoopHeaders) :
    (walkFinally finalbody exits fallback headers).headers[id]? = headers[id]? := by
  cases finalbody with
  | none => rfl
  | some part =>
    rw [walkFinally]
    split <;> exact keeps part rfl _ _

mutual

theorem Stmt.walk_headers : ∀ stmt : Stmt,
    (context.isFinal = false → id ∉ stmt.loopIds) → KeepsHeader (stmt.walk context) id
  | .simple _ _, _ | .functionDef _ _, _ | .classDef _ _, _ => fun _ _ => rfl
  | .branch _ _ body orelse, isOther => by
    intro state headers
    simp only [Stmt.loopIds, mem_append, not_or] at isOther
    exact (Stmt.walkAll_headers orelse (fun first => (isOther first).2) _ _).trans
      (Stmt.walkAll_headers body (fun first => (isOther first).1) _ _)
  | .forLoop _ _ _ _ body orelse, isOther | .whileLoop _ _ body orelse, isOther => by
    intro state headers
    simp only [Stmt.loopIds, mem_cons, mem_append, not_or] at isOther
    exact loopElse_headers
      (fun state => Stmt.walkAll_headers body (fun first => (isOther first).2.1) (some state))
      (fun state => Stmt.walkAll_headers orelse (fun first => (isOther first).2.2) (some state))
      (fun first => (isOther first).1) state headers
  | .tryBlock _ body handlers orelse finalbody, isOther => by
    intro state headers
    simp only [Stmt.loopIds, mem_append, not_or] at isOther
    refine (walkFinally_headers ?_ _ _ _).trans ?_
    · intro part isPart
      split at isPart
      · cases isPart
      · cases isPart
        exact fun state => Stmt.walkAll_headers finalbody (fun first => (isOther first).2)
          (some state)
    · exact (Stmt.walkAll_headers orelse (fun first => (isOther first).1.2) _ _).trans
        ((Handler.walkAll_headers handlers (fun first => (isOther first).1.1.2) _ _).trans
          (Stmt.walkAll_headers body (fun first => (isOther first).1.1.1) _ _))
  | .withBlock _ _ _ body, isOther => fun state => Stmt.walkAll_headers body isOther (some state)
  | .matchOn _ _ cases, isOther => fun state => MatchCase.walkAll_headers cases isOther state

theorem Stmt.walkAll_headers : ∀ suite : List Stmt,
    (context.isFinal = false → id ∉ Stmt.loopIdsOfAll suite) →
      ∀ (state : Option TypeState) (headers : LoopHeaders),
        (Stmt.walkAll context suite state headers).headers[id]? = headers[id]?
  | [], _, _, _ => by rw [Stmt.walkAll]
  | stmt :: rest, isOther, some _, _
  | stmt :: rest, isOther, none, _ => by
    simp only [Stmt.loopIdsOfAll, mem_append, not_or] at isOther
    exact (Stmt.walkAll_headers rest (fun first => (isOther first).2) _ _).trans
      (Stmt.walk_headers stmt (fun first => (isOther first).1) _ _)

theorem Handler.walkAll_headers : ∀ handlers : List Handler,
    (context.isFinal = false → id ∉ Handler.loopIds handlers) →
      ∀ (state : TypeState) (headers : LoopHeaders),
        (Handler.walkAll context handlers state headers).2.headers[id]? = headers[id]?
  | [], _, _, _ => by rw [Handler.walkAll]
  | ⟨_, body⟩ :: rest, isOther, _, _ => by
    simp only [Handler.loopIds, mem_append, not_or] at isOther
    exact (Handler.walkAll_headers rest (fun first => (isOther first).2) _ _).trans
      (Stmt.walkAll_headers body (fun first => (isOther first).1) _ _)

theorem MatchCase.walkAll_headers : ∀ cases : List MatchCase,
    (context.isFinal = false → id ∉ MatchCase.loopIds cases) →
      ∀ (state : TypeState) (headers : LoopHeaders),
        (MatchCase.walkAll context cases state headers).2.headers[id]? = headers[id]?
  | [], _, _, _ => by rw [MatchCase.walkAll]
  | ⟨_, body⟩ :: rest, isOther, _, _ => by
    simp only [MatchCase.loopIds, mem_append, not_or] at isOther
    exact (MatchCase.walkAll_headers rest (fun first => (isOther first).2) _ _).trans
      (Stmt.walkAll_headers body (fun first => (isOther first).1) _ _)

end

end Frame

def HeadersAgree (ids : List NodeId) (left right : LoopHeaders) : Prop :=
  ∀ id ∈ ids, left[id]? = right[id]?

theorem HeadersAgree.split {firstIds secondIds : List NodeId}
    {firstLeft secondLeft finalHeaders finalFirst : LoopHeaders}
    (agree : HeadersAgree (firstIds ++ secondIds) secondLeft finalHeaders)
    (distinct : (firstIds ++ secondIds).Nodup)
    (keeps : ∀ id ∉ secondIds, secondLeft[id]? = firstLeft[id]?)
    (keepsFinal : ∀ id : NodeId, finalFirst[id]? = finalHeaders[id]?) :
    HeadersAgree firstIds firstLeft finalHeaders ∧
      HeadersAgree secondIds secondLeft finalFirst := by
  obtain ⟨-, -, disjoint⟩ := nodup_append.mp distinct
  constructor
  · intro id isIn
    rw [← keeps id fun isSecond => disjoint id isIn id isSecond rfl]
    exact agree id (mem_append_left _ isIn)
  · intro id isIn
    rw [keepsFinal]
    exact agree id (mem_append_right _ isIn)

/-- A walk has what a path notes, and lets it go on in the same way. -/
structure PathRun.CoveredBy (run : PathRun) (isFinal : Bool) (ending : Ending)
    (outcome : Outcome) : Prop where
  noted : isFinal = true → NotedIn outcome.notes run.notes
  received : ∀ after, run.exit = some after → outcome.Receives ending after

structure PathRun.CoveredByOne (run : PathRun) (isFinal : Bool) (ending : Ending)
    (found : List TypeState × Outcome) : Prop where
  noted : isFinal = true → NotedIn found.2.notes run.notes
  received : ∀ after, run.exit = some after → Outcome.OneReceives found ending after

section Steps

variable {context : BodyContext} {step : Step} {rest begins : List Step} {state : TypeState}
  {notes : List TypeNote}

theorem BodyContext.notedIn_keep {isFinal : Bool} {found : List TypeNote}
    (noted : NotedIn notes found) (isLast : isFinal = true) :
    NotedIn ((context.walking isFinal).keep notes) found := by
  subst isLast
  exact noted

theorem Coverable.kept {visits : List TypeVisit} (coverable : Coverable visits)
    {wide narrow : TypeState} (parameters : context.ParametersWellFormed)
    (covers : wide.Covers narrow) {isFinal : Bool} (isLast : isFinal = true) :
    NotedIn ((context.walking isFinal).keep ((context.walking isFinal).notes visits wide))
      (context.onPath.visitOnPath narrow visits).notes :=
  BodyContext.notedIn_keep (coverable (parameters.walking isFinal) covers).notedIn isLast

theorem Step.Keeps.notedIn_cons (keeps : step.Keeps context)
    (first : NotedIn notes (step.run context state).notes)
    (later : NotedIn notes (Step.runAll context rest state).notes) :
    NotedIn notes (Step.runAll context (step :: rest) state).notes := by
  refine first.andThen fun middle ended => ?_
  rw [keeps state middle ended]
  exact later

theorem Step.exit_of_keeps (keeps : ∀ step ∈ begins, step.Keeps context) {after : TypeState}
    (ended : (Step.runAll context begins state).exit = some after) : after = state := by
  rw [← append_nil begins] at ended
  exact (Option.some.inj (Step.exit_rest_of_keeps keeps ended)).symm

end Steps

namespace PathRun.CoveredBy

variable {context : BodyContext} {run : PathRun} {isFinal : Bool} {ending : Ending}
  {first second : Outcome} {wide narrow : TypeState}

theorem withHeader {step : Step} {rest : List Step} {visits : List TypeVisit}
    (covered : (Step.runAll context.onPath rest narrow).CoveredBy isFinal ending first)
    (parameters : context.ParametersWellFormed) (covers : wide.Covers narrow)
    (coverable : Coverable visits)
    (isVisit : ∀ state, step.run context.onPath state = context.onPath.visitOnPath state visits) :
    (Step.runAll context.onPath (step :: rest) narrow).CoveredBy isFinal ending
      (first.withNotes ((context.walking isFinal).keep
        ((context.walking isFinal).notes visits wide))) := by
  have keeps := Step.keeps_of_visits isVisit
  refine ⟨fun isLast => keeps.notedIn_cons
    ((isVisit narrow ▸ coverable.kept parameters covers isLast).mono (subset_append_left ..))
    ((covered.noted isLast).mono (subset_append_right ..)), fun after ended => ?_⟩
  exact covered.received after (keeps.exit_rest ended)

theorem followedBy_left {exit : Option TypeState} (covered : run.CoveredBy isFinal ending first)
    (jumps : ending ≠ .falls) : run.CoveredBy isFinal ending (first.followedBy second exit) :=
  ⟨fun isLast => (covered.noted isLast).mono (subset_append_left ..),
    fun after ended => (covered.received after ended).followedBy_left jumps⟩

theorem visits {visits : List TypeVisit}
    (noted : isFinal = true →
      NotedIn first.notes (context.onPath.visitOnPath narrow visits).notes)
    (exits : first.exit = some wide) (covers : wide.Covers narrow) :
    (context.onPath.visitOnPath narrow visits).CoveredBy isFinal .falls first := by
  refine ⟨noted, fun after ended => ?_⟩
  rw [(exit_visitOnPath ended).1]
  exact ⟨wide, exits, covers⟩

theorem sequence {next : TypeState → PathRun} (covered : run.CoveredBy isFinal .falls first)
    (nextCovered : ∀ middle, run.exit = some middle →
      (next middle).CoveredBy isFinal ending second) :
    (run.andThen next).CoveredBy isFinal ending (first.followedBy second second.exit) := by
  refine ⟨fun isLast => NotedIn.andThen ((covered.noted isLast).mono
    (subset_append_left ..)) ?_, ?_⟩
  · intro middle ended
    exact ((nextCovered middle ended).noted isLast).mono (subset_append_right ..)
  · intro after ended
    obtain ⟨middle, firstEnds, ended⟩ := PathRun.exit_andThen.mp ended
    exact ((nextCovered middle firstEnds).received after ended).sequence

theorem either
    (covered : run.CoveredBy isFinal ending first ∨ run.CoveredBy isFinal ending second) :
    run.CoveredBy isFinal ending (first.followedBy second
      (TypeState.joinAll (first.exit.toList ++ second.exit.toList))) := by
  rcases covered with covered | covered
  · exact ⟨fun isLast => (covered.noted isLast).mono (subset_append_left ..),
      fun after ended => .either (Or.inl (covered.received after ended))⟩
  · exact ⟨fun isLast => (covered.noted isLast).mono (subset_append_right ..),
      fun after ended => .either (Or.inr (covered.received after ended))⟩

end PathRun.CoveredBy

/-- Executions and loops of a part, both walks of it, and whether its loops settle. -/
structure BodyPart where
  runs : Executions
  loops : List NodeId
  walk (isFinal : Bool) : WalkPart
  settles : TypeState → LoopHeaders → Bool

namespace BodyPart

section Building

variable (context : BodyContext)

def ofStmt (stmt : Stmt) : BodyPart where
  runs := stmt.Executes
  loops := stmt.loopIds
  walk isFinal := stmt.walk (context.walking isFinal)
  settles := stmt.passes .settled context.onPath

def ofSuite (suite : List Stmt) : BodyPart where
  runs := Stmt.ExecutesAll suite
  loops := Stmt.loopIdsOfAll suite
  walk isFinal state headers := Stmt.walkAll (context.walking isFinal) suite (some state) headers
  settles state headers := Stmt.settlesAll context.onPath suite (some state) headers

def ofCases (cases : List MatchCase) : BodyPart where
  runs steps ending := steps = [] ∧ ending = .falls ∨ MatchCase.ExecutesOne cases steps ending
  loops := MatchCase.loopIds cases
  walk isFinal state headers :=
    let found := MatchCase.walkAll (context.walking isFinal) cases state headers
    { found.2 with exit := TypeState.joinAll (state :: found.1) }
  settles := MatchCase.passesAll .settled context.onPath cases

def header (header : Step) (visits : List TypeVisit) (part : BodyPart) : BodyPart :=
  { part with
    runs steps ending := ∃ rest, steps = header :: rest ∧ part.runs rest ending
    walk isFinal state headers := (part.walk isFinal state headers).withNotes
      ((context.walking isFinal).keep ((context.walking isFinal).notes visits state)) }

def either (first second : BodyPart) : BodyPart where
  runs steps ending := first.runs steps ending ∨ second.runs steps ending
  loops := first.loops ++ second.loops
  walk isFinal state headers :=
    let left := first.walk isFinal state headers
    let right := second.walk isFinal state left.headers
    left.followedBy right (TypeState.joinAll (left.exit.toList ++ right.exit.toList))
  settles state headers :=
    first.settles state headers && second.settles state (first.walk false state headers).headers

def loop (node : NodeId) (header : Step) (begins : List Step) (visits : List TypeVisit)
    (body orelse : BodyPart) : BodyPart where
  runs := Rounds header begins body.runs orelse.runs
  loops := node :: (body.loops ++ orelse.loops)
  walk isFinal := (context.walking isFinal).walkLoop node
    ((context.walking isFinal).notes visits) (body.walk isFinal) (orelse.walk isFinal)
  settles := LoopCheck.settled.loop context.onPath node (body.walk false) body.settles
    orelse.settles

end Building

def Ready (part : BodyPart) (narrow wide : TypeState) (headers : LoopHeaders) : Bool → Prop
  | false => part.settles wide headers = true
  | true => ∃ firstWide firstHeaders, part.settles firstWide firstHeaders = true ∧
      firstWide.Covers narrow ∧
      HeadersAgree part.loops (part.walk false firstWide firstHeaders).headers headers

def Covered (context : BodyContext) (part : BodyPart) : Prop :=
  ∀ ⦃isFinal : Bool⦄ ⦃narrow wide : TypeState⦄ ⦃headers : LoopHeaders⦄ ⦃steps : List Step⦄
    ⦃ending : Ending⦄, part.Ready narrow wide headers isFinal → wide.Covers narrow →
    part.runs steps ending →
      (Step.runAll context.onPath steps narrow).CoveredBy isFinal ending
        (part.walk isFinal wide headers)

def Keeps (part : BodyPart) : Prop :=
  ∀ isFinal id, (isFinal = false → id ∉ part.loops) → KeepsHeader (part.walk isFinal) id

theorem keeps_ofStmt (context : BodyContext) (stmt : Stmt) : (ofStmt context stmt).Keeps :=
  fun _ _ isOther => Stmt.walk_headers stmt isOther

theorem keeps_ofSuite (context : BodyContext) (suite : List Stmt) : (ofSuite context suite).Keeps :=
  fun _ _ isOther state => Stmt.walkAll_headers suite isOther (some state)

theorem keeps_ofCases (context : BodyContext) (cases : List MatchCase) :
    (ofCases context cases).Keeps :=
  fun _ _ isOther => MatchCase.walkAll_headers cases isOther

section Parts

variable {context : BodyContext} {isFinal : Bool} {narrow wide entry : TypeState}
  {headers : LoopHeaders} {first second body orelse : BodyPart} {visits : List TypeVisit}

theorem Covered.header {part : BodyPart} (covered : part.Covered context)
    (parameters : context.ParametersWellFormed) {header : Step}
    (coverable : Coverable visits)
    (isVisit : ∀ state, header.run context.onPath state =
      context.onPath.visitOnPath state visits) :
    (part.header context header visits).Covered context := by
  rintro isFinal narrow wide headers _ ending ready covers ⟨rest, rfl, run⟩
  exact (covered ready covers run).withHeader parameters covers coverable isVisit

theorem Ready.both (ready : (first.either second).Ready narrow wide headers isFinal)
    (keeps : first.Keeps) (keepsSecond : second.Keeps)
    (distinct : (first.loops ++ second.loops).Nodup) :
    first.Ready narrow wide headers isFinal ∧
      second.Ready narrow wide (first.walk isFinal wide headers).headers isFinal := by
  cases isFinal with
  | false => exact Bool.and_eq_true_iff.mp ready
  | true =>
    obtain ⟨firstWide, firstHeaders, settles, covers, agree⟩ := ready
    obtain ⟨firstSettles, secondSettles⟩ := Bool.and_eq_true_iff.mp settles
    obtain ⟨firstAgree, secondAgree⟩ := agree.split distinct
      (fun id notIn => keepsSecond false id (fun _ => notIn) _ _)
      (fun id => keeps true id (by simp) wide headers)
    exact ⟨⟨firstWide, firstHeaders, firstSettles, covers, firstAgree⟩,
      ⟨firstWide, _, secondSettles, covers, secondAgree⟩⟩

theorem Covered.either (covered : first.Covered context) (secondCovered : second.Covered context)
    (keeps : first.Keeps) (keepsSecond : second.Keeps)
    (distinct : (first.loops ++ second.loops).Nodup) :
    (first.either second).Covered context := by
  intro isFinal narrow wide headers steps ending ready covers run
  obtain ⟨firstReady, secondReady⟩ := ready.both keeps keepsSecond distinct
  exact .either (run.imp (covered firstReady covers) (secondCovered secondReady covers))

variable {node : NodeId} {header : Step} {begins : List Step}

theorem loopHeader_invariant
    (settles : (loop context node header begins visits body orelse).settles entry headers = true)
    (covered : body.Covered context) :
    (∀ state, entry.Covers state →
      (context.onPath.loopHeader node (body.walk false) entry headers).2.Covers state) ∧
    ∀ steps ending narrow after, body.runs steps ending → ending = .falls ∨ ending = .continues →
      (context.onPath.loopHeader node (body.walk false) entry headers).2.Covers narrow →
      (Step.runAll context.onPath steps narrow).exit = some after →
        (context.onPath.loopHeader node (body.walk false) entry headers).2.Covers after := by
  simp only [loop, LoopCheck.loop, Bool.and_eq_true] at settles
  generalize isHeader : (context.onPath.loopHeader node (body.walk false) entry headers).2 = settled
  obtain ⟨last, lastSettles, closed⟩ :=
    (LoopCheck.settle_cases settles.1.1.1 isHeader).resolve_right fun gaveUp => nomatch gaveUp.1
  refine ⟨fun state covers => (afterRound_covers_entry covers).of_same closed, ?_⟩
  intro steps ending narrow after run goesOn covers ended
  have lastReady : body.Ready narrow settled last false := lastSettles
  have received := (covered lastReady covers run).received after ended
  exact (afterRound_covers_end received goesOn).of_same closed

theorem walkLoop_stored (keepsBody : KeepsHeader (body.walk false) node)
    (keepsElse : KeepsHeader (orelse.walk false) node) :
    ((loop context node header begins visits body orelse).walk false entry headers).headers[node]? =
      some (context.onPath.loopHeader node (body.walk false) entry headers).2 := by
  calc (context.onPath.loopElse node (body.walk false) (orelse.walk false) entry
        headers).headers[node]?
      = (context.onPath.loopRound node (body.walk false) entry headers).headers[node]? :=
        keepsElse _ _
    _ = (context.onPath.loopHeader node (body.walk false) entry headers).1[node]? := keepsBody _ _
    _ = some (context.onPath.loopHeader node (body.walk false) entry headers).2 :=
        Std.ExtTreeMap.getElem?_insert_self

theorem loopHeader_final_covers {settled : TypeState} (stored : headers[node]? = some settled)
    {state : TypeState} (covers : settled.Covers state) {round : WalkPart} :
    ((context.walking true).loopHeader node round entry headers).2.Covers state := by
  have isFinal : (context.walking true).isFinal = true := rfl
  unfold loopHeader
  rw [stored]
  exact covers.join_right entry

theorem Ready.loop (distinct : (node :: (body.loops ++ orelse.loops)).Nodup)
    (keeps : body.Keeps) (keepsElse : orelse.Keeps) (covered : body.Covered context)
    (ready : (loop context node header begins visits body orelse).Ready narrow entry
      headers isFinal)
    (covers : entry.Covers narrow) :
    ∃ settled : TypeState, settled.Covers narrow ∧
      (∀ steps ending narrow after, body.runs steps ending →
        ending = .falls ∨ ending = .continues → settled.Covers narrow →
        (Step.runAll context.onPath steps narrow).exit = some after → settled.Covers after) ∧
      ∀ state, settled.Covers state →
        let found := (context.walking isFinal).loopHeader node (body.walk isFinal) entry headers
        found.2.Covers state ∧ (body.either orelse).Ready state found.2 found.1 isFinal := by
  cases isFinal with
  | false =>
    obtain ⟨entered, returns⟩ := loopHeader_invariant ready covered
    refine ⟨_, entered narrow covers, returns, fun state covers => ⟨covers, ?_⟩⟩
    have settles : (BodyPart.loop context node header begins visits body orelse).settles entry
      headers = true := ready
    simp only [BodyPart.loop, LoopCheck.loop, Bool.and_eq_true] at settles
    exact Bool.and_eq_true_iff.mpr ⟨settles.1.2, settles.2⟩
  | true =>
    obtain ⟨firstEntry, firstHeaders, settles, firstCovers, agree⟩ := ready
    obtain ⟨entered, returns⟩ := loopHeader_invariant settles covered
    rw [nodup_cons, mem_append, not_or] at distinct
    obtain ⟨⟨notInBody, notInElse⟩, -⟩ := distinct
    have stored : headers[node]? =
        some (context.onPath.loopHeader node (body.walk false) firstEntry firstHeaders).2 := by
      rw [← agree node (mem_cons_self ..)]
      exact walkLoop_stored (keeps false node fun _ => notInBody)
        (keepsElse false node fun _ => notInElse)
    simp only [BodyPart.loop, LoopCheck.loop, Bool.and_eq_true] at settles
    refine ⟨_, entered narrow firstCovers, returns, fun state covers =>
      ⟨loopHeader_final_covers stored covers, _, _,
        Bool.and_eq_true_iff.mpr ⟨settles.1.2, settles.2⟩, covers, ?_⟩⟩
    intro id isIn
    rw [loopHeader_headers (keeps true id (by simp)) (by simp [walking]) entry headers]
    exact agree id (mem_cons_of_mem node isIn)

theorem rounds_covered {bodyRuns orelseRuns : Executions} {settled : TypeState}
    {loop round after : Outcome} (keepsHeader : header.Keeps context)
    (keepsBegins : ∀ step ∈ begins, step.Keeps context)
    (headerNoted : ∀ narrow, settled.Covers narrow → isFinal = true →
      NotedIn loop.notes (header.run context narrow).notes ∧
        NotedIn loop.notes (Step.runAll context begins narrow).notes)
    (returns : ∀ steps ending narrow state, bodyRuns steps ending →
      ending = .falls ∨ ending = .continues → settled.Covers narrow →
      (Step.runAll context steps narrow).exit = some state → settled.Covers state)
    (bodyCovered : ∀ {steps ending narrow}, bodyRuns steps ending → settled.Covers narrow →
      (Step.runAll context steps narrow).CoveredBy isFinal ending round)
    (elseCovered : ∀ {steps ending narrow}, orelseRuns steps ending → settled.Covers narrow →
      (Step.runAll context steps narrow).CoveredBy isFinal ending after)
    (roundSubset : round.notes ⊆ loop.notes) (elseSubset : after.notes ⊆ loop.notes)
    (leftByElse : ∀ ending state, after.Receives ending state → loop.Receives ending state)
    (leftByBreak : ∀ state, round.Receives .breaks state → loop.Receives .falls state)
    {steps : List Step} {ending : Ending} {narrow : TypeState}
    (run : Rounds header begins bodyRuns orelseRuns steps ending)
    (covers : settled.Covers narrow) :
    (Step.runAll context steps narrow).CoveredBy isFinal ending loop := by
  -- a round that is begun finds what the header and its start find, and then goes on
  have begun (narrow : TypeState) (rest : List Step) (covers : settled.Covers narrow)
      (isLast : isFinal = true)
      (restNoted : NotedIn loop.notes (Step.runAll context rest narrow).notes) :
      NotedIn loop.notes (Step.runAll context (header :: (begins ++ rest)) narrow).notes := by
    refine keepsHeader.notedIn_cons (headerNoted narrow covers isLast).1 ?_
    rw [Step.runAll_append]
    refine (headerNoted narrow covers isLast).2.andThen fun middle ended => ?_
    rw [Step.exit_of_keeps keepsBegins ended]
    exact restNoted
  induction run generalizing narrow with
  | finish run =>
    have covered := elseCovered run covers
    refine ⟨fun isLast => keepsHeader.notedIn_cons (headerNoted narrow covers isLast).1
      ((covered.noted isLast).mono elseSubset), fun state ended => leftByElse _ _ ?_⟩
    exact covered.received state (keepsHeader.exit_rest ended)
  | @again _ _ _ _ run goesOn _ ih =>
    have covered := bodyCovered run covers
    rw [append_assoc]
    refine ⟨fun isLast => begun narrow _ covers isLast ?_, fun state ended => ?_⟩
    · rw [Step.runAll_append]
      refine ((covered.noted isLast).mono roundSubset).andThen fun middle ended => ?_
      exact (ih (returns _ _ _ _ run goesOn covers ended)).noted isLast
    · have ended := Step.exit_rest_of_keeps keepsBegins (keepsHeader.exit_rest ended)
      rw [Step.runAll_append] at ended
      obtain ⟨middle, roundEnds, ended⟩ := PathRun.exit_andThen.mp ended
      have middleCovers := returns _ _ _ _ run goesOn covers roundEnds
      exact (ih middleCovers).received state ended
  | breakOut run =>
    have covered := bodyCovered run covers
    refine ⟨fun isLast => begun narrow _ covers isLast ((covered.noted isLast).mono roundSubset),
      fun state ended => ?_⟩
    have ended := Step.exit_rest_of_keeps keepsBegins (keepsHeader.exit_rest ended)
    exact leftByBreak state (covered.received state ended)
  | leave run =>
    exact ⟨fun isLast => begun narrow _ covers isLast
      (((bodyCovered run covers).noted isLast).mono roundSubset), fun _ _ => trivial⟩

theorem Covered.loop (covered : body.Covered context) (elseCovered : orelse.Covered context)
    (keeps : body.Keeps) (keepsElse : orelse.Keeps)
    (distinct : (node :: (body.loops ++ orelse.loops)).Nodup)
    (keepsHeader : header.Keeps context.onPath)
    (keepsBegins : ∀ step ∈ begins, step.Keeps context.onPath)
    (parameters : context.ParametersWellFormed) (coverable : Coverable visits)
    (found : ∀ state,
      (header.run context.onPath state).notes ⊆ (context.onPath.visitOnPath state visits).notes ∧
        (Step.runAll context.onPath begins state).notes ⊆
          (context.onPath.visitOnPath state visits).notes) :
    (loop context node header begins visits body orelse).Covered context := by
  intro isFinal narrow entry headers steps ending ready covers run
  obtain ⟨settled, settledCovers, returns, starts⟩ :=
    Ready.loop distinct keeps keepsElse covered ready covers
  have suitesReady (state : TypeState) (covers : settled.Covers state) :=
    (starts state covers).2.both keeps keepsElse (nodup_cons.mp distinct).2
  refine rounds_covered keepsHeader keepsBegins ?_ returns
    (fun run covers => covered (suitesReady _ covers).1 (starts _ covers).1 run)
    (fun run covers => elseCovered (suitesReady _ covers).2 (starts _ covers).1 run)
    ?_ (subset_append_right ..) (fun ending state => walkLoop_receives_else)
    (fun state => walkLoop_receives_break) run settledCovers
  · intro narrow covers isLast
    have visited := coverable.kept parameters (starts narrow covers).1 isLast
    exact ⟨(visited.of_subset (found narrow).1).mono
        (subset_append_of_subset_left _ (subset_append_left ..)),
      (visited.of_subset (found narrow).2).mono
        (subset_append_of_subset_left _ (subset_append_left ..))⟩
  · exact subset_append_of_subset_left _ (subset_append_right ..)

end Parts

end BodyPart

section FinalWalk

variable {context : BodyContext}

open BodyPart

theorem BodyPart.Ready.cons {stmt : Stmt} {rest : List Stmt} {isFinal : Bool}
    {narrow wide : TypeState} {headers : LoopHeaders}
    (distinct : (Stmt.loopIdsOfAll (stmt :: rest)).Nodup)
    (ready : (ofSuite context (stmt :: rest)).Ready narrow wide headers isFinal) :
    (ofStmt context stmt).Ready narrow wide headers isFinal ∧
      ((ofStmt context stmt).Covered context → ∀ {steps : List Step} {middle exit : TypeState},
        stmt.Executes steps .falls →
        (Step.runAll context.onPath steps narrow).exit = some middle →
        (stmt.walk (context.walking isFinal) wide headers).exit = some exit →
          (ofSuite context rest).Ready middle exit
            (stmt.walk (context.walking isFinal) wide headers).headers isFinal) := by
  cases isFinal with
  | false =>
    obtain ⟨stmtSettles, restSettles⟩ := Bool.and_eq_true_iff.mp ready
    refine ⟨stmtSettles, fun _ _ _ exit _ _ isExit => ?_⟩
    have isExit : (stmt.walk context.onPath wide headers).exit = some exit := isExit
    rwa [isExit] at restSettles
  | true =>
    obtain ⟨firstWide, firstHeaders, settles, covers, agree⟩ := ready
    obtain ⟨stmtSettles, restSettles⟩ := Bool.and_eq_true_iff.mp settles
    have agree : HeadersAgree (stmt.loopIds ++ Stmt.loopIdsOfAll rest)
        (Stmt.walkAll context.onPath rest
          (stmt.walk context.onPath firstWide firstHeaders).exit
          (stmt.walk context.onPath firstWide firstHeaders).headers).headers headers :=
      agree
    obtain ⟨stmtAgree, restAgree⟩ := agree.split distinct
      (fun id notIn => Stmt.walkAll_headers rest (fun _ => notIn) _ _)
      (fun id => keeps_ofStmt context stmt true id (by simp) wide headers)
    refine ⟨⟨firstWide, firstHeaders, stmtSettles, covers, stmtAgree⟩, ?_⟩
    intro covered steps middle exit run ended _
    have firstReady : (ofStmt context stmt).Ready narrow firstWide firstHeaders false := stmtSettles
    obtain ⟨firstExit, found, exitCovers⟩ := (covered firstReady covers run).received middle ended
    have found : (stmt.walk context.onPath firstWide firstHeaders).exit = some firstExit := found
    rw [found] at restSettles restAgree
    exact ⟨firstExit, _, restSettles, exitCovers, restAgree⟩

mutual

theorem Stmt.walk_covers (parameters : context.ParametersWellFormed) : ∀ stmt : Stmt,
    stmt.isTryFree = true → stmt.loopIds.Nodup → (ofStmt context stmt).Covered context
  | .simple _ form, _, _ => by
    rintro isFinal narrow wide headers _ _ _ covers ⟨rfl, rfl⟩
    obtain ⟨noted, exitCovers⟩ := runSimple_covered (parameters.walking isFinal) covers form
    rw [Step.runAll_singleton]
    exact ⟨notedIn_keep noted, fun after ended => walkSimple_receives (exitCovers after ended)⟩
  | .functionDef head _, _, _ | .classDef head _, _, _ => by
    rintro isFinal narrow wide headers _ _ _ covers ⟨rfl, rfl⟩
    rw [Step.runAll_singleton]
    exact .visits (head.typed.coverable.kept parameters covers) rfl covers
  | .branch _ test body orelse, tryFree, distinct => by
    rw [Stmt.isTryFree, Bool.and_eq_true] at tryFree
    have suitesDistinct := nodup_append.mp distinct
    have suites := (Stmt.walkAll_covers parameters body tryFree.1 suitesDistinct.1).either
      (Stmt.walkAll_covers parameters orelse tryFree.2 suitesDistinct.2.1)
      (keeps_ofSuite context body) (keeps_ofSuite context orelse) distinct
    exact suites.header parameters (test.typed .read).coverable fun _ => rfl
  | .forLoop mark target iter isAsync body orelse, tryFree, distinct => by
    rw [Stmt.isTryFree, Bool.and_eq_true] at tryFree
    have suitesDistinct := nodup_append.mp (nodup_cons.mp distinct).2
    have rounds := (Stmt.walkAll_covers parameters body tryFree.1 suitesDistinct.1).loop
      (Stmt.walkAll_covers parameters orelse tryFree.2 suitesDistinct.2.1)
      (keeps_ofSuite context body) (keeps_ofSuite context orelse) distinct
      (Step.keeps_forLoop mark target iter isAsync body orelse) (Step.keeps_target target)
      parameters (target.typed .target).coverable fun state => ⟨nil_subset _, by
        rw [Step.runAll_singleton]
        exact Subset.refl _⟩
    exact rounds.header parameters (iter.typed .read).coverable fun _ => rfl
  | .whileLoop mark test body orelse, tryFree, distinct => by
    rw [Stmt.isTryFree, Bool.and_eq_true] at tryFree
    have suitesDistinct := nodup_append.mp (nodup_cons.mp distinct).2
    have keepsHeader : Step.Keeps context.onPath
        (.element (.stmt (.whileLoop mark test body orelse))) :=
      Step.keeps_of_visits fun _ => rfl
    exact (Stmt.walkAll_covers parameters body tryFree.1 suitesDistinct.1).loop
      (Stmt.walkAll_covers parameters orelse tryFree.2 suitesDistinct.2.1)
      (keeps_ofSuite context body) (keeps_ofSuite context orelse) distinct keepsHeader
      (forall_mem_nil _) parameters (test.typed .read).coverable
      fun _ => ⟨Subset.refl _, nil_subset _⟩
  | .tryBlock _ _ _ _ _, tryFree, _ => by
    exact absurd tryFree Bool.false_ne_true
  | .withBlock _ items _ body, tryFree, distinct =>
    (Stmt.walkAll_covers parameters body tryFree distinct).header parameters
      (WithItem.typed items).coverable fun _ => rfl
  | .matchOn _ subject cases, tryFree, distinct => by
    have clauses : (ofCases context cases).Covered context := by
      rintro isFinal narrow wide headers steps ending ready covers (⟨rfl, rfl⟩ | run)
      · refine ⟨fun _ => notedIn_nil _, fun after ended => ?_⟩
        rw [← Option.some.inj ended]
        exact Outcome.receives_falls_of_mem rfl (mem_cons_self ..) covers
      · have covered := MatchCase.walkAll_covers parameters cases tryFree distinct ready covers run
        exact ⟨covered.noted, fun after ended => (covered.received after ended).joined⟩
    exact clauses.header parameters (subject.typed .read).coverable fun _ => rfl

theorem Stmt.walkAll_covers (parameters : context.ParametersWellFormed) : ∀ suite : List Stmt,
    Stmt.allTryFree suite = true → (Stmt.loopIdsOfAll suite).Nodup →
    (ofSuite context suite).Covered context
  | [], _, _ => by
    rintro isFinal narrow wide headers _ _ _ covers ⟨rfl, rfl⟩
    refine ⟨fun _ => notedIn_nil _, fun after ended => ?_⟩
    rw [← Option.some.inj ended]
    exact ⟨wide, rfl, covers⟩
  | stmt :: rest, tryFree, distinct => by
    intro isFinal narrow wide headers steps ending ready covers run
    rw [Stmt.allTryFree, Bool.and_eq_true] at tryFree
    have distinctParts := nodup_append.mp distinct
    have stmtCovered := Stmt.walk_covers parameters stmt tryFree.1 distinctParts.1
    obtain ⟨stmtReady, restReady⟩ := ready.cons distinct
    rcases run with ⟨run, jumps⟩ | ⟨first, others, rfl, run, runOthers⟩
    · exact (stmtCovered stmtReady covers run).followedBy_left jumps
    · have covered := stmtCovered stmtReady covers run
      rw [Step.runAll_append]
      refine covered.sequence fun middle ended => ?_
      obtain ⟨exit, found, exitCovers⟩ := covered.received middle ended
      have restCovered := Stmt.walkAll_covers parameters rest tryFree.2 distinctParts.2.1
        (restReady stmtCovered run ended found) exitCovers runOthers
      have found : (stmt.walk (context.walking isFinal) wide headers).exit = some exit := found
      rw [found]
      exact restCovered

theorem MatchCase.walkAll_covers (parameters : context.ParametersWellFormed) :
    ∀ cases : List MatchCase, MatchCase.allTryFree cases = true → (MatchCase.loopIds cases).Nodup →
    ∀ {isFinal : Bool} {narrow wide : TypeState} {headers : LoopHeaders} {steps : List Step}
      {ending : Ending}, (ofCases context cases).Ready narrow wide headers isFinal →
      wide.Covers narrow → MatchCase.ExecutesOne cases steps ending →
        (Step.runAll context.onPath steps narrow).CoveredByOne isFinal ending
          (MatchCase.walkAll (context.walking isFinal) cases wide headers)
  | [], _, _, _, _, _, _, _, _, _, _, run => absurd run id
  | ⟨head, body⟩ :: rest, tryFree, distinct, isFinal, narrow, wide, headers, _, _, ready,
      covers, run => by
    rw [MatchCase.allTryFree, Bool.and_eq_true] at tryFree
    have distinctParts := nodup_append.mp distinct
    have ready : ((ofSuite context body).either (ofCases context rest)).Ready narrow wide headers
        isFinal := by
      cases isFinal <;> exact ready
    obtain ⟨bodyReady, restReady⟩ :=
      ready.both (keeps_ofSuite context body) (keeps_ofCases context rest) distinct
    rcases run with ⟨others, rfl, run⟩ | run
    · have isVisit (state : TypeState) : Step.run context.onPath state
          (.element (.case ⟨head, body⟩)) = context.onPath.visitOnPath state head.typeVisits := rfl
      have covered := (Stmt.walkAll_covers parameters body tryFree.1 distinctParts.1
        bodyReady covers run).withHeader parameters covers head.typed.coverable isVisit
      exact ⟨fun isLast => (covered.noted isLast).mono (subset_append_left ..),
        fun after ended => (covered.received after ended).one_left⟩
    · have covered :=
        MatchCase.walkAll_covers parameters rest tryFree.2 distinctParts.2.1 restReady covers run
      exact ⟨fun isLast => (covered.noted isLast).mono (subset_append_right ..),
        fun after ended => (covered.received after ended).one_right⟩

end

end FinalWalk

end PyStatic
