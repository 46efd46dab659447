import PyStatic.Proofs.Types.PendingBodies

/-!
Contract: the types in the table of a module are in normal form.

A walk gets its types from evaluation, from joins and from giving up a loop. None of the three can
lose a closed property, however often a loop is walked and whichever of its headers is stored.
-/

namespace PyStatic

open List TypeState

open ValueType BodyContext

namespace TypeState

variable {Holds : ValueType → Prop} {state : TypeState} {states : List TypeState}

theorem all_empty : (∅ : TypeState).All Holds := by
  intro symbol type found
  rw [Std.ExtTreeMap.getElem?_empty] at found
  cases found

theorem All.mem_some (all : state.All Holds) : ∀ known ∈ some state, known.All Holds := by
  rintro known ⟨⟩
  exact all

theorem all_mem_none : ∀ known ∈ (none : Option TypeState), known.All Holds := by
  rintro known ⟨⟩

theorem All.insert (all : state.All Holds) (symbol : SymbolId) {type : ValueType}
    (holds : Holds type) : All Holds (state.insert symbol type) := by
  intro other otherType found
  rw [getElem?_insert_eq] at found
  split at found
  · cases found
    exact holds
  · exact all other otherType found

theorem All.erase (all : state.All Holds) (symbol : SymbolId) :
    All Holds (state.erase symbol) := by
  intro other type found
  rw [Std.ExtTreeMap.getElem?_erase] at found
  split at found
  · cases found
  · exact all other type found

theorem All.assign (all : state.All Holds) (context : BodyContext) {type : Option ValueType}
    (holds : ∀ known ∈ type, Holds known) (target : Expr) :
    (context.assign type state target).All Holds := by
  unfold BodyContext.assign
  split
  · exact all
  · split
    · cases type with
      | none => exact all.erase _
      | some known => exact all.insert _ (holds known rfl)
    · exact all

variable (closed : Closed Holds)

include closed

theorem all_widen (state : TypeState) : state.widen.All Holds := by
  intro symbol type found
  unfold widen at found
  rw [Std.ExtTreeMap.getElem?_map] at found
  obtain ⟨_, _, rfl⟩ := Option.map_eq_some_iff.mp found
  exact closed.single rfl

theorem All.join (all : state.All Holds) {other : TypeState} (others : other.All Holds) :
    (state.join other).All Holds := by
  intro symbol type found
  rw [getElem?_join] at found
  cases right : other[symbol]? with
  | none =>
    rw [right] at found
    exact all symbol type found
  | some rightType =>
    rw [right] at found
    cases found
    cases left : state[symbol]? with
    | none => exact others symbol rightType right
    | some leftType =>
      apply closed.unionOf
      intro part isPart
      rcases mem_pair.mp isPart with rfl | rfl
      · exact all symbol _ left
      · exact others symbol _ right

theorem All.foldl_join (all : state.All Holds) (others : ∀ other ∈ states, other.All Holds) :
    TypeState.All Holds (states.foldl TypeState.join state) := by
  induction states generalizing state with
  | nil => exact all
  | cons first rest ih =>
    rw [forall_mem_cons] at others
    exact ih (all.join closed others.1) others.2

theorem All.joinAll (all : ∀ state ∈ states, state.All Holds) :
    ∀ joined ∈ joinAll states, joined.All Holds := by
  intro joined isJoined
  cases states with
  | nil => cases isJoined
  | cons first rest =>
    cases isJoined
    rw [forall_mem_cons] at all
    exact all.1.foldl_join closed all.2

end TypeState

def LoopHeaders.All (Holds : ValueType → Prop) (headers : LoopHeaders) : Prop :=
  ∀ (node : NodeId) (header : TypeState), headers[node]? = some header → header.All Holds

/-- All types that an outcome holds. -/
structure Outcome.All (Holds : ValueType → Prop) (outcome : Outcome) : Prop where
  headers : LoopHeaders.All Holds outcome.headers
  exit : ∀ state ∈ outcome.exit, state.All Holds
  breaks : ∀ state ∈ outcome.breaks, state.All Holds
  continues : ∀ state ∈ outcome.continues, state.All Holds
  notes : ∀ note ∈ outcome.notes, Holds note.2

def WalkPart.Keeps (Holds : ValueType → Prop) (part : WalkPart) : Prop :=
  ∀ state headers, state.All Holds → LoopHeaders.All Holds headers →
    (part state headers).All Holds

def WalkClauses.Keep (Holds : ValueType → Prop) (clauses : WalkClauses) : Prop :=
  ∀ state headers, state.All Holds → LoopHeaders.All Holds headers →
    (∀ exit ∈ (clauses state headers).1, exit.All Holds) ∧ (clauses state headers).2.All Holds

section Outcomes

variable {Holds : ValueType → Prop}

theorem LoopHeaders.all_empty : LoopHeaders.All Holds ∅ := by
  intro node header found
  rw [Std.ExtTreeMap.getElem?_empty] at found
  cases found

theorem LoopHeaders.All.insert {headers : LoopHeaders} (all : LoopHeaders.All Holds headers)
    (node : NodeId) {header : TypeState} (headerAll : header.All Holds) :
    LoopHeaders.All Holds (headers.insert node header) := by
  intro other otherHeader found
  rw [Std.ExtTreeMap.getElem?_insert] at found
  split at found
  · cases found
    exact headerAll
  · exact all other otherHeader found

namespace Outcome

variable {outcome second : Outcome} {exit : Option TypeState}

theorem All.withNotes (all : outcome.All Holds) {notes : List TypeNote}
    (noted : ∀ note ∈ notes, Holds note.2) : (outcome.withNotes notes).All Holds where
  headers := all.headers
  exit := all.exit
  breaks := all.breaks
  continues := all.continues
  notes := forall_mem_append.mpr ⟨noted, all.notes⟩

theorem All.followedBy (all : outcome.All Holds) (secondAll : second.All Holds)
    (exitAll : ∀ state ∈ exit, state.All Holds) : (outcome.followedBy second exit).All Holds where
  headers := secondAll.headers
  exit := exitAll
  breaks := forall_mem_append.mpr ⟨all.breaks, secondAll.breaks⟩
  continues := forall_mem_append.mpr ⟨all.continues, secondAll.continues⟩
  notes := forall_mem_append.mpr ⟨all.notes, secondAll.notes⟩

theorem All.exits (all : outcome.All Holds) : ∀ state ∈ outcome.exit.toList, state.All Holds :=
  fun state isExit => all.exit state (Option.mem_toList.mp isExit)

theorem all_of_exit {headers : LoopHeaders} (headersAll : LoopHeaders.All Holds headers)
    (exitAll : ∀ state ∈ exit, state.All Holds) : Outcome.All Holds { headers, exit } where
  headers := headersAll
  exit := exitAll
  breaks _ isIn := absurd isIn (not_mem_nil)
  continues _ isIn := absurd isIn (not_mem_nil)
  notes _ isIn := absurd isIn (not_mem_nil)

theorem All.withExit (all : outcome.All Holds) (exitAll : ∀ state ∈ exit, state.All Holds) :
    Outcome.All Holds { outcome with exit } :=
  { all with exit := exitAll }

end Outcome

end Outcomes

theorem BodyContext.keep_subset (context : BodyContext) (notes : List TypeNote) :
    context.keep notes ⊆ notes := by
  unfold keep
  split
  · exact Subset.refl notes
  · exact nil_subset notes

namespace ValueType.Closed

variable {Holds : ValueType → Prop} (closed : Closed Holds)

section Loops

variable {headers : LoopHeaders}

include closed

theorem settle {round : WalkPart} (keeps : round.Keeps Holds) {entry : TypeState}
    (entryAll : entry.All Holds) (rounds : Nat) {header : TypeState} (headerAll : header.All Holds)
    (headersAll : LoopHeaders.All Holds headers) :
    LoopHeaders.All Holds (BodyContext.settle round entry rounds header headers).1 ∧
      (BodyContext.settle round entry rounds header headers).2.All Holds := by
  induction rounds generalizing header headers with
  | zero => exact ⟨headersAll, all_widen closed header⟩
  | succ rounds ih =>
    have outcome := keeps header headers headerAll headersAll
    by_cases isSame : (afterRound entry header (round header headers)).same header = true
    · rw [settle_of_same isSame]
      exact ⟨outcome.headers, headerAll⟩
    · rw [settle_of_change isSame]
      refine ih ?_ outcome.headers
      exact (entryAll.join closed headerAll).foldl_join closed
        (forall_mem_append.mpr ⟨outcome.exits, outcome.continues⟩)

theorem loopHeader (context : BodyContext) (node : NodeId) {round : WalkPart}
    (keeps : round.Keeps Holds) {entry : TypeState} (entryAll : entry.All Holds)
    (headersAll : LoopHeaders.All Holds headers) :
    LoopHeaders.All Holds (context.loopHeader node round entry headers).1 ∧
      (context.loopHeader node round entry headers).2.All Holds := by
  unfold BodyContext.loopHeader
  split
  · split
    next stored found => exact ⟨headersAll, entryAll.join closed (headersAll node stored found)⟩
    · exact ⟨headersAll, entryAll⟩
  · obtain ⟨settledAll, headerAll⟩ :=
      closed.settle keeps entryAll (max 1 context.maxLoopRounds) entryAll headersAll
    exact ⟨settledAll.insert node headerAll, headerAll⟩

theorem walkLoop (context : BodyContext) (node : NodeId) {notes : TypeState → List TypeNote}
    {body orelse : WalkPart} (keepsBody : body.Keeps Holds) (keepsElse : orelse.Keeps Holds)
    (noted : ∀ header : TypeState, header.All Holds → ∀ note ∈ notes header, Holds note.2) :
    WalkPart.Keeps Holds (context.walkLoop node notes body orelse) := by
  intro entry headers entryAll headersAll
  obtain ⟨foundAll, headerAll⟩ := closed.loopHeader context node keepsBody entryAll headersAll
  have inside := keepsBody _ _ headerAll foundAll
  have after := keepsElse _ _ headerAll inside.headers
  rw [walkLoop_eq]
  exact {
    headers := after.headers
    exit := All.joinAll closed (forall_mem_append.mpr ⟨after.exits, inside.breaks⟩)
    breaks := after.breaks
    continues := after.continues
    notes := by
      refine forall_mem_append.mpr ⟨forall_mem_append.mpr ⟨?_, inside.notes⟩, after.notes⟩
      intro note isKept
      exact noted _ headerAll note (context.keep_subset _ isKept) }

theorem walkFinally {finalbody : Option WalkPart} (keeps : ∀ part ∈ finalbody, part.Keeps Holds)
    {exits : List TypeState} (exitsAll : ∀ exit ∈ exits, exit.All Holds) {fallback : TypeState}
    (fallbackAll : fallback.All Holds) (headersAll : LoopHeaders.All Holds headers) :
    (BodyContext.walkFinally finalbody exits fallback headers).All Holds := by
  have joinedAll := All.joinAll closed exitsAll
  cases finalbody with
  | none => exact Outcome.all_of_exit headersAll joinedAll
  | some part =>
    have startAll : ((joinAll exits).getD fallback).All Holds := by
      cases joined : joinAll exits with
      | none => exact fallbackAll
      | some state => exact joinedAll state joined
    have outcome := keeps part rfl _ _ startAll headersAll
    rw [BodyContext.walkFinally]
    split
    · exact outcome.withExit all_mem_none
    · exact outcome

end Loops

variable {context : BodyContext} {state : TypeState}
  (parameters : ∀ symbol, Holds (context.parameters.getD symbol .any)) (all : state.All Holds)

section Notes

include closed parameters all

theorem visits (visits : List TypeVisit) :
    ∀ note ∈ context.notes visits state, Holds note.2 := by
  intro note isNoted
  obtain ⟨visit, _, rfl⟩ := mem_map.mp isNoted
  unfold TypeVisit.note TypeVisit.type
  dsimp only
  split
  · exact closed.noted parameters all _
  · exact closed.single rfl

theorem keptNotes (visits : List TypeVisit) :
    ∀ note ∈ context.keep (context.notes visits state), Holds note.2 :=
  fun note isKept => closed.visits parameters all visits note (context.keep_subset _ isKept)

theorem assignNotes {type : Option ValueType} (holds : ∀ known ∈ type, Holds known)
    (target : Expr) : ∀ note ∈ context.assignNotes type state target, Holds note.2 := by
  unfold BodyContext.assignNotes
  split
  · intro note isNoted
    rw [mem_singleton.mp isNoted]
    cases type with
    | none => exact closed.single rfl
    | some known => exact holds known rfl
  · exact closed.visits parameters all _

end Notes

section Simple

include closed parameters

theorem assignAll {type : Option ValueType} (holds : ∀ known ∈ type, Holds known)
    (targets : List Expr) {state : TypeState} (all : state.All Holds) :
    (∀ note ∈ context.assignNotesOfAll type state targets, Holds note.2) ∧
      All Holds (targets.foldl (context.assign type) state) := by
  induction targets generalizing state with
  | nil => exact ⟨fun _ isNoted => absurd isNoted (not_mem_nil), all⟩
  | cons target rest ih =>
    obtain ⟨restNoted, restAll⟩ :=
      ih (all.assign context holds target)
    unfold assignNotesOfAll
    exact ⟨forall_mem_append.mpr
      ⟨closed.assignNotes parameters all holds target, restNoted⟩, restAll⟩

theorem walkSimple (form : SimpleStmt) : WalkPart.Keeps Holds (context.walkSimple form) := by
  intro state headers all headersAll
  have notesAndExit : (∀ note ∈ context.simpleNotes state form, Holds note.2) ∧
      ∀ exit ∈ context.simpleExit state form, exit.All Holds := by
    have assigned (targets : List Expr) (value : Expr) :=
      closed.assignAll parameters (closed.eval parameters all value) targets all
    refine ⟨?_, ?_⟩
    · unfold simpleNotes
      refine forall_mem_append.mpr ⟨closed.visits parameters all _, ?_⟩
      cases form.assignment? with
      | none => exact fun _ isNoted => absurd isNoted (not_mem_nil)
      | some assignment => exact (assigned assignment.1 assignment.2).1
    · intro exit isExit
      cases form with
      | assign targets value =>
        cases isExit
        exact (assigned targets value).2
      | annotatedAssign target hint value =>
        cases value with
        | none =>
          cases isExit
          exact all
        | some value =>
          cases isExit
          exact (assigned [target] value).2
      | ret value => cases isExit
      | raise exception cause => cases isExit
      | leaveLoop => cases isExit
      | nextRound => cases isExit
      | _ =>
        cases isExit
        exact all
  have jumps : ∀ (isJump : Bool), ∀ jump ∈ (if isJump then [state] else []), jump.All Holds := by
    intro isJump jump isIn
    cases isJump with
    | false => exact absurd isIn (not_mem_nil)
    | true =>
      rw [mem_singleton.mp isIn]
      exact all
  exact {
    headers := headersAll
    exit := notesAndExit.2
    breaks := by
      cases form with
      | leaveLoop => exact jumps true
      | _ => exact jumps false
    continues := by
      cases form with
      | nextRound => exact jumps true
      | _ => exact jumps false
    notes := fun note isKept => notesAndExit.1 note (context.keep_subset _ isKept) }

theorem walkClause (visits : List TypeVisit) {body : WalkPart} {rest : WalkClauses}
    (keeps : WalkPart.Keeps Holds body) (restKeeps : WalkClauses.Keep Holds rest) :
    WalkClauses.Keep Holds (context.walkClause visits body rest) := by
  intro state headers all headersAll
  have first := (keeps state headers all headersAll).withNotes
    (closed.keptNotes parameters all visits)
  have others := restKeeps state _ all first.headers
  exact ⟨forall_mem_append.mpr ⟨first.exits, others.1⟩, first.followedBy others.2 all_mem_none⟩

end Simple

mutual

theorem walk (closed : Closed Holds)
    (parameters : ∀ symbol, Holds (context.parameters.getD symbol .any)) :
    ∀ stmt : Stmt, WalkPart.Keeps Holds (stmt.walk context)
  | .simple _ form => closed.walkSimple parameters form
  | .functionDef head _ | .classDef head _ => by
    intro state headers all headersAll
    rw [Stmt.walk]
    exact { Outcome.all_of_exit headersAll all.mem_some with
      notes := closed.keptNotes parameters all _ }
  | .branch _ test body orelse => by
    intro state headers all headersAll
    have first := closed.walkAll parameters body (some state) headers all.mem_some headersAll
    have second := closed.walkAll parameters orelse (some state) _ all.mem_some first.headers
    rw [Stmt.walk]
    refine (first.followedBy second ?_).withNotes
      (closed.keptNotes parameters all _)
    exact All.joinAll closed (forall_mem_append.mpr ⟨first.exits, second.exits⟩)
  | .forLoop mark target iter _ body orelse => by
    intro state headers all headersAll
    rw [Stmt.walk]
    refine (closed.walkLoop context mark.id ?_ ?_ ?_ state headers all headersAll).withNotes
      (closed.keptNotes parameters all _)
    · exact fun state headers all =>
        closed.walkAll parameters body (some state) headers all.mem_some
    · exact fun state headers all =>
        closed.walkAll parameters orelse (some state) headers all.mem_some
    · exact fun header headerAll =>
        closed.visits parameters headerAll _
  | .whileLoop mark test body orelse => by
    intro state headers all headersAll
    rw [Stmt.walk]
    refine closed.walkLoop context mark.id ?_ ?_ ?_ state headers all headersAll
    · exact fun state headers all =>
        closed.walkAll parameters body (some state) headers all.mem_some
    · exact fun state headers all =>
        closed.walkAll parameters orelse (some state) headers all.mem_some
    · exact fun header headerAll =>
        closed.visits parameters headerAll _
  | .tryBlock _ body handlers orelse finalbody => by
    intro state headers all headersAll
    have first := closed.walkAll parameters body (some state) headers all.mem_some headersAll
    have interruptedAll := all.foldl_join closed first.exits
    have handled := closed.handlersWalkAll parameters handlers _ _ interruptedAll first.headers
    have otherwise := closed.walkAll parameters orelse _ _ first.exit handled.2.headers
    have lastKeeps : ∀ part ∈ (if finalbody.isEmpty then none
        else some fun state headers => Stmt.walkAll context finalbody (some state) headers),
        WalkPart.Keeps Holds part := by
      intro part isPart
      split at isPart
      · cases isPart
      · cases isPart
        exact fun state headers all =>
          closed.walkAll parameters finalbody (some state) headers all.mem_some
    have last := closed.walkFinally lastKeeps
      (forall_mem_append.mpr ⟨handled.1, otherwise.exits⟩) interruptedAll otherwise.headers
    rw [Stmt.walk]
    exact ((first.followedBy handled.2 TypeState.all_mem_none).followedBy otherwise
      all_mem_none).followedBy last last.exit
  | .withBlock _ items _ body => by
    intro state headers all headersAll
    rw [Stmt.walk]
    exact (closed.walkAll parameters body (some state) headers all.mem_some headersAll).withNotes
      (closed.keptNotes parameters all _)
  | .matchOn _ subject cases => by
    intro state headers all headersAll
    obtain ⟨exitsAll, outcome⟩ := closed.casesWalkAll parameters cases state headers all headersAll
    rw [Stmt.walk]
    refine (outcome.withExit ?_).withNotes
      (closed.keptNotes parameters all _)
    exact All.joinAll closed (forall_mem_cons.mpr ⟨all, exitsAll⟩)

theorem walkAll (closed : Closed Holds)
    (parameters : ∀ symbol, Holds (context.parameters.getD symbol .any)) :
    ∀ (suite : List Stmt) (state : Option TypeState) (headers : LoopHeaders),
    (∀ known ∈ state, known.All Holds) → LoopHeaders.All Holds headers →
      (Stmt.walkAll context suite state headers).All Holds
  | [], state, headers, all, headersAll => by
    rw [Stmt.walkAll]
    exact Outcome.all_of_exit headersAll all
  | stmt :: rest, some state, headers, all, headersAll => by
    have first := closed.walk parameters stmt state headers (all state rfl) headersAll
    have others := closed.walkAll parameters rest _ _ first.exit first.headers
    rw [Stmt.walkAll]
    exact first.followedBy others others.exit
  | stmt :: rest, none, headers, all, headersAll => by
    have first := closed.walk parameters stmt ∅ headers all_empty headersAll
    have others := closed.walkAll parameters rest none _ all_mem_none first.headers
    rw [Stmt.walkAll]
    exact first.followedBy others others.exit

theorem handlersWalkAll (closed : Closed Holds)
    (parameters : ∀ symbol, Holds (context.parameters.getD symbol .any)) :
    ∀ handlers : List Handler, WalkClauses.Keep Holds (Handler.walkAll context handlers)
  | [] => fun _ _ _ headersAll => ⟨forall_mem_nil _, Outcome.all_of_exit headersAll all_mem_none⟩
  | ⟨_, body⟩ :: rest => closed.walkClause parameters _
    (fun _ _ all => closed.walkAll parameters body _ _ all.mem_some)
    (closed.handlersWalkAll parameters rest)

theorem casesWalkAll (closed : Closed Holds)
    (parameters : ∀ symbol, Holds (context.parameters.getD symbol .any)) :
    ∀ cases : List MatchCase, WalkClauses.Keep Holds (MatchCase.walkAll context cases)
  | [] => fun _ _ _ headersAll => ⟨forall_mem_nil _, Outcome.all_of_exit headersAll all_mem_none⟩
  | ⟨_, body⟩ :: rest => closed.walkClause parameters _
    (fun _ _ all => closed.walkAll parameters body _ _ all.mem_some)
    (closed.casesWalkAll parameters rest)

end

end ValueType.Closed

namespace ValueType.Closed

variable {Holds : ValueType → Prop} (closed : Closed Holds) (model : Model)

include closed

section Parameters

variable {types : Std.ExtTreeMap SymbolId ValueType}

theorem addParameterType (known : ∀ symbol, Holds (types.getD symbol .any)) (scope : ScopeId)
    (parameter : ParameterInfo) :
    ∀ symbol, Holds ((model.addParameterType scope types parameter).getD symbol .any) := by
  unfold Model.addParameterType
  split
  · split
    · split
      · intro symbol
        rw [Std.ExtTreeMap.getD_insert]
        split
        · exact closed.declaredType model _
        · exact known symbol
      · exact known
    · exact known
  · exact known

theorem foldl_addParameterType (known : ∀ symbol, Holds (types.getD symbol .any))
    (scope : ScopeId) (parameters : List ParameterInfo) :
    ∀ symbol,
      Holds ((parameters.foldl (model.addParameterType scope) types).getD symbol .any) := by
  induction parameters generalizing types with
  | nil => exact known
  | cons parameter rest ih =>
    exact ih (closed.addParameterType model known scope parameter)

end Parameters

theorem parameters (scope : ScopeId) (body : InferenceBody) (isFinal : Bool) :
    ∀ symbol, Holds ((model.bodyContext scope body isFinal).parameters.getD symbol .any) := by
  have unhinted : ∀ symbol,
      Holds ((∅ : Std.ExtTreeMap SymbolId ValueType).getD symbol .any) := by
    intro symbol
    rw [Std.ExtTreeMap.getD_empty]
    exact closed.single rfl
  unfold Model.bodyContext
  dsimp only
  split
  · unfold Model.parameterTypes
    split
    · exact closed.foldl_addParameterType model unhinted scope _
    · exact unhinted
  · exact unhinted

theorem bodyNotes (body : InferenceBody) : ∀ note ∈ model.bodyNotes body, Holds note.2 := by
  cases owned : model.ownedScope? body.node with
  | none =>
    rw [Model.bodyNotes, Model.inferBody_of_none owned]
    exact fun _ isIn => absurd isIn (not_mem_nil)
  | some scope =>
    rw [Model.bodyNotes_of_scope owned]
    have first := closed.walkAll (closed.parameters model scope body false) body.suite (some ∅) ∅
      all_empty.mem_some LoopHeaders.all_empty
    exact (closed.walkAll (closed.parameters model scope body true) body.suite (some ∅) _
      all_empty.mem_some first.headers).notes

theorem inferTypes (module' : Module) {node : NodeId} {type : ValueType}
    (recorded : (model.inferTypes module')[node]? = some type) : Holds type := by
  obtain ⟨body, _, isNoted⟩ := Model.exists_body_of_inferTypes recorded
  exact closed.bodyNotes model body (node, type) isNoted

end ValueType.Closed

namespace ValueType

/-- A union has two members or more, none `any` or a union, and no two agree. -/
def NormalForm : ValueType → Prop
  | union members => 2 ≤ members.length ∧
      (∀ member ∈ members, member.isSingle = true ∧ member.isAny = false) ∧
      members.Pairwise fun left right => left.same right = false ∧ right.same left = false
  | _ => True

theorem NormalForm.wellFormed {type : ValueType} (normal : type.NormalForm) : type.WellFormed := by
  cases type with
  | union members =>
    exact ⟨normal.1, fun member isMember => (normal.2.1 member isMember).1,
      normal.2.2.imp And.left⟩
  | _ => trivial

theorem NormalForm.isAny_of_mem {type member : ValueType} (normal : type.NormalForm)
    (isKnown : type.isAny = false) (isMember : member ∈ type.members) :
    member.isAny = false := by
  cases type with
  | union members => exact (normal.2.1 member isMember).2
  | _ =>
    rw [mem_singleton.mp isMember]
    exact isKnown

theorem WellFormed.normalForm {members : List ValueType} (wellFormed : (union members).WellFormed)
    (known : ∀ member ∈ members, member.isAny = false) : (union members).NormalForm := by
  obtain ⟨length, singles, apart⟩ := wellFormed
  refine ⟨length, fun member isMember => ⟨singles member isMember, known member isMember⟩, ?_⟩
  refine apart.imp_of_mem ?_
  intro left right isLeft isRight differ
  refine ⟨differ, ?_⟩
  rw [← Bool.not_eq_true] at differ ⊢
  exact fun agree => differ (same_symm (singles right isRight) agree)

theorem normalForm_unionOf {types : List ValueType} (normal : ∀ type ∈ types, type.NormalForm) :
    (unionOf types).NormalForm := by
  have wellFormed := wellFormed_unionOf fun type isIn => (normal type isIn).wellFormed
  cases made : unionOf types with
  | union members =>
    rw [made] at wellFormed
    refine wellFormed.normalForm ?_
    intro member isMember
    have notAny : ¬types.any (·.isAny) = true := by
      intro isAny
      rw [unionOf_of_any isAny] at made
      cases made
    have nonempty : types ≠ [] := by
      rintro rfl
      cases made
    have isMember : member ∈ (unionOf types).members := by
      rw [made]
      exact isMember
    obtain ⟨type, isIn, isMember⟩ := mem_members_unionOf
      (fun type isIn => (normal type isIn).wellFormed) nonempty isMember
    refine (normal type isIn).isAny_of_mem ?_ isMember
    rw [← Bool.not_eq_true]
    exact fun isAny => notAny (any_eq_true.mpr ⟨type, isIn, isAny⟩)
  | _ => trivial

theorem closed_normalForm : Closed NormalForm where
  single := by
    intro type single
    cases type with
    | union members => cases single
    | _ => trivial
  unionOf := normalForm_unionOf

end ValueType

/-- Every type in the table of a module is in normal form. -/
theorem Model.inferTypes_normalForm (model : Model) (module' : Module) (node : NodeId)
    (type : ValueType) (recorded : (model.inferTypes module')[node]? = some type) :
    type.NormalForm :=
  closed_normalForm.inferTypes model module' recorded

def Module.toggling : Module :=
  let mark (id : NodeId) : Mark := ⟨id, ⟨id, id⟩⟩
  let x (id : NodeId) : Expr := .name ⟨mark id, "x"⟩
  let toggled : Expr := .conditional (mark 8) (x 9) (.literal (mark 10) .str "a" []) (x 11)
  ⟨mark 0,
    [.simple (mark 1) (.assign [x 2] (.literal (mark 3) .int "1" [])),
      .whileLoop (mark 4) (x 5) [.simple (mark 6) (.assign [x 7] toggled)] [],
      .simple (mark 12) (.expr (x 13))]⟩

def Model.toggling : Model :=
  .ofModule ⟨"", "m.py", none, {}⟩ Module.toggling

theorem Model.toggling_normalForm :
    ∃ members, (Model.toggling.inferTypes Module.toggling)[13]? = some (.union members) ∧
      members.length = 2 ∧ (ValueType.union members).NormalForm := by
  have twoMembers : (Model.toggling.inferTypes Module.toggling)[13]?.any (fun type =>
      !type.isSingle && type.members.length == 2) = true := by decide +kernel
  obtain ⟨type, recorded, isUnion⟩ := (Option.any_eq_true ..).mp twoMembers
  have normal := Model.inferTypes_normalForm Model.toggling Module.toggling 13 type recorded
  cases type with
  | union members =>
    exact ⟨members, recorded, by simpa [isSingle, ValueType.members] using isUnion, normal⟩
  | _ => cases isUnion

end PyStatic
