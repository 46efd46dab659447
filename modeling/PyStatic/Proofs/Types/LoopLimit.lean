import PyStatic.Proofs.Types.Blurring
import PyStatic.Proofs.Types.NormalForms
import Mathlib.Data.List.Sort

/-!
Contract: what is lost when loops are given up early.

Giving up forgets the types of the variables that the header knows by then. A variable that a later
round would have brought stays unassigned, and that is more than the walk knows: where it is joined
with an assigned one, only the other type remains.
-/

namespace PyStatic

open List SymbolTable TypeState

open BodyContext

/-! ## Complete headers -/

def TypeState.knowsAllOf (state other : TypeState) : Bool :=
  other.toList.all fun entry => state.contains entry.1

theorem TypeState.isSome_of_knowsAllOf {state other : TypeState}
    (knows : state.knowsAllOf other = true) {symbol : SymbolId}
    (known : other[symbol]?.isSome = true) : state[symbol]?.isSome = true := by
  obtain ⟨type, found⟩ := Option.isSome_iff_exists.mp known
  have isIn := Std.ExtTreeMap.mem_toList_iff_getElem?_eq_some.mpr found
  rw [← Std.ExtTreeMap.contains_eq_isSome_getElem?]
  exact all_eq_true.mp knows (symbol, type) isIn

/-- Whether a header knows all variables that one more round would bring. -/
def LoopCheck.complete : LoopCheck :=
  ⟨true, TypeState.knowsAllOf⟩

abbrev Stmt.completesAll (context : BodyContext) (body : List Stmt) (state : Option TypeState)
    (headers : LoopHeaders) : Bool :=
  Stmt.passesAll .complete context body state headers

/-! ## Rounds -/

namespace BodyContext

section Rounds

variable {entry header narrow : TypeState} {outcome : Outcome}

theorem afterRound_covers_header (covers : header.Covers narrow) :
    (afterRound entry header outcome).Covers narrow :=
  (covers.join_right entry).foldl_join _

theorem afterRound_knows {symbol : SymbolId} (known : header[symbol]?.isSome = true) :
    (afterRound entry header outcome)[symbol]?.isSome = true := by
  apply isSome_foldl_join
  rw [isSome_join, known, Bool.or_true]

theorem afterRound_blurs {known : NodeId → Prop} {wideEntry narrowEntry : TypeState}
    {wideOutcome narrowOutcome : Outcome} (entries : wideEntry.Blurs narrowEntry)
    (headers : header.Blurs narrow) (outcomes : wideOutcome.Blurs known narrowOutcome) :
    (afterRound wideEntry header wideOutcome).Blurs
      (afterRound narrowEntry narrow narrowOutcome) :=
  (entries.join headers).foldl_join (rel_append outcomes.exits outcomes.continues)

end Rounds

def RoundsBlur (wideRound narrowRound : WalkPart)
    (completes settles : TypeState → LoopHeaders → Bool) (wideEntry narrowEntry : TypeState) :
    Prop :=
  ∀ ⦃wide narrow : TypeState⦄ ⦃wideHeaders narrowHeaders : LoopHeaders⦄, wide.Blurs narrow →
    completes wide wideHeaders = true → settles narrow narrowHeaders = true →
      (afterRound wideEntry wide (wideRound wide wideHeaders)).Blurs
        (afterRound narrowEntry narrow (narrowRound narrow narrowHeaders))

section Settle

variable {wideRound narrowRound : WalkPart} {completes settles : TypeState → LoopHeaders → Bool}
  {wideEntry narrowEntry wide narrow : TypeState} {wideHeaders narrowHeaders : LoopHeaders}
  {wideRounds narrowRounds : Nat}

def Withstands (narrowRound : WalkPart) (settles : TypeState → LoopHeaders → Bool)
    (narrowEntry wide : TypeState) : Prop :=
  ∀ ⦃narrow : TypeState⦄ ⦃narrowHeaders : LoopHeaders⦄, wide.Blurs narrow →
    settles narrow narrowHeaders = true →
      wide.Blurs (afterRound narrowEntry narrow (narrowRound narrow narrowHeaders))

variable (rounds : RoundsBlur wideRound narrowRound completes settles wideEntry narrowEntry)

include rounds

theorem withstands_settle {header : TypeState}
    (complete : LoopCheck.complete.within wideRound completes wideEntry wideRounds wide
      wideHeaders = true)
    (found : (settle wideRound wideEntry wideRounds wide wideHeaders).2 = header)
    {last : LoopHeaders} (lastCompletes : completes header last = true)
    (knows : header.knowsAllOf (afterRound wideEntry header (wideRound header last)) = true) :
    Withstands narrowRound settles narrowEntry header := by
  intro narrow narrowHeaders blurs settled
  rcases LoopCheck.settle_cases complete found with ⟨settledLast, isComplete, isSame⟩
    | ⟨-, given, rfl⟩
  · exact (rounds blurs isComplete settled).of_same_left isSame fun _ => afterRound_knows
  · refine widen_blurs (rounds blurs lastCompletes settled) fun symbol => ?_
    rw [Bool.eq_iff_iff]
    exact ⟨isSome_of_knowsAllOf knows, afterRound_knows⟩

omit rounds in
theorem Withstands.settle (withstands : Withstands narrowRound settles narrowEntry wide)
    (settled :
      LoopCheck.settled.within narrowRound settles narrowEntry narrowRounds narrow
        narrowHeaders = true)
    (blurs : wide.Blurs narrow) :
    wide.Blurs (settle narrowRound narrowEntry narrowRounds narrow narrowHeaders).2 :=
  LoopCheck.settle_of_within wide.Blurs wide.Blurs
    (fun _ _ blurs roundSettled => withstands blurs roundSettled) (fun _ _ blurs _ _ => blurs)
    (fun mayGiveUp => absurd mayGiveUp Bool.false_ne_true) settled blurs

theorem settle_blurs_settled
    (complete : LoopCheck.complete.within wideRound completes wideEntry wideRounds wide
      wideHeaders = true)
    (settled : settles narrow narrowHeaders = true)
    (isSettled :
      (afterRound narrowEntry narrow (narrowRound narrow narrowHeaders)).same narrow = true)
    (blurs : wide.Blurs narrow) :
    (settle wideRound wideEntry wideRounds wide wideHeaders).2.Blurs narrow := by
  refine LoopCheck.settle_of_within (·.Blurs narrow) (·.Blurs narrow)
    (fun wide _ blurs roundComplete => ?_) (fun _ _ blurs _ _ => blurs)
    (fun _ _ blurs => blurs.widen) complete blurs
  exact (rounds blurs roundComplete settled).of_same_right isSettled
    (afterRound_covers_header blurs.covers_self)

theorem settle_blurs
    (complete : LoopCheck.complete.within wideRound completes wideEntry wideRounds wide
      wideHeaders = true)
    (withstands : Withstands narrowRound settles narrowEntry
      (settle wideRound wideEntry wideRounds wide wideHeaders).2)
    (settled :
      LoopCheck.settled.within narrowRound settles narrowEntry narrowRounds narrow
        narrowHeaders = true)
    (blurs : wide.Blurs narrow) :
    (settle wideRound wideEntry wideRounds wide wideHeaders).2.Blurs
      (settle narrowRound narrowEntry narrowRounds narrow narrowHeaders).2 := by
  induction wideRounds generalizing wide narrow wideHeaders narrowHeaders narrowRounds with
  | zero => exact withstands.settle settled blurs.widen
  | succ _ ih =>
    by_cases wideSame : (afterRound wideEntry wide (wideRound wide wideHeaders)).same wide = true
    · rw [settle_of_same wideSame] at withstands ⊢
      exact withstands.settle settled blurs
    cases narrowRounds with
    | zero => exact absurd settled Bool.false_ne_true
    | succ =>
      obtain ⟨roundSettled, settled⟩ := LoopCheck.within_succ settled
      by_cases narrowSame :
          (afterRound narrowEntry narrow (narrowRound narrow narrowHeaders)).same narrow = true
      · rw [settle_of_same narrowSame]
        exact settle_blurs_settled rounds complete roundSettled narrowSame blurs
      · obtain ⟨roundComplete, complete⟩ := LoopCheck.within_succ complete
        rw [settle_of_change wideSame] at withstands ⊢
        rw [settle_of_change narrowSame]
        exact ih (complete wideSame) withstands (settled narrowSame)
          (rounds blurs roundComplete roundSettled)

end Settle

/-! ## Walks -/

/-- At the headers of known loops the first walk blurs the second. -/
structure Comparable (isFinal : Bool) (ids : List NodeId) (known : NodeId → Prop)
    (wide narrow : LoopHeaders) (completes settles : Bool) : Prop where
  headers : wide.Blur known narrow
  stored : isFinal = true → ∀ id ∈ ids, known id
  settled : isFinal = false → completes = true ∧ settles = true

section InTurn

variable {isFinal completes settles thenCompletes thenSettles : Bool} {ids others : List NodeId}
  {known : NodeId → Prop} {wide narrow laterWide laterNarrow : LoopHeaders}

theorem Comparable.first (both : Comparable isFinal (ids ++ others) known wide narrow
    (completes && thenCompletes) (settles && thenSettles)) :
    Comparable isFinal ids known wide narrow completes settles := by
  obtain ⟨headers, stored, settled⟩ := both
  simp only [Bool.and_eq_true] at settled
  exact ⟨headers, fun isFinal id isIn => stored isFinal id (mem_append_left _ isIn),
    fun isFirst => ⟨(settled isFirst).1.1, (settled isFirst).2.1⟩⟩

theorem Comparable.second (both : Comparable isFinal (ids ++ others) known wide narrow
    (completes && thenCompletes) (settles && thenSettles))
    (headers : laterWide.Blur (fun id => known id ∨ id ∈ ids) laterNarrow) :
    Comparable isFinal others (fun id => known id ∨ id ∈ ids) laterWide laterNarrow thenCompletes
      thenSettles := by
  obtain ⟨-, stored, settled⟩ := both
  simp only [Bool.and_eq_true] at settled
  exact ⟨headers, fun isFinal id isIn => .inl (stored isFinal id (mem_append_right _ isIn)),
    fun isFirst => ⟨(settled isFirst).1.2, (settled isFirst).2.2⟩⟩

end InTurn

def WalkPart.Blurs (isFinal : Bool) (ids : List NodeId) (wide narrow : WalkPart)
    (completes settles : TypeState → LoopHeaders → Bool) : Prop :=
  ∀ ⦃wideState narrowState : TypeState⦄ ⦃wideHeaders narrowHeaders : LoopHeaders⦄
    ⦃known : NodeId → Prop⦄, wideState.Blurs narrowState →
    Comparable isFinal ids known wideHeaders narrowHeaders (completes wideState wideHeaders)
      (settles narrowState narrowHeaders) →
    (wide wideState wideHeaders).Blurs (fun id => known id ∨ id ∈ ids)
      (narrow narrowState narrowHeaders)

def WalkClauses.Blurs (isFinal : Bool) (ids : List NodeId) (wide narrow : WalkClauses)
    (completes settles : TypeState → LoopHeaders → Bool) : Prop :=
  ∀ ⦃wideState narrowState : TypeState⦄ ⦃wideHeaders narrowHeaders : LoopHeaders⦄
    ⦃known : NodeId → Prop⦄, wideState.Blurs narrowState →
    Comparable isFinal ids known wideHeaders narrowHeaders (completes wideState wideHeaders)
      (settles narrowState narrowHeaders) →
    List.Forall₂ TypeState.Blurs (wide wideState wideHeaders).1
        (narrow narrowState narrowHeaders).1 ∧
      (wide wideState wideHeaders).2.Blurs (fun id => known id ∨ id ∈ ids)
        (narrow narrowState narrowHeaders).2

section Loop

variable {context : BodyContext} {rounds : Nat} {node : NodeId} {bodyIds orelseIds : List NodeId}
  {body orelse narrowBody narrowElse : WalkPart}
  {bodyCompletes bodySettles orelseCompletes orelseSettles : TypeState → LoopHeaders → Bool}
  {entry narrowEntry : TypeState} {headers narrowHeaders : LoopHeaders} {known : NodeId → Prop}

theorem loopHeader_of_first (isFirst : context.isFinal = false) :
    context.loopHeader node body entry headers =
      ((settle body entry (max 1 context.maxLoopRounds) entry headers).1.insert node
          (settle body entry (max 1 context.maxLoopRounds) entry headers).2,
        (settle body entry (max 1 context.maxLoopRounds) entry headers).2) := by
  unfold loopHeader
  rw [isFirst]
  rfl

theorem loopHeader_blurs_of_first (isFirst : context.isFinal = false)
    (bodies : WalkPart.Blurs context.isFinal bodyIds body narrowBody bodyCompletes bodySettles)
    (keeps : ∀ id ∉ bodyIds, KeepsHeader body id ∧ KeepsHeader narrowBody id)
    (blurs : entry.Blurs narrowEntry) (headersBlur : headers.Blur known narrowHeaders)
    (completes : LoopCheck.complete.loop context node body bodyCompletes orelseCompletes entry
      headers = true)
    (settles : LoopCheck.settled.loop (context.withRounds rounds) node narrowBody bodySettles
      orelseSettles narrowEntry narrowHeaders = true) :
    (context.loopHeader node body entry headers).2.Blurs
        ((context.withRounds rounds).loopHeader node narrowBody narrowEntry narrowHeaders).2 ∧
      (context.loopHeader node body entry headers).1.Blur
        (fun id => known id ∧ id ∉ bodyIds ∨ id = node)
        ((context.withRounds rounds).loopHeader node narrowBody narrowEntry narrowHeaders).1 := by
  have roundsBlur : RoundsBlur body narrowBody bodyCompletes bodySettles entry narrowEntry := by
    intro wide narrow wideHeaders narrowHeaders headerBlurs isComplete isSettled
    have comparable : Comparable context.isFinal bodyIds (fun _ => False) wideHeaders narrowHeaders
        (bodyCompletes wide wideHeaders) (bodySettles narrow narrowHeaders) :=
      ⟨fun _ => False.elim, fun isFinal => absurd isFinal (by simp [isFirst]),
        fun _ => ⟨isComplete, isSettled⟩⟩
    exact afterRound_blurs blurs headerBlurs (bodies headerBlurs comparable)
  unfold LoopCheck.loop loopRound at completes
  unfold LoopCheck.loop at settles
  simp only [Bool.and_eq_true] at completes settles
  obtain ⟨⟨⟨complete, knows⟩, lastCompletes⟩, -⟩ := completes
  rw [loopHeader_of_first isFirst] at knows lastCompletes ⊢
  rw [loopHeader_of_first (show (context.withRounds rounds).isFinal = false from isFirst)]
  have withstands : Withstands narrowBody bodySettles narrowEntry _ :=
    withstands_settle roundsBlur complete rfl lastCompletes knows
  have settledBlurs := settle_blurs roundsBlur complete withstands settles.1.1.1 blurs
  refine ⟨settledBlurs, ?_⟩
  intro id isKnown
  rw [Std.ExtTreeMap.getElem?_insert, Std.ExtTreeMap.getElem?_insert]
  split
  · exact .some settledBlurs
  next differs =>
    rcases isKnown with ⟨isKnown, notIn⟩ | rfl
    · rw [settle_headers (keeps id notIn).1, settle_headers (keeps id notIn).2]
      exact headersBlur id isKnown
    · exact absurd Std.ReflCmp.compare_self differs

theorem loopHeader_blurs_of_final (isFinal : context.isFinal = true)
    (blurs : entry.Blurs narrowEntry) (headersBlur : headers.Blur known narrowHeaders)
    (isKnown : known node) :
    (context.loopHeader node body entry headers).2.Blurs
        ((context.withRounds rounds).loopHeader node narrowBody narrowEntry narrowHeaders).2 ∧
      (context.loopHeader node body entry headers).1.Blur known
        ((context.withRounds rounds).loopHeader node narrowBody narrowEntry narrowHeaders).1 := by
  unfold loopHeader
  rw [show (context.withRounds rounds).isFinal = true from isFinal, isFinal]
  refine Option.Rel.casesOn (headersBlur node isKnown) (fun storedBlurs => ?_) ⟨blurs, headersBlur⟩
  exact ⟨blurs.join storedBlurs, headersBlur⟩

theorem loopHeader_blurs
    (bodies : WalkPart.Blurs context.isFinal bodyIds body narrowBody bodyCompletes bodySettles)
    (keeps : context.isFinal = false →
      ∀ id ∉ bodyIds, KeepsHeader body id ∧ KeepsHeader narrowBody id)
    (blurs : entry.Blurs narrowEntry)
    (comparable : Comparable context.isFinal (node :: (bodyIds ++ orelseIds)) known headers
      narrowHeaders
      (LoopCheck.complete.loop context node body bodyCompletes orelseCompletes entry headers)
      (LoopCheck.settled.loop (context.withRounds rounds) node narrowBody bodySettles orelseSettles
        narrowEntry narrowHeaders)) :
    (context.loopHeader node body entry headers).2.Blurs
        ((context.withRounds rounds).loopHeader node narrowBody narrowEntry narrowHeaders).2 ∧
      ∃ knownThen : NodeId → Prop,
        (context.loopHeader node body entry headers).1.Blur knownThen
          ((context.withRounds rounds).loopHeader node narrowBody narrowEntry narrowHeaders).1 ∧
        (context.isFinal = true → ∀ id, known id → knownThen id) ∧
        ∀ id, known id ∨ id = node → knownThen id ∨ id ∈ bodyIds := by
  cases isFinal : context.isFinal with
  | true =>
    have isKnown := comparable.stored isFinal node mem_cons_self
    obtain ⟨headerBlurs, headersBlur⟩ :=
      loopHeader_blurs_of_final isFinal blurs comparable.headers isKnown
    refine ⟨headerBlurs, known, headersBlur, fun _ _ => id, ?_⟩
    rintro id (already | rfl)
    · exact .inl already
    · exact .inl isKnown
  | false =>
    obtain ⟨completes, settles⟩ := comparable.settled isFinal
    obtain ⟨headerBlurs, headersBlur⟩ := loopHeader_blurs_of_first isFinal bodies (keeps isFinal)
      blurs comparable.headers completes settles
    refine ⟨headerBlurs, _, headersBlur, fun isTrue => absurd isTrue Bool.false_ne_true, ?_⟩
    rintro id (already | rfl)
    · by_cases isIn : id ∈ bodyIds
      · exact .inr isIn
      · exact .inl (.inl ⟨already, isIn⟩)
    · exact .inl (.inr rfl)

theorem walkLoop_blurs {notes narrowNotes : TypeState → List TypeNote}
    (bodies : WalkPart.Blurs context.isFinal bodyIds body narrowBody bodyCompletes bodySettles)
    (orelses :
      WalkPart.Blurs context.isFinal orelseIds orelse narrowElse orelseCompletes orelseSettles)
    (keeps : context.isFinal = false →
      ∀ id ∉ bodyIds, KeepsHeader body id ∧ KeepsHeader narrowBody id)
    (notesBlur : ∀ {wide narrow : TypeState}, wide.Blurs narrow →
      List.Forall₂ TypeNote.Blurs (context.keep (notes wide))
        ((context.withRounds rounds).keep (narrowNotes narrow))) :
    WalkPart.Blurs context.isFinal (node :: (bodyIds ++ orelseIds))
      (context.walkLoop node notes body orelse)
      ((context.withRounds rounds).walkLoop node narrowNotes narrowBody narrowElse)
      (LoopCheck.complete.loop context node body bodyCompletes orelseCompletes)
      (LoopCheck.settled.loop (context.withRounds rounds) node narrowBody bodySettles
        orelseSettles) := by
  intro entry narrowEntry headers narrowHeaders known blurs comparable
  obtain ⟨headerBlurs, knownThen, headersBlur, staysKnown, isKnownThen⟩ :=
    loopHeader_blurs bodies keeps blurs comparable
  obtain ⟨-, stored, settled⟩ := comparable
  unfold LoopCheck.loop at settled
  simp only [Bool.and_eq_true] at settled
  have inside := bodies headerBlurs
    ⟨headersBlur,
      fun isFinal id isIn => staysKnown isFinal id
        (stored isFinal id (mem_cons_of_mem node (mem_append_left _ isIn))),
      fun isFirst => ⟨(settled isFirst).1.1.2, (settled isFirst).2.1.2⟩⟩
  have after := orelses headerBlurs
    ⟨inside.headers,
      fun isFinal id isIn => .inl (staysKnown isFinal id
        (stored isFinal id (mem_cons_of_mem node (mem_append_right _ isIn)))),
      fun isFirst => ⟨(settled isFirst).1.2, (settled isFirst).2.2⟩⟩
  refine ⟨?_, Blurs.joinAll (rel_append after.exits inside.breaks), after.breaks,
    after.continues, rel_append
      (rel_append (notesBlur headerBlurs) inside.notes) after.notes⟩
  intro id isKnown
  apply after.headers
  rcases isKnown with already | isIn
  · exact .inl (isKnownThen id (.inl already))
  · rcases mem_cons.mp isIn with isNode | isIn
    · exact .inl (isKnownThen id (.inr isNode))
    · rcases mem_append.mp isIn with isIn | isIn
      · exact .inl (.inr isIn)
      · exact .inr isIn

theorem walkNone_blurs {isFinal : Bool} :
    WalkClauses.Blurs isFinal [] (fun _ headers => ([], { headers, exit := none }))
      (fun _ headers => ([], { headers, exit := none })) (fun _ _ => true) fun _ _ => true := by
  refine fun _ _ _ _ _ _ comparable => ⟨.nil, ?_, .none, .nil, .nil, .nil⟩
  simpa using comparable.headers

theorem walkClause_blurs {rest narrowRest : WalkClauses} (rounds : Nat)
    (parameters : context.ParametersWellFormed) (visits : List TypeVisit)
    (bodies : WalkPart.Blurs context.isFinal bodyIds body narrowBody bodyCompletes bodySettles)
    (rests :
      WalkClauses.Blurs context.isFinal orelseIds rest narrowRest orelseCompletes orelseSettles) :
    WalkClauses.Blurs context.isFinal (bodyIds ++ orelseIds)
      (context.walkClause visits body rest)
      ((context.withRounds rounds).walkClause visits narrowBody narrowRest)
      (fun state headers => bodyCompletes state headers &&
        orelseCompletes state (body state headers).headers)
      (fun state headers => bodySettles state headers &&
        orelseSettles state (narrowBody state headers).headers) := by
  intro _ _ _ _ _ blurs comparable
  have first := (bodies blurs comparable.first).withNotes
    (keptVisits_blur rounds parameters blurs visits)
  obtain ⟨exits, others⟩ := rests blurs (comparable.second first.headers)
  exact ⟨rel_append first.exits exits, first.inTurn others .none⟩

end Loop

theorem walkFinally_blurs {isFinal : Bool} {ids : List NodeId} {known : NodeId → Prop}
    {wide narrow : WalkPart} {completes settles : TypeState → LoopHeaders → Bool}
    (parts : WalkPart.Blurs isFinal ids wide narrow completes settles) (isEmpty : Bool)
    (noIds : isEmpty = true → ids = []) {exits narrowExits : List TypeState}
    (exitsBlur : List.Forall₂ Blurs exits narrowExits)
    {fallback narrowFallback : TypeState} (fallbackBlurs : fallback.Blurs narrowFallback)
    {headers narrowHeaders : LoopHeaders}
    (comparable : Comparable isFinal ids known headers narrowHeaders
      (completes ((joinAll exits).getD fallback) headers)
      (settles ((joinAll narrowExits).getD narrowFallback) narrowHeaders)) :
    (walkFinally (if isEmpty then none else some wide) exits fallback headers).Blurs
      (fun id => known id ∨ id ∈ ids)
      (walkFinally (if isEmpty then none else some narrow) narrowExits narrowFallback
        narrowHeaders) := by
  have joined := Blurs.joinAll exitsBlur
  cases isEmpty with
  | true =>
    rw [if_pos rfl, if_pos rfl, walkFinally, walkFinally, noIds rfl]
    refine ⟨?_, joined, .nil, .nil, .nil⟩
    simpa using comparable.headers
  | false =>
    have startBlurs : ((joinAll exits).getD fallback).Blurs
        ((joinAll narrowExits).getD narrowFallback) :=
      Option.Rel.casesOn joined id fallbackBlurs
    have outcome := parts startBlurs comparable
    cases exitsBlur with
    | nil => exact outcome.withExit .none
    | cons => exact outcome

end BodyContext

section Walk

variable {context : BodyContext} (rounds : Nat)

theorem Stmt.suite_keeps (suite : List Stmt) (id : NodeId) (notIn : id ∉ Stmt.loopIdsOfAll suite) :
    KeepsHeader (fun state headers => Stmt.walkAll context suite (some state) headers) id :=
  fun state => Stmt.walkAll_headers suite (fun _ => notIn) (some state)

mutual

theorem Stmt.walk_blurs (parameters : context.ParametersWellFormed) : ∀ stmt : Stmt,
    WalkPart.Blurs context.isFinal stmt.loopIds (stmt.walk context)
      (stmt.walk (context.withRounds rounds)) (stmt.passes .complete context)
      (stmt.passes .settled (context.withRounds rounds))
  | .simple _ form, _, _, _, _, _, blurs, comparable => by
    refine (walkSimple_blurs rounds parameters blurs form comparable.headers).weaken ?_
    simp [Stmt.loopIds]
  | .functionDef head _, _, _, _, _, _, blurs, comparable
  | .classDef head _, _, _, _, _, _, blurs, comparable => by
    rw [Stmt.walk, Stmt.walk]
    refine ⟨?_, .some blurs, .nil, .nil, keptVisits_blur rounds parameters blurs _⟩
    simpa [Stmt.loopIds] using comparable.headers
  | .branch _ test body orelse, _, _, _, _, _, blurs, comparable => by
    have first := Stmt.walkAll_blurs parameters body (.some blurs) comparable.first
    have second := Stmt.walkAll_blurs parameters orelse (.some blurs)
      (comparable.second first.headers)
    exact (first.inTurn second
      (Blurs.joinAll (rel_append first.exits second.exits))).withNotes
        (keptVisits_blur rounds parameters blurs _)
  | .forLoop _ target iter _ body orelse, _, _, _, _, _, blurs, comparable => by
    refine Outcome.Blurs.withNotes ?_ (keptVisits_blur rounds parameters blurs _)
    exact walkLoop_blurs (fun _ _ _ _ _ blurs => Stmt.walkAll_blurs parameters body (.some blurs))
      (fun _ _ _ _ _ blurs => Stmt.walkAll_blurs parameters orelse (.some blurs))
      (fun _ id notIn => ⟨Stmt.suite_keeps body id notIn, Stmt.suite_keeps body id notIn⟩)
      (fun blurs => keptVisits_blur rounds parameters blurs _) blurs comparable
  | .whileLoop _ test body orelse, _, _, _, _, _, blurs, comparable => by
    exact walkLoop_blurs (fun _ _ _ _ _ blurs => Stmt.walkAll_blurs parameters body (.some blurs))
      (fun _ _ _ _ _ blurs => Stmt.walkAll_blurs parameters orelse (.some blurs))
      (fun _ id notIn => ⟨Stmt.suite_keeps body id notIn, Stmt.suite_keeps body id notIn⟩)
      (fun blurs => keptVisits_blur rounds parameters blurs _) blurs comparable
  | .tryBlock _ body handlers orelse finalbody, _, _, _, _, _, blurs, comparable => by
    have first := Stmt.walkAll_blurs parameters body (.some blurs) comparable.first.first.first
    have interrupted := blurs.foldl_join first.exits
    obtain ⟨handledExits, handled⟩ := Handler.walkAll_blurs parameters handlers interrupted
      (comparable.first.first.second first.headers)
    have caught := first.inTurn handled .none
    have otherwise := Stmt.walkAll_blurs parameters orelse first.exit
      (comparable.first.second caught.headers)
    have passed := caught.inTurn otherwise .none
    have last := walkFinally_blurs
      (fun _ _ _ _ _ blurs => Stmt.walkAll_blurs parameters finalbody (.some blurs))
      finalbody.isEmpty (fun isEmpty => by rw [List.isEmpty_iff.mp isEmpty, Stmt.loopIdsOfAll])
      (rel_append handledExits otherwise.exits) interrupted
      (comparable.second passed.headers)
    exact passed.inTurn last last.exit
  | .withBlock _ items _ body, _, _, _, _, _, blurs, comparable => by
    exact (Stmt.walkAll_blurs parameters body (.some blurs) comparable).withNotes
      (keptVisits_blur rounds parameters blurs _)
  | .matchOn _ subject cases, _, _, _, _, _, blurs, comparable => by
    obtain ⟨exits, outcome⟩ := MatchCase.walkAll_blurs parameters cases blurs comparable
    exact (outcome.withExit (Blurs.joinAll (.cons blurs exits))).withNotes
      (keptVisits_blur rounds parameters blurs _)

theorem Stmt.walkAll_blurs (parameters : context.ParametersWellFormed) :
    ∀ (suite : List Stmt) {wide narrow : Option TypeState} {headers narrowHeaders : LoopHeaders}
      {known : NodeId → Prop},
    Option.Rel Blurs wide narrow →
    Comparable context.isFinal (Stmt.loopIdsOfAll suite) known headers narrowHeaders
      (Stmt.completesAll context suite wide headers)
      (Stmt.settlesAll (context.withRounds rounds) suite narrow narrowHeaders) →
    (Stmt.walkAll context suite wide headers).Blurs
      (fun id => known id ∨ id ∈ Stmt.loopIdsOfAll suite)
      (Stmt.walkAll (context.withRounds rounds) suite narrow narrowHeaders)
  | [], _, _, _, _, _, blurs, comparable => by
    rw [Stmt.walkAll, Stmt.walkAll]
    refine ⟨?_, blurs, .nil, .nil, .nil⟩
    simpa [Stmt.loopIdsOfAll] using comparable.headers
  | stmt :: rest, _, _, _, _, _, blurs, comparable => by
    -- A suite that control does not reach is walked from the empty state, in both walks.
    cases blurs with
    | none =>
      have first := Stmt.walk_blurs parameters stmt blurs_empty comparable.first
      have others := Stmt.walkAll_blurs parameters rest .none (comparable.second first.headers)
      exact first.inTurn others others.exit
    | some blurs =>
      have first := Stmt.walk_blurs parameters stmt blurs comparable.first
      have others := Stmt.walkAll_blurs parameters rest first.exit (comparable.second first.headers)
      exact first.inTurn others others.exit

theorem Handler.walkAll_blurs (parameters : context.ParametersWellFormed) :
    ∀ handlers : List Handler, WalkClauses.Blurs context.isFinal (Handler.loopIds handlers)
      (Handler.walkAll context handlers) (Handler.walkAll (context.withRounds rounds) handlers)
      (Handler.passesAll .complete context handlers)
      (Handler.passesAll .settled (context.withRounds rounds) handlers)
  | [] => walkNone_blurs
  | ⟨_, body⟩ :: rest => walkClause_blurs rounds parameters _
    (fun _ _ _ _ _ blurs => Stmt.walkAll_blurs parameters body (.some blurs))
    (Handler.walkAll_blurs parameters rest)

theorem MatchCase.walkAll_blurs (parameters : context.ParametersWellFormed) :
    ∀ cases : List MatchCase, WalkClauses.Blurs context.isFinal (MatchCase.loopIds cases)
      (MatchCase.walkAll context cases) (MatchCase.walkAll (context.withRounds rounds) cases)
      (MatchCase.passesAll .complete context cases)
      (MatchCase.passesAll .settled (context.withRounds rounds) cases)
  | [] => walkNone_blurs
  | ⟨_, body⟩ :: rest => walkClause_blurs rounds parameters _
    (fun _ _ _ _ _ blurs => Stmt.walkAll_blurs parameters body (.some blurs))
    (MatchCase.walkAll_blurs parameters rest)

end

end Walk

/-! ## Modules -/

theorem TypeTable.addAll_blurs {wideNotes narrowNotes : List TypeNote}
    (notes : List.Forall₂ TypeNote.Blurs wideNotes narrowNotes) {wide narrow : TypeTable}
    (tables : ∀ node : NodeId, Option.Rel ValueType.Covers wide[node]? narrow[node]?)
    (node : NodeId) :
    Option.Rel ValueType.Covers (wide.addAll wideNotes)[node]?
      (narrow.addAll narrowNotes)[node]? := by
  induction notes generalizing wide narrow with
  | nil => exact tables node
  | @cons _ _ _ _ blurs _ ih =>
    refine ih fun other => ?_
    rw [getElem?_insert_eq, getElem?_insert_eq, blurs.1]
    split
    · exact .some blurs.2
    · exact tables other

namespace Model

/-- Where a loop is given up, its header knows all that one more round would bring. -/
def completesLoops (model : Model) (module' : Module) : Bool :=
  module'.inferenceBodies.all fun body => (model.ownedScope? body.node).all fun scope =>
    Stmt.completesAll (model.bodyContext scope body false) body.suite (some ∅) ∅

/-- No loop is given up. -/
def settlesLoops (model : Model) (module' : Module) : Bool :=
  module'.inferenceBodies.all fun body => (model.ownedScope? body.node).all fun scope =>
    Stmt.settlesAll (model.bodyContext scope body false) body.suite (some ∅) ∅

variable {model : Model} {rounds : Nat}

theorem bodyNotes_blur {body : InferenceBody}
    (completes : (model.ownedScope? body.node).all (fun scope =>
      Stmt.completesAll (model.bodyContext scope body false) body.suite (some ∅) ∅) = true)
    (settles : ((model.withRounds rounds).ownedScope? body.node).all (fun scope =>
      Stmt.settlesAll ((model.withRounds rounds).bodyContext scope body false) body.suite
        (some ∅) ∅) = true) :
    List.Forall₂ TypeNote.Blurs (model.bodyNotes body)
      ((model.withRounds rounds).bodyNotes body) := by
  cases owned : model.ownedScope? body.node with
  | none =>
    have narrowOwned : (model.withRounds rounds).ownedScope? body.node = none := owned
    rw [bodyNotes, bodyNotes, inferBody_of_none owned, inferBody_of_none narrowOwned]
    exact .nil
  | some scope =>
    have narrowOwned : (model.withRounds rounds).ownedScope? body.node = some scope := owned
    rw [owned] at completes
    rw [narrowOwned] at settles
    simp only [Option.all_some, bodyContext_withRounds] at completes settles
    rw [bodyNotes_of_scope owned, bodyNotes_of_scope narrowOwned]
    simp only [bodyContext_withRounds]
    have parameters := ValueType.closed_wellFormed.parameters model scope body
    have unknown : LoopHeaders.Blur (fun _ => False) ∅ ∅ := fun _ => False.elim
    have first := Stmt.walkAll_blurs rounds (parameters false) body.suite
      (.some blurs_empty)
      ⟨unknown, fun isFinal => absurd isFinal Bool.false_ne_true, fun _ => ⟨completes, settles⟩⟩
    exact (Stmt.walkAll_blurs rounds (parameters true) body.suite (.some blurs_empty)
      ⟨first.headers, fun _ _ => .inr,
        fun isFirst => absurd isFirst.symm Bool.false_ne_true⟩).notes

theorem flatMap_bodyNotes_blur {bodies : List InferenceBody}
    (blur : ∀ body ∈ bodies, List.Forall₂ TypeNote.Blurs (model.bodyNotes body)
      ((model.withRounds rounds).bodyNotes body)) :
    List.Forall₂ TypeNote.Blurs (bodies.flatMap model.bodyNotes)
      (bodies.flatMap (model.withRounds rounds).bodyNotes) := by
  induction bodies with
  | nil => exact .nil
  | cons _ _ ih =>
    rw [forall_mem_cons] at blur
    exact rel_append blur.1 (ih blur.2)

theorem Takes.withRounds {stack taken : List InferenceBody} (takes : model.Takes stack taken) :
    (model.withRounds rounds).Takes stack taken := by
  induction takes with
  | done => exact .done
  | @take body _ _ _ ih =>
    refine .take ?_
    have found : (model.withRounds rounds).foundIn body = model.foundIn body := by
      cases owned : model.ownedScope? body.node with
      | none =>
        have narrowOwned : (model.withRounds rounds).ownedScope? body.node = none := owned
        rw [foundIn, foundIn, inferBody_of_none owned, inferBody_of_none narrowOwned]
      | some scope =>
        have narrowOwned : (model.withRounds rounds).ownedScope? body.node = some scope := owned
        rw [foundIn_of_scope owned, foundIn_of_scope narrowOwned]
    rwa [found]

/-- Giving up loops early only loses precision, if headers know their variables by then. -/
theorem inferTypes_contains_of_rounds (around : Surroundings) (module' : Module) (few many : Nat)
    (completes : (ofModule (around.withRounds few) module').completesLoops module' = true)
    (settles : (ofModule (around.withRounds many) module').settlesLoops module' = true)
    (node : NodeId) :
    Option.Rel ValueType.Contains
      ((ofModule (around.withRounds few) module').inferTypes module')[node]?
      ((ofModule (around.withRounds many) module').inferTypes module')[node]? := by
  have isNarrow : ofModule (around.withRounds many) module' =
      (ofModule (around.withRounds few) module').withRounds many := by
    rw [ofModule_withRounds, ofModule_withRounds]
    rfl
  rw [isNarrow] at settles ⊢
  -- both models take the same bodies in the same order
  obtain ⟨taken, isIn, takes, isWide⟩ :=
    exists_takes_body (ofModule (around.withRounds few) module')
    module'
  obtain ⟨_, _, sameTaken, isNarrow⟩ :=
    exists_takes_body ((ofModule (around.withRounds few) module').withRounds many) module'
  obtain rfl := takes.withRounds.unique sameTaken
  rw [isWide, isNarrow]
  have notes := flatMap_bodyNotes_blur fun body isTaken =>
    bodyNotes_blur (List.all_eq_true.mp completes body (isIn isTaken))
      (List.all_eq_true.mp settles body (isIn isTaken))
  have untyped : ∀ node : NodeId, Option.Rel ValueType.Covers (∅ : TypeTable)[node]?
      (∅ : TypeTable)[node]? := by
    intro node
    rw [Std.ExtTreeMap.getElem?_empty]
    exact .none
  rcases rel_option_cases (TypeTable.addAll_blurs notes untyped node) with
    ⟨isNone, otherNone⟩ | ⟨wideType, narrowType, isSome, otherSome, covers⟩
  · rw [isNone, otherNone]
    exact .none
  · rw [isSome, otherSome]
    exact .some covers.contains

end Model

/-! ## Modules that give up loops -/

theorem SymbolTable.inScope_eq_insertionSort (table : SymbolTable) (scope : ScopeId) :
    table.inScope scope = ((table.names scope).toList.map (·.2)).insertionSort (· ≤ ·) :=
  mergeSort_eq_insertionSort (· ≤ ·) _

theorem Model.inferTypes_eq_bodyNotes (model : Model) {module' : Module}
    (isSole : module'.inferenceBodies.length = 1) :
    model.inferTypes module' =
      TypeTable.addAll ∅ (model.bodyNotes ⟨module'.mark.id, module'.body, false⟩) := by
  rw [inferTypes, isSole]
  exact congrArg (TypeTable.addAll ∅) (append_nil _)

def Module.modelWithin (module' : Module) (rounds : Nat) : Model :=
  .ofModule (Surroundings.withRounds ⟨"", "m.py", none, {}⟩ rounds) module'

def Module.chaining : Module :=
  let mark (id : NodeId) : Mark := ⟨id, ⟨id, id⟩⟩
  let name (id : NodeId) (text : String) : Expr := .name ⟨mark id, text⟩
  let assign (id : NodeId) (target : String) (value : Expr) : Stmt :=
    .simple (mark id) (.assign [name (id + 1) target] value)
  ⟨mark 0,
    [.whileLoop (mark 1) (name 2 "c")
        [assign 3 "y" (name 5 "x"), assign 6 "x" (.literal (mark 8) .int "1" [])] [],
      .branch (mark 9) (name 10 "c") [assign 11 "y" (.literal (mark 13) .str "s" [])] [],
      .simple (mark 14) (.expr (name 15 "y"))]⟩

theorem Model.chaining_contains_of_rounds :
    ∃ wide narrow,
      ((Module.chaining.modelWithin 2).inferTypes Module.chaining)[15]? = some wide ∧
      ((Module.chaining.modelWithin 3).inferTypes Module.chaining)[15]? = some narrow ∧
      wide.isAny = true ∧ narrow.members.length = 2 ∧ wide.Contains narrow := by
  have completes : (Module.chaining.modelWithin 2).completesLoops Module.chaining = true := by
    unfold completesLoops bodyContext trackedVariables
    simp only [SymbolTable.inScope_eq_insertionSort]
    decide +kernel
  have settles : (Module.chaining.modelWithin 3).settlesLoops Module.chaining = true := by
    unfold settlesLoops bodyContext trackedVariables
    simp only [SymbolTable.inScope_eq_insertionSort]
    decide +kernel
  have isAny : ((Module.chaining.modelWithin 2).inferTypes Module.chaining)[15]?.any (·.isAny) =
      true := by
    rw [inferTypes_eq_bodyNotes _ rfl]
    unfold bodyNotes inferBody bodyContext trackedVariables
    simp only [SymbolTable.inScope_eq_insertionSort]
    decide +kernel
  have twoTypes : ((Module.chaining.modelWithin 3).inferTypes Module.chaining)[15]?.any
      (·.members.length == 2) = true := by
    rw [inferTypes_eq_bodyNotes _ rfl]
    unfold bodyNotes inferBody bodyContext trackedVariables
    simp only [SymbolTable.inScope_eq_insertionSort]
    decide +kernel
  obtain ⟨wide, wideFound, isAny⟩ := (Option.any_eq_true ..).mp isAny
  obtain ⟨narrow, narrowFound, twoTypes⟩ := (Option.any_eq_true ..).mp twoTypes
  have contains := Model.inferTypes_contains_of_rounds ⟨"", "m.py", none, {}⟩ Module.chaining 2 3
    completes settles 15
  change Option.Rel _ ((Module.chaining.modelWithin 2).inferTypes _)[15]?
    ((Module.chaining.modelWithin 3).inferTypes _)[15]? at contains
  rw [wideFound, narrowFound] at contains
  cases contains with
  | some contains =>
    exact ⟨wide, narrow, wideFound, narrowFound, isAny, beq_iff_eq.mp twoTypes, contains⟩

def Module.nestedChaining : Module :=
  let mark (id : NodeId) : Mark := ⟨id, ⟨id, id⟩⟩
  let name (id : NodeId) (text : String) : Expr := .name ⟨mark id, text⟩
  let assign (id : NodeId) (target : String) (value : Expr) : Stmt :=
    .simple (mark id) (.assign [name (id + 1) target] value)
  let one (id : NodeId) : Expr := .literal (mark id) .int "1" []
  ⟨mark 0,
    [assign 1 "a" (one 3), assign 4 "b" (one 6), assign 7 "p" (one 9), assign 10 "q" (one 12),
      assign 13 "v" (one 15),
      .whileLoop (mark 16) (name 17 "c")
        [assign 18 "a" (name 20 "b"), assign 21 "b" (name 23 "p"),
          .whileLoop (mark 24) (name 25 "c")
            [assign 26 "p" (name 28 "q"), assign 29 "q" (.literal (mark 31) .str "s" [])] [],
          assign 32 "v" (one 34)] [],
      .simple (mark 35) (.expr (name 36 "v"))]⟩

theorem ValueType.not_rel_contains {wide narrow : Option ValueType}
    (lost : wide.any (fun wide => narrow.any fun narrow => !decide (wide.Contains narrow)) = true) :
    ¬Option.Rel Contains wide narrow := by
  intro contains
  cases contains with
  | none => cases lost
  | some contains => simp [contains] at lost

/-- Neither condition can be left out. -/
theorem Model.not_contains_of_fewer_rounds :
    (∃ (module' : Module) (few many : Nat) (node : NodeId), 1 ≤ few ∧ few ≤ many ∧
      (module'.modelWithin many).settlesLoops module' = true ∧
      ¬Option.Rel ValueType.Contains ((module'.modelWithin few).inferTypes module')[node]?
        ((module'.modelWithin many).inferTypes module')[node]?) ∧
    ∃ (module' : Module) (few many : Nat) (node : NodeId), 1 ≤ few ∧ few ≤ many ∧
      (module'.modelWithin few).completesLoops module' = true ∧
      ¬Option.Rel ValueType.Contains ((module'.modelWithin few).inferTypes module')[node]?
        ((module'.modelWithin many).inferTypes module')[node]? := by
  constructor
  · refine ⟨Module.chaining, 1, 3, 15, by decide, by decide, ?_, ValueType.not_rel_contains ?_⟩
    · unfold settlesLoops bodyContext trackedVariables
      simp only [SymbolTable.inScope_eq_insertionSort]
      decide +kernel
    · rw [inferTypes_eq_bodyNotes _ rfl, inferTypes_eq_bodyNotes _ rfl]
      unfold bodyNotes inferBody bodyContext trackedVariables
      simp only [SymbolTable.inScope_eq_insertionSort]
      decide +kernel
  · refine ⟨Module.nestedChaining, 2, 3, 36, by decide, by decide, ?_,
      ValueType.not_rel_contains ?_⟩
    · unfold completesLoops bodyContext trackedVariables
      simp only [SymbolTable.inScope_eq_insertionSort]
      decide +kernel
    · rw [inferTypes_eq_bodyNotes _ rfl, inferTypes_eq_bodyNotes _ rfl]
      unfold bodyNotes inferBody bodyContext trackedVariables
      simp only [SymbolTable.inScope_eq_insertionSort]
      decide +kernel

end PyStatic
