import PyStatic.Proofs.Types.FinalWalk
import PyStatic.Proofs.Types.LoopRounds
import Mathlib.Data.List.Forall2

/-!
Contract: what is lost when less is known of the same variables.

A state that blurs another knows exactly the same variables. Covering alone would not do: evaluation
has no type for a variable that is not assigned, so a state with fewer variables assigns less, and
what is joined from it is more specific, not less.
-/

namespace PyStatic

open List TypeState ValueType BodyContext

theorem rel_option_cases {α β : Type} {related : α → β → Prop} {left : Option α}
    {right : Option β} (rel : Option.Rel related left right) :
    (left = none ∧ right = none) ∨
      ∃ leftValue rightValue, left = some leftValue ∧ right = some rightValue ∧
        related leftValue rightValue := by
  cases rel with
  | none => exact .inl ⟨rfl, rfl⟩
  | some isRelated => exact .inr ⟨_, _, rfl, rfl, isRelated⟩

theorem forall₂_toList {α β : Type} {related : α → β → Prop} {left : Option α} {right : Option β}
    (rel : Option.Rel related left right) : List.Forall₂ related left.toList right.toList := by
  cases rel with
  | none => exact .nil
  | some isRelated => exact .cons isRelated .nil

namespace ValueType

theorem Covers.trans {wide middle narrow : ValueType} (first : wide.Covers middle)
    (second : middle.Covers narrow) (unknown : middle = any → narrow = any) :
    wide.Covers narrow := by
  by_cases isAny : middle = any
  · rw [isAny] at first
    rw [unknown isAny]
    exact first
  · refine ⟨second.wellFormed, ?_⟩
    rcases first.contains with rfl | wideContains
    · exact .inl rfl
    · refine .inr fun member isMember => ?_
      have single := second.wellFormed.isSingle_of_mem isMember
      obtain ⟨kept, isKept, keptAgrees⟩ := second.contains.resolve_left isAny member isMember
      obtain ⟨found, isFound, foundAgrees⟩ := wideContains kept isKept
      exact ⟨found, isFound, same_trans (isSingle_of_same keptAgrees single) foundAgrees keptAgrees⟩

theorem any_of_same_any {type : ValueType} (agree : any.same type = true) : type = any := by
  cases type with
  | any => rfl
  | _ => simp [same] at agree

theorem Covers.union {wide narrow otherWide otherNarrow : ValueType} (left : wide.Covers narrow)
    (right : otherWide.Covers otherNarrow) :
    (unionOf [wide, otherWide]).Covers (unionOf [narrow, otherNarrow]) := by
  refine covers_unionOf (cons_ne_nil _ _) ?_
  intro type isType
  rcases mem_pair.mp isType with rfl | rfl
  · exact ⟨wide, mem_cons_self, left⟩
  · exact ⟨otherWide, mem_pair.mpr (.inr rfl), right⟩

end ValueType

namespace TypeState

def Blurs (wide narrow : TypeState) : Prop :=
  ∀ symbol : SymbolId, Option.Rel ValueType.Covers wide[symbol]? narrow[symbol]?

variable {wide narrow : TypeState} {wides narrows : List TypeState}

theorem blurs_empty : (∅ : TypeState).Blurs ∅ := by
  intro symbol
  exact .none

theorem Blurs.insert (blurs : wide.Blurs narrow) (symbol : SymbolId)
    {wideType narrowType : ValueType} (covers : wideType.Covers narrowType) :
    Blurs (wide.insert symbol wideType) (narrow.insert symbol narrowType) := by
  intro other
  rw [getElem?_insert_eq, getElem?_insert_eq]
  split
  · exact .some covers
  · exact blurs other

theorem Blurs.erase (blurs : wide.Blurs narrow) (symbol : SymbolId) :
    Blurs (wide.erase symbol) (narrow.erase symbol) := by
  intro other
  rw [Std.ExtTreeMap.getElem?_erase, Std.ExtTreeMap.getElem?_erase]
  split
  · exact .none
  · exact blurs other

theorem Blurs.join (blurs : wide.Blurs narrow) {otherWide otherNarrow : TypeState}
    (others : otherWide.Blurs otherNarrow) :
    (wide.join otherWide).Blurs (narrow.join otherNarrow) := by
  intro symbol
  rw [getElem?_join, getElem?_join]
  refine Option.Rel.casesOn (others symbol) (fun otherCovers => ?_) (blurs symbol)
  refine Option.Rel.casesOn (blurs symbol) (fun covers => ?_) (.some otherCovers)
  exact .some (covers.union otherCovers)

theorem Blurs.foldl_join (blurs : wide.Blurs narrow) (others : List.Forall₂ Blurs wides narrows) :
    TypeState.Blurs (wides.foldl TypeState.join wide) (narrows.foldl TypeState.join narrow) := by
  induction others generalizing wide narrow with
  | nil => exact blurs
  | cons first _ ih => exact ih (blurs.join first)

theorem Blurs.joinAll (blur : List.Forall₂ Blurs wides narrows) :
    Option.Rel Blurs (joinAll wides) (joinAll narrows) := by
  cases blur with
  | nil => exact .none
  | cons first rest => exact .some (first.foldl_join rest)

theorem Blurs.widen (blurs : wide.Blurs narrow) : wide.widen.Blurs narrow := by
  intro symbol
  unfold TypeState.widen
  rw [Std.ExtTreeMap.getElem?_map]
  exact Option.Rel.casesOn (blurs symbol) (fun covers => .some covers.wellFormed.covers_any) .none

theorem isSome_join (left right : TypeState) (symbol : SymbolId) :
    (left.join right)[symbol]?.isSome = (left[symbol]?.isSome || right[symbol]?.isSome) := by
  rw [getElem?_join]
  cases left[symbol]? <;> cases right[symbol]? <;> rfl

theorem isSome_foldl_join {state : TypeState} {symbol : SymbolId}
    (known : state[symbol]?.isSome = true) (others : List TypeState) :
    (others.foldl join state : TypeState)[symbol]?.isSome = true := by
  induction others generalizing state with
  | nil => exact known
  | cons _ _ ih =>
    refine ih ?_
    rw [isSome_join, known]
    rfl

theorem Blurs.of_same_left {other : TypeState} (blurs : wide.Blurs narrow)
    (agree : wide.same other = true)
    (known : ∀ symbol : SymbolId, other[symbol]?.isSome = true → wide[symbol]?.isSome = true) :
    other.Blurs narrow := by
  intro symbol
  rcases rel_option_cases (blurs symbol) with
    ⟨isNone, otherNone⟩ | ⟨wideType, narrowType, isSome, otherSome, covers⟩
  · have unknown : other[symbol]? = none := by
      by_contra isKnown
      have wideKnown := known symbol (Option.isSome_iff_ne_none.mpr isKnown)
      rw [isNone] at wideKnown
      cases wideKnown
    rw [unknown, otherNone]
    exact .none
  · obtain ⟨type, found, agree⟩ := exists_of_same agree isSome
    rw [found, otherSome]
    exact .some (covers.of_same agree)

theorem Blurs.of_same_right {other : TypeState} (blurs : wide.Blurs narrow)
    (agree : narrow.same other = true) (covered : narrow.Covers other) : wide.Blurs other := by
  intro symbol
  rcases rel_option_cases (blurs symbol) with
    ⟨isNone, otherNone⟩ | ⟨wideType, narrowType, isSome, otherSome, covers⟩
  · have unknown : other[symbol]? = none := by
      cases found : other[symbol]? with
      | none => rfl
      | some type =>
        obtain ⟨known, knownFound, -⟩ := covered symbol type found
        rw [otherNone] at knownFound
        cases knownFound
    rw [isNone, unknown]
    exact .none
  · obtain ⟨type, found, typesAgree⟩ := exists_of_same agree otherSome
    obtain ⟨known, knownFound, narrowCovers⟩ := covered symbol type found
    rw [otherSome] at knownFound
    cases knownFound
    rw [isSome, found]
    refine .some (covers.trans narrowCovers ?_)
    rintro rfl
    exact any_of_same_any typesAgree

theorem Blurs.covers_self (blurs : wide.Blurs narrow) : narrow.Covers narrow := by
  intro symbol type found
  rcases rel_option_cases (blurs symbol) with
    ⟨_, otherNone⟩ | ⟨wideType, narrowType, _, otherSome, covers⟩
  · rw [otherNone] at found
    cases found
  · rw [otherSome] at found
    obtain rfl := Option.some.inj found
    exact ⟨narrowType, otherSome, covers.wellFormed.covers_self⟩

theorem widen_blurs {header : TypeState} (blurs : wide.Blurs narrow)
    (known : ∀ symbol : SymbolId, wide[symbol]?.isSome = header.widen[symbol]?.isSome) :
    header.widen.Blurs narrow := by
  intro symbol
  have known := known symbol
  unfold widen at known ⊢
  rw [Std.ExtTreeMap.getElem?_map] at known ⊢
  revert known
  refine Option.Rel.casesOn (blurs symbol) (fun covers => ?_) ?_
  · cases header[symbol]? with
    | none => rintro ⟨⟩
    | some => exact fun _ => .some covers.wellFormed.covers_any
  · cases header[symbol]? with
    | none => exact fun _ => .none
    | some => rintro ⟨⟩

end TypeState

namespace BodyContext

variable {context : BodyContext} (parameters : context.ParametersWellFormed)
  {wide narrow : TypeState} (blurs : wide.Blurs narrow)

include parameters blurs

theorem readType_blurs (name : Identifier) :
    Option.Rel ValueType.Covers (context.readType wide name) (context.readType narrow name) := by
  unfold readType
  split
  · exact .some (WellFormed.covers_any trivial)
  next symbol _ =>
    split
    · refine Option.Rel.casesOn (blurs symbol) .some ?_
      dsimp only
      split
      · exact .some (WellFormed.covers_any trivial)
      · exact .none
    · exact .some (parameters symbol).covers_self

omit parameters blurs in
theorem eitherType_blurs {left otherLeft right otherRight : Option ValueType}
    (first : Option.Rel ValueType.Covers left otherLeft)
    (second : Option.Rel ValueType.Covers right otherRight) :
    Option.Rel ValueType.Covers (eitherType left right) (eitherType otherLeft otherRight) := by
  cases first with
  | none => exact second
  | some covers =>
    cases second with
    | none => exact .some covers
    | some otherCovers => exact .some (covers.union otherCovers)

theorem eval_blurs : ∀ expr : Expr,
    Option.Rel ValueType.Covers (context.eval wide expr) (context.eval narrow expr)
  | .name name => readType_blurs parameters blurs name
  | .literal _ kind _ _ => .some (closed_wellFormed.literalType context kind).covers_self
  | .collection _ shape _ => .some (closed_wellFormed.collectionType context shape).covers_self
  | .dict _ _
  | .slice _ _ => .some (closed_wellFormed.instanceType context.model _).covers_self
  | .comprehension _ kind _ _ _ =>
    .some (closed_wellFormed.comprehensionType context kind).covers_self
  | .conditional _ _ body orelse => eitherType_blurs (eval_blurs body) (eval_blurs orelse)
  | .binary _ .logical left _ right => eitherType_blurs (eval_blurs left) (eval_blurs right)
  | .binary _ .arithmetic left op right => by
    rw [eval, eval]
    refine Option.Rel.casesOn (eval_blurs left) (fun covers => ?_) .none
    refine Option.Rel.casesOn (eval_blurs right) (fun otherCovers => ?_) .none
    exact .some (arithmeticType_covers op covers otherCovers)
  | .unary _ op operand => by
    rw [eval, eval]
    refine Option.Rel.casesOn (eval_blurs operand) (fun covers => ?_) .none
    exact .some (unaryType_covers context op covers)
  | .named _ _ value => eval_blurs value
  | .call _ func _ => by
    cases func with
    | member mark value attr =>
      rw [eval, eval]
      refine Option.Rel.casesOn (eval_blurs value) (fun covers => ?_) ?_
      · exact .some (callType_covers context mark value attr covers)
      · exact .some (closed_wellFormed.callType context _ _).covers_self
    | _ => exact .some (closed_wellFormed.callType context _ _).covers_self
  | .member _ _ _ | .subscript _ _ _ | .lambda _ _ _ | .compare _ _ _ | .starred _ _ _
  | .await _ _ | .yield _ _ _ | .invalid _ _ => .some (WellFormed.covers_any trivial)

theorem noted_covers (rounds : Nat) (expr : Expr) :
    (context.noted wide expr).Covers ((context.withRounds rounds).noted narrow expr) := by
  unfold noted
  rw [eval_withRounds]
  exact Option.Rel.casesOn (eval_blurs parameters blurs expr) id (WellFormed.covers_any trivial)

end BodyContext

def TypeNote.Blurs (wide narrow : TypeNote) : Prop :=
  wide.1 = narrow.1 ∧ wide.2.Covers narrow.2

namespace BodyContext

variable {context : BodyContext} (rounds : Nat) {wideType narrowType : Option ValueType}

theorem keep_blurs {wide narrow : List TypeNote} (blur : List.Forall₂ TypeNote.Blurs wide narrow) :
    List.Forall₂ TypeNote.Blurs (context.keep wide) ((context.withRounds rounds).keep narrow) := by
  unfold keep
  show List.Forall₂ _ _ (if context.isFinal then narrow else [])
  split
  · exact blur
  · exact .nil

variable (parameters : context.ParametersWellFormed) {wide narrow : TypeState}

include parameters

theorem visits_blur (blurs : wide.Blurs narrow) (visits : List TypeVisit) :
    List.Forall₂ TypeNote.Blurs (visits.map (·.note context wide))
      (visits.map (·.note (context.withRounds rounds) narrow)) := by
  rw [forall₂_map_left_iff, forall₂_map_right_iff, forall₂_same]
  intro visit _
  refine ⟨rfl, ?_⟩
  unfold TypeVisit.note TypeVisit.type
  split
  · exact noted_covers parameters blurs rounds _
  · exact WellFormed.covers_any trivial

theorem keptVisits_blur (blurs : wide.Blurs narrow) (visits : List TypeVisit) :
    List.Forall₂ TypeNote.Blurs (context.keep (visits.map (·.note context wide)))
      ((context.withRounds rounds).keep
        (visits.map (·.note (context.withRounds rounds) narrow))) :=
  keep_blurs rounds (visits_blur rounds parameters blurs visits)

omit parameters in
theorem assign_blurs (blurs : wide.Blurs narrow)
    (covers : Option.Rel ValueType.Covers wideType narrowType) (target : Expr) :
    (context.assign wideType wide target).Blurs
      ((context.withRounds rounds).assign narrowType narrow target) := by
  have unaffected : (context.withRounds rounds).assign narrowType narrow target =
      context.assign narrowType narrow target := rfl
  rw [unaffected]
  unfold assign
  split
  · exact blurs
  · split
    · cases covers with
      | none => exact blurs.erase _
      | some covers => exact blurs.insert _ covers
    · exact blurs

theorem assignNotes_blur (blurs : wide.Blurs narrow)
    (covers : Option.Rel ValueType.Covers wideType narrowType) (target : Expr) :
    List.Forall₂ TypeNote.Blurs (context.assignNotes wideType wide target)
      ((context.withRounds rounds).assignNotes narrowType narrow target) := by
  unfold assignNotes
  split
  · refine .cons ⟨rfl, ?_⟩ .nil
    cases covers with
    | none => exact WellFormed.covers_any trivial
    | some covers => exact covers
  · exact visits_blur rounds parameters blurs _

theorem assignAll_blur (covers : Option.Rel ValueType.Covers wideType narrowType)
    (targets : List Expr) (blurs : wide.Blurs narrow) :
    List.Forall₂ TypeNote.Blurs (context.assignNotesOfAll wideType wide targets)
        ((context.withRounds rounds).assignNotesOfAll narrowType narrow targets) ∧
      Blurs (targets.foldl (context.assign wideType) wide)
        (targets.foldl ((context.withRounds rounds).assign narrowType) narrow) := by
  induction targets generalizing wide narrow with
  | nil => exact ⟨.nil, blurs⟩
  | cons target _ ih =>
    obtain ⟨restNotes, restBlurs⟩ :=
      ih (assign_blurs rounds blurs covers target)
    exact ⟨rel_append (assignNotes_blur rounds parameters blurs covers target) restNotes, restBlurs⟩

end BodyContext

def LoopHeaders.Blur (known : NodeId → Prop) (wide narrow : LoopHeaders) : Prop :=
  ∀ id : NodeId, known id → Option.Rel TypeState.Blurs wide[id]? narrow[id]?

/-- Control gets equally far, in states and with notes that the first blurs. -/
structure Outcome.Blurs (known : NodeId → Prop) (wide narrow : Outcome) : Prop where
  headers : wide.headers.Blur known narrow.headers
  exit : Option.Rel TypeState.Blurs wide.exit narrow.exit
  breaks : List.Forall₂ TypeState.Blurs wide.breaks narrow.breaks
  continues : List.Forall₂ TypeState.Blurs wide.continues narrow.continues
  notes : List.Forall₂ TypeNote.Blurs wide.notes narrow.notes

namespace Outcome.Blurs

variable {known otherKnown : NodeId → Prop} {wide narrow otherWide otherNarrow : Outcome}
  {wideExit narrowExit : Option TypeState}

theorem weaken (blurs : wide.Blurs known narrow)
    (isKnown : ∀ id, otherKnown id → known id) : wide.Blurs otherKnown narrow :=
  { blurs with headers := fun id isOther => blurs.headers id (isKnown id isOther) }

theorem exits (blurs : wide.Blurs known narrow) :
    List.Forall₂ TypeState.Blurs wide.exit.toList narrow.exit.toList :=
  forall₂_toList blurs.exit

theorem withNotes (blurs : wide.Blurs known narrow) {wideNotes narrowNotes : List TypeNote}
    (notes : List.Forall₂ TypeNote.Blurs wideNotes narrowNotes) :
    (wide.withNotes wideNotes).Blurs known (narrow.withNotes narrowNotes) :=
  { blurs with notes := rel_append notes blurs.notes }

theorem withExit (blurs : wide.Blurs known narrow)
    (exit : Option.Rel TypeState.Blurs wideExit narrowExit) :
    Outcome.Blurs known { wide with exit := wideExit } { narrow with exit := narrowExit } :=
  { blurs with exit := exit }

theorem followedBy (blurs : wide.Blurs known narrow)
    (others : otherWide.Blurs otherKnown otherNarrow)
    (exit : Option.Rel TypeState.Blurs wideExit narrowExit) :
    (wide.followedBy otherWide wideExit).Blurs otherKnown
      (narrow.followedBy otherNarrow narrowExit) where
  headers := others.headers
  exit := exit
  breaks := rel_append blurs.breaks others.breaks
  continues := rel_append blurs.continues others.continues
  notes := rel_append blurs.notes others.notes

theorem inTurn {ids others : List NodeId}
    (first : wide.Blurs (fun id => known id ∨ id ∈ ids) narrow)
    (second : otherWide.Blurs (fun id => (known id ∨ id ∈ ids) ∨ id ∈ others) otherNarrow)
    (exit : Option.Rel TypeState.Blurs wideExit narrowExit) :
    (wide.followedBy otherWide wideExit).Blurs (fun id => known id ∨ id ∈ ids ++ others)
      (narrow.followedBy otherNarrow narrowExit) := by
  refine (first.followedBy second exit).weaken fun id isKnown => ?_
  rwa [mem_append, ← or_assoc] at isKnown

end Outcome.Blurs

theorem BodyContext.walkSimple_blurs {context : BodyContext} (rounds : Nat)
    (parameters : context.ParametersWellFormed) {wide narrow : TypeState}
    (blurs : wide.Blurs narrow) (form : SimpleStmt) {known : NodeId → Prop}
    {wideHeaders narrowHeaders : LoopHeaders} (headers : wideHeaders.Blur known narrowHeaders) :
    (context.walkSimple form wide wideHeaders).Blurs known
      ((context.withRounds rounds).walkSimple form narrow narrowHeaders) := by
  have assigned (targets : List Expr) (value : Expr) :=
    assignAll_blur rounds parameters (eval_blurs parameters blurs value) targets blurs
  refine ⟨headers, ?_, ?_, ?_, keep_blurs rounds ?_⟩
  · cases form with
    | assign targets value =>
      refine .some ?_
      rw [eval_withRounds]
      exact (assigned targets value).2
    | annotatedAssign target _ value =>
      cases value with
      | none => exact .some blurs
      | some value =>
        refine .some ?_
        rw [eval_withRounds]
        exact (assigned [target] value).2
    | ret => exact .none
    | raise => exact .none
    | leaveLoop => exact .none
    | nextRound => exact .none
    | _ => exact .some blurs
  · cases form with
    | leaveLoop => exact .cons blurs .nil
    | _ => exact .nil
  · cases form with
    | nextRound => exact .cons blurs .nil
    | _ => exact .nil
  · unfold simpleNotes
    refine rel_append (visits_blur rounds parameters blurs _) ?_
    split
    next targets value _ =>
      rw [eval_withRounds]
      exact (assigned targets value).1
    · exact .nil

end PyStatic
