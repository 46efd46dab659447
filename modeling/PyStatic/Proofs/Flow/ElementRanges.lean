import PyStatic.Proofs.Flow.ElementAccess
import PyStatic.Proofs.Flow.Partition
import PyStatic.Proofs.Syntax.Listings

/-!
Contract: the evaluated ranges of a flow graph share out the names of a function body.

The elements of a suite are taken in source order. What is laid out in a list of ranges is kept as
one relation, which a compound statement passes from its suites to its own range.
-/

namespace PyStatic

open List TextRange

instance (link : Link) : Decidable link.Nests :=
  inferInstanceAs (Decidable (_ = _))

@[mk_iff] structure InOrder (ranges : List TextRange) : Prop where
  forwards : ∀ range ∈ ranges, range.start ≤ range.stop
  apart : ranges.Pairwise fun first second => first.stop ≤ second.start

instance (ranges : List TextRange) : Decidable (InOrder ranges) :=
  decidable_of_iff _ (inOrder_iff ranges).symm

def MatchCase.Ordered (clause : MatchCase) : Prop :=
  InOrder (clause.body.map (·.range)) ∧
    ∀ name ∈ clause.head.identifiers, ∀ first ∈ clause.body.head?,
      name.range.stop ≤ first.range.start

instance (clause : MatchCase) : Decidable clause.Ordered :=
  inferInstanceAs (Decidable (_ ∧ _))

/-- The header of a statement ends before its suites. -/
def Stmt.Ordered : Stmt → Prop
  | branch _ test body orelse | whileLoop _ test body orelse =>
    InOrder (test.range :: (body ++ orelse).map (·.range))
  | forLoop _ target iter _ body orelse =>
    InOrder ([target.range, iter.range] ++ (body ++ orelse).map (·.range))
  | withBlock mark items _ body =>
    InOrder (items.map (·.range) ++ body.map (·.range)) ∧
      ∀ item ∈ items, item.range.within mark.range ∧ ∀ link ∈ item.links item.range, link.Nests
  | matchOn _ subject cases =>
    InOrder (subject.range :: cases.map (·.head.mark.range)) ∧ ∀ clause ∈ cases, clause.Ordered
  | _ => True

instance : DecidablePred Stmt.Ordered
  | .branch .. | .whileLoop .. | .forLoop .. => inferInstanceAs (Decidable (InOrder _))
  | .withBlock .. | .matchOn .. => inferInstanceAs (Decidable (_ ∧ _))
  | .simple .. | .functionDef .. | .classDef .. | .tryBlock .. => .isTrue trivial

/-- Nodes lie inside the nodes around them, and siblings follow one another. -/
structure Stmt.WellNested (above : TextRange) (body : List Stmt) : Prop where
  nested : ∀ link ∈ Stmt.linksOfAll above body, link.Nests
  inOrder : InOrder (body.map (·.range))
  ordered : ∀ stmt : Stmt, stmt.OccursIn body → stmt.Ordered

namespace InOrder

variable {ranges others : List TextRange}

theorem left (inOrder : InOrder (ranges ++ others)) : InOrder ranges :=
  ⟨(forall_mem_append.mp inOrder.forwards).1, (pairwise_append.mp inOrder.apart).1⟩

theorem right (inOrder : InOrder (ranges ++ others)) : InOrder others :=
  ⟨(forall_mem_append.mp inOrder.forwards).2, (pairwise_append.mp inOrder.apart).2.1⟩

theorem stop_le (inOrder : InOrder (ranges ++ others)) :
    ∀ range ∈ ranges, ∀ other ∈ others, range.stop ≤ other.start :=
  (pairwise_append.mp inOrder.apart).2.2

theorem within_cover (inOrder : InOrder ranges) {first last : TextRange}
    (isFirst : ranges.head? = some first) (isLast : ranges.getLast? = some last) :
    ∀ range ∈ ranges, range.within (first.cover last) = true := by
  intro range isIn
  obtain ⟨tail, rfl⟩ := head?_eq_some_iff.mp isFirst
  obtain ⟨front, isFront⟩ := getLast?_eq_some_iff.mp isLast
  rw [within_iff]
  constructor
  · rcases mem_cons.mp isIn with rfl | isIn
    · exact Nat.le_refl _
    · exact Nat.le_trans (inOrder.forwards first (mem_cons_self ..))
        ((pairwise_cons.mp inOrder.apart).1 range isIn)
  · rw [isFront] at inOrder isIn
    rcases mem_append.mp isIn with isIn | isIn
    · have isLast : last ∈ [last] := mem_singleton_self _
      exact Nat.le_trans (inOrder.stop_le range isIn last isLast)
        (inOrder.right.forwards last isLast)
    · obtain rfl := mem_singleton.mp isIn
      exact Nat.le_refl _

end InOrder

namespace Stmt.WellNested

variable {above around : TextRange} {stmt : Stmt} {body rest inner : List Stmt}

theorem within (nest : WellNested above body) : ∀ stmt ∈ body, stmt.range.within above = true := by
  have nested := nest.nested
  clear nest
  induction body with
  | nil => exact fun _ isIn => absurd isIn not_mem_nil
  | cons stmt _ ih =>
    rw [Stmt.linksOfAll, forall_mem_append] at nested
    exact forall_mem_cons.mpr ⟨nested.1 _ (stmt.mark_mem_links above), ih nested.2⟩

theorem head (nest : WellNested above (stmt :: rest)) : WellNested above [stmt] where
  nested link isLink := nest.nested link (by simp_all [Stmt.linksOfAll])
  inOrder := @InOrder.left [stmt.range] _ nest.inOrder
  ordered inner occurs := nest.ordered inner (occurs.mono (by simp))

theorem tail (nest : WellNested above (stmt :: rest)) : WellNested above rest where
  nested link isLink := nest.nested link (by simp_all [Stmt.linksOfAll])
  inOrder := @InOrder.right [stmt.range] _ nest.inOrder
  ordered inner occurs := nest.ordered inner (occurs.mono (by simp))

theorem suite (nest : WellNested above [stmt]) (isSuite : inner ∈ stmt.suites)
    (isPart : Stmt.linksOfAll around inner ⊆ stmt.links above)
    (inOrder : InOrder (inner.map (·.range))) : WellNested around inner where
  nested link isLink := nest.nested link (by simp_all [Stmt.linksOfAll, isPart isLink])
  inOrder := inOrder
  ordered _ occurs := nest.ordered _ (.inside (mem_singleton_self _) isSuite occurs)

end Stmt.WellNested

/-- Elements that follow one another in these ranges, with these names in them. -/
structure Laid (regions : List TextRange) (elements : List Element) (names : List Identifier) :
    Prop where
  inside : ∀ element ∈ elements, ∃ region ∈ regions, element.evaluatedRange.within region = true
  apart : elements.Pairwise fun first second =>
    first.evaluatedRange.stop ≤ second.evaluatedRange.start
  covered : ∀ name ∈ names, ∃ element ∈ elements, name.range.within element.evaluatedRange = true

namespace Laid

variable {regions others : List TextRange} {outer : TextRange} {element : Element}
  {elements further : List Element} {names own : List Identifier} {above : TextRange}

theorem nil : Laid regions [] [] :=
  ⟨fun _ isIn => absurd isIn not_mem_nil, .nil, fun _ isIn => absurd isIn not_mem_nil⟩

theorem append (first : Laid regions elements names) (second : Laid others further own)
    (stop_le : ∀ region ∈ regions, ∀ other ∈ others, region.stop ≤ other.start) :
    Laid (regions ++ others) (elements ++ further) (names ++ own) := by
  refine ⟨?_, pairwise_append.mpr ⟨first.apart, second.apart, ?_⟩, ?_⟩
  · have left := first.inside
    have right := second.inside
    grind
  · intro element isElement other isOther
    obtain ⟨region, isRegion, isWithin⟩ := first.inside element isElement
    obtain ⟨further, isFurther, otherWithin⟩ := second.inside other isOther
    have le := stop_le region isRegion further isFurther
    rw [within_iff] at isWithin otherWithin
    omega
  · have left := first.covered
    have right := second.covered
    grind

theorem single (element : Element)
    (covered : ∀ name ∈ own, name.range.within element.evaluatedRange = true) :
    Laid [element.evaluatedRange] [element] own :=
  ⟨by simp [within_refl], pairwise_singleton .., by simpa using covered⟩

theorem under (below : Laid regions elements names)
    (inside : element.evaluatedRange.within outer = true)
    (within : ∀ region ∈ regions, region.within outer = true)
    (stop_le : ∀ region ∈ regions, element.evaluatedRange.stop ≤ region.start)
    (covered : ∀ name ∈ own, name.range.within element.evaluatedRange = true) :
    Laid [outer] (element :: elements) (own ++ names) := by
  have all := (single element covered).append below (by simpa using stop_le)
  refine ⟨fun element isElement => ?_, all.apart, all.covered⟩
  obtain ⟨region, isRegion, isWithin⟩ := all.inside element isElement
  refine ⟨outer, mem_singleton_self _, within_trans isWithin ?_⟩
  rcases mem_cons.mp isRegion with rfl | isRegion
  · exact inside
  · exact within region isRegion

theorem compound {above : TextRange} {stmt : Stmt} {body orelse : List Stmt}
    (free : Stmt.TryFree [stmt]) (nest : Stmt.WellNested above [stmt])
    (suites : stmt.suites = [body, orelse])
    (isPart : Stmt.linksOfAll outer body ++ Stmt.linksOfAll outer orelse ⊆ stmt.links above)
    (first : Stmt.TryFree body → Stmt.WellNested outer body →
      Laid (body.map (·.range)) (Stmt.ownElementsOfAll body) (Stmt.identifiersOfAll body))
    (second : Stmt.TryFree orelse → Stmt.WellNested outer orelse →
      Laid (orelse.map (·.range)) (Stmt.ownElementsOfAll orelse) (Stmt.identifiersOfAll orelse))
    (inOrder : InOrder (regions ++ (body ++ orelse).map (·.range)))
    (isHeader : ∃ region ∈ regions, element.evaluatedRange.stop = region.stop)
    (inside : element.evaluatedRange.within outer = true)
    (covered : ∀ name ∈ own, name.range.within element.evaluatedRange = true) :
    Laid [outer] (element :: (Stmt.ownElementsOfAll body ++ Stmt.ownElementsOfAll orelse))
      (own ++ Stmt.identifiersOfAll body ++ Stmt.identifiersOfAll orelse) := by
  obtain ⟨region, isRegion, stop_eq⟩ := isHeader
  have isBody : body ∈ stmt.suites := by simp [suites]
  have isOrelse : orelse ∈ stmt.suites := by simp [suites]
  rw [append_subset] at isPart
  rw [map_append] at inOrder
  have nestBody := nest.suite isBody isPart.1 inOrder.right.left
  have nestOrelse := nest.suite isOrelse isPart.2 inOrder.right.right
  rw [append_assoc]
  refine ((first (free.suite isBody) nestBody).append (second (free.suite isOrelse) nestOrelse)
    inOrder.right.stop_le).under inside ?_ ?_ covered
  · rw [forall_mem_append, forall_mem_map, forall_mem_map]
    exact ⟨nestBody.within, nestOrelse.within⟩
  · exact stop_eq ▸ inOrder.stop_le region isRegion

end Laid

theorem Element.managersRange_covers {mark : Mark} {items : List WithItem} {others : List TextRange}
    (forwards : mark.range.start ≤ mark.range.stop)
    (inOrder : InOrder (items.map (·.range) ++ others))
    (isInside : ∀ item ∈ items, item.range.within mark.range = true)
    (othersInside : ∀ other ∈ others, other.within mark.range = true) :
    (managersRange mark items).within mark.range = true ∧
      (∀ other ∈ others, (managersRange mark items).stop ≤ other.start) ∧
      ∀ item ∈ items, item.range.within (managersRange mark items) = true := by
  rcases eq_nil_or_concat' items with rfl | ⟨front, last, rfl⟩
  · refine ⟨(within_iff ..).mpr ⟨Nat.le_refl _, forwards⟩, ?_, by simp⟩
    exact fun other isOther => ((within_iff ..).mp (othersInside other isOther)).1
  · obtain ⟨first, isFirst⟩ := Option.isSome_iff_exists.mp
      (show (front ++ [last]).head?.isSome = true by simp)
    have range_eq : managersRange mark (front ++ [last]) = first.range.cover last.range := by
      simp [managersRange, isFirst]
    have firstInside := isInside first (mem_of_head? isFirst)
    have lastInside := isInside last (by simp)
    rw [range_eq]
    refine ⟨?_, inOrder.stop_le last.range (by simp), fun item isItem => ?_⟩
    · rw [within_iff] at firstInside lastInside ⊢
      exact ⟨firstInside.1, lastInside.2⟩
    · exact inOrder.left.within_cover (by rw [head?_map, isFirst]; rfl) (by simp) item.range
        (mem_map_of_mem isItem)

theorem MatchCase.within_of_nests (cases : List MatchCase)
    (nested : ∀ link ∈ MatchCase.linksOfAll above cases, link.Nests) :
    ∀ clause ∈ cases, clause.head.mark.range.within above = true := by
  induction cases with
  | nil => exact fun _ isIn => absurd isIn not_mem_nil
  | cons clause _ ih =>
    obtain ⟨head, body⟩ := clause
    rw [MatchCase.linksOfAll, forall_mem_append] at nested
    exact forall_mem_cons.mpr ⟨nested.1 ⟨above, head.mark⟩ (by simp [CaseHead.links]), ih nested.2⟩

theorem MatchCase.laid_clause {head : CaseHead} {body : List Stmt}
    (below : Laid (body.map (·.range)) elements names)
    (nested : ∀ link ∈ head.links above, link.Nests) (ordered : MatchCase.Ordered ⟨head, body⟩)
    (nest : Stmt.WellNested head.mark.range body) :
    Laid [head.mark.range] (.case ⟨head, body⟩ :: elements) (head.identifiers ++ names) := by
  have covered := (head.listed above).inside nested
  obtain ⟨inOrder, before⟩ := ordered
  cases body with
  | nil => exact below.under (within_refl _) (by simp) (by simp) covered
  | cons first =>
    have inside := nest.within
    have forwards := inOrder.forwards first.range (mem_cons_self ..)
    refine below.under ?_ (forall_mem_map.mpr inside) ?_ fun name isName => ?_
    · have firstInside := (within_iff ..).mp (inside first (mem_cons_self ..))
      exact (within_iff ..).mpr ⟨Nat.le_refl _, Nat.le_trans forwards firstInside.2⟩
    · rw [map_cons, forall_mem_cons]
      exact ⟨Nat.le_refl _, fun region isRegion => Nat.le_trans forwards
        (@InOrder.stop_le [first.range] _ inOrder _ (mem_singleton_self _) region isRegion)⟩
    · exact (within_iff ..).mpr ⟨((within_iff ..).mp (covered name isName)).1,
        before name isName first rfl⟩

mutual

theorem Stmt.laid : ∀ stmt : Stmt, Stmt.TryFree [stmt] →
    Stmt.WellNested above [stmt] → Laid [stmt.range] stmt.ownElements stmt.identifiers
  | .simple mark form, _, nest =>
    .single (.stmt (.simple mark form)) ((form.listed mark.range mark).inside (forall_mem_cons.mpr
      ⟨within_refl _, fun link (isLink : link ∈ form.links mark.range) =>
        nest.nested link (by simp [Stmt.linksOfAll, Stmt.links, isLink])⟩))
  | .functionDef head body, _, nest =>
    .single (.stmt (.functionDef head body)) (((head.listed above).append
      (Stmt.listedOfAll head.mark.range body)).inside
      (by simpa [Stmt.linksOfAll, Stmt.links] using nest.nested))
  | .classDef head body, _, nest =>
    .single (.stmt (.classDef head body)) (((head.listed above).append
      (Stmt.listedOfAll head.mark.range body)).inside
      (by simpa [Stmt.linksOfAll, Stmt.links] using nest.nested))
  | .branch mark test body orelse, free, nest
  | .whileLoop mark test body orelse, free, nest => by
    have inOrder : InOrder ([test.range] ++ (body ++ orelse).map (·.range)) :=
      nest.ordered _ (.here (mem_singleton_self _))
    obtain ⟨inside, covered⟩ := @Expr.within_of_nests mark.range test fun link isLink =>
      nest.nested link (by simp [Stmt.linksOfAll, Stmt.links, isLink])
    exact .compound free nest rfl (by grind [Stmt.links, Stmt.range, Stmt.mark])
      (Stmt.laidOfAll body) (Stmt.laidOfAll orelse) inOrder ⟨_, mem_singleton_self _, rfl⟩ inside
      covered
  | .forLoop mark target iter _ body orelse, free, nest => by
    have inOrder : InOrder ([target.range, iter.range] ++ (body ++ orelse).map (·.range)) :=
      nest.ordered _ (.here (mem_singleton_self _))
    obtain ⟨targetInside, targetCovered⟩ := @Expr.within_of_nests mark.range target
      fun link isLink => nest.nested link (by simp [Stmt.linksOfAll, Stmt.links, isLink])
    obtain ⟨iterInside, iterCovered⟩ := @Expr.within_of_nests mark.range iter
      fun link isLink => nest.nested link (by simp [Stmt.linksOfAll, Stmt.links, isLink])
    -- the element of the loop spans target and iterable, in this order
    have covers := inOrder.left.within_cover rfl rfl
    refine .compound free nest rfl (by grind [Stmt.links, Stmt.range, Stmt.mark])
      (Stmt.laidOfAll body) (Stmt.laidOfAll orelse) inOrder ⟨iter.range, by simp, rfl⟩ ?_
      (forall_mem_append.mpr ⟨?_, ?_⟩)
    · rw [within_iff] at targetInside iterInside ⊢
      exact ⟨targetInside.1, iterInside.2⟩
    · exact fun name isName => within_trans (iterCovered name isName)
        (covers iter.range (by simp))
    · exact fun name isName => within_trans (targetCovered name isName)
        (covers target.range (by simp))
  | .tryBlock _ _ _ _ _, free, _ =>
    absurd (free _ (.here (mem_singleton_self _))) (by simp [Stmt.isTry])
  | .withBlock mark items _ body, free, nest => by
    have ordered : Stmt.Ordered (.withBlock mark items _ body) :=
      nest.ordered _ (.here (mem_singleton_self _))
    obtain ⟨inOrder, isItem⟩ := ordered
    have nestBody : Stmt.WellNested mark.range body :=
      nest.suite (by simp [Stmt.suites]) (by grind [Stmt.links]) inOrder.right
    have bodyInside : ∀ region ∈ body.map (·.range), region.within mark.range = true :=
      forall_mem_map.mpr nestBody.within
    obtain ⟨inside, stop_le, covers⟩ := Element.managersRange_covers
      (nest.inOrder.forwards mark.range (mem_singleton_self _)) inOrder
      (fun item isIn => (isItem item isIn).1) bodyInside
    refine (Stmt.laidOfAll body (free.suite (by simp [Stmt.suites])) nestBody).under inside
      bodyInside stop_le fun name isName => ?_
    obtain ⟨item, isIn, isName⟩ := mem_flatMap.mp isName
    exact within_trans ((item.listed item.range).inside (isItem item isIn).2 name isName)
      (covers item isIn)
  | .matchOn mark subject cases, free, nest => by
    have ordered : Stmt.Ordered (.matchOn mark subject cases) :=
      nest.ordered _ (.here (mem_singleton_self _))
    obtain ⟨inOrder, clauses⟩ := ordered
    have nested : ∀ link ∈ MatchCase.linksOfAll mark.range cases, link.Nests :=
      fun link isLink => nest.nested link (by simp [Stmt.linksOfAll, Stmt.links, isLink])
    obtain ⟨inside, covered⟩ := @Expr.within_of_nests mark.range subject fun link isLink =>
      nest.nested link (by simp [Stmt.linksOfAll, Stmt.links, isLink])
    refine (MatchCase.laid cases (fun clause isClause => free.suite (mem_map_of_mem isClause))
      nested clauses (fun clause isClause stmt occurs => nest.ordered stmt
        (.inside (mem_singleton_self _) (mem_map_of_mem isClause) occurs))
      (@InOrder.right [subject.range] _ inOrder)).under inside ?_
      (@InOrder.stop_le [subject.range] _ inOrder _ (mem_singleton_self _)) covered
    exact forall_mem_map.mpr (MatchCase.within_of_nests cases nested)

theorem Stmt.laidOfAll : ∀ body : List Stmt, Stmt.TryFree body →
    Stmt.WellNested above body →
      Laid (body.map (·.range)) (Stmt.ownElementsOfAll body) (Stmt.identifiersOfAll body)
  | [], _, _ => .nil
  | stmt :: rest, free, nest =>
    (stmt.laid free.head nest.head).append (Stmt.laidOfAll rest free.tail nest.tail)
      (@InOrder.stop_le [stmt.range] _ nest.inOrder)

theorem MatchCase.laid : ∀ cases : List MatchCase,
    (∀ clause ∈ cases, Stmt.TryFree clause.body) →
    (∀ link ∈ MatchCase.linksOfAll above cases, link.Nests) → (∀ clause ∈ cases, clause.Ordered) →
    (∀ clause ∈ cases, ∀ stmt : Stmt, stmt.OccursIn clause.body → stmt.Ordered) →
    InOrder (cases.map (·.head.mark.range)) →
      Laid (cases.map (·.head.mark.range)) (MatchCase.ownElements cases)
        (MatchCase.identifiers cases)
  | [], _, _, _, _, _ => .nil
  | ⟨head, body⟩ :: rest, free, nested, clauses, ordered, inOrder => by
    rw [forall_mem_cons] at free clauses ordered
    rw [MatchCase.linksOfAll, forall_mem_append, forall_mem_append] at nested
    have nest : Stmt.WellNested head.mark.range body := ⟨nested.1.2, clauses.1.1, ordered.1⟩
    have below := Stmt.laidOfAll body free.1 nest
    exact (MatchCase.laid_clause below nested.1.1 clauses.1 nest).append
      (MatchCase.laid rest free.2 nested.2 clauses.2 ordered.2
        (@InOrder.right [head.mark.range] _ inOrder))
      (@InOrder.stop_le [head.mark.range] _ inOrder)

end

theorem Laid.countP_eq_one {regions : List TextRange} (laid : Laid regions elements names)
    {name : Identifier} (isName : name ∈ names) (nonempty : name.range.start < name.range.stop) :
    elements.countP (fun element => name.range.within element.evaluatedRange) = 1 := by
  obtain ⟨element, isElement, isWithin⟩ := laid.covered name isName
  obtain ⟨before, after, rfl⟩ := append_of_mem isElement
  have apart := pairwise_append.mp laid.apart
  have earlier : before.countP (fun element => name.range.within element.evaluatedRange) = 0 := by
    refine countP_eq_zero.mpr fun other isOther otherWithin => ?_
    have stop_le := apart.2.2 other isOther element (mem_cons_self ..)
    rw [within_iff] at isWithin otherWithin
    omega
  have later : after.countP (fun element => name.range.within element.evaluatedRange) = 0 := by
    refine countP_eq_zero.mpr fun other isOther otherWithin => ?_
    have stop_le := (pairwise_cons.mp apart.2.1).1 other isOther
    rw [within_iff] at isWithin otherWithin
    omega
  simp only [countP_append, countP_cons, earlier, later, isWithin, ↓reduceIte]

theorem flatMap_if_singleton {α β : Type} (keeps : α → Bool) (item : β) (owners : List α) :
    owners.flatMap (fun owner => if keeps owner then [item] else []) =
      replicate (owners.countP keeps) item := by
  induction owners with
  | nil => rfl
  | cons owner _ ih =>
    rw [flatMap_cons, ih, countP_cons]
    cases keeps owner <;> simp [replicate_succ]

theorem perm_flatMap_filter {α β : Type} (owns : α → β → Bool) (owners : List α) (items : List β)
    (once : ∀ item ∈ items, owners.countP (owns · item) = 1) :
    (owners.flatMap fun owner => items.filter (owns owner)).Perm items := by
  induction items with
  | nil => simp
  | cons item rest ih =>
    rw [forall_mem_cons] at once
    have split : ∀ owner, (item :: rest).filter (owns owner) =
        (if owns owner item then [item] else []) ++ rest.filter (owns owner) := by
      intro owner
      rw [filter_cons]
      split <;> rfl
    simp only [split]
    refine (flatMap_append_perm ..).symm.trans ?_
    rw [flatMap_if_singleton, once.1]
    exact (ih once.2).cons item

/-- Each name lies in the evaluated range of exactly one element, which reads or writes it by its
kind. -/
theorem FunctionDef.elements_separate_names (function : FunctionDef)
    (free : Stmt.TryFree function.body)
    (nest : Stmt.WellNested function.head.mark.range function.body)
    (named : ∀ name ∈ Stmt.identifiersOfAll function.body, name.range.start < name.range.stop) :
    ∃ graph, function.flow? = some graph ∧
      (graph.allElements.Pairwise fun first second => ∀ offset,
        ¬ (first.evaluatedRange.contains offset = true ∧
          second.evaluatedRange.contains offset = true)) ∧
      (∀ name ∈ Stmt.identifiersOfAll function.body,
        graph.allElements.countP (fun element => name.range.within element.evaluatedRange) = 1) ∧
      ∀ usages : List LocalUsage,
        (∀ used ∈ usages, ∃ name ∈ Stmt.identifiersOfAll function.body,
          used.usage.range = name.range) →
        (graph.allElements.flatMap (·.counted usages)).Perm usages ∧
          ∀ element ∈ graph.allElements, ∀ symbol,
            (symbol ∈ (element.access usages).reads ↔ ∃ used ∈ element.counted usages,
              element.ReadsAt (element.boundNodes usages) used.usage ∧ used.symbol = symbol) ∧
            (symbol ∈ (element.access usages).writes ↔ ∃ used ∈ element.counted usages,
              element.WritesAt used.usage ∧ used.symbol = symbol) := by
  have laid := Stmt.laidOfAll function.body free nest
  have sameElements := Stmt.graph_allElements function.body free
  have once : ∀ name ∈ Stmt.identifiersOfAll function.body,
      (Stmt.graph function.body).allElements.countP
        (fun element => name.range.within element.evaluatedRange) = 1 := by
    intro name isName
    rw [sameElements.countP_eq]
    exact laid.countP_eq_one isName (named name isName)
  refine ⟨Stmt.graph function.body, ?_, ?_, once, fun usages areNames => ⟨?_, ?_⟩⟩
  · rw [FunctionDef.flow?, (Stmt.containTry_eq_false_iff _).mpr free]
    rfl
  · refine (sameElements.pairwise_iff fun disjoint offset both =>
      disjoint offset ⟨both.2, both.1⟩).mpr (laid.apart.imp fun stop_le offset both => ?_)
    simp only [TextRange.contains, Bool.and_eq_true, decide_eq_true_eq] at both
    omega
  · refine perm_flatMap_filter (fun (element : Element) used =>
      used.usage.range.within element.evaluatedRange) _ usages fun used isUsed => ?_
    obtain ⟨name, isName, range_eq⟩ := areNames used isUsed
    rw [range_eq]
    exact once name isName
  · exact fun element _ symbol =>
      ⟨element.mem_reads usages symbol, element.mem_writes usages symbol⟩

def FunctionDef.nesting : FunctionDef :=
  let mark (start stop : Nat) : Mark := ⟨start, ⟨start, stop⟩⟩
  let word (start : Nat) (text : String) : Identifier := ⟨mark start (start + 1), text⟩
  let read (start : Nat) (text : String) : Stmt :=
    .simple (mark start (start + 1)) (.expr (.name (word start text)))
  let loop : Stmt := .forLoop (mark 11 39) (.name (word 15 "x")) (.name (word 20 "m")) false
    [.withBlock (mark 25 39) [⟨⟨30, 36⟩, .name (word 30 "x"), some (.name (word 35 "w"))⟩] false
      [read 38 "w"]] []
  let clause : MatchCase :=
    ⟨⟨mark 52 66, .capture (word 57 "y"), some (.name (word 62 "y"))⟩, [read 65 "y"]⟩
  let inner : Stmt := .functionDef ⟨mark 68 78, word 72 "g", [], none, [], false⟩ [read 77 "m"]
  ⟨⟨mark 0 78, word 4 "f", [], none, [], false⟩,
    [loop, .matchOn (mark 41 66) (.name (word 47 "m")) [clause], inner]⟩

/-- The loop variable is written by the header of the loop and read by that of the `with` block. -/
def FunctionDef.nestingUsages : List LocalUsage :=
  [⟨0, 15, ⟨15, 16⟩, .assignmentTarget⟩, ⟨0, 30, ⟨30, 31⟩, .other⟩]

theorem FunctionDef.nesting_separated : ∃ graph, FunctionDef.nesting.flow? = some graph ∧
    (∀ name ∈ Stmt.identifiersOfAll FunctionDef.nesting.body,
      graph.allElements.countP (fun element => name.range.within element.evaluatedRange) = 1) ∧
    ∃ loop ∈ graph.allElements, ∃ managers ∈ graph.allElements,
      0 ∈ (loop.access FunctionDef.nestingUsages).writes ∧
      0 ∉ (loop.access FunctionDef.nestingUsages).reads ∧
      0 ∈ (managers.access FunctionDef.nestingUsages).reads := by
  have ordered : ∀ stmt ∈ visitedStmts (Stmt.outlines FunctionDef.nesting.body), stmt.Ordered := by
    decide
  have nest : Stmt.WellNested FunctionDef.nesting.head.mark.range FunctionDef.nesting.body :=
    ⟨by decide, by decide,
      fun stmt occurs => ordered stmt ((Stmt.mem_visitedStmts stmt _).mpr occurs)⟩
  obtain ⟨graph, drawn, -, once, usages⟩ := FunctionDef.elements_separate_names FunctionDef.nesting
    ((Stmt.containTry_eq_false_iff _).mp (by decide)) nest (by decide)
  obtain rfl : Stmt.graph FunctionDef.nesting.body = graph := Option.some.inj drawn
  obtain ⟨-, accesses⟩ := usages FunctionDef.nestingUsages (by decide)
  have isLoop := mem_of_getElem?
    (show (Stmt.graph FunctionDef.nesting.body).allElements[0]? = _ from rfl)
  have isWith := mem_of_getElem?
    (show (Stmt.graph FunctionDef.nesting.body).allElements[2]? = _ from rfl)
  refine ⟨_, drawn, once, _, isLoop, _, isWith, ?_, fun isRead => ?_, ?_⟩
  · refine (accesses _ isLoop 0).2.mpr ⟨_, mem_filter.mpr ⟨.head _, by decide⟩, ?_⟩
    exact ⟨.inr ⟨by decide, by decide⟩, rfl⟩
  · obtain ⟨used, isCounted, ⟨-, reads⟩, -⟩ := (accesses _ isLoop 0).1.mp isRead
    rcases mem_singleton.mp isCounted with rfl
    rcases reads with ⟨⟨⟩⟩ | ⟨⟨⟩, -⟩
  · refine (accesses _ isWith 0).1.mpr ⟨_, mem_filter.mpr ⟨.tail _ (.head _), by decide⟩, ?_⟩
    exact ⟨⟨by decide, .inr ⟨rfl, by decide⟩⟩, rfl⟩

end PyStatic
