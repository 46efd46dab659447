import PyStatic.Proofs.Binding.SurveyedNodes
import PyStatic.Proofs.Flow.Captures
import PyStatic.Proofs.Flow.Evaluation
import PyStatic.Proofs.Flow.Partition
import PyStatic.Proofs.Syntax.Listings

/-!
Contract: which of the variables that an element kills are overwritten by every evaluation.

Liveness takes each variable that an element writes out of the live set. That is right where every
evaluation overwrites the variable. Where some evaluation passes all its writes over, an earlier
value survives the element and may be read later.
-/

namespace PyStatic

open List Stmt

def Bindings.PartOf (part : Bindings) (ids : List NodeId) (whole : Bindings)
    (wholeIds : List NodeId) : Prop :=
  ∀ node, ids.count node + whole.count node ≤ wholeIds.count node + part.count node

namespace Bindings

variable {first second third : Bindings} {ids others more : List NodeId} {element : Element}
  {clause : MatchCase}

theorem PartOf.refl (bindings : Bindings) (ids : List NodeId) : bindings.PartOf ids bindings ids :=
  fun _ => Nat.le_refl _

theorem PartOf.trans (inner : first.PartOf ids second others)
    (outer : second.PartOf others third more) : first.PartOf ids third more := by
  intro node
  have inSecond := inner node
  have inThird := outer node
  omega

theorem StandAt.partOf_left (stand : second.StandAt others) :
    first.PartOf ids (first ++ second) (ids ++ others) := by
  intro node
  have stands := stand node
  rw [count_append, List.count_append]
  omega

theorem StandAt.partOf_right (stand : first.StandAt ids) :
    second.PartOf others (first ++ second) (ids ++ others) := by
  intro node
  have stands := stand node
  rw [count_append, List.count_append]
  omega

theorem partOf_after (earlier : List NodeId) : first.PartOf ids first (earlier ++ ids) := by
  intro node
  rw [List.count_append]
  omega

theorem PartOf.mem_marks (part : first.PartOf ids second others) (distinct : others.Nodup)
    {mark : Mark} (isNode : mark.id ∈ ids) (isBound : mark ∈ second.marks) :
    ∃ own ∈ first.marks, own.id = mark.id := by
  have here := List.count_pos_iff.mpr isNode
  have once := nodup_iff_count.mp distinct mark.id
  have bound := (count_pos_iff second mark.id).mpr ⟨mark, isBound, rfl⟩
  have outside := part mark.id
  exact (count_pos_iff first mark.id).mp (by omega)

end Bindings

open Bindings

theorem Stmt.partOf_suite {stmt : Stmt} : ∀ {body : List Stmt}, stmt ∈ body →
    stmt.bindings.PartOf stmt.ids (Stmt.bindingsOfAll body) (Stmt.idsOfAll body)
  | first :: rest, isIn => by
    rcases mem_cons.mp isIn with rfl | isIn
    · exact (bindingsOfAll_standAt rest).partOf_left
    · exact (partOf_suite isIn).trans first.bindings_standAt.partOf_right

theorem Handler.body_partOf {handler : Handler} : ∀ {handlers : List Handler}, handler ∈ handlers →
    (Stmt.bindingsOfAll handler.body).PartOf (Stmt.idsOfAll handler.body)
      (Handler.bindings handlers) (Handler.idsOfAll handlers)
  | ⟨head, body⟩ :: rest, isIn => by
    rcases mem_cons.mp isIn with rfl | isIn
    · exact (head.listed head.mark.range).standAt.partOf_right.trans
        (Handler.listed ⟨0, 0⟩ rest).standAt.partOf_left
    · exact (Handler.body_partOf isIn).trans
        ((head.listed head.mark.range).standAt.append (bindingsOfAll_standAt body)).partOf_right

theorem MatchCase.head_partOf : ∀ {cases : List MatchCase}, clause ∈ cases →
    clause.head.bindings.PartOf clause.head.ids (MatchCase.bindings cases)
      (MatchCase.idsOfAll cases)
  | ⟨head, body⟩ :: rest, isIn => by
    rcases mem_cons.mp isIn with rfl | isIn
    · exact (bindingsOfAll_standAt body).partOf_left.trans
        (MatchCase.listed ⟨0, 0⟩ rest).standAt.partOf_left
    · exact (MatchCase.head_partOf isIn).trans
        ((head.listed head.mark.range).standAt.append (bindingsOfAll_standAt body)).partOf_right

theorem MatchCase.body_partOf : ∀ {cases : List MatchCase}, clause ∈ cases →
    (Stmt.bindingsOfAll clause.body).PartOf (Stmt.idsOfAll clause.body) (MatchCase.bindings cases)
      (MatchCase.idsOfAll cases)
  | ⟨head, body⟩ :: rest, isIn => by
    rcases mem_cons.mp isIn with rfl | isIn
    · exact (head.listed head.mark.range).standAt.partOf_right.trans
        (MatchCase.listed ⟨0, 0⟩ rest).standAt.partOf_left
    · exact (MatchCase.body_partOf isIn).trans
        ((head.listed head.mark.range).standAt.append (bindingsOfAll_standAt body)).partOf_right

theorem Stmt.suite_partOf {stmt : Stmt} {suite : List Stmt} (isSuite : suite ∈ stmt.suites) :
    (Stmt.bindingsOfAll suite).PartOf (Stmt.idsOfAll suite) stmt.bindings stmt.ids := by
  cases stmt with
  | simple => exact absurd isSuite not_mem_nil
  | functionDef head _
  | classDef head =>
    obtain rfl := mem_singleton.mp isSuite
    exact (head.listed head.mark.range).standAt.partOf_right
  | branch mark test body orelse | whileLoop mark test body orelse =>
    have header := (test.bindings_standAt .read).after [mark.id]
    rcases mem_pair.mp isSuite with rfl | rfl
    · exact header.partOf_right.trans (bindingsOfAll_standAt orelse).partOf_left
    · exact (header.append (bindingsOfAll_standAt body)).partOf_right
  | forLoop mark target iter _ body orelse =>
    have header := ((target.bindings_standAt .target).after [mark.id]).append
      (iter.bindings_standAt .read)
    rcases mem_pair.mp isSuite with rfl | rfl
    · exact header.partOf_right.trans (bindingsOfAll_standAt orelse).partOf_left
    · exact (header.append (bindingsOfAll_standAt body)).partOf_right
  | tryBlock mark body handlers orelse finalbody =>
    have inBody := (bindingsOfAll_standAt body).after [mark.id]
    have inHandlers := (Handler.listed mark.range handlers).standAt
    have inElse := bindingsOfAll_standAt orelse
    have inFinal := bindingsOfAll_standAt finalbody
    simp only [Stmt.suites, cons_append, mem_cons, mem_append, mem_map,
      not_mem_nil, or_false] at isSuite
    rcases isSuite with rfl | ⟨handler, isHandler, rfl⟩ | rfl | rfl
    · exact (partOf_after [mark.id]).trans ((inHandlers.append inElse).append inFinal).partOf_left
    · exact (Handler.body_partOf isHandler).trans (inElse.partOf_left.trans
        (inFinal.partOf_left.trans inBody.partOf_right))
    · exact inHandlers.partOf_right.trans (inFinal.partOf_left.trans inBody.partOf_right)
    · exact (inHandlers.append inElse).partOf_right.trans inBody.partOf_right
  | withBlock mark items =>
    obtain rfl := mem_singleton.mp isSuite
    exact ((WithItem.listedOfAll mark.range items).standAt.after [mark.id]).partOf_right
  | matchOn mark subject =>
    obtain ⟨clause, isClause, rfl⟩ := mem_map.mp isSuite
    exact (MatchCase.body_partOf isClause).trans
      ((subject.bindings_standAt .read).after [mark.id]).partOf_right

theorem Stmt.OccursIn.partOf {stmt : Stmt} {body : List Stmt} (occurs : stmt.OccursIn body) :
    stmt.bindings.PartOf stmt.ids (Stmt.bindingsOfAll body) (Stmt.idsOfAll body) := by
  induction occurs with
  | here isIn => exact partOf_suite isIn
  | inside isIn isSuite _ ih =>
    exact ih.trans ((suite_partOf isSuite).trans (partOf_suite isIn))

namespace Element

def ids : Element → List NodeId
  | stmt (.branch _ test _ _) | stmt (.whileLoop _ test _ _) => test.ids
  | stmt (.forLoop _ target iter _ _ _) => target.ids ++ iter.ids
  | stmt (.withBlock _ items _ _) => items.flatMap (·.ids)
  | stmt (.matchOn _ subject _) => subject.ids
  | stmt form => form.ids
  | case clause => clause.head.ids

def bindings : Element → Bindings
  | stmt (.branch _ test _ _) | stmt (.whileLoop _ test _ _) => test.bindings .read
  | stmt (.forLoop _ target iter _ _ _) => target.bindings .target ++ iter.bindings .read
  | stmt (.withBlock _ items _ _) => WithItem.bindings items
  | stmt (.matchOn _ subject _) => subject.bindings .read
  | stmt form => form.bindings
  | case clause => clause.head.bindings

theorem partOf_stmt (form : Stmt) :
    (stmt form).bindings.PartOf (stmt form).ids form.bindings form.ids := by
  cases form with
  | branch mark _ body orelse | whileLoop mark _ body orelse =>
    exact (partOf_after [mark.id]).trans ((bindingsOfAll_standAt body).partOf_left.trans
      (bindingsOfAll_standAt orelse).partOf_left)
  | forLoop mark target iter _ body orelse =>
    have header : (target.bindings .target ++ iter.bindings .read).PartOf (target.ids ++ iter.ids)
        (target.bindings .target ++ iter.bindings .read) ([mark.id] ++ target.ids ++ iter.ids) := by
      rw [append_assoc]
      exact partOf_after [mark.id]
    exact header.trans ((bindingsOfAll_standAt body).partOf_left.trans
      (bindingsOfAll_standAt orelse).partOf_left)
  | withBlock mark _ _ body =>
    exact (partOf_after [mark.id]).trans (bindingsOfAll_standAt body).partOf_left
  | matchOn mark _ cases =>
    exact (partOf_after [mark.id]).trans (MatchCase.listed mark.range cases).standAt.partOf_left
  | _ => exact .refl _ _

end Element

def Stmt.clauses : Stmt → List MatchCase
  | matchOn _ _ cases => cases
  | _ => []

theorem Stmt.clause_partOf {stmt : Stmt} (isClause : clause ∈ stmt.clauses) :
    (Element.case clause).bindings.PartOf (Element.case clause).ids stmt.bindings stmt.ids := by
  cases stmt with
  | matchOn mark subject =>
    exact (MatchCase.head_partOf isClause).trans
      ((subject.bindings_standAt .read).after [mark.id]).partOf_right
  | _ => exact absurd isClause not_mem_nil

theorem Handler.mem_ownElements : ∀ {handlers : List Handler},
    element ∈ Handler.ownElements handlers →
    ∃ handler ∈ handlers, element ∈ Stmt.ownElementsOfAll handler.body
  | ⟨head, body⟩ :: _, isIn => by
    rcases mem_append.mp isIn with isIn | isIn
    · exact ⟨⟨head, body⟩, mem_cons_self .., isIn⟩
    · obtain ⟨handler, isHandler, inBody⟩ := Handler.mem_ownElements isIn
      exact ⟨handler, mem_cons_of_mem _ isHandler, inBody⟩

theorem MatchCase.mem_ownElements : ∀ {cases : List MatchCase},
    element ∈ MatchCase.ownElements cases → ∃ clause ∈ cases,
    element = .case clause ∨ element ∈ Stmt.ownElementsOfAll clause.body
  | ⟨head, body⟩ :: _, isIn => by
    rcases mem_cons.mp isIn with rfl | isIn
    · exact ⟨⟨head, body⟩, mem_cons_self .., .inl rfl⟩
    · rcases mem_append.mp isIn with isIn | isIn
      · exact ⟨⟨head, body⟩, mem_cons_self .., .inr isIn⟩
      · obtain ⟨clause, isClause, which⟩ := MatchCase.mem_ownElements isIn
        exact ⟨clause, mem_cons_of_mem _ isClause, which⟩

theorem Stmt.mem_ownElements {stmt : Stmt} (isIn : element ∈ stmt.ownElements) :
    element = .stmt stmt ∨ (∃ clause ∈ stmt.clauses, element = .case clause) ∨
      ∃ suite ∈ stmt.suites, element ∈ Stmt.ownElementsOfAll suite := by
  cases stmt with
  | simple _ _
  | functionDef _ _
  | classDef => exact .inl (mem_singleton.mp isIn)
  | branch _ _ body orelse | whileLoop _ _ body orelse
  | forLoop _ _ _ _ body orelse =>
    rcases mem_cons.mp isIn with isHeader | isIn
    · exact .inl isHeader
    · rcases mem_append.mp isIn with isIn | isIn
      · exact .inr (.inr ⟨body, by simp [Stmt.suites], isIn⟩)
      · exact .inr (.inr ⟨orelse, by simp [Stmt.suites], isIn⟩)
  | tryBlock _ body handlers orelse finalbody =>
    rcases mem_cons.mp isIn with isHeader | isIn
    · exact .inl isHeader
    · simp only [mem_append] at isIn
      rcases isIn with ((isIn | isIn) | isIn) | isIn
      · exact .inr (.inr ⟨body, by simp [Stmt.suites], isIn⟩)
      · obtain ⟨handler, isHandler, inBody⟩ := Handler.mem_ownElements isIn
        have isSuite : handler.body ∈ handlers.map (·.body) := mem_map_of_mem isHandler
        exact .inr (.inr ⟨handler.body, by simp [Stmt.suites, isSuite], inBody⟩)
      · exact .inr (.inr ⟨orelse, by simp [Stmt.suites], isIn⟩)
      · exact .inr (.inr ⟨finalbody, by simp [Stmt.suites], isIn⟩)
  | withBlock _ _ _ body =>
    rcases mem_cons.mp isIn with isHeader | isIn
    · exact .inl isHeader
    · exact .inr (.inr ⟨body, by simp [Stmt.suites], isIn⟩)
  | matchOn =>
    rcases mem_cons.mp isIn with isHeader | isIn
    · exact .inl isHeader
    · obtain ⟨clause, isClause, isCase | inBody⟩ := MatchCase.mem_ownElements isIn
      · exact .inr (.inl ⟨clause, isClause, isCase⟩)
      · exact .inr (.inr ⟨clause.body, mem_map_of_mem isClause, inBody⟩)

theorem Stmt.mem_ownElementsOfAll : ∀ {body : List Stmt},
    element ∈ Stmt.ownElementsOfAll body → ∃ stmt ∈ body, element ∈ stmt.ownElements
  | first :: _, isIn => by
    rcases mem_append.mp isIn with isIn | isIn
    · exact ⟨first, mem_cons_self .., isIn⟩
    · obtain ⟨stmt, isStmt, isOwn⟩ := mem_ownElementsOfAll isIn
      exact ⟨stmt, mem_cons_of_mem first isStmt, isOwn⟩

theorem Stmt.ownElementsOfAll_partOf {body : List Stmt}
    (isIn : element ∈ Stmt.ownElementsOfAll body) :
    element.bindings.PartOf element.ids (Stmt.bindingsOfAll body) (Stmt.idsOfAll body) := by
  obtain ⟨stmt, isStmt, isOwn⟩ := mem_ownElementsOfAll isIn
  refine PartOf.trans ?_ (partOf_suite isStmt)
  rcases mem_ownElements isOwn with rfl | ⟨clause, isClause, rfl⟩ | ⟨suite, isSuite, inSuite⟩
  · exact Element.partOf_stmt stmt
  · exact clause_partOf isClause
  · have smaller := sizeOf_suite_lt isSuite
    have := sizeOf_lt_of_mem isStmt
    exact (ownElementsOfAll_partOf inSuite).trans (suite_partOf isSuite)
termination_by sizeOf body

theorem FlowGraph.element_partOf {module' : Module} {function : FunctionDef} {graph : FlowGraph}
    (occurs : (Stmt.functionDef function.head function.body).OccursIn module'.body)
    (drawn : function.flow? = some graph) (isElement : element ∈ graph.allElements) :
    element.bindings.PartOf element.ids (Stmt.bindingsOfAll module'.body)
      (Stmt.idsOfAll module'.body) := by
  have isOwn : element ∈ Stmt.ownElementsOfAll function.body := by
    rw [FunctionDef.flow?] at drawn
    split at drawn
    · exact absurd drawn (by simp)
    · next noTry =>
        have free := (containTry_eq_false_iff _).mp (by simpa using noTry)
        rw [← Option.some.inj drawn] at isElement
        exact (graph_allElements function.body free).subset isElement
  have isSuite : function.body ∈ (Stmt.functionDef function.head function.body).suites :=
    mem_singleton_self _
  exact (ownElementsOfAll_partOf isOwn).trans ((suite_partOf isSuite).trans occurs.partOf)

theorem Expr.marks_subset_bindingsOfAll {expr : Expr} (use : TargetUse) : ∀ {exprs : List Expr},
    expr ∈ exprs → (expr.bindings use).marks ⊆ (Expr.bindingsOfAll exprs use).marks
  | first :: _, isIn => by
    rcases mem_cons.mp isIn with rfl | isIn
    · exact subset_append_left ..
    · exact subset_append_of_subset_right _ (Expr.marks_subset_bindingsOfAll use isIn)

namespace Element

variable {element : Element} {node : NodeId}

/-- What the module binds within the element's range stands at its nodes. -/
def OwnsRange (element : Element) (module' : Module) : Prop :=
  ∀ mark ∈ (Stmt.bindingsOfAll module'.body).marks,
    mark.range.within element.evaluatedRange = true → mark.id ∈ element.ids

def BindsAt (element : Element) (node : NodeId) : Prop :=
  ∃ mark ∈ element.bindings.marks, mark.id = node

/-- No evaluation passes over a place where the element binds or deletes. -/
def PassesNothing (element : Element) : Prop :=
  ∀ mark ∈ element.bindings.marks, element.surely (· == mark.id) = true

instance (element : Element) : Decidable element.PassesNothing :=
  inferInstanceAs (Decidable (∀ mark ∈ element.bindings.marks, _))

theorem bindsAt_of_deleted (isDeleted : node ∈ element.deletedNames) : element.BindsAt node := by
  unfold deletedNames at isDeleted
  split at isDeleted
  next mark targets =>
    obtain ⟨target, isTarget, isNode⟩ := mem_filterMap.mp isDeleted
    obtain ⟨identifier, isName, rfl⟩ := Option.map_eq_some_iff.mp isNode
    obtain rfl := Expr.name?_eq_some.mp isName
    exact ⟨identifier.mark,
      Expr.marks_subset_bindingsOfAll .target isTarget (mem_singleton_self _), rfl⟩
  next => exact absurd isDeleted not_mem_nil

theorem bindsAt_of_defined (isDefined : element.definedName? = some node) :
    element.BindsAt node := by
  unfold definedName? at isDefined
  split at isDefined
  next head body =>
    refine ⟨head.name.mark, ?_, Option.some.inj isDefined⟩
    simp [bindings, Stmt.bindings, FunctionHead.bindings, Bindings.names]
  next head body =>
    refine ⟨head.name.mark, ?_, Option.some.inj isDefined⟩
    simp [bindings, Stmt.bindings, ClassHead.bindings, Bindings.names]
  next => exact absurd isDefined (by simp)

end Element

theorem Model.mem_usages_of_localUsages {model : Model} {locals : Locals} {used : LocalUsage}
    (isUsage : used ∈ model.localUsages locals) : used.usage ∈ model.table.usages := by
  obtain ⟨⟨symbol, local'⟩, _, isUsage⟩ := mem_flatMap.mp isUsage
  obtain ⟨usage, isOne, rfl⟩ := mem_map.mp isUsage
  cases found : model.table.get? symbol with
  | none =>
    rw [found] at isOne
    exact absurd isOne not_mem_nil
  | some entry =>
    rw [found] at isOne
    exact mem_flatMap.mpr ⟨entry, Array.mem_toList_iff.mpr (Array.mem_of_getElem? found), isOne⟩

namespace FlowProblem

/-- A usage that puts its variable into the write set of the element. -/
def Writes (problem : FlowProblem) (element : Element) (used : LocalUsage) : Prop :=
  used ∈ problem.usages ∧ used.usage.range.within element.evaluatedRange = true ∧
    element.WritesAt used.usage

def occursAt (problem : FlowProblem) (symbol : SymbolId) (node : NodeId) : Bool :=
  problem.usages.any fun used => used.symbol == symbol && used.usage.node == node

/-- At one of the nodes the variable is bound or deleted. -/
def Overwrites (problem : FlowProblem) (nodes : List NodeId) (symbol : SymbolId) : Prop :=
  ∃ node ∈ nodes, problem.occursAt symbol node = true

theorem overwrites_iff (problem : FlowProblem) (nodes : List NodeId) (symbol : SymbolId) :
    problem.Overwrites nodes symbol ↔ nodes.any (problem.occursAt symbol) = true :=
  any_eq_true.symm

theorem bindsAt_of_writes {around : Surroundings} {module' : Module} {function : FunctionDef}
    {graph : FlowGraph} (distinct : module'.ids.Nodup)
    (occurs : (Stmt.functionDef function.head function.body).OccursIn module'.body)
    (drawn : function.flow? = some graph) {element : Element}
    (isElement : element ∈ graph.allElements) (ownsRange : element.OwnsRange module')
    {used : LocalUsage}
    (writes : (ofGraph (Model.ofModule around module') function.id graph).Writes element used) :
    element.BindsAt used.usage.node := by
  obtain ⟨isUsage, inside, isDeleted | writesAt⟩ := writes
  · exact Element.bindsAt_of_deleted isDeleted
  cases defined : element.definedName? with
  | some =>
    rw [defined] at writesAt
    exact Element.bindsAt_of_defined (writesAt ▸ defined)
  | none =>
    rw [defined] at writesAt
    have isBound := Model.mem_bindings_of_usage around module'
      (Model.mem_usages_of_localUsages isUsage) writesAt
    exact (FlowGraph.element_partOf occurs drawn isElement).mem_marks (nodup_cons.mp distinct).2
      (ownsRange _ isBound inside) isBound

theorem occursAt_of_usage {problem : FlowProblem} {used : LocalUsage}
    (isUsage : used ∈ problem.usages) :
    problem.occursAt used.symbol used.usage.node = true :=
  any_eq_true.mpr ⟨used, isUsage, by simp⟩

/-- All evaluations overwrite a variable if and only if `surely` finds an occurrence of it. -/
theorem kill_overwritten_iff_surely (around : Surroundings) (module' : Module)
    (function : FunctionDef) (graph : FlowGraph) (distinct : module'.ids.Nodup)
    (occurs : (Stmt.functionDef function.head function.body).OccursIn module'.body)
    (drawn : function.flow? = some graph) (element : Element)
    (isElement : element ∈ graph.allElements) (ownsRange : element.OwnsRange module') :
    let problem := ofGraph (Model.ofModule around module') function.id graph
    (∃ nodes, element.Evaluates nodes) ∧
    (∀ used, problem.Writes element used → element.BindsAt used.usage.node) ∧
    ∀ symbol ∈ (problem.access element).writes,
      (element.PassesNothing → ∀ nodes, element.Evaluates nodes → problem.Overwrites nodes symbol) ∧
      ((∀ nodes, element.Evaluates nodes → problem.Overwrites nodes symbol) ↔
        element.surely (problem.occursAt symbol) = true) := by
  intro problem
  have bindsAt (used : LocalUsage) (writes : problem.Writes element used) :
      element.BindsAt used.usage.node :=
    bindsAt_of_writes distinct occurs drawn isElement ownsRange writes
  refine ⟨element.evaluation.exists_runs, bindsAt, fun symbol isWritten => ⟨?_, ?_⟩⟩
  · intro passesNothing nodes isOne
    obtain ⟨used, isCounted, writesAt, rfl⟩ := (element.mem_writes _ symbol).mp isWritten
    obtain ⟨isUsage, inside⟩ := List.mem_filter.mp isCounted
    obtain ⟨mark, isBound, sameNode⟩ := bindsAt used ⟨isUsage, inside, writesAt⟩
    have met := Evaluation.any_of_surely (passesNothing mark isBound) isOne
    obtain ⟨node, isIn, isNode⟩ := List.any_eq_true.mp met
    obtain rfl : node = used.usage.node := (beq_iff_eq.mp isNode).trans sameNode
    exact ⟨used.usage.node, isIn, occursAt_of_usage isUsage⟩
  · simp only [overwrites_iff]
    exact element.evaluation.surely_iff.symm

end FlowProblem

namespace Skipping

open Capturing (mark name)

def store : Element :=
  .stmt (.simple (mark 5 14 19) (.assign [.name (name 6 14 "x")]
    (.literal (mark 7 18 19) .int "1" [])))

def attempt : Element :=
  .stmt (.simple (mark 8 24 38)
    (.expr (.binary (mark 9 24 38) .logical (.name (name 10 24 "c")) "and"
    (.named (mark 11 31 37) (name 12 31 "x") (.literal (mark 13 36 37) .int "2" [])))))

def result : Element :=
  .stmt (.simple (mark 14 43 51) (.ret (some (.name (name 15 50 "x")))))

def function : FunctionDef :=
  ⟨⟨mark 1 0 51, name 2 4 "f",
    [⟨mark 3 6 7, .name (name 4 6 "c"), none, none, .regular, false, false⟩],
    none, [], false⟩, [store, attempt, result].filterMap (·.stmt?)⟩

def graph : FlowGraph :=
  Stmt.graph function.body

def around : Surroundings :=
  ⟨"", "m.py", none, {}⟩

def module' : Module :=
  ⟨mark 0 0 52, [.functionDef function.head function.body]⟩

def problem : FlowProblem :=
  let model := Model.ofModule around module'
  let locals := [1, 2].foldl model.addLocal ∅
  ⟨graph, locals, model.localUsages locals⟩

theorem ofGraph_eq :
    FlowProblem.ofGraph (Model.ofModule around module') function.id graph = problem := by
  have locals : (Model.ofModule around module').locals function.id =
      [1, 2].foldl (Model.ofModule around module').addLocal ∅ :=
    Model.locals_of_names_sorted 1 [1, 2] (by decide +kernel) (by decide +kernel)
      (by decide +kernel)
  rw [FlowProblem.ofGraph, locals]
  rfl

theorem written : 2 ∈ (problem.access store).writes ∧ 2 ∈ (problem.access attempt).writes := by
  decide +kernel

theorem occurs : (Stmt.functionDef function.head function.body).OccursIn module'.body :=
  .here (mem_singleton_self _)

theorem drawn : function.flow? = some graph := by
  rfl

theorem allElements_eq : graph.allElements = [store, attempt, result] := by
  rfl

theorem ownsRange : store.OwnsRange module' ∧ attempt.OwnsRange module' := by
  unfold Element.OwnsRange
  decide +kernel

theorem distinct : module'.ids.Nodup := by
  decide

theorem store_overwrites_attempt_may_not :
    module'.ids.Nodup ∧ (Stmt.functionDef function.head function.body).OccursIn module'.body ∧
      function.flow? = some graph ∧ store ∈ graph.allElements ∧ attempt ∈ graph.allElements ∧
      store.OwnsRange module' ∧ attempt.OwnsRange module' ∧
      (∀ nodes, store.Evaluates nodes →
        (FlowProblem.ofGraph (Model.ofModule around module') function.id graph).Overwrites
          nodes 2) ∧
      ¬ ∀ nodes, attempt.Evaluates nodes →
        (FlowProblem.ofGraph (Model.ofModule around module') function.id graph).Overwrites
          nodes 2 := by
  have isStore : store ∈ graph.allElements := allElements_eq ▸ List.mem_cons_self ..
  have isAttempt : attempt ∈ graph.allElements :=
    allElements_eq ▸ List.mem_cons_of_mem _ (List.mem_cons_self ..)
  obtain ⟨-, -, ofStore⟩ := FlowProblem.kill_overwritten_iff_surely around module' function graph
    distinct occurs drawn store isStore ownsRange.1
  obtain ⟨-, -, ofAttempt⟩ := FlowProblem.kill_overwritten_iff_surely around module' function graph
    distinct occurs drawn attempt isAttempt ownsRange.2
  rw [ofGraph_eq] at ofStore ofAttempt ⊢
  refine ⟨distinct, occurs, drawn, isStore, isAttempt, ownsRange.1, ownsRange.2, ?_, ?_⟩
  · exact (ofStore 2 written.1).1 (by decide)
  · rw [(ofAttempt 2 written.2).2]
    decide +kernel

/-- The element kills `x`, but binds nothing when `c` does not hold. -/
theorem not_overwritten_by_each_evaluation :
    ¬ ∀ (around : Surroundings) (module' : Module) (function : FunctionDef) (graph : FlowGraph),
      module'.ids.Nodup → (Stmt.functionDef function.head function.body).OccursIn module'.body →
      function.flow? = some graph → ∀ element ∈ graph.allElements, element.OwnsRange module' →
      ∀ symbol ∈ ((FlowProblem.ofGraph (Model.ofModule around module') function.id graph).access
        element).writes,
      ∀ nodes, element.Evaluates nodes →
        (FlowProblem.ofGraph (Model.ofModule around module') function.id graph).Overwrites nodes
          symbol := by
  intro overwritten
  have isAttempt : attempt ∈ graph.allElements :=
    allElements_eq ▸ List.mem_cons_of_mem _ (List.mem_cons_self ..)
  have isWritten : 2 ∈ ((FlowProblem.ofGraph (Model.ofModule around module') function.id
      graph).access attempt).writes := by
    rw [ofGraph_eq]
    exact written.2
  have skipped : attempt.Evaluates [] := ⟨[], [], rfl, .inl rfl, rfl⟩
  obtain ⟨node, isIn, _⟩ := overwritten around module' function graph distinct occurs drawn attempt
    isAttempt ownsRange.2 2 isWritten [] skipped
  exact List.not_mem_nil isIn

end Skipping

end PyStatic
