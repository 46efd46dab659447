import PyStatic.Proofs.Types.TypedIds
import Mathlib.Data.List.Perm.Subperm

/-!
Contract: the stack of bodies that wait to be inferred, and what comes from it.

A body that is taken from the stack leaves the definitions that its walk comes by there. These are
the definitions that stand in it and in no other definition inside it, so what can still come from
the stack stays the same, up to order, but for the body taken. That every body owns a scope is a
hypothesis here.
-/

namespace PyStatic

open List TypeNote Stmt BodyContext Outcome

def Element.definitions (elements : List Element) : List InferenceBody :=
  elements.filterMap fun element => element.stmt?.bind (·.inferenceBody?)

def Stmt.nestedBodies (suite : List Stmt) : List InferenceBody :=
  Element.definitions (Stmt.ownElementsOfAll suite)

def Stmt.allBodies (suite : List Stmt) : List InferenceBody :=
  (visitedStmts (Stmt.outlines suite)).filterMap (·.inferenceBody?)

def InferenceBody.all (body : InferenceBody) : List InferenceBody :=
  body :: Stmt.allBodies body.suite

theorem Element.definitions_append (first second : List Element) :
    definitions (first ++ second) = definitions first ++ definitions second :=
  filterMap_append

theorem Element.definitions_cons {element : Element} (rest : List Element)
    (noDefinition : element.stmt?.bind (·.inferenceBody?) = none) :
    definitions (element :: rest) = definitions rest := by
  rw [definitions, filterMap_cons, noDefinition]
  rfl

theorem Stmt.filterMap_visitedStmts {stmt : Stmt} (noDefinition : stmt.inferenceBody? = none) :
    (visitedStmts [stmt.outline]).filterMap (·.inferenceBody?) =
      stmt.suites.flatMap Stmt.allBodies := by
  rw [visitedStmts_outline, filterMap_cons, noDefinition, filterMap_flatMap]
  rfl

section Nesting

attribute [local simp] Stmt.ownElementsOfAll Handler.ownElements Element.definitions_append
  Stmt.suites Stmt.nestedBodies

mutual

theorem Stmt.bodies_eq : ∀ stmt : Stmt,
    (visitedStmts [stmt.outline]).filterMap (·.inferenceBody?) =
      (Element.definitions stmt.ownElements).flatMap (·.all)
  | .simple _ _ => by
    rw [filterMap_visitedStmts rfl]
    rfl
  | .functionDef _ _ | .classDef _ _ => by
    rw [visitedStmts_outline, Stmt.ownElements]
    simp [Element.definitions, Element.stmt?, Stmt.inferenceBody?, InferenceBody.all,
      Stmt.allBodies]
  | .branch _ _ body orelse | .forLoop _ _ _ _ body orelse | .whileLoop _ _ body orelse => by
    rw [filterMap_visitedStmts rfl, Stmt.ownElements, Element.definitions_cons _ rfl]
    simp [Stmt.allBodies_eq body, Stmt.allBodies_eq orelse]
  | .tryBlock _ body handlers orelse finalbody => by
    rw [filterMap_visitedStmts rfl, Stmt.ownElements, Element.definitions_cons _ rfl]
    simp [Stmt.allBodies_eq body, Handler.bodies_eq handlers, Stmt.allBodies_eq orelse,
      Stmt.allBodies_eq finalbody]
  | .withBlock _ _ _ body => by
    rw [filterMap_visitedStmts rfl, Stmt.ownElements, Element.definitions_cons _ rfl]
    simp [Stmt.allBodies_eq body]
  | .matchOn _ _ cases => by
    rw [filterMap_visitedStmts rfl, Stmt.ownElements, Element.definitions_cons _ rfl]
    exact MatchCase.bodies_eq cases

theorem Stmt.allBodies_eq : ∀ suite : List Stmt,
    Stmt.allBodies suite = (Stmt.nestedBodies suite).flatMap (·.all)
  | [] => rfl
  | stmt :: rest => by
    have others := Stmt.allBodies_eq rest
    rw [Stmt.allBodies] at others ⊢
    rw [Stmt.outlines, visitedStmts_cons, filterMap_append, Stmt.bodies_eq stmt, others]
    simp

theorem Handler.bodies_eq : ∀ handlers : List Handler,
    (handlers.map (·.body)).flatMap Stmt.allBodies =
      (Element.definitions (Handler.ownElements handlers)).flatMap (·.all)
  | [] => rfl
  | ⟨_, body⟩ :: rest => by
    rw [map_cons, flatMap_cons, Handler.bodies_eq rest, Stmt.allBodies_eq body]
    simp

theorem MatchCase.bodies_eq : ∀ cases : List MatchCase,
    (cases.map (·.body)).flatMap Stmt.allBodies =
      (Element.definitions (MatchCase.ownElements cases)).flatMap (·.all)
  | [] => rfl
  | ⟨_, body⟩ :: rest => by
    rw [map_cons, flatMap_cons, MatchCase.bodies_eq rest, Stmt.allBodies_eq body,
      MatchCase.ownElements, Element.definitions_cons _ rfl]
    simp

end

theorem BodyContext.keep_append {α : Type} (context : BodyContext) (first second : List α) :
    context.keep (first ++ second) = context.keep first ++ context.keep second := by
  unfold keep
  split <;> rfl

theorem BodyContext.keep_nil {α : Type} (context : BodyContext) :
    context.keep ([] : List α) = [] :=
  ite_self []

theorem TypeNote.nodes_keep (context : BodyContext) (notes : List TypeNote) :
    TypeNote.nodes (context.keep notes) = context.keep (TypeNote.nodes notes) := by
  unfold keep
  split <;> rfl

/-- The nodes that an outcome types and the bodies that it leaves, if the walk keeps them. -/
structure Outcome.Emits (outcome : Outcome) (context : BodyContext) (ids : List NodeId)
    (bodies : List InferenceBody) : Prop where
  nodes : TypeNote.nodes outcome.notes = context.keep ids
  bodies : outcome.bodies = context.keep bodies

namespace Outcome.Emits

variable {context : BodyContext} {first second : Outcome} {ids others : List NodeId}
  {bodies later : List InferenceBody}

theorem of_eq (emits : first.Emits context ids bodies) (sameIds : others = ids)
    (sameBodies : later = bodies) : first.Emits context others later :=
  sameIds ▸ sameBodies ▸ emits

theorem nil {headers : LoopHeaders} {exit : Option TypeState} :
    Emits { headers, exit } context [] [] :=
  ⟨context.keep_nil.symm, context.keep_nil.symm⟩

theorem withExit (emits : first.Emits context ids bodies) (exit : Option TypeState) :
    Emits { first with exit } context ids bodies :=
  ⟨emits.nodes, emits.bodies⟩

theorem followedBy (emits : first.Emits context ids bodies)
    (emitsThen : second.Emits context others later) {exit : Option TypeState} :
    (first.followedBy second exit).Emits context (ids ++ others) (bodies ++ later) where
  nodes := by
    rw [Outcome.followedBy, TypeNote.nodes_append, emits.nodes, emitsThen.nodes, keep_append]
  bodies := by
    rw [Outcome.followedBy, emits.bodies, emitsThen.bodies, keep_append]

theorem withNotes (emits : first.Emits context ids bodies) (visits : List TypeVisit)
    (state : TypeState) :
    (first.withNotes (context.keep (context.notes visits state))).Emits context
      (TypeVisit.nodes visits ++ ids) bodies where
  nodes := by
    rw [Outcome.withNotes, TypeNote.nodes_append, TypeNote.nodes_keep, TypeNote.nodes_visits,
      emits.nodes, keep_append]
  bodies := emits.bodies

theorem loop {body orelse : WalkPart}
    (inside : ∀ state headers, (body state headers).Emits context ids bodies)
    (after : ∀ state headers, (orelse state headers).Emits context others later) (node : NodeId)
    (visits : List TypeVisit) (entry : TypeState) (headers : LoopHeaders) :
    (context.walkLoop node (context.notes visits) body orelse entry headers).Emits context
      (TypeVisit.nodes visits ++ ids ++ others) (bodies ++ later) where
  nodes := by
    rw [walkLoop_eq]
    simp only [TypeNote.nodes_append, TypeNote.nodes_keep, TypeNote.nodes_visits, keep_append]
    rw [loopRound, loopElse, (inside ..).nodes, (after ..).nodes]
  bodies := by
    rw [walkLoop_eq, loopRound, loopElse, (inside ..).bodies, (after ..).bodies, keep_append]

theorem walkFinally {suite : List Stmt}
    (emits : ∀ state headers,
      (Stmt.walkAll context suite (some state) headers).Emits context ids bodies)
    (exits : List TypeState) (fallback : TypeState) (headers : LoopHeaders) :
    (BodyContext.walkFinally (if suite.isEmpty then none
      else some fun state headers => Stmt.walkAll context suite (some state) headers)
      exits fallback headers).Emits context ids bodies := by
  have walked := emits ((TypeState.joinAll exits).getD fallback) headers
  cases suite with
  | nil => exact ⟨walked.nodes, walked.bodies⟩
  | cons =>
    rw [if_neg (by simp), BodyContext.walkFinally]
    split
    · exact walked.withExit none
    · exact walked

end Outcome.Emits

section Walk

variable (context : BodyContext)

attribute [local simp] Stmt.typedIds

mutual

theorem Stmt.walk_emits : ∀ (stmt : Stmt) (state : TypeState) (headers : LoopHeaders),
    (stmt.walk context state headers).Emits context stmt.typedIds
      (Element.definitions stmt.ownElements)
  | .simple _ form, state, _ => by
    refine ⟨?_, context.keep_nil.symm⟩
    rw [Stmt.typedIds, ← nodes_simpleNotes form, ← TypeNote.nodes_keep]
    rfl
  | .functionDef head _, state, _ | .classDef head _, state, _ => by
    refine ⟨?_, rfl⟩
    rw [Stmt.typedIds, ← TypeNote.nodes_visits head.typeVisits, ← TypeNote.nodes_keep]
    rfl
  | .branch _ test body orelse, state, _ =>
    (((Stmt.walkAll_emits body ..).followedBy (Stmt.walkAll_emits orelse ..)).withNotes
      (test.typeVisits .read) state).of_eq (append_assoc ..) (Element.definitions_append ..)
  | .forLoop mark target iter _ body orelse, state, headers =>
    ((Emits.loop (fun _ => Stmt.walkAll_emits body _) (fun _ => Stmt.walkAll_emits orelse _)
      mark.id (target.typeVisits .target) state headers).withNotes (iter.typeVisits .read)
        state).of_eq (by simp) (Element.definitions_append ..)
  | .whileLoop mark test body orelse, state, headers =>
    (Emits.loop (fun _ => Stmt.walkAll_emits body _) (fun _ => Stmt.walkAll_emits orelse _)
      mark.id (test.typeVisits .read) state headers).of_eq rfl (Element.definitions_append ..)
  | .tryBlock _ body handlers orelse finalbody, _, _ =>
    ((((Stmt.walkAll_emits body ..).followedBy (Handler.walkAll_emits handlers ..)).followedBy
      (Stmt.walkAll_emits orelse ..)).followedBy
        (Emits.walkFinally (fun _ => Stmt.walkAll_emits finalbody _) ..)).of_eq rfl (by
          rw [Stmt.ownElements, Element.definitions_cons _ rfl]
          simp only [Element.definitions_append]
          rfl)
  | .withBlock _ items _ body, state, _ =>
    (Stmt.walkAll_emits body ..).withNotes (items.flatMap WithItem.typeVisits) state
  | .matchOn _ subject cases, state, _ =>
    ((MatchCase.walkAll_emits cases ..).withExit _).withNotes (subject.typeVisits .read) state

theorem Stmt.walkAll_emits : ∀ (suite : List Stmt) (state : Option TypeState)
    (headers : LoopHeaders),
    (Stmt.walkAll context suite state headers).Emits context (Stmt.typedIdsOfAll suite)
      (Stmt.nestedBodies suite)
  | [], _, _ => .nil
  | stmt :: rest, some _, _ | stmt :: rest, none, _ =>
    ((Stmt.walk_emits stmt ..).followedBy (Stmt.walkAll_emits rest ..)).of_eq rfl
      (Element.definitions_append ..)

theorem Handler.walkAll_emits : ∀ (handlers : List Handler) (state : TypeState)
    (headers : LoopHeaders),
    (Handler.walkAll context handlers state headers).2.Emits context (Handler.typedIds handlers)
      (Element.definitions (Handler.ownElements handlers))
  | [], _, _ => .nil
  | ⟨head, body⟩ :: rest, state, _ =>
    (((Stmt.walkAll_emits body ..).withNotes (Expr.typeVisitsOfOption head.kind) state).followedBy
      (Handler.walkAll_emits rest ..)).of_eq rfl (Element.definitions_append ..)

theorem MatchCase.walkAll_emits : ∀ (cases : List MatchCase) (state : TypeState)
    (headers : LoopHeaders),
    (MatchCase.walkAll context cases state headers).2.Emits context (MatchCase.typedIds cases)
      (Element.definitions (MatchCase.ownElements cases))
  | [], _, _ => .nil
  | ⟨head, body⟩ :: rest, state, _ =>
    (((Stmt.walkAll_emits body ..).withNotes head.typeVisits state).followedBy
      (MatchCase.walkAll_emits rest ..)).of_eq rfl (Element.definitions_append ..)

end

end Walk

end Nesting

theorem TypeTable.addAll_of_perm {first second : List TypeNote} (perm : first.Perm second)
    (distinct : (nodes second).Nodup) :
    TypeTable.addAll ∅ first = TypeTable.addAll ∅ second := by
  have distinctFirst : (nodes first).Nodup := (perm.map _).nodup_iff.mpr distinct
  apply Std.ExtTreeMap.ext_getElem?
  intro node
  by_cases isNoted : node ∈ nodes second
  · obtain ⟨⟨_, type⟩, isNote, rfl⟩ := mem_map.mp isNoted
    rw [getElem?_addAll distinct isNote, getElem?_addAll distinctFirst (perm.mem_iff.mpr isNote)]
  · have notFirst : node ∉ nodes first := fun isIn =>
      isNoted ((perm.map _).mem_iff.mp isIn)
    rw [getElem?_addAll_of_not_mem isNoted, getElem?_addAll_of_not_mem notFirst]

namespace Model

def bodyNotes (model : Model) (body : InferenceBody) : List TypeNote :=
  (model.inferBody body).1

/-- The definitions that the walk of a body leaves on the stack. -/
def foundIn (model : Model) (body : InferenceBody) : List InferenceBody :=
  (model.inferBody body).2

/-- Bodies are taken from the top of a stack until it is empty. -/
inductive Takes (model : Model) : List InferenceBody → List InferenceBody → Prop where
  | done : Takes model [] []
  | take {body : InferenceBody} {rest taken : List InferenceBody}
      (others : Takes model ((model.foundIn body).reverse ++ rest) taken) :
      Takes model (body :: rest) (body :: taken)

variable {model : Model} {body : InferenceBody} {scope : ScopeId}
  {stack taken bodies : List InferenceBody}

theorem inferBody_of_none (isFree : model.ownedScope? body.node = none) :
    model.inferBody body = ([], []) := by
  rw [inferBody, isFree]

theorem bodyNotes_of_scope (owned : model.ownedScope? body.node = some scope) :
    model.bodyNotes body =
      (Stmt.walkAll (model.bodyContext scope body true) body.suite (some ∅)
        (Stmt.walkAll (model.bodyContext scope body false) body.suite
          (some ∅) ∅).headers).notes := by
  rw [bodyNotes, inferBody, owned]

theorem foundIn_of_scope (owned : model.ownedScope? body.node = some scope) :
    model.foundIn body = Stmt.nestedBodies body.suite := by
  rw [foundIn, inferBody, owned]
  dsimp only
  rw [(Stmt.walkAll_emits ..).bodies, (Stmt.walkAll_emits ..).bodies]
  rfl

theorem perm_of_takes (takes : model.Takes stack taken)
    (owned : ∀ body ∈ stack.flatMap (·.all), ∃ scope, model.ownedScope? body.node = some scope) :
    taken.Perm (stack.flatMap (·.all)) := by
  induction takes with
  | done => exact .refl _
  | @take body rest _ _ ih =>
    obtain ⟨scope, isOwned⟩ := owned body (by simp [InferenceBody.all])
    have same : (((model.foundIn body).reverse ++ rest).flatMap (·.all)).Perm
        (Stmt.allBodies body.suite ++ rest.flatMap (·.all)) := by
      rw [flatMap_append, allBodies_eq, foundIn_of_scope isOwned]
      exact ((reverse_perm _).flatMap_right _).append_right _
    refine ((ih ?_).trans same).cons body
    intro inner isIn
    exact owned inner (mem_cons_of_mem body (same.mem_iff.mp isIn))

theorem foundIn_subperm (body : InferenceBody) :
    ((model.foundIn body).reverse.flatMap (·.all)).Subperm (Stmt.allBodies body.suite) := by
  refine ((reverse_perm _).flatMap_right _).subperm.trans ?_
  cases owned : model.ownedScope? body.node with
  | none =>
    rw [foundIn, inferBody_of_none owned]
    exact nil_subperm
  | some => rw [foundIn_of_scope owned, allBodies_eq]

/-- As many bodies as stand on the stack and in what stands there are enough to empty it. -/
theorem exists_takes (count : Nat) : ∀ stack : List InferenceBody,
    (stack.flatMap (·.all)).length ≤ count →
      ∃ taken, model.Takes stack taken ∧ taken ⊆ stack.flatMap (·.all) ∧
        model.inferStack count stack = taken.flatMap model.bodyNotes := by
  induction count with
  | zero =>
    intro stack isEmpty
    cases stack with
    | nil => exact ⟨[], .done, nil_subset _, rfl⟩
    | cons => exact absurd isEmpty (by simp [InferenceBody.all])
  | succ count ih =>
    intro stack enough
    cases stack with
    | nil => exact ⟨[], .done, nil_subset _, rfl⟩
    | cons body rest =>
      have left : (((model.foundIn body).reverse ++ rest).flatMap (·.all)).Subperm
          (Stmt.allBodies body.suite ++ rest.flatMap (·.all)) := by
        rw [flatMap_append]
        exact (foundIn_subperm body).append (.refl _)
      obtain ⟨taken, takes, isIn, notes⟩ := ih _
        (Nat.le_trans left.length_le (Nat.le_of_succ_le_succ enough))
      refine ⟨body :: taken, .take takes, ?_, ?_⟩
      · exact cons_subset_cons body (Subset.trans isIn left.subset)
      · exact congrArg (model.bodyNotes body ++ ·) notes

theorem Takes.unique (takes : model.Takes stack taken) :
    ∀ {others : List InferenceBody}, model.Takes stack others → others = taken := by
  induction takes with
  | done =>
    intro _ othersTake
    cases othersTake
    rfl
  | take _ ih =>
    intro _ othersTake
    cases othersTake with
    | take othersTake => rw [ih othersTake]

theorem nodes_flatMap_bodyNotes
    (owned : ∀ body ∈ bodies, ∃ scope, model.ownedScope? body.node = some scope) :
    nodes (bodies.flatMap model.bodyNotes) =
      bodies.flatMap fun body => Stmt.typedIdsOfAll body.suite := by
  rw [nodes, map_flatMap]
  refine flatMap_congr fun body isIn => ?_
  obtain ⟨scope, isOwned⟩ := owned body isIn
  rw [bodyNotes_of_scope isOwned]
  exact (Stmt.walkAll_emits (model.bodyContext scope body true) body.suite (some ∅) _).nodes

variable (model) (module' : Module) {node : NodeId} {type : ValueType}

theorem exists_takes_body : ∃ taken ⊆ module'.inferenceBodies,
    model.Takes [⟨module'.mark.id, module'.body, false⟩] taken ∧
      model.inferTypes module' = TypeTable.addAll ∅ (taken.flatMap model.bodyNotes) := by
  have fromStack : [⟨module'.mark.id, module'.body, false⟩].flatMap InferenceBody.all =
      module'.inferenceBodies := append_nil _
  obtain ⟨taken, takes, isIn, notes⟩ :=
    exists_takes _ _ (Nat.le_of_eq (congrArg length fromStack))
  exact ⟨taken, fromStack ▸ isIn, takes, congrArg (TypeTable.addAll ∅) notes⟩

variable {model module'}

theorem exists_body_of_inferTypes (recorded : (model.inferTypes module')[node]? = some type) :
    ∃ body ∈ module'.inferenceBodies, (node, type) ∈ model.bodyNotes body := by
  obtain ⟨taken, isIn, _, isTable⟩ := model.exists_takes_body module'
  rw [isTable] at recorded
  rcases TypeTable.exists_note_or_of_addAll recorded with isNoted | isEmpty
  · obtain ⟨body, isTaken, isNote⟩ := mem_flatMap.mp isNoted
    exact ⟨body, isIn isTaken, isNote⟩
  · rw [Std.ExtTreeMap.getElem?_empty] at isEmpty
    cases isEmpty

variable (owned : ∀ body ∈ module'.inferenceBodies,
    ∃ scope, model.ownedScope? body.node = some scope) (distinct : module'.nodeIds.Nodup)

include owned

theorem perm_inferenceBodies
    (takes : model.Takes [⟨module'.mark.id, module'.body, false⟩] taken) :
    taken.Perm module'.inferenceBodies := by
  have fromStack : [⟨module'.mark.id, module'.body, false⟩].flatMap InferenceBody.all =
      module'.inferenceBodies := append_nil _
  exact fromStack ▸ perm_of_takes takes (fromStack ▸ owned)

include distinct

theorem nodup_bodyNotes : (nodes (module'.inferenceBodies.flatMap model.bodyNotes)).Nodup := by
  rw [nodes_flatMap_bodyNotes owned]
  exact Module.nodup_typedIds distinct

/-- In which order the bodies are inferred does not matter. -/
theorem inferTypes_eq_addAll : model.inferTypes module' =
    TypeTable.addAll ∅ (module'.inferenceBodies.flatMap model.bodyNotes) := by
  obtain ⟨taken, _, takes, isTable⟩ := model.exists_takes_body module'
  rw [isTable]
  exact TypeTable.addAll_of_perm ((perm_inferenceBodies owned takes).flatMap_right _)
    (nodup_bodyNotes owned distinct)

end Model

end PyStatic
