import PyStatic.Proofs.Binding.OwnedScopes
import PyStatic.Proofs.Types.NormalForms

/-!
Contract: the types of a module hold on every path through its bodies.
-/

namespace PyStatic

open BodyContext

namespace Model

variable (model : Model)

theorem parametersWellFormed_bodyContext (scope : ScopeId) (body : InferenceBody)
    (isFinal : Bool) : (model.bodyContext scope body isFinal).ParametersWellFormed :=
  ValueType.closed_wellFormed.parameters model scope body isFinal

theorem inferTypes_covers {module' : Module} (distinct : module'.nodeIds.Nodup)
    (allOwned : ∀ body ∈ module'.inferenceBodies,
      ∃ scope, model.ownedScope? body.node = some scope)
    {body : InferenceBody} (isBody : body ∈ module'.inferenceBodies)
    (tryFree : Stmt.allTryFree body.suite = true) {scope : ScopeId}
    (owned : model.ownedScope? body.node = some scope)
    (settles : Stmt.settlesAll (model.bodyContext scope body false) body.suite (some ∅) ∅ = true)
    {steps : List Step} {ending : Ending} (path : Stmt.ExecutesAll body.suite steps ending)
    {note : TypeNote}
    (isFound : note ∈ (Step.runAll (model.bodyContext scope body false) steps ∅).notes) :
    ∃ type, (model.inferTypes module')[note.1]? = some type ∧ type.Covers note.2 := by
  have parameters := model.parametersWellFormed_bodyContext scope body false
  have ready : (BodyPart.ofSuite (model.bodyContext scope body false) body.suite).Ready ∅ ∅
      (Stmt.walkAll (model.bodyContext scope body false) body.suite (some ∅) ∅).headers true :=
    ⟨∅, ∅, settles, TypeState.covers_empty ∅, fun _ _ => rfl⟩
  have covered := Stmt.walkAll_covers parameters body.suite tryFree
    (Module.nodup_loopIds distinct isBody) ready (TypeState.covers_empty ∅) path
  obtain ⟨type, isNoted, covers⟩ := covered.noted rfl note isFound
  refine ⟨type, ?_, covers⟩
  rw [inferTypes_eq_addAll allOwned distinct]
  refine TypeTable.getElem?_addAll (nodup_bodyNotes allOwned distinct)
    (List.mem_flatMap.mpr ⟨body, isBody, ?_⟩)
  rw [bodyNotes_of_scope owned]
  exact isNoted

/-- The table contains the type that an expression has on any path through its body. -/
theorem inferTypes_contains_of_path (around : Surroundings) (module' : Module)
    (distinct : module'.nodeIds.Nodup) (body : InferenceBody)
    (isBody : body ∈ module'.inferenceBodies) (tryFree : Stmt.allTryFree body.suite = true) :
    ∃ scope, (ofModule around module').ownedScope? body.node = some scope ∧
      (Stmt.settlesAll ((ofModule around module').bodyContext scope body false) body.suite
          (some ∅) ∅ = true →
        ∀ steps ending, Stmt.ExecutesAll body.suite steps ending →
          ∀ note ∈ (Step.runAll ((ofModule around module').bodyContext scope body false)
              steps ∅).notes,
            ∃ type, ((ofModule around module').inferTypes module')[note.1]? = some type ∧
              type.Contains note.2) := by
  obtain ⟨scope, owned⟩ := exists_ownedScope? around isBody
  refine ⟨scope, owned, ?_⟩
  intro settles steps ending path note isFound
  obtain ⟨type, recorded, covers⟩ :=
    inferTypes_covers _ distinct (fun _ isBody => exists_ownedScope? around isBody) isBody tryFree
      owned settles path isFound
  exact ⟨type, recorded, covers.contains⟩

end Model

def Module.retyping : Module :=
  let mark (id : NodeId) : Mark := ⟨id, ⟨id, id⟩⟩
  let x (id : NodeId) : Expr := .name ⟨mark id, "x"⟩
  let inner : Stmt := .whileLoop (mark 6) (x 7)
    [.simple (mark 8) (.assign [x 9] (.literal (mark 10) .str "a" [])),
      .simple (mark 11) .leaveLoop] []
  ⟨mark 0,
    [.simple (mark 1) (.assign [x 2] (.literal (mark 3) .int "1" [])),
      .whileLoop (mark 4) (x 5) [inner, .simple (mark 12) (.expr (x 13))] [],
      .simple (mark 14) (.expr (x 15))]⟩

def Model.retyping : Model :=
  .ofModule ⟨"", "m.py", none, {}⟩ Module.retyping

def BodyContext.retyping : BodyContext :=
  Model.retyping.bodyContext 0 ⟨0, Module.retyping.body, false⟩ false

theorem Model.retyping_contains_str :
    Module.retyping.nodeIds.Nodup ∧
      Stmt.settlesAll BodyContext.retyping Module.retyping.body (some ∅) ∅ = true ∧
      ∃ steps, Stmt.ExecutesAll Module.retyping.body steps .falls ∧
        ∃ found, (15, found) ∈ (Step.runAll BodyContext.retyping steps ∅).notes ∧
          found.same (BodyContext.retyping.literalType .str) = true ∧
          ∃ type, (Model.retyping.inferTypes Module.retyping)[15]? = some type ∧
            type.members.length = 2 ∧ type.Contains found := by
  have distinct : Module.retyping.nodeIds.Nodup := by decide +kernel
  have settles : Stmt.settlesAll BodyContext.retyping Module.retyping.body (some ∅) ∅ = true := by
    decide +kernel
  have twoTypes : (Model.retyping.inferTypes Module.retyping)[15]?.map (·.members.length) =
      some 2 := by decide +kernel
  obtain ⟨scope, owned, contains⟩ := inferTypes_contains_of_path ⟨"", "m.py", none, {}⟩
    Module.retyping distinct ⟨0, Module.retyping.body, false⟩ List.mem_cons_self rfl
  have isFirst : Model.retyping.ownedScope? 0 = some 0 := by decide +kernel
  obtain rfl : scope = 0 := Option.some.inj (owned.symm.trans isFirst)
  -- the outer loop is passed once and then left; the inner one is broken off in its first round
  have path : ∃ steps, Stmt.ExecutesAll Module.retyping.body steps .falls ∧
      (Step.runAll BodyContext.retyping steps ∅).notes.any (fun note => note.1 == 15 &&
        note.2.same (BodyContext.retyping.literalType .str)) = true := by
    refine ⟨_, Or.inr ⟨_, _, rfl, ⟨rfl, rfl⟩, Or.inr ⟨_, _, rfl, Rounds.again
      (Or.inr ⟨_, _, rfl, Rounds.breakOut (Or.inr ⟨_, _, rfl, ⟨rfl, rfl⟩,
          Or.inl ⟨⟨rfl, rfl⟩, by decide⟩⟩),
        Or.inr ⟨_, _, rfl, ⟨rfl, rfl⟩, rfl, rfl⟩⟩) (Or.inl rfl)
      (Rounds.finish ⟨rfl, rfl⟩), Or.inr ⟨_, _, rfl, ⟨rfl, rfl⟩, rfl, rfl⟩⟩⟩, ?_⟩
    decide +kernel
  obtain ⟨steps, executes, isNoted⟩ := path
  obtain ⟨⟨node, found⟩, isFound, isString⟩ := List.any_eq_true.mp isNoted
  rw [Bool.and_eq_true, beq_iff_eq] at isString
  obtain ⟨rfl, isString⟩ := isString
  obtain ⟨type, recorded, isContained⟩ := contains settles steps .falls executes _ isFound
  change (Model.retyping.inferTypes Module.retyping)[15]? = some type at recorded
  rw [recorded] at twoTypes
  exact ⟨distinct, settles, steps, executes, found, isFound, isString, type, recorded,
    Option.some.inj twoTypes, isContained⟩

end PyStatic
