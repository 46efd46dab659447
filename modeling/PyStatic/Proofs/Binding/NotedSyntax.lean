import PyStatic.Proofs.Binding.Notes

/-!
Contract: the survey of a module is a run of notes on its syntax.

Every form of syntax is surveyed by steps one after the other, and what is noted by a step is listed
by the form. How the notes are resolved is no matter here.
-/

namespace PyStatic

open List Outline Bindings

open Survey

variable {node : Visited} (parameters : List Parameter)

theorem Parameter.noted_bindAll (around : Surroundings) (scope : ScopeId)
    (parameters : List Parameter) :
    Noted around scope (Parameter.bindAll scope parameters) (Parameter.boundItems parameters)
      (parameters.flatMap (·.target.names)) [] (.names (parameters.flatMap (·.target.names))) := by
  induction parameters with
  | nil => exact .nothing
  | cons parameter _ ih =>
    rw [flatMap_cons, names_append]
    exact ((noted_noteNode around parameter.mark.id).andThen
      (noted_addBindings around .parameter parameter.target.names)).andThen ih

theorem Parameter.boundItems_scopeless :
    ScopeItem.scopeCountOfAll (Parameter.boundItems parameters) = 0 := by
  rw [← ScopeItem.length_blocksOfAll _ 0 0]
  have said : Parameter.boundItems parameters =
      (parameters.flatMap fun parameter => parameter.target.names.map Mention.binds).map
        .mention := by
    rw [map_flatMap, Parameter.boundItems]
    simp only [ScopeItem.binding, map_map, Function.comp_def]
  rw [said, (ScopeItem.mentioning_eq 0 0 _).2]
  rfl

/-- Hints and defaults are surveyed outside of the function. -/
def Parameter.headIdentifiers (parameters : List Parameter) : List Identifier :=
  parameters.flatMap fun parameter =>
    Expr.identifiersOfOption parameter.hint ++ Expr.identifiersOfOption parameter.default

def Parameter.headBindings (parameters : List Parameter) : Bindings :=
  ⟨parameters.flatMap fun parameter =>
    (Expr.bindingsOfOption parameter.hint ++ Expr.bindingsOfOption parameter.default).marks⟩

def Parameter.defaultBindings (parameters : List Parameter) : Bindings :=
  ⟨parameters.flatMap fun parameter => (Expr.bindingsOfOption parameter.default).marks⟩

theorem Parameter.count_identifiers (id : NodeId) :
    ((Parameter.identifiers parameters).map (·.id)).count id =
      ((parameters.flatMap (·.target.names)).map (·.id)).count id +
        ((Parameter.headIdentifiers parameters).map (·.id)).count id := by
  induction parameters with
  | nil =>
    rw [Parameter.identifiers]
    rfl
  | cons parameter _ ih =>
    obtain ⟨mark, target, hint, default, kind, positionalOnly, keywordOnly⟩ := parameter
    unfold Parameter.headIdentifiers at ih ⊢
    rw [Parameter.identifiers]
    simp only [flatMap_cons, map_append, List.count_append]
    omega

theorem Parameter.defaults_sublist {α : Type} (ofExpr : Option Expr → List α) :
    (parameters.flatMap (ofExpr ·.default)).Sublist
      (parameters.flatMap fun parameter => ofExpr parameter.hint ++ ofExpr parameter.default) := by
  induction parameters with
  | nil => exact Sublist.refl _
  | cons _ _ ih => exact (sublist_append_right ..).append ih

theorem Parameter.count_bindings (mark : Mark) :
    (Parameter.bindings parameters).marks.count mark =
      (Bindings.names (parameters.flatMap (·.target.names))).marks.count mark +
        (Parameter.headBindings parameters).marks.count mark := by
  induction parameters with
  | nil =>
    rw [Parameter.bindings]
    rfl
  | cons parameter _ ih =>
    obtain ⟨mark, target, hint, default, kind, positionalOnly, keywordOnly⟩ := parameter
    unfold Parameter.headBindings at ih ⊢
    rw [Parameter.bindings]
    simp only [flatMap_cons, names_append, marks_append,
      List.count_append] at ih ⊢
    omega

theorem Parameter.mem_outlines {parameters : List Parameter} :
    node ∈ Outline.preorderOfAll (Parameter.outlines parameters) ↔
      ∃ parameter ∈ parameters, node = .parameter parameter ∨
        node ∈ Outline.preorderOfAll (Expr.outlineOf parameter.hint) ∨
        node ∈ Outline.preorderOfAll (Expr.outlineOf parameter.default) := by
  induction parameters with
  | nil =>
    rw [Parameter.outlines, Outline.preorderOfAll]
    simp
  | cons parameter _ ih =>
    obtain ⟨mark, target, hint, default, kind, positionalOnly, keywordOnly⟩ := parameter
    rw [Parameter.outlines, Outline.preorderOfAll, Outline.preorder,
      preorderOfAll_append, mem_append, ih]
    simp only [mem_cons, mem_append, exists_eq_or_imp]

def Role.use : Role → TargetUse
  | read => .read
  | bind _ => .target

/-- An expression holds no definition. -/
theorem Expr.owner?_of_mem {expr : Expr} (isIn : node ∈ expr.outline.preorder) :
    node.owner? = none := by
  rw [Visited.owner?, expr.stmtFree node (mem_append_left _ isIn)]
  rfl

attribute [local simp] Outline.preorderOfAll preorderOfAll_append

theorem Noted.within {around : Surroundings} {scope : ScopeId} {step : Survey → Survey}
    {items : List ScopeItem} {identifiers : List Identifier} {visited further : List Visited}
    {bindings : Bindings} (noted : Noted around scope step items identifiers visited bindings)
    (same : ∀ node, node ∈ further ↔ node ∈ visited) (isNoName : node.expr?.bind (·.name?) = none)
    (isNoOwner : node.owner? = none) :
    Noted around scope step items identifiers (node :: further) bindings :=
  (noted.reorder same).visit isNoName isNoOwner

section Expressions

variable (around : Surroundings)

mutual

theorem Expr.noted : ∀ (expr : Expr) (scope : ScopeId) (role : Role),
    Noted around scope (expr.survey scope role) (expr.items role.use) expr.identifiers
      expr.outline.preorder (expr.bindings role.use)
  | .name identifier, _, .read => noted_addRead around identifier
  | .name identifier, _, .bind usage => noted_addPlainBinding around usage identifier
  | .member _ value attr, scope, .read => by
    have whole := (Expr.noted value scope .read).andThen (noted_addAttributeRead around value attr)
    rw [append_nil, append_empty] at whole
    exact whole.within (by simp) rfl rfl
  | .member _ value attr, scope, .bind _ =>
    ((Expr.noted value scope .read).receiver value attr).within (by simp) rfl rfl
  | .subscript _ value slices, scope, _ =>
    ((Expr.noted value scope .read).andThen (Expr.noted_all slices scope .read)).visit rfl rfl
  | .slice _ parts, scope, _ => (Expr.noted_all parts scope .read).visit rfl rfl
  | .call _ func arguments, scope, _ => by
    have marked : Noted around scope (fun survey => if func.showsNamespace then
        survey.markDynamicNamespace scope else survey) [] [] [] .empty := by
      cases func.showsNamespace with
      | true => exact noted_markDynamicNamespace around
      | false => exact .nothing
    exact ((marked.andThen (Expr.noted func scope .read)).andThen
      (Argument.noted_all arguments scope)).visit rfl rfl
  | .literal _ _ _ interpolations, scope, _ =>
    (Expr.noted_all interpolations scope .read).visit rfl rfl
  | .collection _ .set elements, scope, _ => (Expr.noted_all elements scope .read).visit rfl rfl
  | .collection _ .tuple elements, scope, role => (Expr.noted_all elements scope role).visit rfl rfl
  | .collection _ .list elements, scope, role => (Expr.noted_all elements scope role).visit rfl rfl
  | .dict _ items, scope, _ => (DictItem.noted_all items scope).visit rfl rfl
  | .comprehension _ _ _ _ [], _, _ => by
    intro survey isOpen
    rw [Expr.items]
    refine (Surveys.nil survey).mono (by simp) (by simp [Bindings.empty]) (by simp) ?_ ?_
    · intro plain
      rw [Expr.outline, Outline.preorder] at plain
      exact absurd rfl (plain _ mem_cons_self)
    · exact fun node isIn isOwner => absurd (Expr.owner?_of_mem isIn) isOwner
  | .comprehension mark _ element value (⟨range, target, iter, conditions, isAsync⟩ :: rest),
      scope, _ => by
    have inExpr := (Generator.items_inExpr true
      (⟨range, target, iter, conditions, isAsync⟩ :: rest)).append
        ((element.items_inExpr .read).append (Expr.itemsOfOption_inExpr value))
    -- only the first iterable is read outside the scope the comprehension opens
    have inside (inner : ScopeId) :=
      ((((Expr.noted target inner (.bind .comprehensionDeclaration)).andThen
        (Expr.noted_all conditions inner .read)).andThen
          (Generator.noted_all rest inner)).andThen
            ((Expr.noted element inner .read).andThen (Expr.noted_option value inner)))
    have whole := (Expr.noted iter scope .read).andThen
      (Noted.opensExpr inside .comprehension mark nofun inExpr)
    refine (whole.among (fun id => ?_) fun mark => ?_).within (by simp [Generator.outlines]) rfl rfl
    · simp only [Expr.identifiers, Generator.identifiers, map_append, List.count_append]
      omega
    · simp only [Expr.bindings, Generator.bindings, Role.use, marks_append,
        List.count_append]
      omega
  | .lambda mark parameters body, scope, _ => by
    have inExpr := (Parameter.boundItems_inExpr parameters).append (body.items_inExpr .read)
    have inside (inner : ScopeId) := (Parameter.noted_bindAll around inner parameters).andThen
      (Expr.noted body inner .read)
    have whole := (Parameter.noted_defaults parameters scope).andThen
      (Noted.opensExpr inside .lambda mark nofun inExpr)
    intro survey isOpen
    refine (whole survey isOpen).mono ?_ ?_ ?_ ?_ ?_
    · intro id
      have listed := Parameter.count_identifiers parameters id
      have defaults : _ ≤ ((Parameter.headIdentifiers parameters).map (·.id)).count id :=
        ((Parameter.defaults_sublist parameters _).map _).count_le id
      simp only [Expr.identifiers, map_append, List.count_append]
      omega
    · intro mark
      have listed := Parameter.count_bindings parameters mark
      have defaults : (Parameter.defaultBindings parameters).marks.count mark ≤
          (Parameter.headBindings parameters).marks.count mark :=
        (Parameter.defaults_sublist parameters fun expr =>
          (Expr.bindingsOfOption expr).marks).count_le mark
      simp only [Expr.bindings, Role.use, marks_append, List.count_append]
      omega
    · intro node mem
      simp only [Expr.outline, Outline.preorder, preorderOfAll_append,
        Outline.preorderOfAll, append_nil, nil_append, mem_append,
        mem_flatMap] at mem ⊢
      rcases mem with ⟨parameter, isParameter, mem⟩ | mem
      · exact mem_cons_of_mem _ (mem_append_left _
          (Parameter.mem_outlines.mpr ⟨parameter, isParameter, .inr (.inr mem)⟩))
      · exact mem_cons_of_mem _ (mem_append_right _ mem)
    · intro plain name mem
      simp only [Expr.outline, Outline.preorder, preorderOfAll_append,
        Outline.preorderOfAll, append_nil] at plain mem
      -- the survey skips the annotations of a lambda, so a plain tree has none
      have noHint := plain _ mem_cons_self
      simp only [nil_append, mem_append, mem_flatMap]
      simp only [mem_cons, reduceCtorEq, Visited.expr.injEq, mem_append, false_or] at mem
      rcases mem with mem | mem
      · obtain ⟨parameter, isParameter, isSelf | isHint | isDefault⟩ :=
          Parameter.mem_outlines.mp mem
        · cases isSelf
        · rw [noHint parameter isParameter, Expr.outlineOf] at isHint
          cases isHint
        · exact .inl ⟨parameter, isParameter, isDefault⟩
      · exact .inr mem
    · exact fun node isIn isOwner => absurd (Expr.owner?_of_mem isIn) isOwner
  | .conditional _ test body orelse, scope, _ =>
    (((Expr.noted test scope .read).andThen (Expr.noted body scope .read)).andThen
      (Expr.noted orelse scope .read)).within (by simp; grind) rfl rfl
  | .binary _ _ left _ right, scope, _ =>
    ((Expr.noted left scope .read).andThen (Expr.noted right scope .read)).within (by simp) rfl rfl
  | .unary _ _ operand, scope, _ => (Expr.noted operand scope .read).within (by simp) rfl rfl
  | .compare _ operands _, scope, _ => (Expr.noted_all operands scope .read).visit rfl rfl
  | .named _ target value, scope, _ => by
    have whole := (Expr.noted value scope .read).andThen (noted_assigned around target)
    refine (whole.bindAmong fun mark => ?_).within (by simp) rfl rfl
    simp only [Expr.bindings, Role.use, marks_append, List.count_append]
    omega
  | .starred _ value _, scope, role => (Expr.noted value scope role).within (by simp) rfl rfl
  | .await _ value, scope, _ => (Expr.noted value scope .read).within (by simp) rfl rfl
  | .yield _ value _, scope, _ => (Expr.noted_option value scope).visit rfl rfl
  | .invalid _ children, scope, _ => (Expr.noted_all children scope .read).visit rfl rfl

theorem Expr.noted_all : ∀ (exprs : List Expr) (scope : ScopeId) (role : Role),
    Noted around scope (Expr.surveyAll scope exprs role) (Expr.itemsOfAll exprs role.use)
      (Expr.identifiersOfAll exprs) (Outline.preorderOfAll (Expr.outlines exprs))
      (Expr.bindingsOfAll exprs role.use)
  | [], _, _ => .nothing
  | expr :: rest, scope, role =>
    (Expr.noted expr scope role).andThen (Expr.noted_all rest scope role)

theorem Expr.noted_option : ∀ (expr : Option Expr) (scope : ScopeId),
    Noted around scope (Expr.surveyOption scope expr) (Expr.itemsOfOption expr)
      (Expr.identifiersOfOption expr) (Outline.preorderOfAll (Expr.outlineOf expr))
      (Expr.bindingsOfOption expr)
  | none, _ => .nothing
  | some expr, scope => (Expr.noted expr scope .read).reorder (by simp [Expr.outlineOf])

theorem Argument.noted_all : ∀ (arguments : List Argument) (scope : ScopeId),
    Noted around scope (Argument.surveyAll scope arguments) (Argument.items arguments)
      (Argument.identifiers arguments) (Outline.preorderOfAll (Argument.outlines arguments))
      (Argument.bindings arguments)
  | [], _ => .nothing
  | ⟨_, value⟩ :: rest, scope => by
    have both := (Expr.noted value scope .read).andThen (Argument.noted_all rest scope)
    refine both.among (fun id => ?_) fun _ => Nat.le_refl _
    simp only [Argument.identifiers, map_append, List.count_append]
    omega

theorem DictItem.noted_all : ∀ (items : List DictItem) (scope : ScopeId),
    Noted around scope (DictItem.surveyAll scope items) (DictItem.items items)
      (DictItem.identifiers items) (Outline.preorderOfAll (DictItem.outlines items))
      (DictItem.bindings items)
  | [], _ => .nothing
  | ⟨key, value⟩ :: rest, scope =>
    (((Expr.noted_option key scope).andThen (Expr.noted value scope .read)).andThen
      (DictItem.noted_all rest scope)).reorder (by simp [DictItem.outlines])

theorem Generator.noted_all : ∀ (generators : List Generator) (scope : ScopeId),
    Noted around scope (Generator.surveyAll scope false generators)
      (Generator.items false generators) (Generator.identifiers generators)
      (Outline.preorderOfAll (Generator.outlines generators)) (Generator.bindings generators)
  | [], _ => .nothing
  | ⟨_, target, iter, conditions, _⟩ :: rest, scope => by
    have whole := (((Expr.noted iter scope .read).andThen
      (Expr.noted target scope (.bind .comprehensionDeclaration))).andThen
        (Expr.noted_all conditions scope .read)).andThen (Generator.noted_all rest scope)
    refine (whole.bindAmong fun mark => ?_).reorder (by simp [Generator.outlines])
    simp only [Generator.bindings, Role.use, marks_append, List.count_append]
    omega

theorem Parameter.noted_defaults : ∀ (parameters : List Parameter) (scope : ScopeId),
    Noted around scope (Parameter.surveyDefaults scope parameters)
      (Parameter.defaultItems parameters)
      (parameters.flatMap fun parameter => Expr.identifiersOfOption parameter.default)
      (parameters.flatMap fun parameter =>
        Outline.preorderOfAll (Expr.outlineOf parameter.default))
      (Parameter.defaultBindings parameters)
  | [], _ => .nothing
  | ⟨_, _, _, default, _, _, _⟩ :: rest, scope =>
    (Expr.noted_option default scope).andThen (Parameter.noted_defaults rest scope)

end

mutual

theorem Pattern.noted : ∀ (pattern : Pattern) (scope : ScopeId),
    Noted around scope (pattern.survey scope) pattern.items pattern.identifiers
      pattern.outline.preorder pattern.bindings
  | .capture identifier, _ =>
    (noted_addBinding around .patternDeclaration .plain identifier).visit rfl rfl
  | .wildcard _, _ => Noted.nothing.visit rfl rfl
  | .value expr, scope => (expr.noted around scope .read).within (by simp) rfl rfl
  | .group items, scope => (Pattern.noted_all items scope).visit rfl rfl
  | .ofClass subject arguments, scope =>
    ((subject.noted around scope .read).andThen (Pattern.noted_all arguments scope)).visit rfl rfl

theorem Pattern.noted_all : ∀ (patterns : List Pattern) (scope : ScopeId),
    Noted around scope (Pattern.surveyAll scope patterns) (Pattern.itemsOfAll patterns)
      (Pattern.identifiersOfAll patterns) (Outline.preorderOfAll (Pattern.outlines patterns))
      (Pattern.bindingsOfAll patterns)
  | [], _ => .nothing
  | pattern :: rest, scope => (Pattern.noted pattern scope).andThen (Pattern.noted_all rest scope)

end

end Expressions

mutual

theorem Expr.count_bindings_read_le : ∀ (expr : Expr) (mark : Mark),
    (expr.bindings .read).marks.count mark ≤ (expr.bindings .target).marks.count mark
  | .name _, _ => by
    rw [Expr.bindings]
    exact Nat.zero_le _
  | .member _ _ _, _ => by
    rw [Expr.bindings, Expr.bindings, marks_append, List.count_append]
    exact Nat.le_add_right ..
  | .collection _ .set _, _ => Nat.le_refl _
  | .collection _ .tuple elements, mark
  | .collection _ .list elements, mark => by
    rw [Expr.bindings, Expr.bindings]
    exact Expr.count_bindingsOfAll_read_le elements mark
  | .starred _ value _, mark => by
    rw [Expr.bindings, Expr.bindings]
    exact Expr.count_bindings_read_le value mark
  | .subscript .., _ | .slice .., _ | .call .., _ | .literal .., _ | .dict .., _
  | .comprehension .., _ | .lambda .., _ | .conditional .., _ | .binary .., _
  | .unary .., _ | .compare .., _ | .named .., _ | .await .., _ | .yield .., _
  | .invalid .., _ => Nat.le_refl _

theorem Expr.count_bindingsOfAll_read_le : ∀ (exprs : List Expr) (mark : Mark),
    (Expr.bindingsOfAll exprs .read).marks.count mark ≤
      (Expr.bindingsOfAll exprs .target).marks.count mark
  | [], _ => Nat.le_refl _
  | expr :: rest, mark => by
    rw [Expr.bindingsOfAll, Expr.bindingsOfAll, marks_append, marks_append,
      List.count_append, List.count_append]
    exact Nat.add_le_add (Expr.count_bindings_read_le expr mark)
      (Expr.count_bindingsOfAll_read_le rest mark)

end

section Statements

variable (around : Surroundings) {scope : ScopeId}

theorem Survey.noted_imports {step : Survey → Alias → Survey}
    (each : ∀ imported : Alias, Noted around scope (step · imported)
      (ScopeItem.binding imported.boundName?.toList) imported.boundName?.toList []
      (.names imported.boundName?.toList)) (aliases : List Alias) :
    Noted around scope (aliases.foldl step ·) (ScopeItem.binding (Alias.boundNames aliases))
      (aliases.flatMap (·.identifiers)) [] (.names (Alias.boundNames aliases)) := by
  induction aliases with
  | nil => exact .nothing
  | cons imported _ ih =>
    have first := (each imported).among (imported.boundName?_sublist.map _).count_le
      fun _ => Nat.le_refl _
    rw [Alias.boundNames, flatMap_cons, flatMap_cons, ScopeItem.binding,
      map_append, names_append]
    exact first.andThen ih

theorem Survey.noted_addImported (origin : String → BindingOrigin) (aliases : List Alias) :
    Noted around scope (·.addImported scope origin aliases)
      (ScopeItem.binding (Alias.boundNames aliases)) (aliases.flatMap (·.identifiers)) []
      (.names (Alias.boundNames aliases)) := by
  refine noted_imports around (fun imported => ?_) aliases
  cases imported.boundName? with
  | none => exact .nothing
  | some bound => exact noted_addBinding around .imported _ bound

theorem Survey.noted_addPlainImport (imported : Alias) :
    Noted around scope (addPlainImport scope · imported)
      (ScopeItem.binding imported.boundName?.toList) imported.boundName?.toList []
      (.names imported.boundName?.toList) := by
  unfold addPlainImport Alias.boundName?
  cases imported.asName with
  | some name => exact noted_addBinding around .imported _ name
  | none =>
    cases imported.name.parts with
    | cons first => exact noted_addBinding around .imported _ first
    | nil => exact .nothing

theorem Survey.noted_addFromImport (mark : Mark) (imported : FromImport) :
    Noted around scope (·.addFromImport around scope mark imported)
      (imported.items around mark) (imported.names.flatMap (·.identifiers)) []
      (⟨if imported.isWildcard then [mark] else []⟩ ++
        .names (Alias.boundNames imported.names)) := by
  have explicit (origin : String → BindingOrigin) :
      Noted around scope (·.addImported scope origin imported.names)
        (ScopeItem.binding (Alias.boundNames imported.names))
        (imported.names.flatMap (·.identifiers)) []
        (⟨if imported.isWildcard then [mark] else []⟩ ++
          .names (Alias.boundNames imported.names)) :=
    (noted_addImported around origin imported.names).bindAmong
      fun _ => (sublist_append_right ..).count_le _
  unfold addFromImport FromImport.items
  cases imported.module? around.package with
  | none =>
    have first : Noted around scope (fun survey =>
        if imported.isWildcard then survey.markWildcard else survey) [] [] [] .empty := by
      cases imported.isWildcard with
      | true => exact noted_markWildcard around
      | false => exact .nothing
    exact first.andThen (explicit _)
  | some module' =>
    dsimp only
    split
    next isWildcard =>
      have wildcard {step : Survey → Survey} {items : List ScopeItem} {marks : List Mark}
          (noted : Noted around scope step items [] [] ⟨marks⟩) (isMark : marks.Sublist [mark]) :
          Noted around scope step items (imported.names.flatMap (·.identifiers)) []
            (⟨[mark]⟩ ++ .names (Alias.boundNames imported.names)) :=
        noted.among (fun _ => Nat.zero_le _)
          fun _ => (isMark.trans (sublist_append_left ..)).count_le _
      cases found : around.project.bind (·.exports? module') with
      | none => exact wildcard (noted_markWildcard around) (nil_sublist _)
      | some exports =>
        have isNoted := noted_note around (.wildcard scope mark module' exports) (.inl rfl)
          (fun alone => by rw [alone] at found; cases found) rfl
          [.spreads mark ((exports.map (·.name)).filter (!·.isEmpty))] [] [] ⟨[mark]⟩ rfl rfl
          rfl nofun
        exact wildcard isNoted (Sublist.refl _)
    next isExplicit =>
      rw [if_neg isExplicit] at explicit
      exact explicit _

theorem SimpleStmt.noted (mark : Mark) (form : SimpleStmt) :
    Noted around scope (form.survey around scope mark) (form.items around mark)
      form.identifiers (Outline.preorderOfAll form.outlines) (form.bindings mark) := by
  have swapped (first second : Bindings) (mark : Mark) :
      (first ++ second).marks.count mark ≤ (second ++ first).marks.count mark := by
    rw [marks_append, marks_append, List.count_append, List.count_append]
    exact Nat.le_of_eq (Nat.add_comm ..)
  cases form with
  | assign targets value =>
    have both := (value.noted around scope .read).andThen
      (Expr.noted_all around targets scope (.bind .assignmentTarget))
    refine (both.bindAmong (swapped _ _)).reorder ?_
    simp only [SimpleStmt.outlines, preorderOfAll_append, Outline.preorderOfAll,
      append_nil, mem_append]
    exact fun _ => or_comm
  | annotatedAssign target hint value =>
    have whole := ((hint.noted around scope .read).andThen
      (Expr.noted_option around value scope)).andThen
        (target.noted around scope (.bind .assignmentTarget))
    refine (whole.bindAmong fun mark => ?_).reorder ?_
    · simp only [Role.use, SimpleStmt.bindings, marks_append, List.count_append]
      omega
    · simp only [SimpleStmt.outlines, Outline.preorderOfAll]
      grind
  | augmentedAssign target op value =>
    have first := value.noted around scope .read
    have sameNodes (node : Visited) :
        node ∈ Outline.preorderOfAll (SimpleStmt.augmentedAssign target op value).outlines ↔
          node ∈ value.outline.preorder ++ target.outline.preorder := by
      simp only [SimpleStmt.outlines, Outline.preorderOfAll, append_nil, mem_append]
      exact or_comm
    cases target with
    | name identifier =>
      exact ((first.andThen (noted_addPlainBinding around .compoundAssignmentTarget
        identifier)).bindAmong (swapped _ _)).reorder sameNodes
    | _ =>
      exact ((first.andThen ((Expr.noted around _ scope .read).bindAmong
        (Expr.count_bindings_read_le _))).bindAmong (swapped _ _)).reorder sameNodes
  | expr value => exact (value.noted around scope .read).reorder (by simp [SimpleStmt.outlines])
  | ret value => exact Expr.noted_option around value scope
  | delete targets =>
    exact (Expr.noted_all around targets scope .read).bindAmong
      (Expr.count_bindingsOfAll_read_le targets)
  | raise exception cause =>
    exact ((Expr.noted_option around exception scope).andThen
      (Expr.noted_option around cause scope)).reorder (by simp [SimpleStmt.outlines])
  | assert test message =>
    exact (test.noted around scope .read).andThen (Expr.noted_option around message scope)
  | globalNames names => exact noted_addDeclarations around true names
  | nonlocalNames names => exact noted_addDeclarations around false names
  | plainImport names => exact noted_imports around (noted_addPlainImport around) names
  | fromImport imported =>
    refine (noted_addFromImport around mark imported).among (fun id => ?_) fun _ => Nat.le_refl _
    simp only [SimpleStmt.identifiers, map_append, List.count_append]
    omega
  | _ => exact .nothing

theorem WithItem.noted_all (managers : List WithItem) :
    Noted around scope (WithItem.surveyAll scope managers) (WithItem.items managers)
      (managers.flatMap (·.identifiers)) (Outline.preorderOfAll (WithItem.outlines managers))
      (WithItem.bindings managers) := by
  induction managers with
  | nil => exact .nothing
  | cons item _ ih =>
    obtain ⟨_, manager, target⟩ := item
    have first := manager.noted around scope .read
    cases target with
    | none =>
      exact ((first.andThen .nothing).andThen ih).reorder
        (by simp [WithItem.outlines, Expr.outlineOf])
    | some target =>
      exact ((first.andThen (target.noted around scope (.bind .withInstance))).andThen
        ih).reorder (by simp [WithItem.outlines, Expr.outlineOf])

theorem Parameter.noted_heads (parameters : List Parameter) :
    Noted around scope (Parameter.surveyHeads scope parameters) (Parameter.headItems parameters)
      (Parameter.headIdentifiers parameters)
      (Outline.preorderOfAll (Parameter.outlines parameters))
      (Parameter.headBindings parameters) := by
  induction parameters with
  | nil => exact .nothing
  | cons parameter _ ih =>
    obtain ⟨mark, target, hint, default, kind, positionalOnly, keywordOnly⟩ := parameter
    exact (((Expr.noted_option around hint scope).andThen
      (Expr.noted_option around default scope)).andThen ih).within
        (by simp) rfl rfl

/-- All that is surveyed before the scope of the function is opened. -/
def FunctionHead.surveyHeader (head : FunctionHead) (scope : ScopeId) (survey : Survey) : Survey :=
  (Expr.surveyOption scope head.returns (Parameter.surveyHeads scope head.parameters
    (Expr.surveyAll scope head.decorators .read survey))).addBinding scope .functionDeclaration
      (.functionDef head.mark.id) head.name

theorem FunctionHead.noted_header (head : FunctionHead) :
    Noted around scope (head.surveyHeader scope) head.items
      (Expr.identifiersOfAll head.decorators ++ Parameter.headIdentifiers head.parameters ++
        Expr.identifiersOfOption head.returns ++ [head.name])
      (Outline.preorderOfAll head.outlines)
      (Expr.bindingsOfAll head.decorators .read ++ Parameter.headBindings head.parameters ++
        Expr.bindingsOfOption head.returns ++ .names [head.name]) := by
  have whole := (((Expr.noted_all around head.decorators scope .read).andThen
    (Parameter.noted_heads around head.parameters)).andThen
      (Expr.noted_option around head.returns scope)).andThen
        (noted_addBinding around .functionDeclaration (.functionDef head.mark.id) head.name)
  exact whole.reorder (by simp [FunctionHead.outlines])

theorem FunctionHead.lastScope_survey (around : Surroundings) (head : FunctionHead)
    (scope : ScopeId) (body : List Stmt) (survey : Survey) :
    (head.survey scope body survey).lastScope = (head.surveyHeader scope survey).nextScope := by
  have isInner := (head.surveyHeader scope survey).nextScope_lt_openScope .function (some scope)
    head.mark (some head.name.text) body
    (head.receiver? (head.surveyHeader scope survey).scopes scope)
  have bound := (Parameter.noted_bindAll around _ head.parameters _ isInner).size_eq
  rw [Parameter.boundItems_scopeless, Nat.add_zero] at bound
  exact (congrArg (· - 1) bound).trans (lastScope_openScope ..)

def ClassHead.surveyHeader (head : ClassHead) (scope : ScopeId) (survey : Survey) : Survey :=
  (Argument.surveyAll scope head.arguments
    (Expr.surveyAll scope head.decorators .read survey)).addBinding scope .classDeclaration
      (.classDef head.mark.id) head.name

theorem ClassHead.noted_header (head : ClassHead) :
    Noted around scope (head.surveyHeader scope) head.items head.identifiers
      (Outline.preorderOfAll head.outlines) head.bindings := by
  have whole := ((Expr.noted_all around head.decorators scope .read).andThen
    (Argument.noted_all around head.arguments scope)).andThen
      (noted_addBinding around .classDeclaration (.classDef head.mark.id) head.name)
  refine (whole.bindAmong fun mark => ?_).reorder (by simp [ClassHead.outlines])
  simp only [Role.use, ClassHead.bindings, marks_append, List.count_append]
  omega

theorem HandlerHead.noted (head : HandlerHead) :
    Noted around scope (head.survey scope) head.items head.identifiers
      (Outline.preorderOfAll (Expr.outlineOf head.kind)) head.bindings := by
  have whole := ((noted_noteNode around head.mark.id).andThen
    (Expr.noted_option around head.kind scope)).andThen
      (noted_addBindings around .exceptionInstance head.name.toList)
  exact whole.reorder (by simp)

theorem CaseHead.noted (head : CaseHead) :
    Noted around scope (head.survey scope) head.items head.identifiers
      (head.pattern.outline.preorder ++ Outline.preorderOfAll (Expr.outlineOf head.guard))
      head.bindings :=
  (head.pattern.noted around scope).andThen (Expr.noted_option around head.guard scope)

end Statements

section Suites

variable (around : Surroundings)

mutual

theorem Stmt.noted : ∀ (stmt : Stmt) (scope : ScopeId),
    Noted around scope (stmt.survey around scope) (stmt.items around) stmt.identifiers
      stmt.outline.preorder stmt.bindings
  | .simple mark form, _ =>
    ((noted_noteNode around mark.id).andThen (form.noted around mark)).visit rfl rfl
  | .functionDef head body, scope => by
    have declared (isGlobal : Bool) : ScopeItem.declared isGlobal
        (Parameter.boundItems head.parameters ++ Stmt.itemsOfAll around body) =
          ScopeItem.declared isGlobal (Stmt.itemsOfAll around body) := by
      rw [ScopeItem.declared_append, (Parameter.boundItems_inExpr _).declared, nil_append]
    have inside (inner : ScopeId) := (Parameter.noted_bindAll around inner head.parameters).andThen
      (Stmt.noted_all body inner)
    have opened := Noted.opens (fun inner _ => inside inner) scope .function head.mark
      (some head.name.text) body (fun survey => head.receiver? survey.scopes scope) nofun (.inl rfl)
      ((declaredGlobal_eq around body).trans (declared true).symm)
      ((declaredNonlocal_eq around body).trans (declared false).symm) [.functionDef head body]
      fun stmt isStmt => mem_singleton.mp isStmt ▸ rfl
    have whole := (((noted_noteNode around head.mark.id).andThen
      (head.noted_header around)).andThen opened).thenSilently (noted_function around ⟨head, scope⟩)
    have isStep : Stmt.survey around scope (.functionDef head body) = fun survey =>
        (Stmt.surveyAll around
          (head.surveyHeader scope (survey.noteNode scope head.mark.id)).nextScope body
          (head.survey scope body (survey.noteNode scope head.mark.id))).note
            (.function ⟨head, scope⟩) := by
      funext survey
      rw [← head.lastScope_survey around scope body]
      rfl
    rw [isStep]
    refine (whole.among (fun id => ?_) fun mark => ?_).reorder ?_
    · have listed := Parameter.count_identifiers head.parameters id
      simp only [Stmt.identifiers, FunctionHead.identifiers, map_append, List.count_append,
        nil_append]
      omega
    · have listed := Parameter.count_bindings head.parameters mark
      simp only [Stmt.bindings, FunctionHead.bindings, marks_append, List.count_append,
        empty_append]
      omega
    · simp only [Stmt.outline, Outline.preorder, preorderOfAll_append, nil_append,
        map_cons, map_nil, mem_append, mem_cons, not_mem_nil, or_false]
      exact fun _ => or_left_comm
  | .classDef head body, scope => by
    have inside (inner : ScopeId) (isInner : inner ≠ moduleScope) :=
      (Stmt.noted_all body inner).thenSilently (noted_class around ⟨head, inner⟩ isInner)
    have opened := Noted.opens inside scope .classBody head.mark (some head.name.text) body
      (fun _ => none) nofun (.inl rfl) (declaredGlobal_eq around body)
      (declaredNonlocal_eq around body) [.classDef head body]
      fun stmt isStmt => mem_singleton.mp isStmt ▸ rfl
    have whole := ((noted_noteNode around head.mark.id).andThen
      (head.noted_header around)).andThen opened
    have isStep : Stmt.survey around scope (.classDef head body) = fun survey =>
        (Stmt.surveyAll around
          (head.surveyHeader scope (survey.noteNode scope head.mark.id)).nextScope body
          (head.survey scope body (survey.noteNode scope head.mark.id))).note
            (.ofClass ⟨head,
              (head.surveyHeader scope (survey.noteNode scope head.mark.id)).nextScope⟩) := by
      funext survey
      rw [← lastScope_openScope _ .classBody (some scope) head.mark (some head.name.text) body none]
      rfl
    rw [isStep]
    refine whole.reorder ?_
    simp only [Stmt.outline, Outline.preorder, preorderOfAll_append, nil_append,
      map_cons, map_nil, mem_append, mem_cons, not_mem_nil, or_false]
    exact fun _ => or_left_comm
  | .branch mark test body orelse, scope
  | .whileLoop mark test body orelse, scope =>
    ((((noted_noteNode around mark.id).andThen (test.noted around scope .read)).andThen
      (Stmt.noted_all body scope)).andThen (Stmt.noted_all orelse scope)).within
        (by simp) rfl rfl
  | .forLoop mark target iter _ body orelse, scope => by
    have whole := ((((noted_noteNode around mark.id).andThen
      (iter.noted around scope .read)).andThen
        (target.noted around scope (.bind .loopDeclaration))).andThen
          (Stmt.noted_all body scope)).andThen (Stmt.noted_all orelse scope)
    refine (whole.bindAmong fun mark => ?_).within (by simp; grind) rfl rfl
    simp only [Stmt.bindings, Role.use, empty_append, marks_append,
      List.count_append]
    omega
  | .tryBlock mark body handlers orelse finalbody, scope => by
    have whole := ((((noted_noteNode around mark.id).andThen (Stmt.noted_all body scope)).andThen
      (Handler.noted_all handlers scope)).andThen (Stmt.noted_all orelse scope)).andThen
        (Stmt.noted_all finalbody scope)
    refine (whole.bindAmong fun mark => ?_).within (by simp) rfl rfl
    simp only [Stmt.bindings, empty_append, marks_append, append_assoc]
    exact Nat.le_refl _
  | .withBlock mark items _ body, scope =>
    (((noted_noteNode around mark.id).andThen (WithItem.noted_all around items)).andThen
      (Stmt.noted_all body scope)).within (by simp) rfl rfl
  | .matchOn mark subject cases, scope =>
    (((noted_noteNode around mark.id).andThen (subject.noted around scope .read)).andThen
      (MatchCase.noted_all cases scope)).visit rfl rfl

theorem Stmt.noted_all : ∀ (suite : List Stmt) (scope : ScopeId),
    Noted around scope (Stmt.surveyAll around scope suite) (Stmt.itemsOfAll around suite)
      (Stmt.identifiersOfAll suite) (Outline.preorderOfAll (Stmt.outlines suite))
      (Stmt.bindingsOfAll suite)
  | [], _ => .nothing
  | stmt :: rest, scope => (Stmt.noted stmt scope).andThen (Stmt.noted_all rest scope)

theorem Handler.noted_all : ∀ (handlers : List Handler) (scope : ScopeId),
    Noted around scope (Handler.surveyAll around scope handlers) (Handler.items around handlers)
      (Handler.identifiers handlers) (Outline.preorderOfAll (Handler.outlines handlers))
      (Handler.bindings handlers)
  | [], _ => .nothing
  | ⟨head, body⟩ :: rest, scope =>
    (((head.noted around).andThen (Stmt.noted_all body scope)).andThen
      (Handler.noted_all rest scope)).reorder (by simp [Handler.outlines])

theorem MatchCase.noted_all : ∀ (cases : List MatchCase) (scope : ScopeId),
    Noted around scope (MatchCase.surveyAll around scope cases) (MatchCase.items around cases)
      (MatchCase.identifiers cases) (Outline.preorderOfAll (MatchCase.outlines cases))
      (MatchCase.bindings cases)
  | [], _ => .nothing
  | ⟨head, body⟩ :: rest, scope =>
    (((head.noted around).andThen (Stmt.noted_all body scope)).andThen
      (MatchCase.noted_all rest scope)).reorder (by simp [MatchCase.outlines])

end

end Suites

theorem Survey.ofModule_surveys (around : Surroundings) (module' : Module) :
    ∃ opened : Survey,
      opened = Survey.empty.openScope .topLevel none module'.mark
        (some (moduleName around.package around.file)) module'.body none ∧
      Surveys around moduleScope opened (Survey.ofModule around module')
        (Stmt.itemsOfAll around module'.body) module'.identifiers module'.visited
        (Stmt.bindingsOfAll module'.body) :=
  ⟨_, rfl, Stmt.noted_all around module'.body _ _ Nat.one_pos⟩

end PyStatic
