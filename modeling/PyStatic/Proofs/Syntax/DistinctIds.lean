import PyStatic.Proofs.Concrete.Subtrees
import PyStatic.Proofs.Syntax.Listings
import PyStatic.Proofs.Syntax.Numbering

/-!
Contract: in a module that is read off a concrete tree, identities identify nodes.
-/

namespace PyStatic

open List Reading

section Readings

variable {tidy : Prop} {above : TextRange}

namespace Shape.Sound

variable {shape : Shape} (sound : shape.Sound tidy above)

include sound

theorem dottedName : Draws tidy [] shape.dottedName (DottedName.links above) := by
  unfold Shape.dottedName
  split
  · exact (draws_identifiers sound.named).andThen fun _ => .value rfl
  · exact sound.identifier.andThen fun _ => .value rfl

theorem importAlias : Draws tidy [] shape.importAlias (Alias.links above) := by
  unfold Shape.importAlias
  refine sound.marked fun _ inside => ?_
  have asName := draws_optionalIdentifier (inside.labelled? "alias")
  split
  · dsimp only
    split
    next name isFound =>
      exact (inside.labelled? _ name isFound).shape.dottedName.andThen fun _ =>
        asName.andThen fun _ => .value rfl
    · rw [pure_bind]
      exact asName.andThen fun _ => .value rfl
  · exact inside.dottedName.andThen fun _ => .value (append_nil _)

theorem importAliases :
    Draws tidy [] shape.importAliases fun aliases => aliases.flatMap (·.links above) :=
  .mapM (fun name isName => (sound.labelled _ name isName).shape.importAlias) rfl
    fun _ _ => flatMap_cons

theorem importedModule :
    Draws tidy [] shape.importedModule fun found => found.1.toList.flatMap (·.links above) := by
  unfold Shape.importedModule
  split
  · exact sound.marked fun _ _ => .value rfl
  · split
    next name isFound =>
      have nameSound := (sound.labelled? _ name isFound).shape
      split
      · refine .andThen (.onSome (fun found isDotted =>
          (nameSound.findNamed? _ found isDotted).shape.dottedName) rfl fun _ => ?_)
          fun _ => .value rfl
        exact append_nil _
      · exact nameSound.dottedName.andThen fun _ => .value (append_nil _)
    · exact .value rfl

theorem fromImport : Draws tidy [] shape.fromImport (Stmt.links above) := by
  unfold Shape.fromImport
  refine sound.marked fun _ inside => inside.importedModule.andThen fun found => ?_
  exact inside.importAliases.andThen fun names => .value (append_assoc ..).symm

end Shape.Sound

theorem Draws.singleton {action : Numbered Stmt} (draws : Draws tidy [] action (Stmt.links above)) :
    Draws tidy [] (List.singleton <$> action) (Stmt.linksOfAll above) :=
  draws.map fun _ => append_nil _

theorem Shape.Sound.suite {shape : Shape} (sound : shape.Sound tidy above) :
    Draws tidy [] shape.suite (Stmt.linksOfAll above) := by
  have suites : Draws tidy [] (shape.named.mapM (·.statements)) fun suites =>
      Stmt.linksOfAll above suites.flatten :=
    .mapM (fun child isNamed => (sound.named child isNamed).meant.statements) rfl
      fun _ _ => (Stmt.additive above).append _ _
  exact suites.andThen fun _ => .value rfl

theorem Reading.draws_suiteOf {block : Option Reading}
    (sound : ∀ found, block = some found → found.Sound tidy above) :
    Draws tidy [] (Reading.suiteOf block) (Stmt.linksOfAll above) := by
  cases block with
  | none => exact .value rfl
  | some block => exact (sound block rfl).shape.suite

namespace Shape.Sound

variable {shape : Shape} {range : TextRange}

theorem assignment {mark : Mark} (sound : shape.Sound tidy mark.range) (outer : TextRange)
    (targets : List Expr) :
    Draws tidy ([⟨outer, mark⟩] ++ Expr.linksOfAll mark.range targets)
      (shape.assignment mark targets) (Stmt.links outer) := by
  have assigned (target : Expr) :
      [⟨outer, mark⟩] ++ Expr.linksOfAll mark.range (targets ++ [target]) =
      [⟨outer, mark⟩] ++ Expr.linksOfAll mark.range targets ++ target.links mark.range := by
    simp [(Expr.additive mark.range).append, Expr.linksOfAll]
  unfold Shape.assignment
  refine (sound.labelledExpr _).andThen fun target => ?_
  split
  next hint isFound =>
    refine (sound.labelled? _ hint isFound).expr.andThen fun hint => ?_
    refine (draws_optionalExpr (sound.labelled? _)).andThen fun value => ?_
    exact .value (by simp [Stmt.links, SimpleStmt.links, Expr.linksOfAll])
  · rw [← assigned target]
    split
    next right isFound =>
      have rightSound := sound.labelled? _ right isFound
      split
      · exact rightSound.meant.assignment outer mark _ rfl
      · exact rightSound.expr.andThen fun _ => .value (append_assoc ..).symm
    · exact sound.unreadable.andThen fun _ => .value (append_assoc ..).symm

theorem augmentedAssign (sound : shape.Sound tidy range)
    (isWithin : tidy → range.within above = true) :
    Draws tidy [] (shape.augmentedAssign range) (Stmt.links above) :=
  .marked isWithin fun _ => (sound.labelledExpr _).andThen fun _ =>
    (sound.labelledExpr _).andThen fun _ => .value (append_assoc ..).symm

theorem functionDef (sound : shape.Sound tidy range) (isWithin : tidy → range.within above = true)
    (decorators : List Expr) :
    Draws tidy (Expr.linksOfAll range decorators) (shape.functionDef range decorators)
      (Stmt.links above) :=
  .marked isWithin fun _ => (sound.labelledIdentifier _).andThen fun _ =>
    sound.parameters.andThen fun _ =>
      (draws_optionalExpr (sound.labelled? _)).andThen fun _ =>
        (draws_suiteOf (sound.labelled? _)).andThen fun _ => .value rfl

theorem classDef (sound : shape.Sound tidy range) (isWithin : tidy → range.within above = true)
    (decorators : List Expr) :
    Draws tidy (Expr.linksOfAll range decorators) (shape.classDef range decorators)
      (Stmt.links above) := by
  have body := draws_suiteOf (sound.labelled? "body")
  unfold Shape.classDef
  refine .marked isWithin fun _ => (sound.labelledIdentifier _).andThen fun name => ?_
  dsimp only
  split
  next list isFound =>
    exact (sound.labelled? _ list isFound).shape.arguments.andThen fun _ =>
      body.andThen fun _ => .value rfl
  · rw [pure_bind]
    exact body.andThen fun _ => .value (by simp [Stmt.links, ClassHead.links, Argument.linksOfAll])

variable (sound : shape.Sound tidy above)

include sound

theorem expressionStatement : Draws tidy [] shape.expressionStatement (Stmt.links above) := by
  have namedSound := sound.inside.named
  unfold Shape.expressionStatement
  split
  next only isOnly =>
    rw [isOnly] at namedSound
    have onlySound := namedSound only mem_cons_self
    split
    · exact sound.marked fun _ _ => onlySound.meant.assignment above _ [] rfl
    · split
      · exact onlySound.shape.augmentedAssign sound.isWithin
      · exact sound.marked fun _ _ => onlySound.expr.andThen fun _ => .value rfl
  · exact sound.marked fun _ inside => (inside.collection .tuple).andThen fun _ => .value rfl

theorem decoratedDefinition : Draws tidy [] shape.decoratedDefinition (Stmt.linksOfAll above) := by
  have applied : ∀ reading ∈ (shape.named.filter (·.kind == "decorator")).filterMap
      (·.shape.firstNamed?), reading.Sound tidy shape.range := by
    intro reading isIn
    obtain ⟨decorator, isDecorator, isFirst⟩ := mem_filterMap.mp isIn
    exact (sound.inside.filterNamed _ decorator isDecorator).shape.firstNamed? reading isFirst
  unfold Shape.decoratedDefinition
  refine (draws_exprs applied).andThen fun decorators => ?_
  split
  next definition isFound =>
    have definitionSound := (sound.inside.labelled? _ definition isFound).shape
    split
    · exact (definitionSound.classDef sound.isWithin decorators).bind fun _ =>
        .value (append_nil _)
    · exact (definitionSound.functionDef sound.isWithin decorators).bind fun _ =>
        .value (append_nil _)
  · exact .of_within (nil_within _)

theorem deletion : Draws tidy [] shape.deletion (Stmt.links above) := by
  unfold Shape.deletion
  refine sound.marked fun _ inside => ?_
  dsimp only
  split
  next only isFirst =>
    have onlySound := inside.firstNamed? only isFirst
    split
    · exact onlySound.shape.namedExprs.andThen fun _ => .value rfl
    · refine onlySound.expr.andThen fun target => ?_
      rw [pure_bind]
      exact .value (by simp [Stmt.links, SimpleStmt.links, Expr.linksOfAll])
  · rw [pure_bind]
    exact .value rfl

theorem raised? : ∀ found, shape.raised? = some found → found.Sound tidy above := by
  intro found isFound
  obtain ⟨entry, isHead, rfl⟩ := Option.map_eq_some_iff.mp isFound
  have isIn := (mem_filter.mp (mem_of_head? isHead)).1
  exact sound.child (fst_mem_of_mem_zipIdx isIn)

theorem raising : Draws tidy [] shape.raising (Stmt.links above) :=
  sound.marked fun _ inside => (draws_optionalExpr inside.raised?).andThen fun _ =>
    (draws_optionalExpr (inside.labelled? _)).andThen fun _ => .value (append_assoc ..).symm

theorem assertion : Draws tidy [] shape.assertion (Stmt.linksOfAll above) := by
  have namedSound := sound.inside.named
  unfold Shape.assertion
  refine sound.marked fun _ _ => ?_
  split
  · exact .of_within (nil_within _)
  next test rest isNamed =>
    rw [isNamed, forall_mem_cons] at namedSound
    refine namedSound.1.expr.andThen fun test => ?_
    refine (draws_optionalExpr fun found isHead =>
      namedSound.2 found (mem_of_head? isHead)).andThen fun message => ?_
    exact .value (by simp [Stmt.linksOfAll, Stmt.links, SimpleStmt.links])

theorem clauseSuite : Draws tidy [] shape.clauseSuite (Stmt.linksOfAll above) :=
  draws_suiteOf (sound_orElse (sound.labelled? _) (sound.findNamed? _))

end Shape.Sound

theorem Shape.draws_clauseSuiteOf {clause : Option Reading}
    (sound : ∀ found, clause = some found → found.Sound tidy above) :
    Draws tidy [] (Shape.clauseSuiteOf clause) (Stmt.linksOfAll above) := by
  cases clause with
  | none => exact .value rfl
  | some clause => exact (sound clause rfl).shape.clauseSuite

theorem Reading.within_cover {first : Reading} {rest : List Reading}
    (isSorted : (first :: rest).Pairwise Reading.Before) :
    ∀ clause ∈ first :: rest,
      clause.range.within (first.range.cover (rest.getLast?.getD first).range) = true := by
  intro clause isClause
  have starts : first.range.start ≤ clause.range.start := by
    rcases mem_cons.mp isClause with rfl | isLater
    · exact Nat.le_refl _
    · exact ((pairwise_cons.mp isSorted).1 clause isLater).1
  obtain ⟨init, isInit⟩ :=
    getLast?_eq_some_iff.mp (getLast?_cons : (first :: rest).getLast? = _)
  rw [isInit] at isSorted isClause
  refine (TextRange.within_iff ..).mpr ⟨starts, ?_⟩
  rcases mem_append.mp isClause with isEarlier | isLast
  · exact ((pairwise_append.mp isSorted).2.2 clause isEarlier _ mem_cons_self).2
  · rw [mem_singleton.mp isLast]
    exact Nat.le_refl _

theorem Shape.draws_alternatives {clauses : List Reading}
    (sound : ∀ clause ∈ clauses, clause.Sound tidy above)
    (isSorted : tidy → clauses.Pairwise Reading.Before) :
    Draws tidy [] (Shape.alternatives clauses) (Stmt.linksOfAll above) := by
  induction clauses generalizing above with
  | nil => exact .value rfl
  | cons first rest ih =>
    unfold Shape.alternatives
    split
    · have isLast : rest.getLast?.getD first ∈ first :: rest :=
        mem_of_getLast? getLast?_cons
      have starts (isTidy : tidy) := (TextRange.within_iff ..).mp
        ((sound first mem_cons_self).shape.isWithin isTidy)
      have stops (isTidy : tidy) := (TextRange.within_iff ..).mp
        ((sound _ isLast).shape.isWithin isTidy)
      have inside : ∀ clause ∈ first :: rest, clause.Sound tidy
          (first.range.cover (rest.getLast?.getD first).range) :=
        fun clause isClause => (sound clause isClause).inRange fun isTidy =>
          within_cover (isSorted isTidy) clause isClause
      rw [forall_mem_cons] at inside
      refine .marked (fun isTidy => (TextRange.within_iff ..).mpr
        ⟨(starts isTidy).1, (stops isTidy).2⟩) fun _ => ?_
      refine (inside.1.shape.labelledExpr _).andThen fun test => ?_
      refine (draws_suiteOf (inside.1.shape.labelled? _)).andThen fun body => ?_
      exact (ih inside.2 fun isTidy => (isSorted isTidy).of_cons).andThen fun orelse =>
        .value (append_nil _)
    · exact (sound first mem_cons_self).shape.clauseSuite

theorem Shape.draws_caught {parts : List Reading}
    (sound : ∀ part ∈ parts, part.Sound tidy above) :
    Draws tidy [] (Shape.caught parts) fun found =>
      Expr.linksOfOption above found.1 ++ found.2.toList.map (·.link above) := by
  unfold Shape.caught
  split
  next only =>
    have onlySound := sound only mem_cons_self
    split
    · refine (draws_optionalExpr onlySound.shape.firstNamed?).andThen fun _ =>
        .andThen (draws_optionalIdentifier fun found isFound => ?_) fun _ => .value rfl
      exact sound_aliasTarget? (onlySound.shape.labelled? _) found
        (Option.filter_eq_some_iff.mp isFound).1
    · exact onlySound.expr.andThen fun _ => .value (append_nil _)
  next kind name =>
    rw [forall_mem_cons, forall_mem_singleton] at sound
    refine sound.1.expr.andThen fun _ =>
      .andThen (draws_optionalIdentifier fun found isFound => ?_) fun _ => .value rfl
    split at isFound
    · cases isFound
      exact sound.2
    · cases isFound
  · exact .value rfl

namespace Shape

def TryClauses.links (above : TextRange) (clauses : TryClauses) : List Link :=
  Handler.linksOfAll above clauses.handlers ++ Stmt.linksOfAll above clauses.orelse ++
    Stmt.linksOfAll above clauses.finalbody

theorem Sound.handler {shape : Shape} (sound : shape.Sound tidy above) :
    Draws tidy [] shape.handler fun handler => Handler.linksOfAll above [handler] := by
  unfold Shape.handler
  refine sound.marked fun _ inside => (draws_caught (inside.filterNamed _)).andThen fun found => ?_
  exact (draws_suiteOf (inside.findNamed? _)).andThen fun body =>
    .value (append_nil _)

theorem draws_tryClausesFrom {readings : List Reading}
    (sound : ∀ reading ∈ readings, reading.Sound tidy above) (before : TryClauses) :
    Draws tidy (before.links above) (tryClausesFrom before readings) (TryClauses.links above) := by
  induction readings generalizing before with
  | nil => exact .value rfl
  | cons clause rest ih =>
    rw [forall_mem_cons] at sound
    have continues := ih sound.2
    have handled : Draws tidy (before.links above) (do
        let handler ← clause.shape.handler
        tryClausesFrom { before with handlers := before.handlers ++ [handler] } rest)
        (TryClauses.links above) := by
      refine sound.1.shape.handler.andThen fun handler =>
        (continues _).weaken (.of_count_le fun link => ?_)
      simp only [TryClauses.links, (Handler.additive above).append, List.count_append]
      omega
    unfold tryClausesFrom
    split
    · exact handled
    · exact handled
    · refine sound.1.shape.clauseSuite.andThen fun orelse =>
        (continues _).weaken (.of_count_le fun link => ?_)
      simp only [TryClauses.links, List.count_append]
      omega
    · refine sound.1.shape.clauseSuite.andThen fun finalbody =>
        (continues _).weaken (.of_count_le fun link => ?_)
      simp only [TryClauses.links, List.count_append]
      omega
    · exact continues before

theorem Sound.withItem? {shape : Shape} (sound : shape.Sound tidy above) :
    Draws tidy [] shape.withItem? fun item => item.toList.flatMap (·.links above) := by
  unfold Shape.withItem?
  split
  · split
    next value isFound =>
      have valueSound :=
        sound_orElse (sound.labelled? _) sound.firstNamed? value isFound
      have item : Draws tidy [] (shape.withItemOf value) (WithItem.links above) := by
        unfold withItemOf
        split
        · exact valueSound.shape.firstNamedExpr.andThen fun _ =>
            (draws_optionalExpr (sound_aliasTarget?
              (valueSound.shape.labelled? _))).andThen fun _ => .value rfl
        · exact valueSound.expr.andThen fun _ =>
            (draws_optionalExpr (sound.labelled? _)).andThen fun _ => .value rfl
      exact item.map fun _ => append_nil _
    · exact .value rfl
  · exact .value rfl

theorem draws_withItems (above : TextRange) {managers : List Reading}
    (sound : ∀ manager ∈ managers, manager.Sound tidy above) :
    Draws tidy [] (managers.mapM (·.shape.withItem?)) fun items =>
      (items.filterMap id).flatMap (·.links above) :=
  .mapM (fun manager isIn => (sound manager isIn).shape.withItem?) rfl
    fun item _ => by cases item <;> simp

namespace Sound

variable {shape : Shape} (sound : shape.Sound tidy above)

include sound

theorem branching : Draws tidy [] shape.branching (Stmt.links above) :=
  sound.marked fun _ inside => (inside.labelledExpr _).andThen fun _ =>
    (draws_suiteOf (inside.labelled? _)).andThen fun _ =>
      (draws_alternatives (inside.labelled _) fun isTidy =>
        (inside.isSorted isTidy).filter _).andThen fun _ => .value rfl

theorem forLoop : Draws tidy [] shape.forLoop (Stmt.links above) :=
  sound.marked fun _ inside => (inside.labelledExpr _).andThen fun _ =>
    (inside.labelledExpr _).andThen fun _ =>
      (draws_suiteOf (inside.labelled? _)).andThen fun _ =>
        (draws_clauseSuiteOf (inside.labelled? _)).andThen fun _ => .value rfl

theorem whileLoop : Draws tidy [] shape.whileLoop (Stmt.links above) :=
  sound.marked fun _ inside => (inside.labelledExpr _).andThen fun _ =>
    (draws_suiteOf (inside.labelled? _)).andThen fun _ =>
      (draws_clauseSuiteOf (inside.labelled? _)).andThen fun _ => .value rfl

theorem tryBlock : Draws tidy [] shape.tryBlock (Stmt.links above) :=
  sound.marked fun _ inside => (draws_suiteOf (inside.labelled? _)).andThen fun _ =>
    (draws_tryClausesFrom inside.named ⟨[], [], []⟩).andThen fun _ => .value rfl

theorem withBlock : Draws tidy [] shape.withBlock (Stmt.links above) := by
  unfold Shape.withBlock
  refine sound.marked fun _ inside => .andThen (draws_withItems shape.range ?_) fun items => ?_
  · intro manager isManager
    split at isManager
    next clause isFound => exact (inside.findNamed? _ clause isFound).shape.named manager isManager
    · exact absurd isManager not_mem_nil
  · exact (draws_suiteOf (inside.labelled? _)).andThen fun body => .value rfl

theorem matchCase :
    Draws tidy [] shape.matchCase fun clause => MatchCase.linksOfAll above [clause] := by
  unfold Shape.matchCase
  refine sound.marked fun _ inside => ?_
  have patterns := inside.filterNamed fun child => child.kind == "case_pattern"
  have guard : ∀ found, (shape.labelled? "guard").bind (·.shape.firstNamed?) = some found →
      found.Sound tidy shape.range := by
    intro found isFound
    obtain ⟨clause, isClause, isFirst⟩ := Option.bind_eq_some_iff.mp isFound
    exact (inside.labelled? _ clause isClause).shape.firstNamed? found isFirst
  have body := draws_suiteOf (inside.labelled? "consequence")
  dsimp only
  split
  next only isOnly =>
    rw [isOnly] at patterns
    exact (patterns only mem_cons_self).pattern.andThen fun _ =>
      (draws_optionalExpr guard).andThen fun _ => body.andThen fun _ =>
        .value (append_nil _)
  · refine (draws_patterns patterns).andThen fun items => ?_
    rw [pure_bind]
    exact (draws_optionalExpr guard).andThen fun _ => body.andThen fun _ =>
      .value (append_nil _)

theorem matchSubject : Draws tidy [] shape.matchSubject (Expr.links above) := by
  have subjects := sound.labelled "subject"
  unfold Shape.matchSubject
  split
  next only isOnly =>
    rw [isOnly] at subjects
    exact (subjects only mem_cons_self).expr
  · exact sound.marked fun _ inside =>
      (draws_exprs (inside.labelled _)).andThen fun _ => .value rfl

theorem matching : Draws tidy [] shape.matching (Stmt.links above) := by
  unfold Shape.matching
  refine sound.marked fun _ inside => inside.matchSubject.andThen fun subject => ?_
  refine .andThen (.mapEach (fun clause isClause => matchCase ?_) (MatchCase.additive _))
    fun cases => .value rfl
  split at isClause
  next body isFound =>
    exact ((inside.labelled? _ body isFound).shape.filterNamed _ clause isClause).shape
  · exact absurd isClause not_mem_nil

theorem keyword {form : SimpleStmt} (isBare : form.links shape.range = []) :
    Draws tidy [] (shape.keyword form) (Stmt.links above) :=
  sound.marked fun _ _ => .value (by rw [Stmt.links, isBare, append_nil, nil_append])

theorem statements : Draws tidy [] (shape.statements shape.expr) (Stmt.linksOfAll above) := by
  have declared : Draws tidy [] shape.declaredNames fun names => names.map (·.link shape.range) :=
    draws_identifiers (sound.inside.filterNamed _)
  unfold Shape.statements
  split
  · exact sound.suite
  · exact sound.suite
  · exact sound.expressionStatement.singleton
  · exact (sound.inside.functionDef sound.isWithin []).singleton
  · exact (sound.inside.classDef sound.isWithin []).singleton
  · exact sound.decoratedDefinition
  · exact sound.marked fun _ inside => (draws_optionalExpr inside.firstNamed?).andThen fun _ =>
      .value (append_nil _)
  · exact sound.deletion.singleton
  · exact sound.raising.singleton
  · exact sound.assertion
  iterate 3 · exact (sound.keyword rfl).singleton
  · exact sound.marked fun _ _ => declared.andThen fun _ => .value (append_nil _)
  · exact sound.marked fun _ _ => declared.andThen fun _ => .value (append_nil _)
  · exact sound.marked fun _ inside => inside.importAliases.andThen fun _ =>
      .value (append_nil _)
  · exact sound.fromImport.singleton
  · exact sound.fromImport.singleton
  · exact sound.branching.singleton
  · exact sound.forLoop.singleton
  · exact sound.whileLoop.singleton
  · exact sound.tryBlock.singleton
  · exact sound.withBlock.singleton
  · exact sound.matching.singleton
  · exact sound.marked fun _ inside => (inside.collection .tuple).andThen fun _ =>
      .value (append_nil _)
  · exact sound.marked fun _ inside => (inside.collection .tuple).andThen fun _ =>
      .value (append_nil _)
  · exact sound.marked fun _ inside => inside.expr.andThen fun _ => .value (append_nil _)

theorem reading : shape.reading.Sound tidy above := by
  refine .intro sound.isWithin sound.isProper sound.isSorted sound.children fun outer isWithin => ?_
  have moved : shape.Sound tidy outer := { sound with isWithin }
  refine ⟨moved.expr, moved.statements, moved.pattern, moved.parameterTarget, ?_⟩
  rintro above mark targets rfl
  exact moved.assignment above targets

end Sound

end Shape

end Readings

namespace Tree

variable {tidy : Prop}

def Nested : Tree → Prop :=
  Every fun info children => ∀ child ∈ children, child.info.range.within info.range = true

/-- No range is reversed, and children stand in source order. -/
def InSourceOrder : Tree → Prop :=
  Every fun info children => info.range.start ≤ info.range.stop ∧
    children.Pairwise fun first second => first.info.range.start ≤ second.info.range.start ∧
      first.info.range.stop ≤ second.info.range.stop

theorem range_reading (source : Source) (tree : Tree) :
    (tree.reading source).range = tree.info.range := by
  cases tree
  rw [reading]
  rfl

theorem readings_eq_map (source : Source) (trees : List Tree) :
    readings source trees = trees.map (·.reading source) := by
  induction trees with
  | nil => rw [readings, map_nil]
  | cons _ _ ih => rw [readings, ih, map_cons]

mutual

theorem reading_sound (source : Source) {above : TextRange} : ∀ tree : Tree,
    (tidy → tree.info.range.within above = true) → (tidy → tree.Nested) →
      (tidy → tree.InSourceOrder) → (tree.reading source).Sound tidy above
  | .node _ children => by
    intro isWithin isNested inOrder
    rw [reading]
    refine Shape.Sound.reading ⟨isWithin, fun isTidy => (every_node.mp (inOrder isTidy)).1.1,
      fun isTidy => ?_, readings_sound source children
        (fun isTidy => (every_node.mp (isNested isTidy)).1)
        (fun isTidy => (every_node.mp (isNested isTidy)).2)
        fun isTidy => (every_node.mp (inOrder isTidy)).2⟩
    have sorted := (every_node.mp (inOrder isTidy)).1.2
    rw [readings_eq_map, pairwise_map]
    refine sorted.imp fun isBefore => ?_
    rwa [Reading.Before, range_reading, range_reading]

theorem readings_sound (source : Source) {above : TextRange} : ∀ trees : List Tree,
    (tidy → ∀ tree ∈ trees, tree.info.range.within above = true) →
      (tidy → ∀ tree ∈ trees, tree.Nested) → (tidy → ∀ tree ∈ trees, tree.InSourceOrder) →
      ∀ reading ∈ readings source trees, reading.Sound tidy above
  | [] => by
    rw [readings]
    exact fun _ _ _ _ isIn => absurd isIn not_mem_nil
  | tree :: rest => by
    simp only [readings, forall_mem_cons]
    intro isWithin isNested inOrder
    exact ⟨reading_sound source tree (fun isTidy => (isWithin isTidy).1)
        (fun isTidy => (isNested isTidy).1) fun isTidy => (inOrder isTidy).1,
      readings_sound source rest (fun isTidy => (isWithin isTidy).2)
        (fun isTidy => (isNested isTidy).2) fun isTidy => (inOrder isTidy).2⟩

end

theorem readModule_sound (source : Source) (root : Tree) (isNested : tidy → root.Nested)
    (inOrder : tidy → root.InSourceOrder) :
    (∀ node, (root.readModule source).1.ids.count node ≤
      drawn 0 (root.readModule source).2 node) ∧
      (tidy → ∀ link ∈ (root.readModule source).1.links, link.Nests) := by
  have suite := (reading_sound source root (fun _ => root.info.range.within_refl) isNested
    inOrder).shape.suite
  have draws : Draws tidy [] (do
      let mark ← Numbered.freshMark root.info.range
      return ⟨mark, ← (root.reading source).shape.suite⟩)
      fun module' : Module =>
        ⟨root.info.range, module'.mark⟩ :: Stmt.linksOfAll root.info.range module'.body :=
    .marked (fun _ => root.info.range.within_refl) fun _ => suite.andThen fun _ => .value rfl
  obtain ⟨_, bound, nests⟩ := draws 0
  refine ⟨fun node => ?_, fun isTidy link isIn => ?_⟩
  · have bound := bound node
    rwa [map_nil, count_nil, Nat.zero_add, map_cons, (Stmt.listedOfAll ..).map_id] at bound
  · exact nests isTidy (fun _ isIn => absurd isIn not_mem_nil) link (mem_cons_of_mem _ isIn)

/-- Whatever tree is read, no two nodes of the module have the same identity. -/
theorem readModule_distinctIds (source : Source) (root : Tree) :
    (root.readModule source).1.ids.Nodup ∧
      ∀ id ∈ (root.readModule source).1.ids, id < (root.readModule source).2 := by
  have bound := (readModule_sound source root False.elim False.elim).1
  constructor
  · rw [List.nodup_iff_count]
    intro node
    refine Nat.le_trans (bound node) ?_
    unfold drawn
    split <;> omega
  · intro node isIn
    have occurs := List.count_pos_iff.mpr isIn
    have bound := bound node
    unfold drawn at bound
    split at bound
    next isDrawn => exact isDrawn.2
    · omega

end Tree

end PyStatic
