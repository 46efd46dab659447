import PyStatic.Concrete.Fault
import PyStatic.Proofs.Concrete.ExpressionGrammar
import PyStatic.Proofs.Syntax.NestedRanges

/-!
Contract: the names in an f-string are read.

One name is followed down the tree. At each node it is in one part, and the reading of the node runs
the reading of that part and keeps what it gives.
-/

namespace PyStatic

open List

/-! ## Following a name -/

def Has (name : TreeNode) (found : List Identifier) : Prop :=
  ∃ identifier ∈ found, identifier.range = name.range

section Has

variable {name : TreeNode} {first second : List Identifier}

@[simp] theorem not_has_nil : ¬ Has name [] := by
  simp [Has]

@[simp] theorem has_cons {identifier : Identifier} {rest : List Identifier} :
    Has name (identifier :: rest) ↔ identifier.range = name.range ∨ Has name rest := by
  simp [Has]

@[simp] theorem has_append : Has name (first ++ second) ↔ Has name first ∨ Has name second := by
  simp only [Has, mem_append, or_and_right, exists_or]

theorem Has.left (has : Has name first) : Has name (first ++ second) :=
  has_append.mpr (.inl has)

theorem Has.right (has : Has name second) : Has name (first ++ second) :=
  has_append.mpr (.inr has)

end Has

def Finds {α : Type} (name : TreeNode) (action : Numbered α) (found : α → List Identifier) : Prop :=
  ∀ next, Has name (found (action next).1)

namespace Finds

variable {α β : Type} {name : TreeNode} {action : Numbered α} {rest : α → Numbered β}
  {found : α → List Identifier} {others : β → List Identifier}

theorem value {value : α} (has : Has name (found value)) : Finds name (pure value) found :=
  fun _ => has

theorem first (finds : Finds name action found)
    (keeps : ∀ value, Has name (found value) → Finds name (rest value) others) :
    Finds name (action >>= rest) others :=
  fun next => keeps _ (finds next) _

theorem second (finds : ∀ value, Finds name (rest value) others) :
    Finds name (action >>= rest) others :=
  fun _ => finds _ _

theorem mapM {γ : Type} {action : γ → Numbered α} {item : γ} {all : List α → List Identifier}
    (additive : Additive all) {items : List γ} (isIn : item ∈ items)
    (finds : Finds name (action item) fun result => all [result]) :
    Finds name (items.mapM action) all := by
  induction items with
  | nil => exact absurd isIn not_mem_nil
  | cons first _ ih =>
    rw [mapM_cons]
    rcases mem_cons.mp isIn with rfl | isIn
    · refine finds.first fun value has => .second fun values => .value ?_
      rw [additive.cons, has_append]
      exact .inl has
    · refine .second fun value => (ih isIn).first fun values has => .value ?_
      rw [additive.cons, has_append]
      exact .inr has

end Finds

theorem Expr.additive_identifiers : Additive Expr.identifiersOfAll :=
  ⟨rfl, fun _ _ => by simp [Expr.identifiersOfAll]⟩

theorem ParameterTarget.additive_names : Additive ParameterTarget.namesOfAll :=
  ⟨rfl, fun _ _ => by simp [ParameterTarget.namesOfAll]⟩

theorem Argument.additive_identifiers : Additive Argument.identifiers :=
  ⟨rfl, by rintro ⟨⟩ _; simp [Argument.identifiers]⟩

theorem DictItem.additive_identifiers : Additive DictItem.identifiers :=
  ⟨rfl, by rintro ⟨⟩ _; simp [DictItem.identifiers]⟩

theorem Generator.additive_identifiers : Additive Generator.identifiers :=
  ⟨rfl, by rintro ⟨⟩ _; simp [Generator.identifiers]⟩

theorem Parameter.additive_identifiers : Additive Parameter.identifiers :=
  ⟨rfl, by rintro ⟨⟩ _; simp [Parameter.identifiers]⟩

/-! ## Trees and their shapes -/

namespace Tree

variable {source : Source} {tree child : Tree} {name : TreeNode} {label rule : String}
  {clauses : List Generator}

def shape (source : Source) (tree : Tree) : Shape :=
  ⟨tree.info, source.slice tree.info.range, tree.children.map (·.reading source)⟩

theorem reading_eq (source : Source) (tree : Tree) :
    tree.reading source = (tree.shape source).reading := by
  cases tree
  rw [reading, readings_eq_map]
  rfl

theorem info_reading (source : Source) (tree : Tree) : (tree.reading source).info = tree.info := by
  rw [reading_eq]
  rfl

theorem kind_reading (source : Source) (tree : Tree) :
    (tree.reading source).kind = tree.info.kind := by
  rw [reading_eq]
  rfl

theorem shape_reading (source : Source) (tree : Tree) :
    (tree.reading source).shape = tree.shape source := by
  rw [reading_eq]
  rfl

theorem named_shape (source : Source) (tree : Tree) :
    (tree.shape source).named = tree.parts.map (·.reading source) := by
  simp only [Shape.named, shape, filter_map, parts]
  congr 1
  exact filter_congr fun child _ => by simp [info_reading, isPart]

theorem labelled_shape (source : Source) (tree : Tree) (label : String) :
    (tree.shape source).labelled label =
      (tree.children.filter (·.info.label == some label)).map (·.reading source) := by
  simp only [Shape.labelled, shape, filter_map]
  congr 1
  exact filter_congr fun child _ => by simp [info_reading]

theorem firstNamed?_shape (source : Source) (tree : Tree) : (tree.shape source).firstNamed? =
    (tree.children.find? (·.info.flags.isNamed)).map (·.reading source) := by
  rw [Shape.firstNamed?, shape, find?_map]
  simp only [Function.comp_def, info_reading]

theorem mem_labelled (isPart : child ∈ tree.parts) (isLabelled : child.info.label = some label) :
    child ∈ tree.children.filter (·.info.label == some label) :=
  mem_filter.mpr ⟨(mem_filter.mp isPart).1, by simp [isLabelled]⟩

theorem labelled_eq (once : (tree.children.filter (·.info.label == some label)).length ≤ 1)
    (isPart : child ∈ tree.parts) (isLabelled : child.info.label = some label) :
    tree.children.filter (·.info.label == some label) = [child] := by
  have isIn := mem_labelled isPart isLabelled
  obtain ⟨only, isOnly⟩ := length_eq_one_iff.mp (Nat.le_antisymm once (length_pos_of_mem isIn))
  rw [isOnly, mem_singleton] at isIn
  rw [isOnly, isIn]

theorem labelled?_shape (once : (tree.children.filter (·.info.label == some label)).length ≤ 1)
    (isPart : child ∈ tree.parts) (isLabelled : child.info.label = some label) :
    (tree.shape source).labelled? label = some (child.reading source) := by
  rw [Shape.labelled?, ← head?_filter]
  change ((tree.shape source).labelled label).head? = _
  rw [labelled_shape, labelled_eq once isPart isLabelled]
  rfl

theorem find?_isNamed {trees : List Tree}
    (isShown : ∀ first ∈ trees.find? (·.info.flags.isNamed), first.info.flags.isExtra = false) :
    trees.find? (·.info.flags.isNamed) = trees.find? isPart := by
  induction trees with
  | nil => rfl
  | cons tree _ ih =>
    rw [find?_cons] at isShown ⊢
    rw [find?_cons, isPart]
    cases isNamed : tree.info.flags.isNamed <;> rw [isNamed] at isShown
    · simpa using ih isShown
    · simp [isShown tree rfl]

def Keeps (source : Source) (tree : Tree) : Prop :=
  ∀ name ∈ tree.names, Finds name (tree.reading source).expr Expr.identifiers

/-- A tree keeps to the grammar, and all trees below it keep their names. -/
structure Ready (source : Source) (tree : Tree) : Prop where
  obeys : ∀ part ∈ tree.subtrees, part.Obeys
  below : ∀ child ∈ tree.children, ∀ part ∈ child.subtrees, part.Keeps source

namespace Ready

variable (ready : tree.Ready source)

include ready

theorem part (isPart : child ∈ tree.parts) : child.Ready source where
  obeys part isBelow :=
    ready.obeys part (subtrees_subset_of_mem (mem_filter.mp isPart).1 isBelow)
  below _ isInner part isBelow :=
    ready.below child (mem_filter.mp isPart).1 part (subtrees_subset_of_mem isInner isBelow)

theorem keeps (isPart : child ∈ tree.parts) : child.Keeps source :=
  ready.below child (mem_filter.mp isPart).1 child (self_mem_subtrees child)

theorem exists_part (isRule : tree.info.kind = rule) (isOther : rule ≠ "identifier")
    (isName : name ∈ tree.names) : ∃ child ∈ tree.parts, name ∈ child.names := by
  obtain ⟨child, isPart, isName, -⟩ :=
    (ready.obeys tree (self_mem_subtrees tree)).exists_part isName (isRule ▸ isOther)
  exact ⟨child, isPart, isName⟩

theorem once {slots : List Slot} {slot : Slot} (isRule : tree.info.kind = rule)
    (hasSlots : slots? rule = some slots) (isSlot : slot ∈ slots) (isOne : slot.isMany = false) :
    (tree.children.filter (·.info.label == slot.label)).length ≤ 1 :=
  (ready.obeys tree (self_mem_subtrees tree)).once slots (isRule ▸ hasSlots) slot isSlot isOne

theorem slot {slots : List Slot} (isPart : child ∈ tree.parts) (isRule : tree.info.kind = rule)
    (hasSlots : slots? rule = some slots) :
    ∃ slot ∈ slots, slot.Takes child ∧ (slot.isMany = false → ∀ label, slot.label = some label →
      (tree.shape source).labelled? label = some (child.reading source)) := by
  obtain ⟨slot, isSlot, takes⟩ := (ready.obeys tree (self_mem_subtrees tree)).takes slots
    (isRule ▸ hasSlots) child isPart
  refine ⟨slot, isSlot, takes, fun isOne label isLabel => ?_⟩
  have once := ready.once isRule hasSlots isSlot isOne
  rw [isLabel] at once
  exact labelled?_shape once isPart (takes.1.trans isLabel)

theorem not_mem_names (isRule : tree.info.kind = rule) (isLeaf : slots? rule = some [])
    (isOther : rule ≠ "identifier") : name ∉ tree.names := by
  intro isName
  obtain ⟨child, isPart, -⟩ := ready.exists_part isRule isOther isName
  obtain ⟨slot, isSlot, -⟩ := ready.slot isPart isRule isLeaf
  exact not_mem_nil isSlot

theorem operand (isRule : tree.info.kind ∈ "parenthesized_expression" :: operandRules)
    (isPart : child ∈ tree.parts) (isName : name ∈ child.names)
    (isShown : ∀ first ∈ tree.children.find? (·.info.flags.isNamed),
      first.info.flags.isExtra = false) :
    (tree.shape source).firstNamed? = some (child.reading source) := by
  have others := (ready.obeys tree (self_mem_subtrees tree)).operand isRule
  have isHead : tree.parts.head? = some child := by
    cases parts_eq : tree.parts with
    | nil => simp [parts_eq] at isPart
    | cons =>
      rw [parts_eq] at isPart others
      rcases mem_cons.mp isPart with rfl | isLater
      · rfl
      · have isRead := ((isPassedOver_eq_false_iff child).mp (mem_names isName).1).1
        rw [others child isLater] at isRead
        exact absurd (by decide) isRead
  rw [firstNamed?_shape, find?_isNamed isShown, ← head?_filter]
  exact congrArg (Option.map _) isHead

theorem firstNamed? (isRule : tree.info.kind ∈ operandRules) (isName : name ∈ tree.names) :
    ∃ child ∈ tree.parts, (tree.shape source).firstNamed? = some (child.reading source) ∧
      name ∈ child.names := by
  have isOther : tree.info.kind ≠ "identifier" := fun isIdentifier =>
    absurd (isIdentifier ▸ isRule) (by decide)
  obtain ⟨child, isPart, isInner⟩ := ready.exists_part rfl isOther isName
  refine ⟨child, isPart, ready.operand (mem_cons_of_mem _ isRule) isPart isInner ?_, isInner⟩
  intro first isFirst
  have isShown := ((isPassedOver_eq_false_iff tree).mp (mem_names isName).1).2
  rw [Option.mem_def] at isFirst
  simpa [hidesOperand, isRule, isFirst] using isShown

theorem firstNamedExpr (isRule : tree.info.kind ∈ operandRules) (isName : name ∈ tree.names) :
    Finds name (tree.shape source).firstNamedExpr Expr.identifiers := by
  obtain ⟨child, isPart, isFirst, isName⟩ := ready.firstNamed? isRule isName
  rw [Shape.firstNamedExpr, isFirst]
  exact ready.keeps isPart name isName

section Part

variable (isPart : child ∈ tree.parts) (isName : name ∈ child.names)

include isPart isName

theorem labelledExpr
    (isFound : (tree.shape source).labelled? label = some (child.reading source)) :
    Finds name ((tree.shape source).labelledExpr label) Expr.identifiers := by
  rw [Shape.labelledExpr, isFound]
  exact ready.keeps isPart name isName

theorem exprs {trees : List Tree} (isIn : child ∈ trees) :
    Finds name ((trees.map (·.reading source)).mapM (·.expr)) Expr.identifiersOfAll :=
  .mapM Expr.additive_identifiers (mem_map_of_mem isIn) fun next => by
    simpa [Expr.identifiersOfAll] using ready.keeps isPart name isName next

theorem namedExprs : Finds name (tree.shape source).namedExprs Expr.identifiersOfAll := by
  rw [Shape.namedExprs, named_shape]
  exact ready.exprs isPart isName isPart

theorem either {first second : String} (isRule : tree.info.kind = rule)
    (hasSlots : slots? rule = some [.one first, .one second]) :
    Finds name ((tree.shape source).labelledExpr first) Expr.identifiers ∨
      Finds name ((tree.shape source).labelledExpr second) Expr.identifiers := by
  obtain ⟨slot, isSlot, -, isFound⟩ := ready.slot isPart isRule hasSlots
  rcases mem_pair.mp isSlot with rfl | rfl
  · exact .inl (ready.labelledExpr isPart isName (isFound rfl _ rfl))
  · exact .inr (ready.labelledExpr isPart isName (isFound rfl _ rfl))

end Part

end Ready

theorem eq_info (isIdentifier : tree.info.kind = "identifier") (isName : name ∈ tree.names) :
    name = tree.info := by
  rcases (mem_names isName).2 with ⟨-, same⟩ | ⟨isOther, -⟩
  · exact same
  · exact absurd isIdentifier isOther

theorem finds_identifier (isIdentifier : tree.info.kind = "identifier")
    (isName : name ∈ tree.names) :
    Finds name (tree.shape source).identifier fun identifier => [identifier] := by
  intro next
  rw [has_cons, eq_info isIdentifier isName]
  exact .inl rfl

theorem finds_labelledIdentifier
    (isFound : (tree.shape source).labelled? label = some (child.reading source))
    (isIdentifier : child.info.kind = "identifier") (isName : name ∈ child.names) :
    Finds name ((tree.shape source).labelledIdentifier label) fun identifier => [identifier] := by
  rw [Shape.labelledIdentifier, isFound]
  dsimp only
  rw [shape_reading]
  exact finds_identifier isIdentifier isName

/-! ## Parameters and arguments -/

theorem kind_of_isBinder (isBinder : tree.isBinder = true) : tree.info.kind = "identifier" ∨
    (tree.info.kind = "tuple_pattern" ∨ tree.info.kind = "list_pattern") ∧
      ∀ part ∈ tree.parts, part.isBinder = true := by
  obtain ⟨info, children⟩ := tree
  unfold Tree.isBinder at isBinder
  split at isBinder
  next isRule => exact .inl isRule
  next isRule => exact .inr ⟨.inl isRule, areBinders_iff.mp isBinder⟩
  next isRule => exact .inr ⟨.inr isRule, areBinders_iff.mp isBinder⟩
  · cases isBinder

theorem finds_target (tree : Tree) (ready : tree.Ready source) (isBinder : tree.isBinder = true)
    (isName : name ∈ tree.names) :
    Finds name (tree.reading source).target ParameterTarget.names := by
  induction tree using induction_children with
  | step tree ih =>
    obtain ⟨info, children⟩ := tree
    rw [reading_eq]
    change Finds name ((node info children).shape source).parameterTarget _
    rcases kind_of_isBinder isBinder with isRule | ⟨isRule, areBinders⟩
    · have rule_eq : ((node info children).shape source).kind = "identifier" := isRule
      simp only [Shape.parameterTarget, rule_eq]
      exact finds_identifier isRule isName
    · have target_eq : ((node info children).shape source).parameterTarget = (do
          return .tuple (← ((node info children).shape source).named.mapM (·.target))) := by
        rcases isRule with isRule | isRule <;>
          simp only [Shape.parameterTarget, Shape.kind, shape, isRule]
      obtain ⟨child, isPart, isName⟩ := ready.exists_part rfl
        (by rcases isRule with isRule | isRule <;> simp [isRule]) isName
      have isChild : child ∈ children := (mem_filter.mp isPart).1
      rw [target_eq, named_shape]
      refine Finds.mapM ParameterTarget.additive_names (mem_map_of_mem isPart) fun next => ?_
      simpa [ParameterTarget.namesOfAll] using
        ih child isChild (ready.part isPart) (areBinders child isPart) isName next

theorem finds_parameterOf {binder inner : Tree} {shape : Shape} {hint default : Option Reading}
    (isInner : binder.isBinder = true ∧ inner = binder ∨
      (binder.info.kind = "list_splat_pattern" ∨ binder.info.kind = "dictionary_splat_pattern") ∧
        (binder.shape source).firstNamed? = some (inner.reading source))
    (isFound : Finds name (inner.reading source).target ParameterTarget.names ∨
      ∃ value, default = some value ∧ Finds name value.expr Expr.identifiers) :
    Finds name (shape.parameterOf (binder.reading source) hint default)
      fun parameter => Parameter.identifiers parameter.toList := by
  have reads (mark : Mark) (kind : ParameterKind) : Finds name (do
      let target ← (inner.reading source).target
      let hint ← Numbered.onSome (·.expr) hint
      let default ← Numbered.onSome (·.expr) default
      return some
        { mark, target, hint, default, kind, positionalOnly := false, keywordOnly := false })
      fun parameter => Parameter.identifiers parameter.toList := by
    rcases isFound with finds | ⟨value, rfl, finds⟩
    · exact fun _ => (finds _).left.left.left
    · exact fun _ => (finds _).right.left
  refine .second fun mark => ?_
  rcases isInner with ⟨isBinder, rfl⟩ | ⟨isRule | isRule, isFirst⟩
  · rcases kind_of_isBinder isBinder with isRule | ⟨isRule | isRule, -⟩ <;>
      simp only [kind_reading, isRule] <;> exact reads mark _
  · simp only [kind_reading, shape_reading, isRule, isFirst]
    exact reads mark _
  · simp only [kind_reading, shape_reading, isRule, isFirst]
    exact reads mark _

theorem identifiers_positionalOnly (parameters : List Parameter) :
    Parameter.identifiers (parameters.map fun parameter =>
      { parameter with positionalOnly := true }) = Parameter.identifiers parameters := by
  induction parameters with
  | nil => rfl
  | cons parameter _ ih =>
    cases parameter
    exact congrArg (_ ++ ·) ih

theorem finds_parametersFrom_of_has (keywordOnly : Bool) (before : List Parameter)
    (readings : List Reading) (has : Has name (Parameter.identifiers before)) :
    Finds name (Reading.parametersFrom keywordOnly before readings) Parameter.identifiers := by
  induction readings generalizing keywordOnly before with
  | nil => exact .value has
  | cons _ _ ih =>
    unfold Reading.parametersFrom
    split
    · exact ih _ _ (by rwa [identifiers_positionalOnly])
    · split
      · exact ih _ _ has
      · refine .second fun found => ?_
        cases found with
        | none => exact ih _ _ has
        | some =>
          refine ih _ _ ?_
          rw [Parameter.additive_identifiers.append, has_append]
          exact .inl has

namespace Ready

section Parameters

variable (ready : tree.Ready source) (isName : name ∈ tree.names)

include ready isName

theorem splatParameter
    (isRule : tree.info.kind = "list_splat_pattern" ∨ tree.info.kind = "dictionary_splat_pattern")
    (isPlain : tree.parts.all isBinder = true) :
    Finds name ((tree.shape source).parameterOf (tree.reading source) none none)
      fun parameter => Parameter.identifiers parameter.toList := by
  have isOperand : tree.info.kind ∈ operandRules := by
    rcases isRule with isRule | isRule <;> simp [isRule, operandRules]
  obtain ⟨child, isPart, isFirst, isName⟩ := ready.firstNamed? isOperand isName
  exact finds_parameterOf (.inr ⟨isRule, isFirst⟩)
    (.inl (finds_target child (ready.part isPart) (all_eq_true.mp isPlain child isPart) isName))

theorem defaultParameter (isRule : tree.info.kind = "default_parameter")
    (isPlain : tree.parts.any fun part =>
      part.info.label == some "name" && part.isBinder) :
    Finds name ((tree.shape source).parameter? (tree.reading source))
      fun parameter => Parameter.identifiers parameter.toList := by
  obtain ⟨binder, isBinder, isPlain⟩ := any_eq_true.mp isPlain
  simp only [Bool.and_eq_true, beq_iff_eq] at isPlain
  have once := ready.once isRule rfl (mem_cons_self ..) rfl
  have rule_eq : (tree.shape source).kind = "default_parameter" := isRule
  simp only [Shape.parameter?, rule_eq, labelled?_shape once isBinder isPlain.1]
  refine finds_parameterOf (.inl ⟨isPlain.2, rfl⟩) ?_
  obtain ⟨child, isPart, isName⟩ := ready.exists_part isRule (by decide) isName
  obtain ⟨slot, isSlot, takes, isFound⟩ := ready.slot isPart isRule rfl
  rcases mem_pair.mp isSlot with rfl | rfl
  · obtain rfl : child = binder := List.singleton_inj.mp
      ((labelled_eq once isPart takes.1).symm.trans (labelled_eq once isBinder isPlain.1))
    exact .inl (finds_target child (ready.part isPart) isPlain.2 isName)
  · exact .inr ⟨_, isFound rfl _ rfl, ready.keeps isPart name isName⟩

theorem parameter (isPlain : tree.isPlainParameter = true) :
    Finds name ((tree.shape source).parameter? (tree.reading source))
      fun parameter => Parameter.identifiers parameter.toList := by
  have rule_eq : (tree.shape source).kind = tree.info.kind := rfl
  unfold isPlainParameter at isPlain
  split at isPlain
  next isRule => exact absurd isName (ready.not_mem_names isRule rfl (by decide))
  next isRule => exact absurd isName (ready.not_mem_names isRule rfl (by decide))
  next isRule =>
    simp only [Shape.parameter?, rule_eq, isRule]
    exact ready.splatParameter isName (.inl isRule) isPlain
  next isRule =>
    simp only [Shape.parameter?, rule_eq, isRule]
    exact ready.splatParameter isName (.inr isRule) isPlain
  next isRule => exact ready.defaultParameter isName isRule isPlain
  · have finds := @finds_parameterOf source name tree tree (tree.shape source) none none
      (.inl ⟨isPlain, rfl⟩) (.inl (finds_target tree ready isPlain isName))
    rcases kind_of_isBinder isPlain with isRule | ⟨isRule | isRule, -⟩ <;>
      simpa only [Shape.parameter?, rule_eq, isRule] using finds

theorem parametersFrom (isPlain : tree.isPlainParameter = true) (keywordOnly : Bool)
    (before : List Parameter) {trees : List Tree} (isIn : tree ∈ trees) :
    Finds name (Reading.parametersFrom keywordOnly before (trees.map (·.reading source)))
      Parameter.identifiers := by
  have isOther {rule : String} (isLeaf : slots? rule = some []) (differs : rule ≠ "identifier") :
      ¬ (tree.info.kind == rule) = true := fun isRule =>
    ready.not_mem_names (beq_iff_eq.mp isRule) isLeaf differs isName
  induction trees generalizing keywordOnly before with
  | nil => exact absurd isIn not_mem_nil
  | cons first _ ih =>
    rw [map_cons, Reading.parametersFrom]
    rcases mem_cons.mp isIn with rfl | isIn
    · rw [kind_reading, shape_reading, if_neg (isOther rfl (by decide)),
        if_neg (isOther rfl (by decide))]
      refine (ready.parameter isName isPlain).first fun found has => ?_
      cases found with
      | none => exact absurd has not_has_nil
      | some parameter =>
        refine finds_parametersFrom_of_has _ _ _ ?_
        rw [Parameter.additive_identifiers.append, has_append]
        cases parameter
        exact .inr has
    · split
      · exact ih _ _ isIn
      · split
        · exact ih _ _ isIn
        · refine .second fun found => ?_
          cases found with
          | none => exact ih _ _ isIn
          | some => exact ih _ _ isIn

end Parameters

variable (ready : tree.Ready source) (isPart : child ∈ tree.parts) (isName : name ∈ child.names)

include ready isPart isName

theorem nameOrValue (isRule : tree.info.kind = rule)
    (hasSlots : slots? rule = some [.oneOf "name" ["identifier"], .one "value"]) :
    Finds name ((tree.shape source).labelledIdentifier "name") (fun identifier => [identifier]) ∨
      Finds name ((tree.shape source).labelledExpr "value") Expr.identifiers := by
  obtain ⟨slot, isSlot, takes, isFound⟩ := ready.slot isPart isRule hasSlots
  rcases mem_pair.mp isSlot with rfl | rfl
  · have isIdentifier := mem_singleton.mp (takes.2 _ rfl)
    exact .inl (finds_labelledIdentifier (isFound rfl _ rfl) isIdentifier isName)
  · exact .inr (ready.labelledExpr isPart isName (isFound rfl _ rfl))

theorem arguments : Finds name (tree.shape source).arguments Argument.identifiers := by
  rw [Shape.arguments, named_shape]
  refine .mapM Argument.additive_identifiers (mem_map_of_mem isPart) ?_
  have inner := ready.part isPart
  rw [shape_reading]
  unfold Shape.argument
  split
  next isRule =>
    have isRule := beq_iff_eq.mp isRule
    obtain ⟨part, isInner, isName⟩ := inner.exists_part isRule (by decide) isName
    rcases inner.nameOrValue isInner isName isRule rfl with finds | finds
    · exact fun _ => (finds _).left.left
    · exact fun _ => (finds _).right.left
  · exact fun _ => (ready.keeps isPart name isName _).right.left

/-! ## Expressions -/

theorem collection (form : CollectionShape) :
    Finds name ((tree.shape source).collection form) Expr.identifiers :=
  fun _ => ready.namedExprs isPart isName _

theorem parenthesized (isRule : tree.info.kind = "parenthesized_expression") :
    Finds name (tree.shape source).parenthesized Expr.identifiers := by
  have tuple := ready.collection isPart isName .tuple
  unfold Shape.parenthesized
  split
  next inner isFirst =>
    split
    · exact tuple
    next isShown =>
      have isFound := ready.operand (by simp [isRule]) isPart isName (by
        intro first isNamed
        rw [firstNamed?_shape, Option.mem_def.mp isNamed] at isFirst
        cases isFirst
        simpa [info_reading] using isShown)
      obtain rfl := Option.some.inj (isFirst.symm.trans isFound)
      exact ready.keeps isPart name isName
  · exact tuple

theorem member (isRule : tree.info.kind = "attribute") :
    Finds name (tree.shape source).member Expr.identifiers := by
  obtain ⟨slot, isSlot, takes, isFound⟩ := ready.slot isPart isRule rfl
  rcases mem_pair.mp isSlot with rfl | rfl
  · have finds := ready.labelledExpr isPart isName (isFound rfl _ rfl)
    exact fun _ => (finds _).left
  · have finds := finds_labelledIdentifier (isFound rfl _ rfl)
      (mem_singleton.mp (takes.2 _ rfl)) isName
    exact fun _ => (finds _).right

theorem subscript (isRule : tree.info.kind = "subscript") :
    Finds name (tree.shape source).subscript Expr.identifiers := by
  obtain ⟨slot, isSlot, takes, isFound⟩ := ready.slot isPart isRule rfl
  rcases mem_pair.mp isSlot with rfl | rfl
  · have finds := ready.labelledExpr isPart isName (isFound rfl _ rfl)
    exact fun _ => (finds _).left
  · have finds := ready.exprs isPart isName (mem_labelled isPart takes.1)
    rw [← labelled_shape] at finds
    exact fun _ => (finds _).right

theorem call (isRule : tree.info.kind = "call") :
    Finds name (tree.shape source).call Expr.identifiers := by
  obtain ⟨slot, isSlot, takes, isFound⟩ := ready.slot isPart isRule rfl
  rcases mem_pair.mp isSlot with rfl | rfl
  · refine .second fun _ => (ready.labelledExpr isPart isName (isFound rfl _ rfl)).first
      fun func has => ?_
    split
    · split <;> exact fun _ => has.left
    · exact fun _ => has.left
  · refine .second fun _ => .second fun func => ?_
    rw [isFound rfl _ rfl]
    dsimp only
    rw [kind_reading, shape_reading]
    split
    · exact fun _ => (ready.keeps isPart name isName _).right.left.right
    next isOther =>
      have isList : child.info.kind = "argument_list" :=
        (mem_pair.mp (takes.2 _ rfl)).resolve_right fun isRule => isOther (beq_iff_eq.mpr isRule)
      obtain ⟨argument, isArgument, isName⟩ :=
        (ready.part isPart).exists_part isList (by decide) isName
      exact fun _ => ((ready.part isPart).arguments isArgument isName _).right

theorem binary (kind : BinaryKind) (isRule : tree.info.kind = rule)
    (hasSlots : slots? rule = some [.one "left", .one "right"]) :
    Finds name ((tree.shape source).binary kind) Expr.identifiers := by
  rcases ready.either isPart isName isRule hasSlots with finds | finds
  · exact fun _ => (finds _).left
  · exact fun _ => (finds _).right

theorem unary (isRule : tree.info.kind = rule) (hasSlots : slots? rule = some [.one "argument"]) :
    Finds name (tree.shape source).unary Expr.identifiers := by
  obtain ⟨slot, isSlot, -, isFound⟩ := ready.slot isPart isRule hasSlots
  obtain rfl := mem_singleton.mp isSlot
  exact fun _ => ready.labelledExpr isPart isName (isFound rfl _ rfl) _

theorem namedExpression (isRule : tree.info.kind = "named_expression") :
    Finds name (tree.shape source).namedExpression Expr.identifiers := by
  rcases ready.nameOrValue isPart isName isRule rfl with finds | finds
  · exact fun _ => (finds _).right
  · exact fun _ => (finds _).left

theorem conditional : Finds name (tree.shape source).conditional Expr.identifiers := by
  refine .second fun _ => (ready.namedExprs isPart isName).first fun parts has => ?_
  split
  · refine .value ?_
    simp only [Expr.identifiersOfAll, has_append, not_has_nil] at has
    simp only [Expr.identifiers, has_append]
    tauto
  · exact .value has

theorem yielded : Finds name (tree.shape source).yielded Expr.identifiers := by
  have isNamed : child.reading source ∈ (tree.shape source).named :=
    named_shape source tree ▸ mem_map_of_mem isPart
  refine .second fun _ => ?_
  split
  next isNone =>
    rw [isNone] at isNamed
    exact absurd isNamed not_mem_nil
  next only isOnly =>
    rw [isOnly, mem_singleton] at isNamed
    rw [← isNamed]
    exact fun _ => ready.keeps isPart name isName _
  · exact fun _ => ready.collection isPart isName .tuple _

theorem lambda (isRule : tree.info.kind = "lambda") :
    Finds name (tree.shape source).lambda Expr.identifiers := by
  obtain ⟨slot, isSlot, takes, isFound⟩ := ready.slot isPart isRule rfl
  rcases mem_pair.mp isSlot with rfl | rfl
  · have isList := mem_singleton.mp (takes.2 _ rfl)
    have inner := ready.part isPart
    obtain ⟨parameter, isParameter, isName, isPlain⟩ :=
      (inner.obeys child (self_mem_subtrees child)).exists_part isName (by simp [isList])
    have finds : Finds name (tree.shape source).parameters Parameter.identifiers := by
      rw [Shape.parameters, isFound rfl _ rfl]
      dsimp only
      rw [shape_reading, named_shape]
      exact (inner.part isParameter).parametersFrom isName (isPlain isList) false [] isParameter
    exact fun _ => (finds _).left
  · have finds := ready.labelledExpr isPart isName (isFound rfl _ rfl)
    exact fun _ => (finds _).right

theorem dictionary : Finds name (tree.shape source).dictionary Expr.identifiers := by
  have inner := ready.part isPart
  unfold Shape.dictionary
  rw [named_shape]
  refine .second fun _ => .mapM DictItem.additive_identifiers (mem_map_of_mem isPart) ?_
  rw [kind_reading, shape_reading]
  split
  next isRule =>
    have isRule := beq_iff_eq.mp isRule
    obtain ⟨part, isInner, isName⟩ := inner.exists_part isRule (by decide) isName
    rcases inner.either isInner isName isRule rfl with finds | finds
    · exact fun _ => (finds _).left.left
    · exact fun _ => (finds _).right.left
  · split
    next isRule =>
      obtain ⟨operand, isOperand, isFirst, isName⟩ := inner.firstNamed?
        (by simp [beq_iff_eq.mp isRule, operandRules]) isName
      rw [isFirst]
      exact fun _ => (inner.keeps isOperand name isName _).right.left
    · exact fun _ => (ready.keeps isPart name isName _).right.left

theorem iterable (isLabelled : child.info.label = some "right") :
    Finds name (tree.shape source).iterable Expr.identifiers := by
  have isIn : child.reading source ∈ (tree.shape source).labelled "right" :=
    labelled_shape source tree "right" ▸ mem_map_of_mem (mem_labelled isPart isLabelled)
  unfold Shape.iterable
  split
  next only isOnly =>
    rw [isOnly, mem_singleton] at isIn
    rw [← isIn]
    exact ready.keeps isPart name isName
  next isNone =>
    rw [isNone] at isIn
    exact absurd isIn not_mem_nil
  · rw [labelled_shape]
    exact fun _ => ready.exprs isPart isName (mem_labelled isPart isLabelled) _

end Ready

theorem addCondition_ne_nil (condition : Expr) (isLate : clauses ≠ []) :
    Shape.addCondition condition clauses ≠ [] := by
  fun_cases Shape.addCondition condition clauses <;> simp_all

theorem has_addCondition {condition : Expr}
    (has : Has name (Generator.identifiers clauses) ∨
      clauses ≠ [] ∧ Has name condition.identifiers) :
    Has name (Generator.identifiers (Shape.addCondition condition clauses)) := by
  fun_induction Shape.addCondition condition clauses with
  | case1 => simp_all
  | case2 last =>
    cases last
    simp [Generator.identifiers, Expr.additive_identifiers.append, Expr.identifiersOfAll] at has ⊢
    tauto
  | case3 first =>
    cases first
    simp [Generator.identifiers] at has ⊢
    tauto

theorem finds_clausesFrom_of_has (before : List Generator) (readings : List Reading)
    (has : Has name (Generator.identifiers before)) :
    Finds name (Shape.clausesFrom before readings) Generator.identifiers := by
  induction readings generalizing before with
  | nil => exact .value has
  | cons _ _ ih =>
    unfold Shape.clausesFrom
    split
    · refine .second fun _ => .second fun _ => ih _ ?_
      rw [Generator.additive_identifiers.append, has_append]
      exact .inl has
    · split
      · split
        · exact .second fun _ => ih _ (has_addCondition (.inl has))
        · exact ih _ has
      · exact ih _ has

theorem Ready.clausesFrom (ready : child.Ready source) (isName : name ∈ child.names)
    (isClause : child.isClause = true) (before : List Generator) {trees : List Tree}
    (isIn : child ∈ trees) (inOrder : before ≠ [] ∨
      ∀ first ∈ trees.find? Tree.isClause, first.info.kind = "for_in_clause") :
    Finds name (Shape.clausesFrom before (trees.map (·.reading source))) Generator.identifiers := by
  induction trees generalizing before with
  | nil => exact absurd isIn not_mem_nil
  | cons tree _ ih =>
    -- A condition comes first only if there is a clause to add it to.
    have isLate (isRule : tree.info.kind = "if_clause") : before ≠ [] :=
      inOrder.resolve_right fun first => by simp [Tree.isClause, isRule] at first
    rw [map_cons, Shape.clausesFrom, kind_reading, shape_reading]
    rcases mem_cons.mp isIn with rfl | isIn
    · split
      next isRule =>
        have isRule := beq_iff_eq.mp isRule
        obtain ⟨part, isPart, isName⟩ := ready.exists_part isRule (by decide) isName
        obtain ⟨slot, isSlot, takes, isFound⟩ := ready.slot isPart isRule rfl
        rcases mem_pair.mp isSlot with rfl | rfl
        · refine (ready.labelledExpr isPart isName (isFound rfl _ rfl)).first
            fun _ has => .second fun _ => finds_clausesFrom_of_has _ _ ?_
          simp [Generator.additive_identifiers.append, Generator.identifiers, has]
        · refine .second fun _ => (ready.iterable isPart isName takes.1).first
            fun _ has => finds_clausesFrom_of_has _ _ ?_
          simp [Generator.additive_identifiers.append, Generator.identifiers, has]
      next isOther =>
        have isRule : child.info.kind = "if_clause" := by
          simpa [Tree.isClause, isOther] using isClause
        obtain ⟨operand, isOperand, isFirst, isName⟩ :=
          ready.firstNamed? (by simp [isRule, operandRules]) isName
        rw [if_pos (beq_iff_eq.mpr isRule), isFirst]
        exact (ready.keeps isOperand name isName).first fun _ has =>
          finds_clausesFrom_of_has _ _ (has_addCondition (.inr ⟨isLate isRule, has⟩))
    · split
      · exact .second fun _ => .second fun _ => ih _ isIn (.inl (by simp))
      next notFor =>
        split
        next isRule =>
          have isLate := isLate (beq_iff_eq.mp isRule)
          split
          · exact .second fun _ => ih _ isIn (.inl (addCondition_ne_nil _ isLate))
          · exact ih _ isIn (.inl isLate)
        next notIf =>
          refine ih _ isIn (inOrder.imp_right fun first => ?_)
          rwa [find?_cons_of_neg (by simp_all [Tree.isClause])] at first

theorem Ready.comprehension (ready : tree.Ready source) (isPart : child ∈ tree.parts)
    (isName : name ∈ child.names) (kind : ComprehensionKind) (isRule : tree.info.kind = rule)
    (hasSlots : slots? rule = some [.one "body", .unlabelled ["for_in_clause", "if_clause"]]) :
    Finds name ((tree.shape source).comprehension kind) Expr.identifiers := by
  obtain ⟨slot, isSlot, takes, isFound⟩ := ready.slot isPart isRule hasSlots
  have inner := ready.part isPart
  refine .second fun _ => ?_
  rcases mem_pair.mp isSlot with rfl | rfl
  · rw [isFound rfl _ rfl]
    dsimp only
    rw [kind_reading, shape_reading]
    split
    next isRule =>
      have isRule := beq_iff_eq.mp isRule
      obtain ⟨part, isInner, isName⟩ := inner.exists_part isRule (by decide) isName
      rcases inner.either isInner isName isRule rfl with finds | finds
      · exact fun _ => (finds _).right.left
      · exact fun _ => (finds _).right
    · exact fun _ => (ready.keeps isPart name isName _).right.left
  · have isClause : child.isClause = true := by
      simpa [Tree.isClause] using takes.2 _ rfl
    have clauses := inner.clausesFrom isName isClause [] isPart
      (.inr (ready.obeys tree (self_mem_subtrees tree)).clauses)
    rw [← named_shape] at clauses
    split
    · split <;> exact fun _ => (clauses _).left.left
    · exact fun _ => (clauses _).left.left

/-! ## Strings -/

namespace Ready

variable (ready : tree.Ready source) (isName : name ∈ tree.names)

include ready isName

theorem interpolated (isRule : tree.info.kind = "interpolation") :
    ∃ child ∈ tree.parts, (tree.shape source).interpolated? = some (child.reading source) ∧
      name ∈ child.names := by
  obtain ⟨child, isPart, isName⟩ := ready.exists_part isRule (by decide) isName
  obtain ⟨slot, isSlot, takes, isFound⟩ := ready.slot isPart isRule rfl
  simp only [mem_cons, not_mem_nil, or_false] at isSlot
  rcases isSlot with rfl | rfl | rfl
  · refine ⟨child, isPart, ?_, isName⟩
    have isRule : (tree.shape source).kind == "interpolation" := beq_iff_eq.mpr isRule
    rw [Shape.interpolated?, if_pos isRule, isFound rfl _ rfl]
    rfl
  · exact absurd isName
      ((ready.part isPart).not_mem_names (mem_singleton.mp (takes.2 _ rfl)) rfl (by decide))
  · have isRead := ((isPassedOver_eq_false_iff child).mp (mem_names isName).1).1
    rw [mem_singleton.mp (takes.2 _ rfl)] at isRead
    exact absurd (by decide) isRead

theorem exists_interpolation (isRule : tree.info.kind = "string") :
    ∃ outer ∈ tree.parts, outer.info.kind = "interpolation" ∧ name ∈ outer.names := by
  obtain ⟨child, isPart, isName⟩ := ready.exists_part isRule (by decide) isName
  obtain ⟨slot, isSlot, takes, -⟩ := ready.slot isPart isRule rfl
  obtain rfl := mem_singleton.mp isSlot
  have inner := ready.part isPart
  have isRule := takes.2 _ rfl
  simp only [mem_cons, not_mem_nil, or_false] at isRule
  rcases isRule with isRule | isRule | isRule | isRule
  · exact absurd isName (inner.not_mem_names isRule rfl (by decide))
  · obtain ⟨part, isInner, isName⟩ := inner.exists_part isRule (by decide) isName
    obtain ⟨slot, isSlot, takes, -⟩ := inner.slot isInner isRule rfl
    obtain rfl := mem_singleton.mp isSlot
    rcases mem_pair.mp (takes.2 _ rfl) with isRule | isRule
    · exact absurd isName ((inner.part isInner).not_mem_names isRule rfl (by decide))
    · exact absurd isName ((inner.part isInner).not_mem_names isRule rfl (by decide))
  · exact ⟨child, isPart, isRule, isName⟩
  · exact absurd isName (inner.not_mem_names isRule rfl (by decide))

end Ready

theorem stringParts_shape (source : Source) (tree : Tree) :
    (tree.shape source).stringParts = tree.strings.map (·.shape source) := by
  have rule_eq : (tree.shape source).kind = tree.info.kind := rfl
  rw [Shape.stringParts, strings, rule_eq]
  split
  · simp [named_shape, shape_reading]
  · rfl

theorem finds_string {outer : Tree} (isOuter : outer ∈ tree.interpolations)
    (ready : outer.Ready source) (isName : name ∈ outer.names) :
    Finds name (tree.shape source).string Expr.identifiers := by
  obtain ⟨string, isString, isOuter⟩ := mem_flatMap.mp isOuter
  obtain ⟨isPart, isRule⟩ := mem_filter.mp isOuter
  obtain ⟨inner, isInner, isRead, isName⟩ := ready.interpolated isName (beq_iff_eq.mp isRule)
  refine .second fun _ => .mapM Expr.additive_identifiers
    (?_ : inner.reading source ∈ _) fun next => ?_
  · rw [stringParts_shape, mem_flatMap]
    refine ⟨_, mem_map_of_mem isString, mem_filterMap.mpr ⟨outer.reading source, ?_, ?_⟩⟩
    · rw [named_shape]
      exact mem_map_of_mem isPart
    · rw [shape_reading, isRead]
  · simpa [Expr.identifiersOfAll] using ready.keeps isInner name isName next

namespace Ready

variable (ready : tree.Ready source)

include ready

theorem string (isRule : tree.info.kind = "string") (isName : name ∈ tree.names) :
    Finds name (tree.shape source).string Expr.identifiers := by
  obtain ⟨outer, isPart, isOuter, isName⟩ := ready.exists_interpolation isName isRule
  refine finds_string (mem_flatMap.mpr ⟨tree, ?_, mem_filter.mpr ⟨isPart, by simp [isOuter]⟩⟩)
    (ready.part isPart) isName
  simp [strings, isRule]

theorem concatenatedString (isRule : tree.info.kind = "concatenated_string")
    (isName : name ∈ tree.names) : Finds name (tree.shape source).string Expr.identifiers := by
  obtain ⟨string, isString, isName⟩ := ready.exists_part isRule (by decide) isName
  obtain ⟨slot, isSlot, takes, -⟩ := ready.slot isString isRule rfl
  obtain rfl := mem_singleton.mp isSlot
  obtain ⟨outer, isPart, isOuter, isName⟩ :=
    (ready.part isString).exists_interpolation isName (mem_singleton.mp (takes.2 _ rfl))
  refine finds_string (mem_flatMap.mpr ⟨string, ?_, mem_filter.mpr ⟨isPart, by simp [isOuter]⟩⟩)
    ((ready.part isString).part isPart) isName
  simpa [strings, isRule] using isString

theorem expr : tree.Keeps source := by
  intro name isName
  rw [reading_eq]
  change Finds name (tree.shape source).expr Expr.identifiers
  have leaf {rule : String} := @not_mem_names source tree name rule ready
  have unread {rule : String} (isRule : tree.info.kind = rule) : rule ∉ unreadRules :=
    isRule ▸ ((isPassedOver_eq_false_iff tree).mp (mem_names isName).1).1
  have operand {rule : String} (isRule : tree.info.kind = rule) (isOne : rule ∈ operandRules) :=
    ready.firstNamedExpr (isRule ▸ isOne) isName
  have starred {rule : String} (double : Bool) (isRule : tree.info.kind = rule)
      (isOne : rule ∈ operandRules) :
      Finds name ((tree.shape source).starred double) Expr.identifiers :=
    fun _ => operand isRule isOne _
  by_cases isIdentifier : tree.info.kind = "identifier"
  · have rule_eq : (tree.shape source).kind = "identifier" := isIdentifier
    simp only [Shape.expr, rule_eq]
    exact finds_identifier isIdentifier isName
  obtain ⟨child, isPart, isInner⟩ := ready.exists_part rfl isIdentifier isName
  have named := ready.namedExprs isPart isInner
  have tuple (form : CollectionShape) := ready.collection isPart isInner form
  unfold Shape.expr
  split
  next isRule => exact absurd isRule isIdentifier
  next isRule => exact absurd isName (leaf isRule rfl (by decide))
  next isRule => exact ready.parenthesized isPart isInner isRule
  next isRule => exact ready.member isPart isInner isRule
  next isRule => exact ready.subscript isPart isInner isRule
  · exact fun _ => named _
  next isRule => exact ready.call isPart isInner isRule
  next isRule => exact ready.string isRule isName
  next isRule => exact ready.concatenatedString isRule isName
  iterate 6 next isRule => exact absurd isName (leaf isRule rfl (by decide))
  iterate 7 · exact tuple _
  · exact ready.dictionary isPart isInner
  iterate 4 next isRule => exact ready.comprehension isPart isInner _ isRule rfl
  next isRule => exact ready.lambda isPart isInner isRule
  · exact ready.conditional isPart isInner
  next isRule => exact ready.binary isPart isInner _ isRule rfl
  next isRule => exact ready.binary isPart isInner _ isRule rfl
  next isRule => exact ready.unary isPart isInner isRule rfl
  next isRule => exact ready.unary isPart isInner isRule rfl
  · exact fun _ => named _
  next isRule => exact ready.namedExpression isPart isInner isRule
  iterate 5 next isRule => exact starred _ isRule (by decide)
  next isRule => exact fun _ => operand isRule (by decide) _
  · exact ready.yielded isPart isInner
  next isRule => exact absurd (by decide) (unread isRule)
  next isRule => exact absurd (by decide) (unread isRule)
  next isRule => exact operand isRule (by decide)
  iterate 4 next isRule => exact absurd (by decide) (unread isRule)
  · exact fun _ => named _

end Ready

theorem keeps_of_obeys (source : Source) (tree : Tree)
    (obeys : ∀ part ∈ tree.subtrees, part.Obeys) : ∀ part ∈ tree.subtrees, part.Keeps source := by
  induction tree using induction_children with
  | step tree ih =>
    obtain ⟨info, children⟩ := tree
    have below : ∀ child ∈ children, ∀ part ∈ child.subtrees, part.Keeps source := by
      intro child isChild
      refine ih child isChild fun part isPart => obeys part ?_
      exact @subtrees_subset_of_mem (node info children) child isChild _ isPart
    have ready : (node info children).Ready source := ⟨obeys, below⟩
    intro part isPart
    rw [subtrees_node, mem_cons, mem_flatMap] at isPart
    rcases isPart with rfl | ⟨child, isChild, isPart⟩
    · exact ready.expr
    · exact below child isChild part isPart

/-- Names below interpolations are names of the literal, unless in a place that is passed over. -/
theorem string_keeps_names (source : Source) (root : Tree) (grammatical : root.Grammatical)
    (node : Tree) (isIn : node ∈ root.subtrees)
    (isString : node.info.kind = "string" ∨ node.info.kind = "concatenated_string")
    (next : NodeId) :
    ∃ mark kind text held, ((node.reading source).expr next).1 = .literal mark kind text held ∧
      ∀ interpolation ∈ node.interpolations, ∀ name ∈ interpolation.names,
        ∃ identifier ∈ Expr.identifiersOfAll held, identifier.range = name.range := by
  have expr_eq : (node.reading source).expr = (node.shape source).string := by
    rw [reading_eq]
    rcases isString with isRule | isRule <;>
      simp only [Shape.reading, Shape.expr, Shape.kind, shape, isRule]
  rw [expr_eq]
  refine ⟨_, _, _, _, rfl, fun outer isOuter name isName => ?_⟩
  obtain ⟨isBelow, isRule⟩ := mem_interpolations isOuter
  have obeys := grammatical outer (subtrees_subset root isIn isBelow) isRule
  have ready : outer.Ready source := ⟨obeys, fun child isChild part isPart =>
    keeps_of_obeys source outer obeys part (subtrees_subset_of_mem isChild isPart)⟩
  exact finds_string isOuter ready isName next

def ofToken (kind : String) (start : Nat) : Tree :=
  .node ⟨kind, .ofBits 0, ⟨start, start + 1⟩, none⟩ []

def padded : Tree :=
  ofRule "string" 0 10 none [
    ofRule "string_start" 0 2 none [],
    ofRule "interpolation" 2 9 none [
      ofToken "\x7b" 2,
      ofRule "identifier" 3 4 "expression" [],
      ofRule "format_specifier" 4 8 "format_specifier" [
        ofToken ":" 4,
        ofRule "format_expression" 5 8 none [
          ofToken "\x7b" 5, ofRule "identifier" 6 7 "expression" [], ofToken "\x7d" 7]],
      ofToken "\x7d" 8],
    ofRule "string_end" 9 10 none []]

theorem padded_keeps_value : padded.Grammatical ∧ ∃ mark kind text held,
    ((padded.reading ⟨"f\"\x7bz:\x7bw\x7d\x7d\""⟩).expr 0).1 = .literal mark kind text held ∧
      ∃ identifier ∈ Expr.identifiersOfAll held, identifier.range = ⟨3, 4⟩ := by
  have grammatical : padded.Grammatical := by decide +kernel
  obtain ⟨mark, kind, text, held, isLiteral, keeps⟩ := string_keeps_names
    ⟨"f\"\x7bz:\x7bw\x7d\x7d\""⟩ padded grammatical padded (self_mem_subtrees _) (.inl rfl) 0
  refine ⟨grammatical, mark, kind, text, held, isLiteral, ?_⟩
  exact keeps _ (mem_singleton.mpr rfl) _ (mem_singleton.mpr rfl)

/-- The width it is formatted to is no name of the literal. -/
theorem padded_loses_width :
    padded.Grammatical ∧ (∀ part ∈ padded.subtrees, part.info.isFault = false) ∧
    ¬ ∀ interpolation ∈ padded.interpolations, ∀ part ∈ interpolation.subtrees,
      part.info.kind = "identifier" →
      ∃ identifier ∈ ((padded.reading ⟨"f\"\x7bz:\x7bw\x7d\x7d\""⟩).expr 0).1.identifiers,
        identifier.range = part.info.range := by
  decide +kernel

end Tree

end PyStatic
