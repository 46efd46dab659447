import PyStatic.Proofs.Concrete.Subtrees

/-!
Contract: what the grammar says of the trees inside an interpolation, and the names in them.

The parser is not part of this library. What is asked here of a tree holds for every tree that it
gives without faults.
-/

namespace PyStatic.Tree

open List

variable {name : TreeNode}

def isPart (tree : Tree) : Bool :=
  tree.info.flags.isNamed && !tree.info.flags.isExtra

def parts (tree : Tree) : List Tree :=
  tree.children.filter isPart

def Nameless (tree : Tree) : Prop :=
  ∀ part ∈ tree.subtrees, part.info.kind ≠ "identifier"

instance (tree : Tree) : Decidable tree.Nameless :=
  inferInstanceAs (Decidable (∀ part ∈ tree.subtrees, part.info.kind ≠ "identifier"))

structure Slot where
  label : Option String
  rules : Option (List String)
  isMany : Bool

namespace Slot

def one (label : String) : Slot :=
  ⟨label, none, false⟩

def oneOf (label : String) (rules : List String) : Slot :=
  ⟨label, rules, false⟩

def many (label : String) : Slot :=
  ⟨label, none, true⟩

def unlabelled (rules : List String) : Slot :=
  ⟨none, rules, true⟩

def Takes (slot : Slot) (child : Tree) : Prop :=
  child.info.label = slot.label ∧ ∀ rules ∈ slot.rules, child.info.kind ∈ rules

instance (slot : Slot) (child : Tree) : Decidable (slot.Takes child) :=
  inferInstanceAs (Decidable (_ ∧ ∀ rules ∈ slot.rules, child.info.kind ∈ rules))

end Slot

def slots? : String → Option (List Slot)
  | "attribute" => some [.one "object", .oneOf "attribute" ["identifier"]]
  | "subscript" => some [.one "value", .many "subscript"]
  | "call" => some [.one "function", .oneOf "arguments" ["argument_list", "generator_expression"]]
  | "keyword_argument" | "named_expression" => some [.oneOf "name" ["identifier"], .one "value"]
  | "binary_operator" | "boolean_operator" => some [.one "left", .one "right"]
  | "unary_operator" | "not_operator" => some [.one "argument"]
  | "pair" => some [.one "key", .one "value"]
  | "for_in_clause" => some [.one "left", .many "right"]
  | "lambda" => some [.oneOf "parameters" ["lambda_parameters"], .one "body"]
  | "default_parameter" => some [.one "name", .one "value"]
  | "list_comprehension" | "set_comprehension" | "dictionary_comprehension"
  | "generator_expression" => some [.one "body", .unlabelled ["for_in_clause", "if_clause"]]
  | "interpolation" =>
    some [.one "expression", .oneOf "type_conversion" ["type_conversion"],
      .oneOf "format_specifier" ["format_specifier"]]
  | "concatenated_string" => some [.unlabelled ["string"]]
  | "string" =>
    some [.unlabelled ["string_start", "string_content", "interpolation", "string_end"]]
  | "string_content" => some [.unlabelled ["escape_sequence", "escape_interpolation"]]
  | "identifier" | "keyword_identifier" | "integer" | "float" | "true" | "false" | "none"
  | "ellipsis" | "type_conversion" | "string_start" | "string_end" | "escape_sequence"
  | "escape_interpolation" | "keyword_separator" | "positional_separator" => some []
  | _ => none

def operandRules : List String :=
  ["list_splat", "list_splat_pattern", "parenthesized_list_splat", "dictionary_splat",
    "dictionary_splat_pattern", "await", "if_clause", "as_pattern"]

def isClause (tree : Tree) : Bool :=
  tree.info.kind == "for_in_clause" || tree.info.kind == "if_clause"

@[mk_iff]
structure Obeys (tree : Tree) : Prop where
  tokens : ∀ child ∈ tree.children, child.isPart = false → child.Nameless
  takes : ∀ slots ∈ slots? tree.info.kind, ∀ child ∈ tree.parts, ∃ slot ∈ slots, slot.Takes child
  once : ∀ slots ∈ slots? tree.info.kind, ∀ slot ∈ slots, slot.isMany = false →
    (tree.children.filter (·.info.label == slot.label)).length ≤ 1
  operand : tree.info.kind ∈ "parenthesized_expression" :: operandRules →
    ∀ child ∈ tree.parts.tail, child.info.kind = "as_pattern_target"
  clauses : ∀ first ∈ tree.parts.find? isClause, first.info.kind = "for_in_clause"

instance (tree : Tree) : Decidable tree.Obeys :=
  decidable_of_iff _ (obeys_iff tree).symm

/-- What stands in interpolations keeps to the grammar. -/
def Grammatical (tree : Tree) : Prop :=
  ∀ outer ∈ tree.subtrees, outer.info.kind = "interpolation" →
    ∀ part ∈ outer.subtrees, part.Obeys

instance (tree : Tree) : Decidable tree.Grammatical :=
  inferInstanceAs (Decidable (∀ outer ∈ tree.subtrees, outer.info.kind = "interpolation" →
    ∀ part ∈ outer.subtrees, part.Obeys))

def hidesOperand (tree : Tree) : Bool :=
  operandRules.contains tree.info.kind &&
    (tree.children.find? (·.info.flags.isNamed)).any (·.info.flags.isExtra)

mutual

def isBinder : Tree → Bool
  | node info children =>
    match info.kind with
    | "identifier" => true
    | "tuple_pattern" | "list_pattern" => areBinders children
    | _ => false

def areBinders : List Tree → Bool
  | [] => true
  | tree :: rest => (!tree.isPart || tree.isBinder) && areBinders rest

end

def isPlainParameter (tree : Tree) : Bool :=
  match tree.info.kind with
  | "keyword_separator" | "positional_separator" => true
  | "list_splat_pattern" | "dictionary_splat_pattern" => tree.parts.all isBinder
  | "default_parameter" => tree.parts.any fun part =>
      part.info.label == some "name" && part.isBinder
  | _ => tree.isBinder

def unreadRules : List String :=
  ["format_specifier", "as_pattern_target", "type", "generic_type", "union_type", "member_type",
    "splat_type", "constrained_type"]

def isPassedOver (tree : Tree) : Bool :=
  unreadRules.contains tree.info.kind || tree.hidesOperand

theorem isPassedOver_eq_false_iff (tree : Tree) : tree.isPassedOver = false ↔
    tree.info.kind ∉ unreadRules ∧ tree.hidesOperand = false := by
  simp [isPassedOver]

mutual

/-- The identifiers of a tree that are in no place that is passed over. -/
def names : Tree → List TreeNode
  | node info children =>
    if (node info children).isPassedOver then []
    else if info.kind = "identifier" then [info]
    else namesOfAll (info.kind == "lambda_parameters") children

def namesOfAll (areParameters : Bool) : List Tree → List TreeNode
  | [] => []
  | tree :: rest =>
    (if areParameters && !tree.isPlainParameter then [] else tree.names) ++
      namesOfAll areParameters rest

end

def strings (tree : Tree) : List Tree :=
  if tree.info.kind == "concatenated_string" then tree.parts else [tree]

def interpolations (tree : Tree) : List Tree :=
  tree.strings.flatMap fun string => string.parts.filter (·.info.kind == "interpolation")

theorem areBinders_iff {trees : List Tree} :
    areBinders trees = true ↔ ∀ tree ∈ trees.filter isPart, tree.isBinder = true := by
  induction trees with
  | nil => simp [areBinders]
  | cons tree => cases isPart : tree.isPart <;> simp_all [areBinders]

theorem mem_namesOfAll {areParameters : Bool} {trees : List Tree}
    (isName : name ∈ namesOfAll areParameters trees) :
    ∃ tree ∈ trees, name ∈ tree.names ∧ (areParameters = true → tree.isPlainParameter = true) := by
  induction trees with
  | nil => cases isName
  | cons tree _ ih =>
    rw [namesOfAll, mem_append] at isName
    rcases isName with isName | isName
    · split at isName
      · cases isName
      next isPlain => exact ⟨tree, mem_cons_self .., isName, by simpa using isPlain⟩
    · obtain ⟨tree, isIn, isName⟩ := ih isName
      exact ⟨tree, mem_cons_of_mem _ isIn, isName⟩

theorem mem_names {tree : Tree} (isName : name ∈ tree.names) :
    tree.isPassedOver = false ∧ (tree.info.kind = "identifier" ∧ name = tree.info ∨
      tree.info.kind ≠ "identifier" ∧ ∃ child ∈ tree.children, name ∈ child.names ∧
        (tree.info.kind = "lambda_parameters" → child.isPlainParameter = true)) := by
  obtain ⟨info, children⟩ := tree
  rw [names] at isName
  split at isName
  · exact absurd isName not_mem_nil
  next isRead =>
    refine ⟨by simpa using isRead, ?_⟩
    split at isName
    next isIdentifier => exact .inl ⟨isIdentifier, mem_singleton.mp isName⟩
    next isOther =>
      obtain ⟨child, isChild, isName, isPlain⟩ := mem_namesOfAll isName
      exact .inr ⟨isOther, child, isChild, isName, fun isRule => isPlain (beq_iff_eq.mpr isRule)⟩

theorem self_mem_subtrees (tree : Tree) : tree ∈ tree.subtrees := by
  obtain ⟨info, children⟩ := tree
  rw [subtrees_node]
  exact mem_cons_self ..

theorem subtrees_subset_of_mem {tree child : Tree} (isChild : child ∈ tree.children) :
    child.subtrees ⊆ tree.subtrees := by
  obtain ⟨info, children⟩ := tree
  rw [subtrees_node]
  exact fun part isPart => mem_cons_of_mem _ (mem_flatMap.mpr ⟨child, isChild, isPart⟩)

theorem sizeOf_lt_of_mem_children {tree child : Tree} (isChild : child ∈ tree.children) :
    sizeOf child < sizeOf tree := by
  obtain ⟨info, children⟩ := tree
  have smaller : sizeOf child < sizeOf children := List.sizeOf_lt_of_mem isChild
  rw [node.sizeOf_spec]
  omega

theorem induction_children {motive : Tree → Prop} (tree : Tree)
    (step : ∀ tree : Tree, (∀ child ∈ tree.children, motive child) → motive tree) : motive tree :=
  step tree fun child _ => induction_children child step
termination_by sizeOf tree
decreasing_by exact sizeOf_lt_of_mem_children ‹_›

theorem subtrees_subset {part : Tree} (tree : Tree) (isPart : part ∈ tree.subtrees) :
    part.subtrees ⊆ tree.subtrees := by
  induction tree using induction_children with
  | step tree ih =>
    obtain ⟨info, children⟩ := tree
    rw [subtrees_node, mem_cons, mem_flatMap] at isPart
    rcases isPart with rfl | ⟨child, isChild, isPart⟩
    · exact Subset.refl _
    · exact List.Subset.trans (ih child isChild isPart)
        (@subtrees_subset_of_mem (node info children) child isChild)

theorem mem_interpolations {tree outer : Tree} (isOuter : outer ∈ tree.interpolations) :
    outer ∈ tree.subtrees ∧ outer.info.kind = "interpolation" := by
  obtain ⟨string, isString, isOuter⟩ := mem_flatMap.mp isOuter
  obtain ⟨isPart, isRule⟩ := mem_filter.mp isOuter
  have isBelow : outer ∈ string.subtrees :=
    subtrees_subset_of_mem (mem_filter.mp isPart).1 (self_mem_subtrees outer)
  refine ⟨?_, beq_iff_eq.mp isRule⟩
  unfold strings at isString
  split at isString
  · exact subtrees_subset_of_mem (mem_filter.mp isString).1 isBelow
  · rwa [← mem_singleton.mp isString]

theorem exists_subtree_of_mem_names (tree : Tree) (isName : name ∈ tree.names) :
    ∃ part ∈ tree.subtrees, part.info.kind = "identifier" ∧ part.info = name := by
  induction tree using induction_children with
  | step tree ih =>
    rcases (mem_names isName).2 with ⟨isIdentifier, rfl⟩ | ⟨-, child, isChild, isName, -⟩
    · exact ⟨_, self_mem_subtrees _, isIdentifier, rfl⟩
    · obtain ⟨part, isPart, isIdentifier⟩ := ih child isChild isName
      exact ⟨part, subtrees_subset_of_mem isChild isPart, isIdentifier⟩

theorem Obeys.exists_part {tree : Tree} (obeys : tree.Obeys) (isName : name ∈ tree.names)
    (isOther : tree.info.kind ≠ "identifier") :
    ∃ child ∈ tree.parts, name ∈ child.names ∧
      (tree.info.kind = "lambda_parameters" → child.isPlainParameter = true) := by
  rcases (mem_names isName).2 with ⟨isIdentifier, -⟩ | ⟨-, child, isChild, isName⟩
  · exact absurd isIdentifier isOther
  · cases isPart : child.isPart with
    | true => exact ⟨child, mem_filter.mpr ⟨isChild, isPart⟩, isName⟩
    | false =>
      obtain ⟨part, isPart, isIdentifier, -⟩ := exists_subtree_of_mem_names child isName.1
      exact absurd isIdentifier (obeys.tokens child isChild ‹_› part isPart)

end PyStatic.Tree
