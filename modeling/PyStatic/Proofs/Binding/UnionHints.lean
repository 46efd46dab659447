import PyStatic.Binding.Hint
import PyStatic.Proofs.Sequence.Distinct

/-!
Contract: a union of type hints means the same however it is spelled.

A proper hint is determined by its alternatives, and the alternatives of a union are those of its
parts with the repeats dropped. So two spellings agree once they list the same parts in the same
order.
-/

namespace PyStatic

open List

namespace TypeHint

def isUnion : TypeHint → Bool
  | union _ => true
  | _ => false

mutual

/-- At any depth, unions are flat, without repeats and not of one alternative. -/
def Proper : TypeHint → Prop
  | ofClass _ _ args => AllProper args
  | union alternatives =>
    (alternatives.length ≠ 1 ∧ alternatives.Nodup ∧ ∀ hint ∈ alternatives, hint.isUnion = false) ∧
      AllProper alternatives
  | ambiguous _ alternatives => AllProper alternatives
  | unresolved _ => True

def AllProper : List TypeHint → Prop
  | [] => True
  | hint :: rest => hint.Proper ∧ AllProper rest

end

theorem allProper_iff {hints : List TypeHint} : AllProper hints ↔ ∀ hint ∈ hints, hint.Proper := by
  induction hints with
  | nil => simp [AllProper]
  | cons _ _ ih => rw [AllProper, ih, forall_mem_cons]

theorem alternatives_of_not_isUnion {hint : TypeHint} (single : hint.isUnion = false) :
    hint.alternatives = [hint] := by
  cases hint with
  | union => cases single
  | _ => rfl

theorem Proper.alternatives_nodup {hint : TypeHint} (proper : hint.Proper) :
    hint.alternatives.Nodup := by
  cases hint with
  | union => exact proper.1.2.1
  | _ => exact pairwise_singleton _ _

theorem Proper.of_mem {hint part : TypeHint} (proper : hint.Proper)
    (isPart : part ∈ hint.alternatives) : part.isUnion = false ∧ part.Proper := by
  cases hint with
  | union => exact ⟨proper.1.2.2 part isPart, allProper_iff.mp proper.2 part isPart⟩
  | _ =>
    obtain rfl := mem_singleton.mp isPart
    exact ⟨rfl, proper⟩

theorem Proper.eq_of_alternatives {first second : TypeHint} (firstProper : first.Proper)
    (secondProper : second.Proper) (same : first.alternatives = second.alternatives) :
    first = second := by
  have asSingle {hint : TypeHint} {parts : List TypeHint} (proper : (union parts).Proper)
      (same : parts = [hint]) : False := proper.1.1 (same ▸ rfl)
  cases first with
  | union =>
    cases second with
    | union => exact congrArg union same
    | _ => exact (asSingle firstProper same).elim
  | _ =>
    cases second with
    | union => exact (asSingle secondProper same.symm).elim
    | _ => exact singleton_inj.mp same

section Unions

variable {hints : List TypeHint} (proper : ∀ hint ∈ hints, hint.Proper)

include proper

theorem of_mem_flatMap {part : TypeHint} (isPart : part ∈ hints.flatMap (·.alternatives)) :
    part.isUnion = false ∧ part.Proper := by
  obtain ⟨hint, isHint, isPart⟩ := mem_flatMap.mp isPart
  exact (proper hint isHint).of_mem isPart

theorem alternatives_unionOf :
    (unionOf hints).alternatives = (hints.flatMap (·.alternatives)).eraseDups := by
  unfold unionOf
  split
  next hint isOnly =>
    have isPart : hint ∈ (hints.flatMap (·.alternatives)).eraseDups := isOnly ▸ mem_cons_self
    rw [isOnly]
    exact alternatives_of_not_isUnion (of_mem_flatMap proper (mem_eraseDups.mp isPart)).1
  · rfl

theorem unionOf_proper : (unionOf hints).Proper := by
  have parts : ∀ part ∈ (hints.flatMap (·.alternatives)).eraseDups,
      part.isUnion = false ∧ part.Proper :=
    fun part isPart => of_mem_flatMap proper (mem_eraseDups.mp isPart)
  unfold unionOf
  split
  next hint isOnly => exact (parts hint (isOnly ▸ mem_cons_self)).2
  next several =>
    refine ⟨⟨?_, Sequence.nodup_eraseDups _, fun part isPart => (parts part isPart).1⟩,
      allProper_iff.mpr fun part isPart => (parts part isPart).2⟩
    intro isOne
    obtain ⟨hint, isOnly⟩ := length_eq_one_iff.mp isOne
    exact several hint isOnly

end Unions

end TypeHint

namespace Resolution

variable (resolution : Resolution)

theorem symbolHint_proper (id : SymbolId) : (resolution.symbolHint id).Proper := by
  unfold symbolHint
  split
  · trivial
  · split <;> trivial

theorem aliasHint_proper (expr : Expr) : (resolution.aliasHint expr).Proper := by
  unfold aliasHint
  split
  · split <;> trivial
  · trivial

theorem nameHint_proper (expr : Expr) : (resolution.nameHint expr).Proper := by
  unfold nameHint
  split
  · exact resolution.aliasHint_proper expr
  · split
    · split
      · exact resolution.symbolHint_proper _
      · exact resolution.aliasHint_proper expr
    · refine TypeHint.allProper_iff.mpr fun hint isIn => ?_
      obtain ⟨id, _, rfl⟩ := mem_map.mp isIn
      exact resolution.symbolHint_proper id
    · exact resolution.aliasHint_proper expr

theorem subscriptHint_proper {base : TypeHint} {args : List TypeHint} (fqn : Option String)
    (baseProper : base.Proper) (argsProper : ∀ hint ∈ args, hint.Proper) :
    (subscriptHint base fqn args).Proper := by
  unfold subscriptHint
  split
  · refine TypeHint.unionOf_proper fun hint isIn => ?_
    rcases mem_append.mp isIn with isArg | isNone
    · exact argsProper hint isArg
    · obtain rfl := mem_singleton.mp isNone
      trivial
  · split
    · exact TypeHint.unionOf_proper argsProper
    · cases base with
      | ofClass => exact TypeHint.allProper_iff.mpr argsProper
      | _ => exact baseProper

mutual

theorem hint_proper (expr : Expr) : (resolution.hint expr).Proper := by
  unfold hint
  split
  · trivial
  next left op right =>
    split
    · refine TypeHint.unionOf_proper ?_
      rw [forall_mem_cons, forall_mem_singleton]
      exact ⟨hint_proper left, hint_proper right⟩
    · trivial
  next value slice =>
    exact subscriptHint_proper _ (hint_proper value) (argumentHints_proper slice)
  · exact resolution.nameHint_proper _
  · exact resolution.nameHint_proper _
  · trivial

theorem argumentHints_proper (slice : List Expr) :
    ∀ hint ∈ resolution.argumentHints slice, hint.Proper := by
  unfold argumentHints
  split
  next elements => exact hints_proper elements
  · exact hints_proper slice

theorem hints_proper : ∀ exprs : List Expr, ∀ hint ∈ resolution.hints exprs, hint.Proper
  | [] => by simp [hints]
  | expr :: rest => by
    rw [hints, forall_mem_cons]
    exact ⟨hint_proper expr, hints_proper rest⟩

end

theorem hints_eq_map (exprs : List Expr) : resolution.hints exprs = exprs.map resolution.hint := by
  induction exprs with
  | nil => rw [hints, map_nil]
  | cons _ _ ih => rw [hints, ih, map_cons]

end Resolution

/-- An expression puts `|` between the given ones, bracketed in some way. -/
inductive Bracketed : List Expr → Expr → Prop
  | single (expr : Expr) : Bracketed [expr] expr
  | join {firsts seconds : List Expr} {first second : Expr} (mark : Mark)
      (left : Bracketed firsts first) (right : Bracketed seconds second) :
      Bracketed (firsts ++ seconds) (.binary mark .arithmetic first "|" second)

namespace Resolution

variable (resolution : Resolution)

theorem alternatives_of_bracketed {exprs : List Expr} {expr : Expr}
    (spelled : Bracketed exprs expr) :
    (resolution.hint expr).alternatives =
      ((exprs.map resolution.hint).flatMap (·.alternatives)).eraseDups := by
  induction spelled with
  | single expr =>
    have distinct := (resolution.hint_proper expr).alternatives_nodup
    rw [map_singleton, flatMap_singleton, Sequence.eraseDups_of_nodup distinct]
  | @join _ _ first second _ _ _ leftIH rightIH =>
    have proper : ∀ hint ∈ [resolution.hint first, resolution.hint second], hint.Proper := by
      simp [resolution.hint_proper]
    rw [hint, if_pos rfl, TypeHint.alternatives_unionOf proper, map_append,
      flatMap_append, ← Sequence.eraseDups_eraseDups_append, ← leftIH, ← rightIH]
    simp

theorem hint_subscript_union {value : Expr} (mark : Mark) (slice : List Expr)
    (isUnion : resolution.fqnOf? value = some "typing.Union") :
    resolution.hint (.subscript mark value slice) =
      .unionOf (resolution.argumentHints slice) := by
  rw [hint, isUnion]
  rfl

theorem hint_subscript_optional {value : Expr} (mark : Mark) (slice : List Expr)
    (isOptional : resolution.fqnOf? value = some "typing.Optional") :
    resolution.hint (.subscript mark value slice) =
      .unionOf (resolution.argumentHints slice ++ [.builtin "NoneType"]) := by
  rw [hint, isOptional]
  rfl

theorem hint_bracketed {exprs : List Expr} {expr : Expr} (spelled : Bracketed exprs expr) :
    resolution.hint expr = .unionOf (resolution.hints exprs) := by
  have proper := resolution.hints_proper exprs
  refine (resolution.hint_proper expr).eq_of_alternatives (TypeHint.unionOf_proper proper) ?_
  rw [resolution.alternatives_of_bracketed spelled, TypeHint.alternatives_unionOf proper,
    hints_eq_map]

/-- Union hints mean the same in every spelling, and what they mean is flat and without repeats. -/
theorem union_spellings :
    (∀ (exprs : List Expr) (expr : Expr), Bracketed exprs expr → 2 ≤ exprs.length →
      ∀ (mark : Mark) (value : Expr), resolution.fqnOf? value = some "typing.Union" →
        resolution.hint expr = resolution.hint (.subscript mark value exprs) ∧
        ∀ inner, resolution.hint expr =
          resolution.hint (.subscript mark value [.collection inner .tuple exprs])) ∧
    (∀ (mark : Mark) (value expr : Expr), resolution.fqnOf? value = some "typing.Optional" →
      (∀ inner elements, expr ≠ .collection inner .tuple elements) →
      ∀ (outer inner : Mark) (text : String),
        resolution.hint (.subscript mark value [expr]) =
          resolution.hint (.binary outer .arithmetic expr "|" (.literal inner .none text []))) ∧
    ∀ expr, (resolution.hint expr).Proper := by
  refine ⟨fun exprs expr spelled several mark value isUnion => ?_,
    fun mark value expr isOptional notTuple outer inner text => ?_, resolution.hint_proper⟩
  · rw [resolution.hint_bracketed spelled]
    refine ⟨?_, fun inner => by rw [hint_subscript_union _ _ _ isUnion, argumentHints]⟩
    rw [hint_subscript_union _ _ _ isUnion, argumentHints]
    rintro inner elements rfl
    exact absurd several (by simp)
  · have asWritten : resolution.argumentHints [expr] = [resolution.hint expr] := by
      rw [argumentHints, hints, hints]
      rintro inner elements isTuple
      exact notTuple inner elements (List.singleton_inj.mp isTuple)
    rw [hint_subscript_optional _ _ _ isOptional, asWritten, hint, if_pos rfl, hint]
    rfl

def typingNames : Resolution :=
  { empty with
    table := (SymbolTable.empty.push (.fresh "Union" (some "typing.Union") (.other []) none)).push
      (.fresh "Optional" (some "typing.Optional") (.other []) none)
    nameSymbols := Std.ExtTreeMap.ofList [(0, 0), (1, 1)] }

def hintName (node : NodeId) (text : String) : Expr :=
  .name ⟨⟨node, ⟨0, 0⟩⟩, text⟩

def optionalHint : Expr :=
  .subscript default (hintName 1 "Optional") [hintName 2 "a"]

theorem typingNames_spellings :
    typingNames.hint (.binary default .arithmetic (hintName 3 "a") "|"
      (.binary default .arithmetic (hintName 4 "b") "|" optionalHint)) =
      typingNames.hint (.subscript default (hintName 0 "Union")
        [hintName 3 "a", hintName 4 "b", optionalHint]) ∧
    typingNames.hint optionalHint =
      typingNames.hint (.binary default .arithmetic (hintName 2 "a") "|"
      (.literal default .none "None" [])) := by
  obtain ⟨unions, optionals, _⟩ := typingNames.union_spellings
  have spelled := Bracketed.join default (.single (hintName 3 "a"))
    (.join default (.single (hintName 4 "b")) (.single optionalHint))
  exact ⟨(unions _ _ spelled (by decide) default (hintName 0 "Union") (by decide +kernel)).1,
    optionals default (hintName 1 "Optional") (hintName 2 "a") (by decide +kernel)
      (by simp [hintName]) default default "None"⟩

end Resolution

end PyStatic
