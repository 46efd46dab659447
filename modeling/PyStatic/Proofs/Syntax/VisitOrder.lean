import PyStatic.Proofs.Syntax.Outlines
import PyStatic.Proofs.Syntax.Walks
import PyStatic.Syntax.Visitor

/-!
Contract: a visit of a module meets every node of it, and stops where it should.

The tree of a module is said without outlines: a node has parts, and an address picks a part of
a part and so on. That a visit forgets nothing is then a matter of one node at a time. That it
breaks off at the right place is shown for walks of outlines, and a visitor's walk is one of these.
-/

namespace PyStatic

open List

namespace Visited

/-- The place of a node among those given, then that of a part of it, and so on. -/
def at? : List Visited → List Nat → Option Visited
  | _, [] => none
  | nodes, [place] => nodes[place]?
  | nodes, place :: next :: rest => nodes[place]?.bind fun node => at? node.parts (next :: rest)

theorem itemAt?_outlines (nodes : List Visited) (address : List Nat) :
    Outline.itemAt? (nodes.map Visited.outline) address = at? nodes address := by
  fun_induction at? nodes address with
  | case1 => rfl
  | case2 nodes place =>
    rw [Outline.itemAt?, getElem?_map, Option.map_map]
    cases nodes[place]? with
    | none => rfl
    | some => rw [Option.map_some, Function.comp_apply, outline_eq]; rfl
  | case3 nodes place _ _ below =>
    rw [Outline.itemAt?, getElem?_map]
    cases nodes[place]? with
    | none => rfl
    | some node => rw [Option.map_some, Option.bind_some, outline_eq]; exact below node

end Visited

namespace Outline

variable {α : Type}

theorem Walk.andThen_done (first : Walk α) : first.andThen .done = first := by
  cases first with
  | mk met stopped => cases stopped <;> simp [andThen, done]

theorem Walk.andThen_assoc (first second third : Walk α) :
    (first.andThen second).andThen third = first.andThen (second.andThen third) := by
  unfold andThen
  cases isFirst : first.stopped <;> cases isSecond : second.stopped <;> simp [isFirst, isSecond]

variable {skips stops : α → Bool}

theorem walkAll_cons (outline : Outline α) (rest : List (Outline α)) :
    walkAll skips stops (outline :: rest) =
      (walk skips stops outline).andThen (walkAll skips stops rest) :=
  rfl

theorem walkAll_nil : walkAll skips stops [] = .done :=
  rfl

theorem walkAll_append (first second : List (Outline α)) :
    walkAll skips stops (first ++ second) =
      (walkAll skips stops first).andThen (walkAll skips stops second) := by
  induction first with
  | nil => rfl
  | cons _ _ ih => rw [cons_append, walkAll_cons, ih, ← Walk.andThen_assoc, ← walkAll_cons]

end Outline

namespace Visitor

variable (visitor : Visitor)

theorem walk_node (item : Visited) (children : List (Outline Visited)) :
    Outline.walk visitor.skips visitor.stops (.node item children) =
      visitor.meet item (Outline.walkAll visitor.skips visitor.stops children) :=
  rfl

attribute [local simp] walk_node Outline.walkAll_cons Outline.walkAll_nil Outline.walkAll_append
  Outline.Walk.andThen_done

mutual

theorem expr_eq : ∀ form : Expr,
    visitor.expr form = Outline.walk visitor.skips visitor.stops form.outline
  | .name _ => rfl
  | .member _ value _ | .unary _ _ value | .named _ _ value | .starred _ value _
  | .await _ value => by
    simp [expr, Expr.outline, expr_eq value]
  | .subscript _ value parts => by
    simp [expr, Expr.outline, expr_eq value, exprs_eq parts]
  | .slice _ parts | .literal _ _ _ parts | .collection _ _ parts | .compare _ parts _
  | .invalid _ parts => by
    simp [expr, Expr.outline, exprs_eq parts]
  | .call _ func arguments => by
    simp [expr, Expr.outline, expr_eq func, arguments_eq arguments]
  | .dict _ items => by
    simp [expr, Expr.outline, dictItems_eq items]
  | .comprehension _ _ element value generators => by
    simp [expr, Expr.outline, expr_eq element, exprIn_eq value, generators_eq generators]
  | .lambda _ parameters body => by
    simp [expr, Expr.outline, parameters_eq parameters, expr_eq body]
  | .conditional _ test body orelse => by
    simp [expr, Expr.outline, expr_eq test, expr_eq body, expr_eq orelse]
  | .binary _ _ left _ right => by
    simp [expr, Expr.outline, expr_eq left, expr_eq right]
  | .yield _ value _ => by
    simp [expr, Expr.outline, exprIn_eq value]

theorem exprs_eq : ∀ forms : List Expr,
    visitor.exprs forms = Outline.walkAll visitor.skips visitor.stops (Expr.outlines forms)
  | [] => rfl
  | form :: rest => by simp [exprs, Expr.outlines, expr_eq form, exprs_eq rest]

theorem exprIn_eq : ∀ form : Option Expr,
    visitor.exprIn form = Outline.walkAll visitor.skips visitor.stops (Expr.outlineOf form)
  | none => rfl
  | some form => by simp [exprIn, Expr.outlineOf, expr_eq form]

theorem arguments_eq : ∀ forms : List Argument,
    visitor.arguments forms = Outline.walkAll visitor.skips visitor.stops (Argument.outlines forms)
  | [] => rfl
  | ⟨_, value⟩ :: rest => by
    simp [arguments, Argument.outlines, expr_eq value, arguments_eq rest]

theorem dictItems_eq : ∀ forms : List DictItem,
    visitor.dictItems forms = Outline.walkAll visitor.skips visitor.stops (DictItem.outlines forms)
  | [] => rfl
  | ⟨key, value⟩ :: rest => by
    simp [dictItems, DictItem.outlines, exprIn_eq key, expr_eq value, dictItems_eq rest]

theorem generators_eq : ∀ forms : List Generator,
    visitor.generators forms =
      Outline.walkAll visitor.skips visitor.stops (Generator.outlines forms)
  | [] => rfl
  | ⟨_, target, iter, conditions, _⟩ :: rest => by
    simp [generators, Generator.outlines, expr_eq iter, expr_eq target, exprs_eq conditions,
      generators_eq rest]

theorem parameters_eq : ∀ forms : List Parameter,
    visitor.parameters forms =
      Outline.walkAll visitor.skips visitor.stops (Parameter.outlines forms)
  | [] => rfl
  | ⟨_, _, hint, default, _, _, _⟩ :: rest => by
    simp [parameters, parameter, Parameter.outlines, exprIn_eq hint, exprIn_eq default,
      parameters_eq rest]

end

mutual

theorem pattern_eq : ∀ form : Pattern,
    visitor.pattern form = Outline.walk visitor.skips visitor.stops form.outline
  | .capture _ | .wildcard _ => rfl
  | .value value => by simp [pattern, Pattern.outline, expr_eq]
  | .group items => by simp [pattern, Pattern.outline, patterns_eq items]
  | .ofClass _ arguments => by simp [pattern, Pattern.outline, expr_eq, patterns_eq arguments]

theorem patterns_eq : ∀ forms : List Pattern,
    visitor.patterns forms = Outline.walkAll visitor.skips visitor.stops (Pattern.outlines forms)
  | [] => rfl
  | form :: rest => by simp [patterns, Pattern.outlines, pattern_eq form, patterns_eq rest]

end

attribute [local simp] expr_eq exprs_eq exprIn_eq arguments_eq parameters_eq pattern_eq

theorem simple_eq (form : SimpleStmt) :
    visitor.simple form = Outline.walkAll visitor.skips visitor.stops form.outlines := by
  cases form <;> simp [simple, SimpleStmt.outlines]

theorem withItems_eq (forms : List WithItem) :
    visitor.withItems forms =
      Outline.walkAll visitor.skips visitor.stops (WithItem.outlines forms) := by
  induction forms with
  | nil => rfl
  | cons item rest ih =>
    rw [withItems, ih, WithItem.outlines, WithItem.outlines, flatMap_cons]
    simp

mutual

theorem stmt_eq : ∀ form : Stmt,
    visitor.stmt form = Outline.walk visitor.skips visitor.stops form.outline
  | .simple _ form => by simp [stmt, Stmt.outline, simple_eq]
  | .functionDef head body => by
    simp [stmt, Stmt.outline, FunctionHead.outlines, stmts_eq body]
  | .classDef head body => by
    simp [stmt, Stmt.outline, ClassHead.outlines, stmts_eq body]
  | .branch _ _ body orelse | .forLoop _ _ _ _ body orelse | .whileLoop _ _ body orelse => by
    simp [stmt, Stmt.outline, stmts_eq body, stmts_eq orelse]
  | .tryBlock _ body handlers orelse finalbody => by
    simp [stmt, Stmt.outline, stmts_eq body, handlers_eq handlers, stmts_eq orelse,
      stmts_eq finalbody]
  | .withBlock _ _ _ body => by simp [stmt, Stmt.outline, withItems_eq, stmts_eq body]
  | .matchOn _ _ cases => by simp [stmt, Stmt.outline, cases_eq cases]

theorem stmts_eq : ∀ forms : List Stmt,
    visitor.stmts forms = Outline.walkAll visitor.skips visitor.stops (Stmt.outlines forms)
  | [] => rfl
  | form :: rest => by simp [stmts, Stmt.outlines, stmt_eq form, stmts_eq rest]

theorem handlers_eq : ∀ forms : List Handler,
    visitor.handlers forms = Outline.walkAll visitor.skips visitor.stops (Handler.outlines forms)
  | [] => rfl
  | ⟨_, body⟩ :: rest => by
    simp [handlers, Handler.outlines, stmts_eq body, handlers_eq rest]

theorem cases_eq : ∀ forms : List MatchCase,
    visitor.cases forms = Outline.walkAll visitor.skips visitor.stops (MatchCase.outlines forms)
  | [] => rfl
  | ⟨_, body⟩ :: rest => by
    simp [cases, MatchCase.outlines, stmts_eq body, cases_eq rest]

end

end Visitor

namespace Module

def nodeAt? (module' : Module) (address : List Nat) : Option Visited :=
  Visited.at? (module'.body.map .stmt) address

/-- Every node is visited once and before those inside; pruning takes away just what is inside. -/
theorem walk_exact (module' : Module) :
    ∃ addresses : List (List Nat),
      addresses.Nodup ∧ (∀ address, address ∈ addresses ↔ (module'.nodeAt? address).isSome) ∧
      addresses.Pairwise (fun earlier later => ¬ later <+: earlier) ∧
      module'.walk [] none = ⟨addresses.filterMap module'.nodeAt?, false⟩ ∧
      (∀ pruned, module'.walk pruned none =
        ⟨(addresses.filter (Outline.isOpen (pruned.contains ·.label) module'.nodeAt?)).filterMap
          module'.nodeAt?, false⟩) ∧
      ∀ pruned stop, module'.walk pruned (some stop) =
        let met := (module'.walk pruned none).met
        ⟨met.take (met.findIdx (stop == ·.label) + 1), met.any (stop == ·.label)⟩ := by
  have lookup : Outline.itemAt? module'.outlines = module'.nodeAt? := by
    funext address
    rw [outlines, Stmt.outlines_eq_map, Visited.itemAt?_outlines, nodeAt?]
  have unstopped : ∀ pruned, module'.walk pruned none =
      ⟨Outline.reached (pruned.contains ·.label) module'.outlines, false⟩ := by
    intro pruned
    rw [walk, Visitor.stmts_eq, Outline.walkAll_eq]
    simp [outlines, Outline.upTo_of_not_any]
  have prunes : ∀ pruned, module'.walk pruned none =
      ⟨((Outline.addresses module'.outlines).filter
        (Outline.isOpen (pruned.contains ·.label) module'.nodeAt?)).filterMap
          module'.nodeAt?, false⟩ := by
    intro pruned
    rw [unstopped, Outline.reached_eq_filterMap, lookup]
  have ordered := Outline.pairwise_addresses module'.outlines
  refine ⟨Outline.addresses module'.outlines, ?_, ?_, ordered, ?_, prunes, ?_⟩
  · refine ordered.imp ?_
    rintro earlier _ notAbove rfl
    exact notAbove prefix_rfl
  · intro address
    rw [← lookup, Outline.mem_addresses]
  · rw [prunes, filter_eq_self.mpr fun address _ => by simp [Outline.isOpen]]
  · intro pruned stop
    rw [unstopped, walk, Visitor.stmts_eq, Outline.walkAll_eq]
    simp [outlines, Outline.upTo]

end Module

end PyStatic
