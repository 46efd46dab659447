import PyStatic.Flow.DeadStore
import PyStatic.Proofs.Flow.LivePaths

/-!
Contract: the dead stores that are reported are those that no path reads.

A block is searched from its end, and the set that is carried along is what the paths right behind
each element read first: the rest of the block, alone or followed by a path from a successor.
-/

namespace PyStatic

open List

/-- The assignments that may be reported, each with a plain name it assigns to. -/
inductive Element.Assigns : Element → Identifier → Prop where
  | assign {mark : Mark} {targets : List Expr} {value : Expr} {name : Identifier}
      (isTarget : .name name ∈ targets) :
      Assigns (.stmt (.simple mark (.assign targets value))) name
  | annotated {mark : Mark} {hint value : Expr} {name : Identifier} :
      Assigns (.stmt (.simple mark (.annotatedAssign (.name name) hint (some value)))) name
  | augmented {mark : Mark} {op : String} {value : Expr} {name : Identifier} :
      Assigns (.stmt (.simple mark (.augmentedAssign (.name name) op value))) name

theorem Expr.name?_eq_some {expr : Expr} {name : Identifier} :
    expr.name? = some name ↔ expr = .name name := by
  cases expr <;> simp [Expr.name?]

theorem Element.mem_assignedNames {element : Element} {target : NodeId} :
    target ∈ element.assignedNames ↔ ∃ name, element.Assigns name ∧ target = name.id := by
  constructor
  · unfold assignedNames
    split
    · intro isTarget
      obtain ⟨expr, isIn, isName⟩ := mem_filterMap.mp isTarget
      obtain ⟨name, named, rfl⟩ := Option.map_eq_some_iff.mp isName
      exact ⟨name, .assign (Expr.name?_eq_some.mp named ▸ isIn), rfl⟩
    · intro isTarget
      obtain ⟨name, named, rfl⟩ := Option.map_eq_some_iff.mp (Option.mem_toList.mp isTarget)
      obtain rfl := Expr.name?_eq_some.mp named
      exact ⟨name, .annotated, rfl⟩
    · intro isTarget
      obtain ⟨name, named, rfl⟩ := Option.map_eq_some_iff.mp (Option.mem_toList.mp isTarget)
      obtain rfl := Expr.name?_eq_some.mp named
      exact ⟨name, .augmented, rfl⟩
    · exact fun isTarget => absurd isTarget (not_mem_nil)
  · rintro ⟨name, assigns, rfl⟩
    cases assigns with
    | assign isTarget => exact mem_filterMap.mpr ⟨_, isTarget, rfl⟩
    | annotated => exact Option.mem_toList.mpr rfl
    | augmented => exact Option.mem_toList.mpr rfl

namespace Model

def StandsFor (model : Model) (symbol local' : SymbolId) : Prop :=
  symbol = local' ∨ symbol ∈ model.table.alternatives local'

/-- Of several variables that the symbol stands for, the last one counts. -/
def StandsForLast (model : Model) (symbol local' : SymbolId) (symbols : List SymbolId) : Prop :=
  ∃ older newer, symbols = older ++ local' :: newer ∧ model.StandsFor symbol local' ∧
    ∀ other ∈ newer, ¬ model.StandsFor symbol other

def IsLocal (model : Model) (function : NodeId) (symbol local' : SymbolId) : Prop :=
  ∃ scope, model.ownedScope? function = some scope ∧
    model.StandsForLast symbol local' (model.table.inScope scope)

theorem getElem?_addLocal (model : Model) (locals : Locals) (added symbol local' : SymbolId) :
    (model.addLocal locals added)[symbol]? = some local' ↔
      (model.StandsFor symbol added ∧ added = local') ∨
        (¬ model.StandsFor symbol added ∧ locals[symbol]? = some local') := by
  have inserted : ∀ (alternatives : List SymbolId) (locals : Locals),
      (alternatives.foldl (fun locals alternative => locals.insert alternative added)
          locals)[symbol]? =
        if symbol ∈ alternatives then some added else locals[symbol]? := by
    intro alternatives
    induction alternatives with
    | nil => simp
    | cons _ _ ih =>
      intro locals
      rw [foldl_cons, ih, Std.ExtTreeMap.getElem?_insert]
      simp only [Std.compare_eq_iff_eq, mem_cons]
      grind
  unfold addLocal StandsFor
  rw [inserted, Std.ExtTreeMap.getElem?_insert]
  simp only [Std.compare_eq_iff_eq]
  grind

theorem standsForLast_cons (model : Model) (symbol local' first : SymbolId)
    (rest : List SymbolId) :
    model.StandsForLast symbol local' (first :: rest) ↔
      model.StandsForLast symbol local' rest ∨
        ((∀ other ∈ rest, ¬ model.StandsFor symbol other) ∧
          model.StandsFor symbol first ∧ first = local') := by
  constructor
  · rintro ⟨older, newer, split, stands, others⟩
    cases older with
    | nil =>
      obtain ⟨rfl, rfl⟩ := List.cons.inj split
      exact .inr ⟨others, stands, rfl⟩
    | cons _ older => exact .inl ⟨older, newer, (List.cons.inj split).2, stands, others⟩
  · rintro (⟨older, newer, rfl, stands, others⟩ | ⟨others, stands, rfl⟩)
    · exact ⟨first :: older, newer, rfl, stands, others⟩
    · exact ⟨[], rest, rfl, stands, others⟩

theorem getElem?_foldl_addLocal (model : Model) (symbol local' : SymbolId)
    (symbols : List SymbolId) (locals : Locals) :
    (symbols.foldl model.addLocal locals)[symbol]? = some local' ↔
      model.StandsForLast symbol local' symbols ∨
        ((∀ other ∈ symbols, ¬ model.StandsFor symbol other) ∧ locals[symbol]? = some local') := by
  induction symbols generalizing locals with
  | nil => simp [StandsForLast]
  | cons _ _ ih =>
    rw [foldl_cons, ih, getElem?_addLocal, standsForLast_cons, forall_mem_cons]
    tauto

theorem getElem?_locals {model : Model} {function : NodeId} {symbol local' : SymbolId} :
    (model.locals function)[symbol]? = some local' ↔ model.IsLocal function symbol local' := by
  unfold locals IsLocal
  cases model.ownedScope? function with
  | none => simp
  | some => simp [getElem?_foldl_addLocal]

end Model

/-- What is passed on some path once a block is left. -/
inductive FlowGraph.Continues (graph : FlowGraph) (block : BlockId) : List Element → Prop where
  | stop : Continues graph block []
  | step {next last : BlockId} {blocks : List BlockId} (edge : next ∈ graph.successors block)
      (path : graph.Path next blocks last) : Continues graph block (graph.elementsAlong blocks)

namespace FlowProblem

/-- Some path reads a variable before it writes it. -/
def ReadAfter (problem : FlowProblem) (block : BlockId) (later : List Element)
    (symbol : SymbolId) : Prop :=
  ∃ rest, problem.graph.Continues block rest ∧ problem.ReadsFirst symbol (later ++ rest)

variable (problem : FlowProblem)

theorem readAfter_iff (block : BlockId) (later : List Element) (symbol : SymbolId) :
    problem.ReadAfter block later symbol ↔ problem.ReadsFirst symbol later ∨
      ((∃ next ∈ problem.graph.successors block, problem.ReadAhead next symbol) ∧
        problem.Spares symbol later) := by
  constructor
  · rintro ⟨rest, continues, reads⟩
    rw [readsFirst_append_iff] at reads
    refine reads.imp id ?_
    rintro ⟨spared, readsRest⟩
    cases continues with
    | stop => exact absurd readsRest problem.not_readsFirst_nil
    | step edge path => exact ⟨⟨_, edge, _, _, path, readsRest⟩, spared⟩
  · rintro (reads | ⟨⟨next, edge, blocks, last, path, reads⟩, spared⟩)
    · exact ⟨[], .stop, by rwa [append_nil]⟩
    · exact ⟨_, .step edge path, (problem.readsFirst_append_iff _ _).mpr (.inr ⟨spared, reads⟩)⟩

theorem mem_beforeAll_liveOut {visits : Nat}
    (settled : (Liveness.solve problem visits problem.graph.ids.reverse .empty).2 = [])
    (block : BlockId) (later : List Element) (symbol : SymbolId) :
    symbol ∈ problem.beforeAll later ((Liveness.ofProblem problem visits).liveOut block) ↔
      problem.ReadAfter block later symbol := by
  have solves := Liveness.solves_of_settled settled
  have ahead (next : BlockId) : symbol ∈ (Liveness.ofProblem problem visits).liveIn next ↔
      problem.ReadAhead next symbol :=
    ⟨Liveness.mem_of_closed problem.closed_readAhead visits, solves.mem_of_readAhead⟩
  rw [mem_beforeAll, solves.after_iff, readAfter_iff]
  simp only [ahead]

end FlowProblem

theorem Element.mem_deadStores {element : Element} {model : Model} {locals : Locals}
    {live : SymbolSet} {store : DeadStore} :
    store ∈ element.deadStores model locals live ↔
      ∃ name symbol, element.Assigns name ∧ model.symbolAt? name.id = some symbol ∧
        locals[symbol]? = some store.symbol ∧ store.symbol ∉ live ∧
        store.statement = element.id ∧ store.target = name.id := by
  obtain ⟨statement, target, local'⟩ := store
  unfold deadStores
  rw [mem_filterMap]
  constructor
  · rintro ⟨node, isAssigned, isStore⟩
    obtain ⟨name, assigns, rfl⟩ := mem_assignedNames.mp isAssigned
    split at isStore
    next found isFound =>
      obtain ⟨symbol, named, isLocal⟩ := Option.bind_eq_some_iff.mp isFound
      split at isStore
      · exact absurd isStore (by simp)
      next notLive =>
        obtain ⟨rfl, rfl, rfl⟩ := DeadStore.mk.inj (Option.some.inj isStore)
        exact ⟨name, symbol, assigns, named, isLocal, notLive, rfl, rfl⟩
    · exact absurd isStore (by simp)
  · rintro ⟨name, symbol, assigns, named, isLocal, notLive, rfl, rfl⟩
    refine ⟨name.id, mem_assignedNames.mpr ⟨name, assigns, rfl⟩, ?_⟩
    have found : (model.symbolAt? name.id).bind (locals[·]?) = some local' :=
      Option.bind_eq_some_iff.mpr ⟨symbol, named, isLocal⟩
    rw [found]
    exact if_neg notLive

namespace FlowProblem

variable (problem : FlowProblem)

theorem mem_deadStoresBackwards (model : Model) (backwards : List Element) (live : SymbolSet)
    (store : DeadStore) :
    store ∈ problem.deadStoresBackwards model backwards live ↔
      ∃ behind element before, backwards = behind ++ element :: before ∧
        store ∈ element.deadStores model problem.locals
          (problem.beforeAll behind.reverse live) := by
  induction backwards generalizing live with
  | nil => simp [deadStoresBackwards]
  | cons last others ih =>
    have beforeLast (behind : List Element) :
        problem.beforeAll behind.reverse ((problem.access last).before live) =
          problem.beforeAll (last :: behind).reverse live := by
      rw [reverse_cons, beforeAll, beforeAll, foldr_append]
      rfl
    rw [deadStoresBackwards, mem_append, ih]
    constructor
    · rintro (isHere | ⟨behind, element, before, rfl, isStore⟩)
      · exact ⟨[], last, others, rfl, isHere⟩
      · exact ⟨last :: behind, element, before, rfl, beforeLast behind ▸ isStore⟩
    · rintro ⟨behind, element, before, split, isStore⟩
      cases behind with
      | nil =>
        obtain ⟨rfl, rfl⟩ := List.cons.inj split
        exact .inl isStore
      | cons _ behind =>
        obtain ⟨rfl, rfl⟩ := List.cons.inj split
        exact .inr ⟨behind, element, before, rfl, (beforeLast behind).symm ▸ isStore⟩

theorem mem_deadStores (model : Model) (liveness : Liveness) (block : BlockId)
    (store : DeadStore) :
    store ∈ problem.deadStores model liveness block ↔
      ∃ earlier element later, problem.graph.elements block = earlier ++ element :: later ∧
        store ∈ element.deadStores model problem.locals
          (problem.beforeAll later (liveness.liveOut block)) := by
  rw [deadStores, mem_reverse, mem_deadStoresBackwards]
  constructor
  · rintro ⟨behind, element, before, split, isStore⟩
    refine ⟨before.reverse, element, behind.reverse, ?_, isStore⟩
    rw [← reverse_reverse (problem.graph.elements block), split]
    simp
  · rintro ⟨earlier, element, later, split, isStore⟩
    refine ⟨later.reverse, element, earlier.reverse, ?_, by rwa [reverse_reverse]⟩
    rw [split]
    simp

/-- Reported are the assignments to local variables that no path reads before writing them. -/
theorem reports_exactly_unread_stores (model : Model) (function : NodeId) (graph : FlowGraph)
    (visits : Nat)
    (settled :
      (Liveness.solve (ofGraph model function graph) visits graph.ids.reverse .empty).2 = [])
    (block : BlockId) (store : DeadStore) :
    store ∈ (ofGraph model function graph).deadStores model
        (Liveness.ofProblem (ofGraph model function graph) visits) block ↔
      ∃ earlier element later name symbol,
        graph.elements block = earlier ++ element :: later ∧
        element.Assigns name ∧ model.symbolAt? name.id = some symbol ∧
        model.IsLocal function symbol store.symbol ∧
        store.statement = element.id ∧ store.target = name.id ∧
        ¬ (ofGraph model function graph).ReadAfter block later store.symbol := by
  have live (later : List Element) := mem_beforeAll_liveOut (ofGraph model function graph) settled
    block later store.symbol
  have isLocal (symbol : SymbolId) : (ofGraph model function graph).locals[symbol]? =
      some store.symbol ↔ model.IsLocal function symbol store.symbol := Model.getElem?_locals
  rw [mem_deadStores]
  simp only [Element.mem_deadStores, live, isLocal]
  constructor
  · rintro ⟨earlier, element, later, split, name, symbol, assigns, named, stands, unread, parts⟩
    exact ⟨earlier, element, later, name, symbol, split, assigns, named, stands, parts.1, parts.2,
      unread⟩
  · rintro ⟨earlier, element, later, name, symbol, split, assigns, named, stands, first, second,
      unread⟩
    exact ⟨earlier, element, later, split, name, symbol, assigns, named, stands, unread, first,
      second⟩

def shadowing : FunctionDef :=
  let mark (id start stop : Nat) : Mark := ⟨id, ⟨start, stop⟩⟩
  let name (id start : Nat) (text : String) : Identifier := ⟨mark id start (start + 1), text⟩
  ⟨⟨mark 1 0 57, name 2 4 "f", [], none, [], false⟩,
    [.simple (mark 3 13 18) (.assign [.name (name 4 13 "x")] (.literal (mark 5 17 18) .int "1" [])),
      .functionDef ⟨mark 6 23 44, name 7 27 "x", [], none, [], false⟩
        [.simple (mark 8 40 44) .pass],
      .simple (mark 9 49 57) (.ret (some (.name (name 10 56 "x"))))]⟩

def shadowingModel : Model :=
  .ofModule ⟨"", "m.py", none, {}⟩ ⟨⟨0, ⟨0, 58⟩⟩, [.functionDef shadowing.head shadowing.body]⟩

theorem shadowing_reported :
    (Liveness.solve (ofGraph shadowingModel 1 (Stmt.graph shadowing.body)) 20
        (Stmt.graph shadowing.body).ids.reverse .empty).2 = [] ∧
      ∃ earlier element later name symbol,
        (Stmt.graph shadowing.body).elements 2 = earlier ++ element :: later ∧
        element.Assigns name ∧ shadowingModel.symbolAt? name.id = some symbol ∧
        shadowingModel.IsLocal 1 symbol 3 ∧ 3 = element.id ∧ 4 = name.id ∧
        ¬ (ofGraph shadowingModel 1 (Stmt.graph shadowing.body)).ReadAfter 2 later 3 := by
  have settled : (Liveness.solve (ofGraph shadowingModel 1 (Stmt.graph shadowing.body)) 20
      (Stmt.graph shadowing.body).ids.reverse .empty).2 = [] := by
    decide +kernel
  have reported : (⟨3, 4, 3⟩ : DeadStore) ∈
      (ofGraph shadowingModel 1 (Stmt.graph shadowing.body)).deadStores shadowingModel
        (Liveness.ofProblem (ofGraph shadowingModel 1 (Stmt.graph shadowing.body)) 20) 2 := by
    decide +kernel
  exact ⟨settled, (reports_exactly_unread_stores _ _ _ 20 settled 2 ⟨3, 4, 3⟩).mp reported⟩

end FlowProblem

end PyStatic
