import PyStatic.Proofs.Flow.DeadStores
import PyStatic.Proofs.Flow.ElementAccess

/-!
Contract: what a nested definition mentions counts as read where the definition stands.

The read is placed at the definition, not at the calls. A value that is assigned before control
comes to the definition is kept; one that is assigned behind it is judged as if the body never ran
again.
-/

namespace PyStatic

open Liveness FlowProblem

/-- A definition uses the variable, other than as its own name or in a declaration. -/
def Element.Mentions (definition : Element) (used : LocalUsage) : Prop :=
  ∃ name, definition.definedName? = some name ∧
    used.usage.range.within definition.evaluatedRange = true ∧
    used.usage.node ≠ name ∧ used.usage.kind ≠ .globalDeclaration

namespace FlowProblem

/-- Some path comes to the element, and nothing writes the variable on the way. -/
def Reaches (problem : FlowProblem) (block : BlockId) (later : List Element) (symbol : SymbolId)
    (goal : Element) : Prop :=
  ∃ rest between after, problem.graph.Continues block rest ∧
    later ++ rest = between ++ goal :: after ∧ problem.Spares symbol between

theorem mem_reads_of_mentions (problem : FlowProblem) {definition : Element} {used : LocalUsage}
    (isUsage : used ∈ problem.usages) (mentions : definition.Mentions used) :
    used.symbol ∈ (problem.access definition).reads := by
  obtain ⟨name, isDefinition, inside, otherNode, noDeclaration⟩ := mentions
  rw [access, definition.mem_reads_of_definition isDefinition]
  exact ⟨used, isUsage, inside, otherNode, noDeclaration, rfl⟩

/-- The value of a reported dead store reaches no definition that mentions the variable. -/
theorem reported_store_reaches_no_mention (model : Model) (function : NodeId) (graph : FlowGraph)
    (visits : Nat)
    (settled :
      (Liveness.solve (ofGraph model function graph) visits graph.ids.reverse .empty).2 = [])
    (block : BlockId) (store : DeadStore)
    (reported : store ∈ (ofGraph model function graph).deadStores model
      (Liveness.ofProblem (ofGraph model function graph) visits) block) :
    ∃ earlier element later name,
      graph.elements block = earlier ++ element :: later ∧ element.Assigns name ∧
      store.statement = element.id ∧ store.target = name.id ∧
      ∀ definition, ∀ used ∈ (ofGraph model function graph).usages,
        definition.Mentions used → used.symbol = store.symbol →
        ¬ (ofGraph model function graph).Reaches block later store.symbol definition := by
  obtain ⟨earlier, element, later, split, isStore⟩ :=
    ((ofGraph model function graph).mem_deadStores model _ block store).mp reported
  obtain ⟨name, symbol, assigns, -, -, notLive, statement, target⟩ :=
    Element.mem_deadStores.mp isStore
  rw [mem_beforeAll_liveOut _ settled] at notLive
  refine ⟨earlier, element, later, name, split, assigns, statement, target, ?_⟩
  rintro definition used isUsage mentions same ⟨rest, between, after, continues, reached, spared⟩
  have reads := (ofGraph model function graph).mem_reads_of_mentions isUsage mentions
  exact notLive ⟨rest, continues, between, definition, after, reached, same ▸ reads, spared⟩

end FlowProblem

theorem Model.locals_of_names_sorted {model : Model} {function : NodeId} (scope : ScopeId)
    (symbols : List SymbolId) (owned : model.ownedScope? function = some scope)
    (named : (model.table.names scope).toList.map (·.2) = symbols)
    (sorted : symbols.Pairwise fun older newer => decide (older ≤ newer) = true) :
    model.locals function = symbols.foldl model.addLocal ∅ := by
  have inOrder : model.table.inScope scope = symbols := by
    rw [SymbolTable.inScope, named]
    exact List.mergeSort_of_pairwise sorted
  rw [Model.locals, owned]
  exact congrArg (List.foldl model.addLocal ∅) inOrder

namespace Capturing

def mark (id start stop : Nat) : Mark :=
  ⟨id, ⟨start, stop⟩⟩

def name (id start : Nat) (text : String) : Identifier :=
  ⟨mark id start (start + 1), text⟩

def store (id start : Nat) (value : String) : Element :=
  .stmt (.simple (mark id start (start + 5)) (.assign [.name (name (id + 1) start "a")]
    (.literal (mark (id + 2) (start + 4) (start + 5)) .int value [])))

def definition : Element :=
  .stmt (.functionDef ⟨mark 9 33 58, name 10 37 "g", [], none, [], false⟩
    [.simple (mark 11 50 58) (.ret (some (.name (name 12 57 "a"))))])

def result : Element :=
  .stmt (.simple (mark 16 73 81) (.ret (some (.name (name 17 80 "g")))))

def function : FunctionDef :=
  ⟨⟨mark 1 0 81, name 2 4 "f", [], none, [], false⟩,
    [store 3 13 "1", store 6 23 "2", definition, store 13 63 "3", result].filterMap (·.stmt?)⟩

def graph : FlowGraph :=
  Stmt.graph function.body

def model : Model :=
  .ofModule ⟨"", "m.py", none, {}⟩ ⟨mark 0 0 82, [.functionDef function.head function.body]⟩

def problem : FlowProblem :=
  let locals := [1, 2].foldl model.addLocal ∅
  ⟨graph, locals, model.localUsages locals⟩

theorem ofGraph_eq : ofGraph model 1 graph = problem := by
  have locals : model.locals 1 = [1, 2].foldl model.addLocal ∅ :=
    Model.locals_of_names_sorted 1 [1, 2] (by decide +kernel) (by decide +kernel)
      (by decide +kernel)
  rw [ofGraph, locals]
  rfl

theorem settled :
    (solve (ofGraph model 1 graph) 20 graph.ids.reverse .empty).2 = [] := by
  rw [ofGraph_eq]
  decide +kernel

theorem deadStores_eq :
    (ofGraph model 1 graph).deadStores model
      (ofProblem (ofGraph model 1 graph) 20) 2 = [⟨3, 4, 1⟩, ⟨13, 14, 1⟩] := by
  rw [ofGraph_eq]
  decide +kernel

theorem first_store_reaches_no_mention :
    (Liveness.solve (FlowProblem.ofGraph model 1 graph) 20 graph.ids.reverse .empty).2 = [] ∧
      (⟨3, 4, 1⟩ : DeadStore) ∈ (FlowProblem.ofGraph model 1 graph).deadStores model
        (Liveness.ofProblem (FlowProblem.ofGraph model 1 graph) 20) 2 ∧
      ∃ earlier element later name,
        graph.elements 2 = earlier ++ element :: later ∧ element.Assigns name ∧
        3 = element.id ∧ 4 = name.id ∧
        ∀ definition, ∀ used ∈ (FlowProblem.ofGraph model 1 graph).usages,
          definition.Mentions used → used.symbol = 1 →
          ¬ (FlowProblem.ofGraph model 1 graph).Reaches 2 later 1 definition := by
  have reported : (⟨3, 4, 1⟩ : DeadStore) ∈ (FlowProblem.ofGraph model 1 graph).deadStores model
      (Liveness.ofProblem (FlowProblem.ofGraph model 1 graph) 20) 2 := by
    rw [deadStores_eq]
    decide
  exact ⟨settled, reported, FlowProblem.reported_store_reaches_no_mention model 1 graph 20 settled 2
    ⟨3, 4, 1⟩ reported⟩

/-- An assignment behind a definition that reads the variable may be reported all the same. -/
theorem not_unreported_behind_mention :
    ¬ ∀ (model : Model) (function : NodeId) (graph : FlowGraph) (visits : Nat),
      (Liveness.solve (FlowProblem.ofGraph model function graph) visits
        graph.ids.reverse .empty).2 = [] →
      ∀ (block : BlockId) (blocks : List BlockId) (earlier between later : List Element)
        (definition element : Element) (name : Identifier) (used : LocalUsage),
        graph.Path FlowGraph.entry blocks block →
        graph.elementsAlong blocks = earlier ++ definition :: (between ++ element :: later) →
        element ∈ graph.elements block → element.Assigns name →
        used ∈ (FlowProblem.ofGraph model function graph).usages →
        definition.Mentions used → used.usage.kind = .other →
        (⟨element.id, name.id, used.symbol⟩ : DeadStore) ∉
          (FlowProblem.ofGraph model function graph).deadStores model
            (Liveness.ofProblem (FlowProblem.ofGraph model function graph) visits) block := by
  intro unreported
  have path : graph.Path FlowGraph.entry [0, 2] 2 := .step (by decide +kernel) (.here 2)
  have isUsage : (1, ⟨12, ⟨57, 58⟩, .other⟩) ∈
      (FlowProblem.ofGraph model 1 graph).usages.map fun used => (used.symbol, used.usage) := by
    rw [ofGraph_eq]
    decide +kernel
  obtain ⟨⟨_, _⟩, isUsage, ⟨⟩⟩ := List.mem_map.mp isUsage
  have isLast : store 13 63 "3" ∈ graph.elements 2 :=
    List.mem_append_right [store 3 13 "1", store 6 23 "2", definition] (List.mem_cons_self ..)
  have absent := unreported model 1 graph 20 settled 2 [0, 2] [store 3 13 "1", store 6 23 "2"] []
    [result] definition (store 13 63 "3") (name 14 63 "a") _ path rfl isLast
    (.assign (List.mem_singleton_self _)) isUsage ⟨10, rfl, by decide, by decide, by decide⟩ rfl
  rw [deadStores_eq] at absent
  exact absent (by decide)

end Capturing

end PyStatic
