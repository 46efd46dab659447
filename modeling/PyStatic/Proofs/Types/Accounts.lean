import PyStatic.Proofs.Syntax.Outlines
import PyStatic.Types.Inference

/-!
Contract: which nodes a body types, and which a visit meets.
-/

namespace PyStatic

open List TypeVisit

def TypeVisit.nodes (visits : List TypeVisit) : List NodeId :=
  visits.map (·.node)

def SimpleStmt.typedIds (form : SimpleStmt) : List NodeId :=
  TypeVisit.nodes form.typeVisits ++
    match form.assignment? with
    | some (targets, _) => TypeVisit.nodes (Expr.typeVisitsOfAll targets .target)
    | none => []

mutual

def Stmt.typedIds : Stmt → List NodeId
  | .simple _ form => form.typedIds
  | .functionDef head _ => TypeVisit.nodes head.typeVisits
  | .classDef head _ => TypeVisit.nodes head.typeVisits
  | .branch _ test body orelse | .whileLoop _ test body orelse =>
    TypeVisit.nodes (test.typeVisits .read) ++ Stmt.typedIdsOfAll body ++
      Stmt.typedIdsOfAll orelse
  | .forLoop _ target iter _ body orelse =>
    TypeVisit.nodes (iter.typeVisits .read) ++ TypeVisit.nodes (target.typeVisits .target) ++
      Stmt.typedIdsOfAll body ++ Stmt.typedIdsOfAll orelse
  | .tryBlock _ body handlers orelse finalbody =>
    Stmt.typedIdsOfAll body ++ Handler.typedIds handlers ++ Stmt.typedIdsOfAll orelse ++
      Stmt.typedIdsOfAll finalbody
  | .withBlock _ items _ body =>
    TypeVisit.nodes (items.flatMap (·.typeVisits)) ++ Stmt.typedIdsOfAll body
  | .matchOn _ subject cases =>
    TypeVisit.nodes (subject.typeVisits .read) ++ MatchCase.typedIds cases

def Stmt.typedIdsOfAll : List Stmt → List NodeId
  | [] => []
  | stmt :: rest => stmt.typedIds ++ Stmt.typedIdsOfAll rest

def Handler.typedIds : List Handler → List NodeId
  | [] => []
  | ⟨head, body⟩ :: rest =>
    TypeVisit.nodes (Expr.typeVisitsOfOption head.kind) ++ Stmt.typedIdsOfAll body ++
      Handler.typedIds rest

def MatchCase.typedIds : List MatchCase → List NodeId
  | [] => []
  | ⟨head, body⟩ :: rest =>
    TypeVisit.nodes head.typeVisits ++ Stmt.typedIdsOfAll body ++ MatchCase.typedIds rest

end

theorem TypeVisit.nodes_append (first second : List TypeVisit) :
    nodes (first ++ second) = nodes first ++ nodes second :=
  map_append

def Visited.ids : Visited → List NodeId
  | .stmt form => [form.id]
  | .expr (.named mark target _) => [target.id, mark.id]
  | .expr form => [form.id]
  | .pattern (.capture identifier) => [identifier.id]
  | .pattern _ | .parameter _ => []

def Module.nodeIds (module' : Module) : List NodeId :=
  module'.visited.flatMap (·.ids)

def Visited.typedIds : Visited → List NodeId
  | .expr (.named mark target _) => [target.id, mark.id]
  | .expr form => [form.id]
  | .pattern (.capture identifier) => [identifier.id]
  | .stmt _ | .pattern _ | .parameter _ => []

def Visited.lambdaParameters : Visited → List Parameter
  | .expr (.lambda _ parameters _) => parameters
  | _ => []

/-- Hints on the parameters of a lambda are met, and no body types them. -/
def Visited.skippedIds (visited : Visited) : List NodeId :=
  TypeVisit.nodes (visited.lambdaParameters.flatMap fun parameter =>
    Expr.typeVisitsOfOption parameter.hint)

def Visited.bodyIds (visited : Visited) : List NodeId :=
  match visited.stmt?.bind (·.inferenceBody?) with
  | some body => Stmt.typedIdsOfAll body.suite
  | none => []

/-- Each node is typed by a body, or skipped, as often as it is to be typed. -/
def Accounts (ids : List NodeId) (outlines : List (Outline Visited)) : Prop :=
  ∀ node, ids.count node + ((Outline.preorderOfAll outlines).flatMap (·.bodyIds)).count node +
      ((Outline.preorderOfAll outlines).flatMap (·.skippedIds)).count node =
    ((Outline.preorderOfAll outlines).flatMap (·.typedIds)).count node

section Accounts

variable {ids others own : List NodeId} {outlines below : List (Outline Visited)} {item : Visited}

theorem accounts_nil : Accounts [] [] := by
  intro node
  simp [Outline.preorderOfAll]

theorem Accounts.of_count_eq (accounts : Accounts ids outlines)
    (same : ∀ node, others.count node = ids.count node) : Accounts others outlines := by
  intro node
  rw [same node]
  exact accounts node

theorem Accounts.append (first : Accounts ids outlines) (second : Accounts others below) :
    Accounts (ids ++ others) (outlines ++ below) := by
  intro node
  have enoughFirst := first node
  have enoughSecond := second node
  simp only [Outline.preorderOfAll_append, flatMap_append, List.count_append]
  omega

theorem Accounts.cons {outline : Outline Visited} (first : Accounts ids [outline])
    (rest : Accounts others outlines) : Accounts (ids ++ others) (outline :: outlines) :=
  first.append rest

theorem Accounts.node {inBody skipped : List NodeId}
    (accounts : Accounts (ids ++ inBody ++ skipped) below) (isOwn : item.typedIds = own)
    (isBody : item.bodyIds = inBody) (isSkipped : item.skippedIds = skipped) :
    Accounts (ids ++ own) [.node item below] := by
  intro node
  have enough := accounts node
  simp only [Outline.preorderOfAll, Outline.preorder, append_nil, flatMap_cons, isOwn,
    isBody, isSkipped, List.count_append] at enough ⊢
  omega

theorem Accounts.expr (accounts : Accounts ids below) (isOwn : item.typedIds = own)
    (noBody : item.bodyIds = []) (noneSkipped : item.skippedIds = []) :
    Accounts (ids ++ own) [.node item below] :=
  Accounts.node (by rwa [append_nil, append_nil]) isOwn noBody noneSkipped

theorem Accounts.visits {visits further : List TypeVisit}
    (first : Accounts (nodes visits) outlines)
    (second : Accounts (nodes further) below) :
    Accounts (nodes (visits ++ further)) (outlines ++ below) :=
  nodes_append visits further ▸ first.append second

theorem Accounts.visit {visits whole : List TypeVisit}
    (accounts : Accounts (nodes visits) below)
    (isOwn : item.typedIds = nodes whole) (noBody : item.bodyIds = [])
    (noneSkipped : item.skippedIds = []) :
    Accounts (nodes (visits ++ whole)) [.node item below] :=
  nodes_append visits whole ▸ accounts.expr isOwn noBody noneSkipped

theorem Accounts.inner (accounts : Accounts ids below) (noneOwn : item.typedIds = [])
    (noBody : item.bodyIds = []) (noneSkipped : item.skippedIds = []) :
    Accounts ids [.node item below] := by
  have whole := accounts.expr noneOwn noBody noneSkipped
  rwa [append_nil] at whole

theorem Accounts.definition (accounts : Accounts (ids ++ own) below)
    (noneOwn : item.typedIds = []) (isBody : item.bodyIds = own)
    (noneSkipped : item.skippedIds = []) : Accounts ids [.node item below] := by
  have whole : Accounts (ids ++ []) [.node item below] :=
    Accounts.node (by rwa [append_nil]) noneOwn isBody noneSkipped
  rwa [append_nil] at whole

end Accounts

theorem Parameter.count_typeVisits (parameters : List Parameter) (node : NodeId) :
    (nodes (parameters.flatMap fun parameter =>
        Expr.typeVisitsOfOption parameter.default ++
          Expr.typeVisitsOfOption parameter.hint)).count node =
      (nodes (Parameter.defaultTypeVisits parameters)).count node +
        (nodes (parameters.flatMap fun parameter =>
          Expr.typeVisitsOfOption parameter.hint)).count node := by
  induction parameters with
  | nil => rfl
  | cons parameter _ ih =>
    obtain ⟨_, _, hint, default, _, _, _⟩ := parameter
    simp only [flatMap_cons, Parameter.defaultTypeVisits, nodes_append,
      List.count_append, ih]
    omega

end PyStatic
