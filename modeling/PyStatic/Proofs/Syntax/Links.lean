import PyStatic.Proofs.Syntax.NodeIds

/-!
Contract: the nodes of a module, each with the node around it.

Arguments, dictionary entries, clauses of comprehensions, patterns, dotted names and managers of
`with` statements carry no mark: what stands in them stands in the node around them. Nodes are
listed in the order of `ids`.
-/

namespace PyStatic

/-- A node, and the range of the nearest node around it. -/
structure Link where
  above : TextRange
  mark : Mark
  deriving DecidableEq

def Link.id (link : Link) : NodeId :=
  link.mark.id

def Link.Nests (link : Link) : Prop :=
  link.mark.range.within link.above = true

def Identifier.link (above : TextRange) (identifier : Identifier) : Link :=
  ⟨above, identifier.mark⟩

def ParameterTarget.links (above : TextRange) (target : ParameterTarget) : List Link :=
  target.names.map (·.link above)

mutual

def Expr.links (above : TextRange) : Expr → List Link
  | .name identifier => [identifier.link above]
  | .member mark value attr => [⟨above, mark⟩] ++ value.links mark.range ++ [attr.link mark.range]
  | .subscript mark value slice =>
    [⟨above, mark⟩] ++ value.links mark.range ++ Expr.linksOfAll mark.range slice
  | .slice mark parts => [⟨above, mark⟩] ++ Expr.linksOfAll mark.range parts
  | .call mark func arguments =>
    [⟨above, mark⟩] ++ func.links mark.range ++ Argument.linksOfAll mark.range arguments
  | .literal mark _ _ interpolations =>
    [⟨above, mark⟩] ++ Expr.linksOfAll mark.range interpolations
  | .collection mark _ elements => [⟨above, mark⟩] ++ Expr.linksOfAll mark.range elements
  | .dict mark items => [⟨above, mark⟩] ++ DictItem.linksOfAll mark.range items
  | .comprehension mark _ element value generators =>
    [⟨above, mark⟩] ++ (element.links mark.range ++ Expr.linksOfOption mark.range value) ++
      Generator.linksOfAll mark.range generators
  | .lambda mark parameters body =>
    [⟨above, mark⟩] ++ Parameter.linksOfAll mark.range parameters ++ body.links mark.range
  | .conditional mark test body orelse =>
    [⟨above, mark⟩] ++ test.links mark.range ++ body.links mark.range ++ orelse.links mark.range
  | .binary mark _ left _ right =>
    [⟨above, mark⟩] ++ left.links mark.range ++ right.links mark.range
  | .unary mark _ operand => [⟨above, mark⟩] ++ operand.links mark.range
  | .compare mark operands _ => [⟨above, mark⟩] ++ Expr.linksOfAll mark.range operands
  | .named mark target value =>
    [⟨above, mark⟩] ++ [target.link mark.range] ++ value.links mark.range
  | .starred mark value _ => [⟨above, mark⟩] ++ value.links mark.range
  | .await mark value => [⟨above, mark⟩] ++ value.links mark.range
  | .yield mark value _ => [⟨above, mark⟩] ++ Expr.linksOfOption mark.range value
  | .invalid mark children => [⟨above, mark⟩] ++ Expr.linksOfAll mark.range children

def Expr.linksOfAll (above : TextRange) : List Expr → List Link
  | [] => []
  | expr :: rest => expr.links above ++ Expr.linksOfAll above rest

def Expr.linksOfOption (above : TextRange) : Option Expr → List Link
  | none => []
  | some expr => expr.links above

def Argument.linksOfAll (above : TextRange) : List Argument → List Link
  | [] => []
  | ⟨keyword, value⟩ :: rest =>
    (keyword.toList.map (·.link above) ++ value.links above) ++ Argument.linksOfAll above rest

def DictItem.linksOfAll (above : TextRange) : List DictItem → List Link
  | [] => []
  | ⟨key, value⟩ :: rest =>
    (Expr.linksOfOption above key ++ value.links above) ++ DictItem.linksOfAll above rest

def Generator.linksOfAll (above : TextRange) : List Generator → List Link
  | [] => []
  | ⟨_, target, iter, conditions, _⟩ :: rest =>
    (target.links above ++ iter.links above ++ Expr.linksOfAll above conditions) ++
      Generator.linksOfAll above rest

def Parameter.linksOfAll (above : TextRange) : List Parameter → List Link
  | [] => []
  | ⟨mark, target, hint, default, _, _, _⟩ :: rest =>
    ([⟨above, mark⟩] ++ target.links mark.range ++ Expr.linksOfOption mark.range hint ++
      Expr.linksOfOption mark.range default) ++ Parameter.linksOfAll above rest

end

mutual

def Pattern.links (above : TextRange) : Pattern → List Link
  | .capture identifier => [identifier.link above]
  | .wildcard _ => []
  | .value expr => expr.links above
  | .group items => Pattern.linksOfAll above items
  | .ofClass subject arguments => subject.links above ++ Pattern.linksOfAll above arguments

def Pattern.linksOfAll (above : TextRange) : List Pattern → List Link
  | [] => []
  | pattern :: rest => pattern.links above ++ Pattern.linksOfAll above rest

end

def DottedName.links (above : TextRange) (name : DottedName) : List Link :=
  name.parts.map (·.link above)

def Alias.links (above : TextRange) (imported : Alias) : List Link :=
  [⟨above, imported.mark⟩] ++ imported.name.links imported.mark.range ++
    imported.asName.toList.map (·.link imported.mark.range)

def FromImport.links (above : TextRange) (imported : FromImport) : List Link :=
  imported.target.toList.flatMap (·.links above) ++ imported.names.flatMap (·.links above)

def SimpleStmt.links (above : TextRange) : SimpleStmt → List Link
  | .assign targets value => Expr.linksOfAll above targets ++ value.links above
  | .annotatedAssign target hint value =>
    target.links above ++ hint.links above ++ Expr.linksOfOption above value
  | .augmentedAssign target _ value => target.links above ++ value.links above
  | .expr value => value.links above
  | .ret value => Expr.linksOfOption above value
  | .delete targets => Expr.linksOfAll above targets
  | .raise exception cause => Expr.linksOfOption above exception ++ Expr.linksOfOption above cause
  | .assert test message => test.links above ++ Expr.linksOfOption above message
  | .pass | .leaveLoop | .nextRound => []
  | .globalNames names | .nonlocalNames names => names.map (·.link above)
  | .plainImport names => names.flatMap (·.links above)
  | .fromImport imported => imported.links above

def FunctionHead.links (above : TextRange) (head : FunctionHead) : List Link :=
  Expr.linksOfAll head.mark.range head.decorators ++ [⟨above, head.mark⟩] ++
    [head.name.link head.mark.range] ++ Parameter.linksOfAll head.mark.range head.parameters ++
    Expr.linksOfOption head.mark.range head.returns

def ClassHead.links (above : TextRange) (head : ClassHead) : List Link :=
  Expr.linksOfAll head.mark.range head.decorators ++ [⟨above, head.mark⟩] ++
    [head.name.link head.mark.range] ++ Argument.linksOfAll head.mark.range head.arguments

def WithItem.links (above : TextRange) (item : WithItem) : List Link :=
  item.context.links above ++ Expr.linksOfOption above item.target

def HandlerHead.links (above : TextRange) (head : HandlerHead) : List Link :=
  [⟨above, head.mark⟩] ++ (Expr.linksOfOption head.mark.range head.kind ++
    head.name.toList.map (·.link head.mark.range))

def CaseHead.links (above : TextRange) (head : CaseHead) : List Link :=
  [⟨above, head.mark⟩] ++ head.pattern.links head.mark.range ++
    Expr.linksOfOption head.mark.range head.guard

mutual

def Stmt.links (above : TextRange) : Stmt → List Link
  | .simple mark form => [⟨above, mark⟩] ++ form.links mark.range
  | .functionDef head body => head.links above ++ Stmt.linksOfAll head.mark.range body
  | .classDef head body => head.links above ++ Stmt.linksOfAll head.mark.range body
  | .branch mark test body orelse =>
    [⟨above, mark⟩] ++ test.links mark.range ++ Stmt.linksOfAll mark.range body ++
      Stmt.linksOfAll mark.range orelse
  | .forLoop mark target iter _ body orelse =>
    [⟨above, mark⟩] ++ target.links mark.range ++ iter.links mark.range ++
      Stmt.linksOfAll mark.range body ++ Stmt.linksOfAll mark.range orelse
  | .whileLoop mark test body orelse =>
    [⟨above, mark⟩] ++ test.links mark.range ++ Stmt.linksOfAll mark.range body ++
      Stmt.linksOfAll mark.range orelse
  | .tryBlock mark body handlers orelse finalbody =>
    [⟨above, mark⟩] ++ Stmt.linksOfAll mark.range body ++
      (Handler.linksOfAll mark.range handlers ++ Stmt.linksOfAll mark.range orelse ++
        Stmt.linksOfAll mark.range finalbody)
  | .withBlock mark items _ body =>
    [⟨above, mark⟩] ++ items.flatMap (·.links mark.range) ++ Stmt.linksOfAll mark.range body
  | .matchOn mark subject cases =>
    [⟨above, mark⟩] ++ subject.links mark.range ++ MatchCase.linksOfAll mark.range cases

def Stmt.linksOfAll (above : TextRange) : List Stmt → List Link
  | [] => []
  | stmt :: rest => stmt.links above ++ Stmt.linksOfAll above rest

def Handler.linksOfAll (above : TextRange) : List Handler → List Link
  | [] => []
  | ⟨head, body⟩ :: rest =>
    (head.links above ++ Stmt.linksOfAll head.mark.range body) ++ Handler.linksOfAll above rest

def MatchCase.linksOfAll (above : TextRange) : List MatchCase → List Link
  | [] => []
  | ⟨head, body⟩ :: rest =>
    (head.links above ++ Stmt.linksOfAll head.mark.range body) ++ MatchCase.linksOfAll above rest

end

def Module.links (module' : Module) : List Link :=
  Stmt.linksOfAll module'.mark.range module'.body

structure Additive {α β : Type} (all : List α → List β) : Prop where
  nil : all [] = []
  cons : ∀ first rest, all (first :: rest) = all [first] ++ all rest

theorem Additive.append {α β : Type} {all : List α → List β} (additive : Additive all)
    (first second : List α) : all (first ++ second) = all first ++ all second := by
  induction first with
  | nil => rw [additive.nil, List.nil_append, List.nil_append]
  | cons item rest ih =>
    rw [List.cons_append, additive.cons, ih, additive.cons item rest, List.append_assoc]

section Additive

variable (above : TextRange)

theorem Expr.additive : Additive (Expr.linksOfAll above) :=
  ⟨rfl, fun _ _ => by simp [Expr.linksOfAll]⟩

theorem Argument.additive : Additive (Argument.linksOfAll above) :=
  ⟨rfl, by rintro ⟨⟩ _; simp [Argument.linksOfAll]⟩

theorem DictItem.additive : Additive (DictItem.linksOfAll above) :=
  ⟨rfl, by rintro ⟨⟩ _; simp [DictItem.linksOfAll]⟩

theorem Generator.additive : Additive (Generator.linksOfAll above) :=
  ⟨rfl, by rintro ⟨⟩ _; simp [Generator.linksOfAll]⟩

theorem Parameter.additive : Additive (Parameter.linksOfAll above) :=
  ⟨rfl, by rintro ⟨⟩ _; simp [Parameter.linksOfAll]⟩

theorem Stmt.additive : Additive (Stmt.linksOfAll above) :=
  ⟨rfl, fun _ _ => by simp [Stmt.linksOfAll]⟩

theorem Handler.additive : Additive (Handler.linksOfAll above) :=
  ⟨rfl, by rintro ⟨⟩ _; simp [Handler.linksOfAll]⟩

theorem MatchCase.additive : Additive (MatchCase.linksOfAll above) :=
  ⟨rfl, by rintro ⟨⟩ _; simp [MatchCase.linksOfAll]⟩

end Additive

theorem Expr.links_eq_cons (expr : Expr) :
    ∃ below, ∀ above, expr.links above = ⟨above, expr.mark⟩ :: below := by
  cases expr <;> exact ⟨_, fun _ => rfl⟩

@[simp] theorem Link.id_mk (above : TextRange) (mark : Mark) : Link.id ⟨above, mark⟩ = mark.id :=
  rfl

theorem Stmt.mark_mem_links (above : TextRange) (stmt : Stmt) :
    ⟨above, stmt.mark⟩ ∈ stmt.links above := by
  cases stmt <;> simp [Stmt.links, Stmt.mark, FunctionHead.links, ClassHead.links]

end PyStatic
