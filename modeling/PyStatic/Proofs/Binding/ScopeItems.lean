import Mathlib.Data.List.Basic
import PyStatic.Proofs.Syntax.BindingNodes

/-!
Contract: what stands in which scope of a module, told by its syntax alone.

The first iterable of a comprehension belongs to the scope around it, and so do the defaults of
parameters and all else in the header of a definition. Suites open no scope.
-/

namespace PyStatic

open List

/-- What a place in a scope says of a name. -/
inductive Mention where
  | binds (name : Identifier)
  | assigns (target : Identifier)
  | spreads (mark : Mark) (names : List String)
  | reads (name : Identifier)
  | declares (isGlobal : Bool) (name : Identifier)
  deriving DecidableEq, Repr

inductive ScopeItem where
  | mention (mention : Mention)
  | opens (kind : ScopeKind) (items : List ScopeItem)

namespace ScopeItem

def binding (names : List Identifier) : List ScopeItem :=
  names.map fun name => mention (.binds name)

def declaring (isGlobal : Bool) (names : List Identifier) : List ScopeItem :=
  names.map fun name => mention (.declares isGlobal name)

end ScopeItem

def Parameter.boundItems (parameters : List Parameter) : List ScopeItem :=
  parameters.flatMap fun parameter => ScopeItem.binding parameter.target.names

mutual

def Expr.items : Expr → TargetUse → List ScopeItem
  | .name identifier, .read => [.mention (.reads identifier)]
  | .name identifier, .target => [.mention (.binds identifier)]
  | .member _ value _, _ => value.items .read
  | .subscript _ value slice, _ => value.items .read ++ Expr.itemsOfAll slice .read
  | .slice _ parts, _ => Expr.itemsOfAll parts .read
  | .call _ func arguments, _ => func.items .read ++ Argument.items arguments
  | .literal _ _ _ interpolations, _ => Expr.itemsOfAll interpolations .read
  | .collection _ .set elements, _ => Expr.itemsOfAll elements .read
  | .collection _ .tuple elements, use => Expr.itemsOfAll elements use
  | .collection _ .list elements, use => Expr.itemsOfAll elements use
  | .dict _ entries, _ => DictItem.items entries
  | .comprehension _ _ element value generators, _ =>
    if generators.isEmpty then []
    else
      Generator.firstItems generators ++
        [.opens .comprehension (Generator.items true generators ++
          (element.items .read ++ Expr.itemsOfOption value))]
  | .lambda _ parameters body, _ =>
    Parameter.defaultItems parameters ++
      [.opens .lambda (Parameter.boundItems parameters ++ body.items .read)]
  | .conditional _ test body orelse, _ => test.items .read ++ body.items .read ++ orelse.items .read
  | .binary _ _ left _ right, _ => left.items .read ++ right.items .read
  | .unary _ _ operand, _ => operand.items .read
  | .compare _ operands _, _ => Expr.itemsOfAll operands .read
  | .named _ target value, _ => value.items .read ++ [.mention (.assigns target)]
  | .starred _ value _, use => value.items use
  | .await _ value, _ => value.items .read
  | .yield _ value _, _ => Expr.itemsOfOption value
  | .invalid _ children, _ => Expr.itemsOfAll children .read

def Expr.itemsOfAll : List Expr → TargetUse → List ScopeItem
  | [], _ => []
  | expr :: rest, use => expr.items use ++ Expr.itemsOfAll rest use

def Expr.itemsOfOption : Option Expr → List ScopeItem
  | none => []
  | some expr => expr.items .read

def Argument.items : List Argument → List ScopeItem
  | [] => []
  | ⟨_, value⟩ :: rest => value.items .read ++ Argument.items rest

def DictItem.items : List DictItem → List ScopeItem
  | [] => []
  | ⟨key, value⟩ :: rest => Expr.itemsOfOption key ++ value.items .read ++ DictItem.items rest

def Generator.firstItems : List Generator → List ScopeItem
  | [] => []
  | ⟨_, _, iter, _, _⟩ :: _ => iter.items .read

def Generator.items (isFirst : Bool) : List Generator → List ScopeItem
  | [] => []
  | ⟨_, target, iter, conditions, _⟩ :: rest =>
    (if isFirst then [] else iter.items .read) ++ target.items .target ++
      Expr.itemsOfAll conditions .read ++ Generator.items false rest

def Parameter.defaultItems : List Parameter → List ScopeItem
  | [] => []
  | ⟨_, _, _, default, _, _, _⟩ :: rest =>
    Expr.itemsOfOption default ++ Parameter.defaultItems rest

end

def Parameter.headItems (parameters : List Parameter) : List ScopeItem :=
  parameters.flatMap fun parameter =>
    Expr.itemsOfOption parameter.hint ++ Expr.itemsOfOption parameter.default

mutual

def Pattern.items : Pattern → List ScopeItem
  | .capture identifier => [.mention (.binds identifier)]
  | .wildcard _ => []
  | .value expr => expr.items .read
  | .group patterns => Pattern.itemsOfAll patterns
  | .ofClass subject arguments => subject.items .read ++ Pattern.itemsOfAll arguments

def Pattern.itemsOfAll : List Pattern → List ScopeItem
  | [] => []
  | pattern :: rest => pattern.items ++ Pattern.itemsOfAll rest

end

def FromImport.items (imported : FromImport) (around : Surroundings) (mark : Mark) :
    List ScopeItem :=
  match imported.module? around.package with
  | none => ScopeItem.binding (Alias.boundNames imported.names)
  | some module' =>
    if imported.isWildcard then
      match around.project.bind (·.exports? module') with
      | some exports =>
        [.mention (.spreads mark ((exports.map (·.name)).filter (!·.isEmpty)))]
      | none => []
    else ScopeItem.binding (Alias.boundNames imported.names)

def SimpleStmt.items (around : Surroundings) (mark : Mark) : SimpleStmt → List ScopeItem
  | .assign targets value => value.items .read ++ Expr.itemsOfAll targets .target
  | .annotatedAssign target hint value =>
    hint.items .read ++ Expr.itemsOfOption value ++ target.items .target
  | .augmentedAssign target _ value =>
    value.items .read ++ target.items (if target.name?.isSome then .target else .read)
  | .expr value => value.items .read
  | .ret value => Expr.itemsOfOption value
  | .delete targets => Expr.itemsOfAll targets .read
  | .raise exception cause => Expr.itemsOfOption exception ++ Expr.itemsOfOption cause
  | .assert test message => test.items .read ++ Expr.itemsOfOption message
  | .pass | .leaveLoop | .nextRound => []
  | .globalNames names => ScopeItem.declaring true names
  | .nonlocalNames names => ScopeItem.declaring false names
  | .plainImport names => ScopeItem.binding (Alias.boundNames names)
  | .fromImport imported => imported.items around mark

def Expr.targetItems : Option Expr → List ScopeItem
  | none => []
  | some target => target.items .target

def WithItem.items (managers : List WithItem) : List ScopeItem :=
  managers.flatMap fun manager =>
    manager.context.items .read ++ Expr.targetItems manager.target

def FunctionHead.items (head : FunctionHead) : List ScopeItem :=
  Expr.itemsOfAll head.decorators .read ++ Parameter.headItems head.parameters ++
    Expr.itemsOfOption head.returns ++ ScopeItem.binding [head.name]

def ClassHead.items (head : ClassHead) : List ScopeItem :=
  Expr.itemsOfAll head.decorators .read ++ Argument.items head.arguments ++
    ScopeItem.binding [head.name]

def HandlerHead.items (head : HandlerHead) : List ScopeItem :=
  Expr.itemsOfOption head.kind ++ ScopeItem.binding head.name.toList

def CaseHead.items (head : CaseHead) : List ScopeItem :=
  head.pattern.items ++ Expr.itemsOfOption head.guard

mutual

def Stmt.items (around : Surroundings) : Stmt → List ScopeItem
  | .simple mark form => form.items around mark
  | .functionDef head body =>
    head.items ++ [.opens .function
      (Parameter.boundItems head.parameters ++ Stmt.itemsOfAll around body)]
  | .classDef head body => head.items ++ [.opens .classBody (Stmt.itemsOfAll around body)]
  | .branch _ test body orelse | .whileLoop _ test body orelse =>
    test.items .read ++ Stmt.itemsOfAll around body ++ Stmt.itemsOfAll around orelse
  | .forLoop _ target iter _ body orelse =>
    iter.items .read ++ target.items .target ++ Stmt.itemsOfAll around body ++
      Stmt.itemsOfAll around orelse
  | .tryBlock _ body handlers orelse finalbody =>
    Stmt.itemsOfAll around body ++ Handler.items around handlers ++
      Stmt.itemsOfAll around orelse ++ Stmt.itemsOfAll around finalbody
  | .withBlock _ managers _ body => WithItem.items managers ++ Stmt.itemsOfAll around body
  | .matchOn _ subject cases => subject.items .read ++ MatchCase.items around cases

def Stmt.itemsOfAll (around : Surroundings) : List Stmt → List ScopeItem
  | [] => []
  | stmt :: rest => stmt.items around ++ Stmt.itemsOfAll around rest

def Handler.items (around : Surroundings) : List Handler → List ScopeItem
  | [] => []
  | ⟨head, body⟩ :: rest =>
    head.items ++ Stmt.itemsOfAll around body ++ Handler.items around rest

def MatchCase.items (around : Surroundings) : List MatchCase → List ScopeItem
  | [] => []
  | ⟨head, body⟩ :: rest =>
    head.items ++ Stmt.itemsOfAll around body ++ MatchCase.items around rest

end

/-- A scope, with all that stands in it and in no scope inside. -/
structure ScopeBlock where
  kind : ScopeKind
  parent : Option ScopeId
  mentions : List Mention
  deriving DecidableEq, Repr

namespace ScopeItem

def mention? : ScopeItem → Option Mention
  | mention said => some said
  | opens _ _ => none

def mentions (items : List ScopeItem) : List Mention :=
  items.filterMap mention?

mutual

def scopeCount : ScopeItem → Nat
  | mention _ => 0
  | opens _ items => scopeCountOfAll items + 1

def scopeCountOfAll : List ScopeItem → Nat
  | [] => 0
  | item :: rest => item.scopeCount + scopeCountOfAll rest

end

mutual

def blocks (parent next : ScopeId) : ScopeItem → List ScopeBlock
  | mention _ => []
  | opens kind items => ⟨kind, some parent, mentions items⟩ :: blocksOfAll next (next + 1) items

def blocksOfAll (parent next : ScopeId) : List ScopeItem → List ScopeBlock
  | [] => []
  | item :: rest => item.blocks parent next ++ blocksOfAll parent (next + item.scopeCount) rest

end

end ScopeItem

/-- Scopes are numbered as they are opened. -/
def Module.scopeBlocks (module' : Module) (around : Surroundings) : List ScopeBlock :=
  let items := Stmt.itemsOfAll around module'.body
  ⟨.topLevel, none, ScopeItem.mentions items⟩ :: ScopeItem.blocksOfAll 0 1 items

namespace ScopeItem

theorem mentions_append (first second : List ScopeItem) :
    mentions (first ++ second) = mentions first ++ mentions second :=
  filterMap_append

theorem blocksOfAll_append (parent next : ScopeId) (first second : List ScopeItem) :
    blocksOfAll parent next (first ++ second) =
      blocksOfAll parent next first ++
        blocksOfAll parent (next + scopeCountOfAll first) second := by
  induction first generalizing next with
  | nil => rfl
  | cons _ _ ih =>
    rw [cons_append, blocksOfAll, blocksOfAll, scopeCountOfAll, ih, append_assoc, Nat.add_assoc]

mutual

theorem length_blocks : ∀ (item : ScopeItem) (parent next : ScopeId),
    (item.blocks parent next).length = item.scopeCount
  | mention _, _, _ => rfl
  | opens _ items, _, next => by
    rw [blocks, scopeCount, length_cons, length_blocksOfAll items next (next + 1)]

theorem length_blocksOfAll : ∀ (items : List ScopeItem) (parent next : ScopeId),
    (blocksOfAll parent next items).length = scopeCountOfAll items
  | [], _, _ => rfl
  | item :: rest, _, _ => by
    rw [blocksOfAll, scopeCountOfAll, length_append, length_blocks item, length_blocksOfAll rest]

end

mutual

def placed (scope next : ScopeId) : ScopeItem → List (ScopeId × Mention)
  | mention said => [(scope, said)]
  | opens _ items => placedOfAll next (next + 1) items

def placedOfAll (scope next : ScopeId) : List ScopeItem → List (ScopeId × Mention)
  | [] => []
  | item :: rest => item.placed scope next ++ placedOfAll scope (next + item.scopeCount) rest

end

theorem placedOfAll_append (scope next : ScopeId) (first second : List ScopeItem) :
    placedOfAll scope next (first ++ second) =
      placedOfAll scope next first ++
        placedOfAll scope (next + scopeCountOfAll first) second := by
  induction first generalizing next with
  | nil => rfl
  | cons _ _ ih =>
    rw [cons_append, placedOfAll, placedOfAll, scopeCountOfAll, ih, append_assoc, Nat.add_assoc]

theorem mentioning_eq (scope next : ScopeId) (said : List Mention) :
    placedOfAll scope next (said.map mention) = said.map (scope, ·) ∧
      blocksOfAll scope next (said.map mention) = [] := by
  induction said with
  | nil => exact ⟨rfl, rfl⟩
  | cons _ _ ih =>
    rw [map_cons, placedOfAll, blocksOfAll, scopeCount, Nat.add_zero, ih.1, ih.2]
    exact ⟨rfl, rfl⟩

theorem mem_mentions_cons {item : ScopeItem} {rest : List ScopeItem} {said : Mention} :
    said ∈ mentions (item :: rest) ↔ item.mention? = some said ∨ said ∈ mentions rest := by
  simp only [mentions, mem_filterMap, exists_mem_cons_iff]

mutual

theorem mem_placed_iff : ∀ (item : ScopeItem) (scope next : ScopeId) {place : ScopeId}
    {said : Mention}, (place, said) ∈ item.placed scope next ↔
      (place = scope ∧ item.mention? = some said) ∨
        ∃ block, (block, place) ∈ (item.blocks scope next).zipIdx next ∧ said ∈ block.mentions
  | mention _, _, _, _, _ => by
    simp [placed, blocks, mention?, eq_comm]
  | opens _ items, _, next, _, _ => by
    rw [placed, mem_placedOfAll_iff items next (next + 1), blocks, zipIdx_cons]
    simp [mention?, or_and_right, exists_or]

theorem mem_placedOfAll_iff : ∀ (items : List ScopeItem) (scope next : ScopeId) {place : ScopeId}
    {said : Mention}, (place, said) ∈ placedOfAll scope next items ↔
      (place = scope ∧ said ∈ mentions items) ∨
        ∃ block, (block, place) ∈ (blocksOfAll scope next items).zipIdx next ∧
          said ∈ block.mentions
  | [], _, _, _, _ => by
    simp [placedOfAll, blocksOfAll, mentions]
  | item :: rest, scope, next, _, _ => by
    rw [placedOfAll, blocksOfAll, mem_append, mem_placed_iff item scope next,
      mem_placedOfAll_iff rest scope (next + item.scopeCount), zipIdx_append,
      length_blocks item]
    simp only [mem_append, or_and_right, exists_or, mem_mentions_cons, and_or_left]
    exact or_or_or_comm

end

/-- In an expression, lambdas and comprehensions open scopes and nothing else does. -/
inductive InExpr : ScopeItem → Prop
  | binds (name : Identifier) : InExpr (mention (.binds name))
  | assigns (target : Identifier) : InExpr (mention (.assigns target))
  | reads (name : Identifier) : InExpr (mention (.reads name))
  | opens {kind : ScopeKind} {items : List ScopeItem}
      (isInner : kind = .lambda ∨ kind = .comprehension)
      (inside : ∀ item ∈ items, InExpr item) : InExpr (opens kind items)

def AllInExpr (items : List ScopeItem) : Prop :=
  ∀ item ∈ items, InExpr item

theorem allInExpr_nil : AllInExpr [] :=
  nofun

theorem allInExpr_binding (names : List Identifier) : AllInExpr (binding names) := by
  intro item isIn
  obtain ⟨name, _, rfl⟩ := mem_map.mp isIn
  exact .binds name

theorem InExpr.single {item : ScopeItem} (inExpr : item.InExpr) : AllInExpr [item] :=
  fun _ isIn => mem_singleton.mp isIn ▸ inExpr

theorem AllInExpr.append {first second : List ScopeItem} (left : AllInExpr first)
    (right : AllInExpr second) : AllInExpr (first ++ second) := by
  intro item isIn
  rcases mem_append.mp isIn with isIn | isIn
  · exact left item isIn
  · exact right item isIn

end ScopeItem

open ScopeItem

theorem Parameter.boundItems_inExpr (parameters : List Parameter) :
    AllInExpr (Parameter.boundItems parameters) := by
  intro item isIn
  obtain ⟨parameter, _, isIn⟩ := mem_flatMap.mp isIn
  exact allInExpr_binding _ item isIn

mutual

theorem Expr.items_inExpr : ∀ (expr : Expr) (use : TargetUse), AllInExpr (expr.items use)
  | .name identifier, .read => (InExpr.reads identifier).single
  | .name identifier, .target => (InExpr.binds identifier).single
  | .member _ value _, _ | .await _ value, _ | .unary _ _ value, _ =>
    Expr.items_inExpr value .read
  | .subscript _ value slice, _ =>
    (Expr.items_inExpr value .read).append (Expr.itemsOfAll_inExpr slice .read)
  | .call _ func arguments, _ =>
    (Expr.items_inExpr func .read).append (Argument.items_inExpr arguments)
  | .slice _ parts, _ | .literal _ _ _ parts, _ | .collection _ .set parts, _
  | .compare _ parts _, _ | .invalid _ parts, _ =>
    Expr.itemsOfAll_inExpr parts .read
  | .collection _ .tuple elements, use | .collection _ .list elements, use =>
    Expr.itemsOfAll_inExpr elements use
  | .dict _ entries, _ => DictItem.items_inExpr entries
  | .comprehension _ _ element value generators, _ => by
    rw [Expr.items]
    split
    · exact allInExpr_nil
    · have inside := (Generator.items_inExpr true generators).append
        ((Expr.items_inExpr element .read).append (Expr.itemsOfOption_inExpr value))
      exact (Generator.firstItems_inExpr generators).append (InExpr.opens (.inr rfl) inside).single
  | .lambda _ parameters body, _ =>
    (Parameter.defaultItems_inExpr parameters).append (InExpr.opens (.inl rfl)
      ((Parameter.boundItems_inExpr parameters).append (Expr.items_inExpr body .read))).single
  | .conditional _ test body orelse, _ =>
    ((Expr.items_inExpr test .read).append (Expr.items_inExpr body .read)).append
      (Expr.items_inExpr orelse .read)
  | .binary _ _ left _ right, _ =>
    (Expr.items_inExpr left .read).append (Expr.items_inExpr right .read)
  | .named _ target value, _ =>
    (Expr.items_inExpr value .read).append (InExpr.assigns target).single
  | .starred _ value _, use => Expr.items_inExpr value use
  | .yield _ value _, _ => Expr.itemsOfOption_inExpr value

theorem Expr.itemsOfAll_inExpr : ∀ (exprs : List Expr) (use : TargetUse),
    AllInExpr (Expr.itemsOfAll exprs use)
  | [], _ => allInExpr_nil
  | expr :: rest, use => (Expr.items_inExpr expr use).append (Expr.itemsOfAll_inExpr rest use)

theorem Expr.itemsOfOption_inExpr : ∀ expr : Option Expr, AllInExpr (Expr.itemsOfOption expr)
  | none => allInExpr_nil
  | some expr => Expr.items_inExpr expr .read

theorem Argument.items_inExpr : ∀ arguments : List Argument, AllInExpr (Argument.items arguments)
  | [] => allInExpr_nil
  | ⟨_, value⟩ :: rest => (Expr.items_inExpr value .read).append (Argument.items_inExpr rest)

theorem DictItem.items_inExpr : ∀ entries : List DictItem, AllInExpr (DictItem.items entries)
  | [] => allInExpr_nil
  | ⟨key, value⟩ :: rest =>
    ((Expr.itemsOfOption_inExpr key).append (Expr.items_inExpr value .read)).append
      (DictItem.items_inExpr rest)

theorem Generator.firstItems_inExpr : ∀ generators : List Generator,
    AllInExpr (Generator.firstItems generators)
  | [] => allInExpr_nil
  | ⟨_, _, iter, _, _⟩ :: _ => Expr.items_inExpr iter .read

theorem Generator.items_inExpr : ∀ (isFirst : Bool) (generators : List Generator),
    AllInExpr (Generator.items isFirst generators)
  | _, [] => allInExpr_nil
  | isFirst, ⟨_, target, iter, conditions, _⟩ :: rest => by
    have source : AllInExpr (if isFirst then [] else iter.items .read) := by
      split
      · exact allInExpr_nil
      · exact Expr.items_inExpr iter .read
    exact ((source.append (Expr.items_inExpr target .target)).append
      (Expr.itemsOfAll_inExpr conditions .read)).append (Generator.items_inExpr false rest)

theorem Parameter.defaultItems_inExpr : ∀ parameters : List Parameter,
    AllInExpr (Parameter.defaultItems parameters)
  | [] => allInExpr_nil
  | ⟨_, _, _, default, _, _, _⟩ :: rest =>
    (Expr.itemsOfOption_inExpr default).append (Parameter.defaultItems_inExpr rest)

end

theorem Parameter.headItems_inExpr (parameters : List Parameter) :
    AllInExpr (Parameter.headItems parameters) := by
  intro item isIn
  obtain ⟨parameter, _, isIn⟩ := mem_flatMap.mp isIn
  exact ((Expr.itemsOfOption_inExpr parameter.hint).append
    (Expr.itemsOfOption_inExpr parameter.default)) item isIn

mutual

theorem Pattern.items_inExpr : ∀ pattern : Pattern, AllInExpr pattern.items
  | .capture identifier => (InExpr.binds identifier).single
  | .wildcard _ => allInExpr_nil
  | .value expr => expr.items_inExpr .read
  | .group patterns => Pattern.itemsOfAll_inExpr patterns
  | .ofClass subject arguments =>
    (subject.items_inExpr .read).append (Pattern.itemsOfAll_inExpr arguments)

theorem Pattern.itemsOfAll_inExpr : ∀ patterns : List Pattern,
    AllInExpr (Pattern.itemsOfAll patterns)
  | [] => allInExpr_nil
  | pattern :: rest => (Pattern.items_inExpr pattern).append (Pattern.itemsOfAll_inExpr rest)

end

theorem WithItem.items_inExpr (managers : List WithItem) : AllInExpr (WithItem.items managers) := by
  intro item isIn
  obtain ⟨manager, _, isIn⟩ := mem_flatMap.mp isIn
  rcases mem_append.mp isIn with isIn | isIn
  · exact manager.context.items_inExpr .read item isIn
  · cases isTarget : manager.target with
    | none =>
      rw [isTarget] at isIn
      cases isIn
    | some target =>
      rw [isTarget] at isIn
      exact target.items_inExpr .target item isIn

theorem FunctionHead.items_inExpr (head : FunctionHead) : AllInExpr head.items :=
  (((Expr.itemsOfAll_inExpr head.decorators .read).append
    (Parameter.headItems_inExpr head.parameters)).append
    (Expr.itemsOfOption_inExpr head.returns)).append (allInExpr_binding [head.name])

theorem ClassHead.items_inExpr (head : ClassHead) : AllInExpr head.items :=
  ((Expr.itemsOfAll_inExpr head.decorators .read).append
    (Argument.items_inExpr head.arguments)).append (allInExpr_binding [head.name])

theorem HandlerHead.items_inExpr (head : HandlerHead) : AllInExpr head.items :=
  (Expr.itemsOfOption_inExpr head.kind).append (allInExpr_binding _)

theorem CaseHead.items_inExpr (head : CaseHead) : AllInExpr head.items :=
  head.pattern.items_inExpr.append (Expr.itemsOfOption_inExpr head.guard)

end PyStatic
