import PyStatic.Proofs.Syntax.BindingNodes
import PyStatic.Proofs.Syntax.Identifiers
import PyStatic.Proofs.Syntax.Links

/-!
Contract: the lists that describe a piece of syntax agree.

All this is one relation between lists that is kept when pieces are put side by side and when a node
is put around them, so one induction over the syntax gives all of it.
-/

namespace PyStatic

open List Bindings

def Bindings.StandAt (bindings : Bindings) (ids : List NodeId) : Prop :=
  ∀ node, bindings.count node ≤ ids.count node

namespace Bindings

variable {first second : Bindings} {ids others : List NodeId}

theorem StandAt.append (left : first.StandAt ids) (right : second.StandAt others) :
    (first ++ second).StandAt (ids ++ others) := by
  intro node
  rw [count_append, List.count_append]
  exact Nat.add_le_add (left node) (right node)

theorem StandAt.after (earlier : List NodeId) (stand : first.StandAt ids) :
    first.StandAt (earlier ++ ids) := by
  intro node
  rw [List.count_append]
  exact Nat.le_trans (stand node) (Nat.le_add_left ..)

end Bindings

/-- The nodes, identities, identifiers and bindings of a piece of syntax. -/
structure Listed (above : TextRange) (links : List Link) (ids : List NodeId)
    (names : List Identifier) (bindings : Bindings) : Prop where
  map_id : links.map Link.id = ids
  within : ∀ node, (names.map (·.id)).count node ≤ ids.count node
  standAt : bindings.StandAt ids
  inside : (∀ link ∈ links, link.Nests) → ∀ name ∈ names, name.range.within above = true

namespace Listed

variable {above : TextRange} {links otherLinks : List Link} {ids otherIds : List NodeId}
  {found others : List Identifier} {bindings otherBindings : Bindings} {mark : Mark}

theorem nil : Listed above [] [] [] .empty :=
  ⟨rfl, fun _ => Nat.le_refl _, fun _ => Nat.le_refl _, nofun⟩

theorem names (found : List Identifier) :
    Listed above (found.map (·.link above)) (found.map (·.id)) found (.names found) :=
  ⟨by rw [map_map]; rfl, fun _ => Nat.le_refl _, fun node => Nat.le_of_eq (count_names node found),
    fun nests name isName => nests (name.link above) (mem_map_of_mem isName)⟩

theorem append (first : Listed above links ids found bindings)
    (second : Listed above otherLinks otherIds others otherBindings) :
    Listed above (links ++ otherLinks) (ids ++ otherIds) (found ++ others)
      (bindings ++ otherBindings) where
  map_id := by rw [map_append, first.map_id, second.map_id]
  within node := by
    rw [map_append, List.count_append, List.count_append]
    exact Nat.add_le_add (first.within node) (second.within node)
  standAt := first.standAt.append second.standAt
  inside nests := by
    rw [forall_mem_append] at nests ⊢
    exact ⟨first.inside nests.1, second.inside nests.2⟩

section Listed

variable (listed : Listed above links ids found bindings)

include listed

theorem reorder (same : others ~ found) : Listed above links ids others bindings :=
  ⟨listed.map_id, fun node => (same.map _).count_eq node ▸ listed.within node, listed.standAt,
    fun nests name isName => listed.inside nests name (same.subset isName)⟩

theorem rebind (fewer : ∀ node, otherBindings.count node ≤ bindings.count node) :
    Listed above links ids found otherBindings :=
  ⟨listed.map_id, listed.within, fun node => Nat.le_trans (fewer node) (listed.standAt node),
    listed.inside⟩

theorem unbound : Listed above links ids found .empty :=
  listed.rebind fun _ => Nat.zero_le _

theorem under {wide : TextRange} (isNode : ⟨wide, mark⟩ ∈ links) (isRange : mark.range = above) :
    Listed wide links ids found bindings :=
  { listed with inside := fun nests name isName =>
      TextRange.within_trans (listed.inside nests name isName) (isRange ▸ nests _ isNode) }

end Listed

theorem lone (around above : TextRange) (mark : Mark) :
    Listed around [⟨above, mark⟩] [mark.id] [] .empty :=
  ⟨rfl, fun _ => Nat.zero_le _, fun _ => Nat.zero_le _, nofun⟩

theorem node (below : Listed mark.range links ids found bindings) :
    Listed above ([⟨above, mark⟩] ++ links) ([mark.id] ++ ids) found bindings :=
  ((Listed.lone mark.range above mark).append below).under (mem_cons_self ..) rfl

theorem flatMap {α : Type} {links : α → List Link} {ids : α → List NodeId}
    {found bound : α → List Identifier} {items : List α}
    (each : ∀ item, Listed above (links item) (ids item) (found item) (.names (bound item))) :
    Listed above (items.flatMap links) (items.flatMap ids) (items.flatMap found)
      (.names (items.flatMap bound)) := by
  induction items with
  | nil => exact .nil
  | cons item _ ih =>
    simp only [flatMap_cons, names_append]
    exact (each item).append ih

end Listed

mutual

theorem Expr.listed (above : TextRange) : ∀ (expr : Expr) (use : TargetUse),
    Listed above (expr.links above) expr.ids expr.identifiers (expr.bindings use)
  | .name identifier, .read => (Listed.names [identifier]).unbound
  | .name identifier, .target => .names [identifier]
  | .member _ value attr, .read =>
    ((Expr.listed _ value .read).append (.names [attr])).node.rebind fun node => by
      rw [count_append]
      exact Nat.le_add_right ..
  | .member _ value attr, .target => ((Expr.listed _ value .read).append (.names [attr])).node
  | .subscript _ value slices, _ =>
    ((Expr.listed _ value .read).append (Expr.listedOfAll _ slices .read)).node
  | .slice _ parts, _ | .literal _ _ _ parts, _ | .collection _ .set parts, _
  | .compare _ parts _, _ | .invalid _ parts, _ => (Expr.listedOfAll _ parts .read).node
  | .collection _ .tuple parts, use | .collection _ .list parts, use =>
    (Expr.listedOfAll _ parts use).node
  | .call _ func arguments, _ =>
    ((Expr.listed _ func .read).append (Argument.listed _ arguments)).node
  | .dict _ items, _ => (DictItem.listed _ items).node
  | .comprehension _ _ element value generators, _ => by
    rw [Expr.identifiers, append_assoc]
    exact (((Expr.listed _ element .read).append (Expr.listedOfOption _ value)).append
      (Generator.listed _ generators)).node.reorder perm_append_comm
  | .lambda _ parameters body, _ =>
    ((Parameter.listed _ parameters).append (Expr.listed _ body .read)).node
  | .conditional _ test body orelse, _ =>
    (((Expr.listed _ test .read).append (Expr.listed _ body .read)).append
      (Expr.listed _ orelse .read)).node
  | .binary _ _ left _ right, _ =>
    ((Expr.listed _ left .read).append (Expr.listed _ right .read)).node
  | .named _ target value, _ =>
    ((Listed.names [target]).append (Expr.listed _ value .read)).node.reorder perm_append_comm
  | .starred _ value _, use => (Expr.listed _ value use).node
  | .await _ value, _ | .unary _ _ value, _ => (Expr.listed _ value .read).node
  | .yield _ value _, _ => (Expr.listedOfOption _ value).node

theorem Expr.listedOfAll (above : TextRange) : ∀ (exprs : List Expr) (use : TargetUse),
    Listed above (Expr.linksOfAll above exprs) (Expr.idsOfAll exprs) (Expr.identifiersOfAll exprs)
      (Expr.bindingsOfAll exprs use)
  | [], _ => .nil
  | expr :: rest, use => (Expr.listed above expr use).append (Expr.listedOfAll above rest use)

theorem Expr.listedOfOption (above : TextRange) : ∀ expr : Option Expr,
    Listed above (Expr.linksOfOption above expr) (Expr.idsOfOption expr)
      (Expr.identifiersOfOption expr) (Expr.bindingsOfOption expr)
  | none => .nil
  | some expr => Expr.listed above expr .read

theorem Argument.listed (above : TextRange) : ∀ arguments : List Argument,
    Listed above (Argument.linksOfAll above arguments) (Argument.idsOfAll arguments)
      (Argument.identifiers arguments) (Argument.bindings arguments)
  | [] => .nil
  | ⟨keyword, value⟩ :: rest =>
    ((Listed.names keyword.toList).unbound.append (Expr.listed above value .read)).append
      (Argument.listed above rest)

theorem DictItem.listed (above : TextRange) : ∀ items : List DictItem,
    Listed above (DictItem.linksOfAll above items) (DictItem.idsOfAll items)
      (DictItem.identifiers items) (DictItem.bindings items)
  | [] => .nil
  | ⟨key, value⟩ :: rest =>
    ((Expr.listedOfOption above key).append (Expr.listed above value .read)).append
      (DictItem.listed above rest)

theorem Generator.listed (above : TextRange) : ∀ generators : List Generator,
    Listed above (Generator.linksOfAll above generators) (Generator.idsOfAll generators)
      (Generator.identifiers generators) (Generator.bindings generators)
  | [] => .nil
  | ⟨_, target, iter, conditions, _⟩ :: rest =>
    ((((Expr.listed above target .target).append (Expr.listed above iter .read)).reorder
      perm_append_comm).append (Expr.listedOfAll above conditions .read)).append
        (Generator.listed above rest)

theorem Parameter.listed (above : TextRange) : ∀ parameters : List Parameter,
    Listed above (Parameter.linksOfAll above parameters) (Parameter.idsOfAll parameters)
      (Parameter.identifiers parameters) (Parameter.bindings parameters)
  | [] => .nil
  | ⟨_, target, hint, default, _, _, _⟩ :: rest =>
    (((Listed.names target.names).append (Expr.listedOfOption _ hint)).append
      (Expr.listedOfOption _ default)).node.append (Parameter.listed above rest)

end

mutual

theorem Pattern.listed (above : TextRange) : ∀ pattern : Pattern,
    Listed above (pattern.links above) pattern.ids pattern.identifiers pattern.bindings
  | .capture identifier => .names [identifier]
  | .wildcard _ => .nil
  | .value expr => expr.listed above .read
  | .group items => Pattern.listedOfAll above items
  | .ofClass subject arguments =>
    (subject.listed above .read).append (Pattern.listedOfAll above arguments)

theorem Pattern.listedOfAll (above : TextRange) : ∀ patterns : List Pattern,
    Listed above (Pattern.linksOfAll above patterns) (Pattern.idsOfAll patterns)
      (Pattern.identifiersOfAll patterns) (Pattern.bindingsOfAll patterns)
  | [] => .nil
  | pattern :: rest => (Pattern.listed above pattern).append (Pattern.listedOfAll above rest)

end

theorem Expr.within_of_nests {above : TextRange} (expr : Expr)
    (nests : ∀ link ∈ expr.links above, link.Nests) :
    expr.range.within above = true ∧
      ∀ name ∈ expr.identifiers, name.range.within expr.range = true := by
  obtain ⟨below, links_eq⟩ := expr.links_eq_cons
  rw [links_eq, forall_mem_cons] at nests
  refine ⟨nests.1, (expr.listed expr.range .read).inside ?_⟩
  rw [links_eq, forall_mem_cons]
  exact ⟨TextRange.within_refl _, nests.2⟩

variable (above : TextRange)

theorem Alias.listed (imported : Alias) : Listed above (imported.links above) imported.ids
    imported.identifiers (.names imported.boundName?.toList) := by
  have both : Listed imported.mark.range _ _ imported.identifiers _ :=
    (Listed.names imported.name.parts).append (.names imported.asName.toList)
  refine both.node.rebind fun node => ?_
  rw [← names_append, count_names, count_names]
  exact (imported.boundName?_sublist.map _).count_le node

theorem SimpleStmt.listed (mark : Mark) (form : SimpleStmt) :
    Listed above ([⟨above, mark⟩] ++ form.links mark.range) ([mark.id] ++ form.ids) form.identifiers
      (form.bindings mark) := by
  cases form with
  | assign targets value =>
    exact ((Expr.listedOfAll _ targets .target).append
      (value.listed _ .read)).node.reorder perm_append_comm
  | annotatedAssign target hint value =>
    refine (((target.listed _ .target).append (hint.listed _ .read)).append
      (Expr.listedOfOption _ value)).node.reorder ?_
    rw [append_assoc]
    exact perm_append_comm
  | augmentedAssign target _ value =>
    exact ((target.listed _ .target).append (value.listed _ .read)).node.reorder perm_append_comm
  | expr value => exact (value.listed _ .read).node
  | ret value => exact (Expr.listedOfOption _ value).node
  | delete targets => exact (Expr.listedOfAll _ targets .target).node
  | raise exception cause =>
    exact ((Expr.listedOfOption _ exception).append (Expr.listedOfOption _ cause)).node
  | assert test message =>
    exact ((test.listed _ .read).append (Expr.listedOfOption _ message)).node
  | globalNames names | nonlocalNames names => exact (Listed.names names).unbound.node
  | plainImport => exact (Listed.flatMap fun name => name.listed mark.range).node
  | fromImport imported =>
    have marked : Listed mark.range [⟨above, mark⟩] [mark.id] []
        ⟨if imported.isWildcard then [mark] else []⟩ := by
      refine ⟨rfl, fun _ => Nat.zero_le _, fun node => ?_, nofun⟩
      split
      · exact Nat.le_refl _
      · exact Nat.zero_le _
    have target : Listed mark.range (imported.target.toList.flatMap (·.links mark.range))
        (imported.target.toList.flatMap (·.ids)) ((imported.target.map (·.parts)).getD [])
        .empty := by
      cases imported.target with
      | none => exact .nil
      | some target =>
        rw [Option.toList_some, flatMap_singleton, flatMap_singleton]
        exact (Listed.names target.parts).unbound
    exact (marked.append (target.append (.flatMap fun name => name.listed mark.range))).under
      (mem_cons_self ..) rfl
  | _ => exact Listed.nil.node

theorem WithItem.listed (item : WithItem) : Listed above (item.links above) item.ids
    item.identifiers (item.context.bindings .read ++ Expr.targetBindings item.target) := by
  refine (item.context.listed above .read).append ?_
  cases item.target with
  | none => exact .nil
  | some target => exact target.listed above .target

theorem WithItem.listedOfAll : ∀ items : List WithItem,
    Listed above (items.flatMap (·.links above)) (items.flatMap (·.ids))
      (items.flatMap (·.identifiers)) (WithItem.bindings items)
  | [] => .nil
  | item :: rest => (item.listed above).append (WithItem.listedOfAll rest)

theorem FunctionHead.listed (head : FunctionHead) : Listed head.mark.range (head.links above)
    head.ids head.identifiers head.bindings := by
  have whole := ((((Expr.listedOfAll head.mark.range head.decorators .read).append
    (.lone _ above head.mark)).append (.names [head.name])).append
      (Parameter.listed _ head.parameters)).append (Expr.listedOfOption _ head.returns)
  rw [append_empty, append_nil] at whole
  refine whole.reorder (perm_iff_count.mpr fun name => ?_)
  simp only [FunctionHead.identifiers, List.count_append]
  omega

theorem ClassHead.listed (head : ClassHead) : Listed head.mark.range (head.links above)
    head.ids head.identifiers head.bindings := by
  have whole := (((Expr.listedOfAll head.mark.range head.decorators .read).append
    (.lone _ above head.mark)).append (.names [head.name])).append
      (Argument.listed _ head.arguments)
  rw [append_empty, append_nil] at whole
  refine whole.reorder (perm_iff_count.mpr fun name => ?_)
  simp only [ClassHead.identifiers, List.count_append]
  omega

theorem HandlerHead.listed (head : HandlerHead) : Listed head.mark.range (head.links above)
    head.ids head.identifiers head.bindings :=
  (Listed.lone _ above head.mark).append
    ((Expr.listedOfOption _ head.kind).append (.names head.name.toList))

theorem CaseHead.listed (head : CaseHead) : Listed head.mark.range (head.links above)
    head.ids head.identifiers head.bindings :=
  (Listed.lone _ above head.mark).append
    ((head.pattern.listed _).append (Expr.listedOfOption _ head.guard))

mutual

theorem Stmt.listed (above : TextRange) : ∀ stmt : Stmt,
    Listed above (stmt.links above) stmt.ids stmt.identifiers stmt.bindings
  | .simple mark form => form.listed above mark
  | .functionDef head body =>
    ((head.listed above).append (Stmt.listedOfAll _ body)).under (by simp [FunctionHead.links]) rfl
  | .classDef head body =>
    ((head.listed above).append (Stmt.listedOfAll _ body)).under (by simp [ClassHead.links]) rfl
  | .branch _ test body orelse | .whileLoop _ test body orelse =>
    (((test.listed _ .read).append (Stmt.listedOfAll _ body)).append
      (Stmt.listedOfAll _ orelse)).node
  | .forLoop _ target iter _ body orelse =>
    (((((target.listed _ .target).append (iter.listed _ .read)).reorder perm_append_comm).append
      (Stmt.listedOfAll _ body)).append (Stmt.listedOfAll _ orelse)).node
  | .tryBlock _ body handlers orelse finalbody => by
    rw [Stmt.identifiers, append_assoc, append_assoc, ← append_assoc (Handler.identifiers _)]
    exact ((Stmt.listedOfAll _ body).append (((Handler.listed _ handlers).append
      (Stmt.listedOfAll _ orelse)).append (Stmt.listedOfAll _ finalbody))).node
  | .withBlock _ items _ body =>
    ((WithItem.listedOfAll _ items).append (Stmt.listedOfAll _ body)).node
  | .matchOn _ subject cases =>
    ((subject.listed _ .read).append (MatchCase.listed _ cases)).node

theorem Stmt.listedOfAll (above : TextRange) : ∀ body : List Stmt,
    Listed above (Stmt.linksOfAll above body) (Stmt.idsOfAll body) (Stmt.identifiersOfAll body)
      (Stmt.bindingsOfAll body)
  | [] => .nil
  | stmt :: rest => (Stmt.listed above stmt).append (Stmt.listedOfAll above rest)

theorem Handler.listed (above : TextRange) : ∀ handlers : List Handler,
    Listed above (Handler.linksOfAll above handlers) (Handler.idsOfAll handlers)
      (Handler.identifiers handlers) (Handler.bindings handlers)
  | [] => .nil
  | ⟨head, body⟩ :: rest =>
    (((head.listed above).append (Stmt.listedOfAll _ body)).under (by simp [HandlerHead.links])
      rfl).append (Handler.listed above rest)

theorem MatchCase.listed (above : TextRange) : ∀ cases : List MatchCase,
    Listed above (MatchCase.linksOfAll above cases) (MatchCase.idsOfAll cases)
      (MatchCase.identifiers cases) (MatchCase.bindings cases)
  | [] => .nil
  | ⟨head, body⟩ :: rest =>
    (((head.listed above).append (Stmt.listedOfAll _ body)).under (by simp [CaseHead.links])
      rfl).append (MatchCase.listed above rest)

end

theorem Expr.bindings_standAt (expr : Expr) (use : TargetUse) :
    (expr.bindings use).StandAt expr.ids :=
  (expr.listed expr.range use).standAt

theorem Stmt.bindings_standAt (stmt : Stmt) : stmt.bindings.StandAt stmt.ids :=
  (stmt.listed stmt.range).standAt

theorem Stmt.bindingsOfAll_standAt (body : List Stmt) :
    (Stmt.bindingsOfAll body).StandAt (Stmt.idsOfAll body) :=
  (Stmt.listedOfAll ⟨0, 0⟩ body).standAt

theorem Module.distinctIds_of_nodup {module' : Module} (distinct : module'.ids.Nodup) :
    module'.DistinctIds := by
  rw [Module.DistinctIds, nodup_iff_count]
  intro node
  have once := nodup_iff_count.mp distinct node
  rw [Module.ids, List.count_append] at once
  have within := (Stmt.listedOfAll module'.mark.range module'.body).within node
  exact Nat.le_trans within (by omega)

end PyStatic
