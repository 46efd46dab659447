import PyStatic.Proofs.Syntax.Links
import PyStatic.Syntax.Reading.Module
import Mathlib.Data.List.Perm.Subperm

/-!
Contract: reading an expression or a pattern gives every identity to one node at most, and puts
every node inside the one around it.

An action may take an identity and drop the node it was meant for, and it may pass on nodes that
were read before it. So what is kept is an inequality. Ranges are only spoken of when the concrete
tree is `tidy`: its ranges nest and its children stand in source order.
-/

namespace PyStatic

open List TextRange

/-- No identity is carried more often than in another list. -/
structure Within (tidy : Prop) (links held : List Link) : Prop where
  count_le : ∀ node, (links.map Link.id).count node ≤ (held.map Link.id).count node
  nests : tidy → (∀ link ∈ held, link.Nests) → ∀ link ∈ links, link.Nests

section Within

variable {tidy : Prop} {links held : List Link}

theorem Within.of_count_le (bound : ∀ link, links.count link ≤ held.count link) :
    Within tidy links held := by
  obtain ⟨sorted, perm, sublist⟩ := subperm_ext_iff.mpr fun link _ => bound link
  refine ⟨fun node => ?_, fun _ nests link isIn => nests link ?_⟩
  · rw [← (perm.map Link.id).count_eq]
    exact (sublist.map Link.id).count_le node
  · exact sublist.subset (perm.mem_iff.mpr isIn)

theorem Within.refl (links : List Link) : Within tidy links links :=
  .of_count_le fun _ => Nat.le_refl _

theorem nil_within (held : List Link) : Within tidy [] held :=
  .of_count_le fun _ => Nat.zero_le _

end Within

def drawn (start stop node : Nat) : Nat :=
  if start ≤ node ∧ node < stop then 1 else 0

theorem drawn_add {start middle stop : Nat} (first : start ≤ middle) (second : middle ≤ stop)
    (node : Nat) : drawn start middle node + drawn middle stop node = drawn start stop node := by
  unfold drawn
  split <;> split <;> split <;> omega

theorem count_singleton_eq_drawn (start node : Nat) :
    [start].count node = drawn start (start + 1) node := by
  by_cases same : start = node
  · simp [drawn, same]
  · rw [count_singleton, if_neg (by simpa using same), drawn, if_neg (by omega)]

/-- An identity occurs at most as often as it is held before, or once more if it is taken. -/
def Draws {α : Type} (tidy : Prop) (held : List Link) (action : Numbered α)
    (links : α → List Link) : Prop :=
  ∀ start, start ≤ (action start).2 ∧
    (∀ node, ((links (action start).1).map Link.id).count node ≤
      (held.map Link.id).count node + drawn start (action start).2 node) ∧
    (tidy → (∀ link ∈ held, link.Nests) → ∀ link ∈ links (action start).1, link.Nests)

namespace Draws

variable {α β : Type} {tidy : Prop} {held : List Link} {links : α → List Link}
  {others : β → List Link} {action : Numbered α} {rest : α → Numbered β} {all : List α → List Link}

theorem of_within {value : α} (within : Within tidy (links value) held) :
    Draws tidy held (pure value) links :=
  fun start => ⟨Nat.le_refl start, fun node => Nat.le_add_right_of_le (within.count_le node),
    within.nests⟩

theorem value {value : α} (isHeld : links value = held) : Draws tidy held (pure value) links :=
  of_within (isHeld ▸ .refl _)

theorem weaken {more : List Link} (draws : Draws tidy held action links)
    (within : Within tidy held more) : Draws tidy more action links := by
  intro start
  obtain ⟨isLe, bound, nests⟩ := draws start
  refine ⟨isLe, fun node => ?_, fun isTidy nest => nests isTidy (within.nests isTidy nest)⟩
  exact Nat.le_trans (bound node) (Nat.add_le_add_right (within.count_le node) _)

theorem bind {taken : List Link} (first : Draws tidy taken action links)
    (second : ∀ value, Draws tidy (held ++ links value) (rest value) others) :
    Draws tidy (held ++ taken) (action >>= rest) others := by
  intro start
  obtain ⟨firstLe, firstBound, firstNests⟩ := first start
  obtain ⟨secondLe, secondBound, secondNests⟩ := second (action start).1 (action start).2
  refine ⟨Nat.le_trans firstLe secondLe, fun node => ?_, fun isTidy nest => ?_⟩
  · have bound := firstBound node
    have boundAfter := secondBound node
    have total := drawn_add firstLe secondLe node
    rw [map_append, count_append] at boundAfter ⊢
    refine Nat.le_trans boundAfter ?_
    show _ ≤ _ + drawn start (rest (action start).1 (action start).2).2 node
    omega
  · rw [forall_mem_append] at nest
    exact secondNests isTidy (forall_mem_append.mpr ⟨nest.1, firstNests isTidy nest.2⟩)

theorem andThen (first : Draws tidy [] action links)
    (second : ∀ value, Draws tidy (held ++ links value) (rest value) others) :
    Draws tidy held (action >>= rest) others :=
  (bind first second).weaken (by rw [append_nil]; exact .refl _)

theorem marked {range above : TextRange} {rest : Mark → Numbered β}
    (isWithin : tidy → range.within above = true)
    (second : ∀ id, Draws tidy (held ++ [⟨above, id, range⟩]) (rest ⟨id, range⟩) others) :
    Draws tidy held (Numbered.freshMark range >>= rest) others := by
  intro start
  obtain ⟨isLe, bound, nests⟩ := second start (start + 1)
  refine ⟨Nat.le_of_succ_le isLe, fun node => ?_, fun isTidy nest => ?_⟩
  · refine Nat.le_trans (bound node) ?_
    rw [map_append, count_append, map_singleton, Link.id_mk,
      count_singleton_eq_drawn, Nat.add_assoc, drawn_add (Nat.le_succ start) isLe]
    exact Nat.le_refl _
  · refine nests isTidy (forall_mem_append.mpr ⟨nest, ?_⟩)
    exact forall_mem_singleton.mpr (isWithin isTidy)

theorem map {wrap : α → β} (draws : Draws tidy held action links)
    (same : ∀ value, others (wrap value) = links value) :
    Draws tidy held (wrap <$> action) others := by
  intro start
  obtain ⟨isLe, bound, nests⟩ := draws start
  rw [← same] at bound nests
  exact ⟨isLe, bound, nests⟩

theorem onSome {γ : Type} {action : γ → Numbered α} {all : Option α → List Link}
    {value : Option γ} (each : ∀ found, value = some found → Draws tidy [] (action found) links)
    (isNone : all none = []) (isSome : ∀ result, all (some result) = links result) :
    Draws tidy [] (Numbered.onSome action value) all := by
  cases value with
  | none => exact .value isNone
  | some found =>
    exact (each found rfl).andThen fun result => .value (isSome result)

theorem mapM {γ : Type} {action : γ → Numbered α} {values : List γ}
    (each : ∀ value ∈ values, Draws tidy [] (action value) links) (isNil : all [] = [])
    (isCons : ∀ result results, all (result :: results) = links result ++ all results) :
    Draws tidy [] (values.mapM action) all := by
  induction values with
  | nil =>
    exact .value isNil
  | cons _ _ ih =>
    rw [forall_mem_cons] at each
    rw [mapM_cons]
    exact each.1.andThen fun result =>
      (ih each.2).andThen fun results => .value (isCons result results)

theorem mapEach {γ : Type} {action : γ → Numbered α} {values : List γ}
    (each : ∀ value ∈ values, Draws tidy [] (action value) fun result => all [result])
    (additive : Additive all) : Draws tidy [] (values.mapM action) all :=
  .mapM each additive.nil additive.cons

end Draws

def Reading.Before (first second : Reading) : Prop :=
  first.range.start ≤ second.range.start ∧ first.range.stop ≤ second.range.stop

structure Reading.Meant (tidy : Prop) (above : TextRange) (reading : Reading) : Prop where
  expr : Draws tidy [] reading.expr (Expr.links above)
  statements : Draws tidy [] reading.statements (Stmt.linksOfAll above)
  pattern : Draws tidy [] reading.pattern (Pattern.links above)
  target : Draws tidy [] reading.target (ParameterTarget.links above)
  assignment : ∀ outer mark targets, mark.range = above →
    Draws tidy ([⟨outer, mark⟩] ++ Expr.linksOfAll mark.range targets)
      (reading.assignment mark targets) (Stmt.links outer)

inductive Reading.Sound (tidy : Prop) : TextRange → Reading → Prop
  | intro {above : TextRange} {reading : Reading}
      (isWithin : tidy → reading.range.within above = true)
      (isProper : tidy → reading.range.start ≤ reading.range.stop)
      (isSorted : tidy → reading.children.Pairwise Reading.Before)
      (children : ∀ child ∈ reading.children, Sound tidy reading.range child)
      (meant : ∀ outer, (tidy → reading.range.within outer = true) → reading.Meant tidy outer) :
      Sound tidy above reading

structure Shape.Sound (tidy : Prop) (above : TextRange) (shape : Shape) : Prop where
  isWithin : tidy → shape.range.within above = true
  isProper : tidy → shape.range.start ≤ shape.range.stop
  isSorted : tidy → shape.children.Pairwise Reading.Before
  children : ∀ child ∈ shape.children, child.Sound tidy shape.range

theorem Shape.Sound.identifier {tidy : Prop} {above : TextRange} {shape : Shape}
    (sound : shape.Sound tidy above) :
    Draws tidy [] shape.identifier fun identifier => [identifier.link above] :=
  .marked sound.isWithin fun _ => .value rfl

namespace Reading.Sound

variable {tidy : Prop} {above : TextRange} {reading : Reading}

theorem shape (sound : reading.Sound tidy above) : reading.shape.Sound tidy above := by
  cases sound with
  | intro isWithin isProper isSorted children => exact ⟨isWithin, isProper, isSorted, children⟩

theorem inRange (sound : reading.Sound tidy above) {outer : TextRange}
    (isWithin : tidy → reading.range.within outer = true) : reading.Sound tidy outer := by
  cases sound with
  | intro _ isProper isSorted children meant =>
    exact .intro isWithin isProper isSorted children meant

theorem meant (sound : reading.Sound tidy above) : reading.Meant tidy above := by
  cases sound with
  | intro isWithin _ _ _ meant => exact meant above isWithin

theorem expr (sound : reading.Sound tidy above) : Draws tidy [] reading.expr (Expr.links above) :=
  sound.meant.expr

theorem pattern (sound : reading.Sound tidy above) :
    Draws tidy [] reading.pattern (Pattern.links above) :=
  sound.meant.pattern

end Reading.Sound

section Children

variable {tidy : Prop} {above : TextRange} {readings : List Reading} {reading : Option Reading}

theorem Reading.sound_orElse {first second : Option Reading}
    (firstSound : ∀ found, first = some found → found.Sound tidy above)
    (secondSound : ∀ found, second = some found → found.Sound tidy above) :
    ∀ found, (first <|> second) = some found → found.Sound tidy above := by
  cases first with
  | none => exact secondSound
  | some => exact firstSound

theorem draws_exprs (sound : ∀ reading ∈ readings, reading.Sound tidy above) :
    Draws tidy [] (readings.mapM (·.expr)) (Expr.linksOfAll above) :=
  .mapM (fun reading isIn => (sound reading isIn).expr) rfl fun _ _ => rfl

theorem draws_patterns (sound : ∀ reading ∈ readings, reading.Sound tidy above) :
    Draws tidy [] (readings.mapM (·.pattern)) (Pattern.linksOfAll above) :=
  .mapM (fun reading isIn => (sound reading isIn).pattern) rfl fun _ _ => rfl

theorem draws_identifiers (sound : ∀ reading ∈ readings, reading.Sound tidy above) :
    Draws tidy [] (readings.mapM (·.shape.identifier)) fun names => names.map (·.link above) :=
  .mapM (fun reading isIn => (sound reading isIn).shape.identifier) rfl fun _ _ => rfl

theorem draws_optionalExpr (sound : ∀ found, reading = some found → found.Sound tidy above) :
    Draws tidy [] (Numbered.onSome (·.expr) reading) (Expr.linksOfOption above) :=
  .onSome (fun found isFound => (sound found isFound).expr) rfl fun _ => rfl

theorem draws_optionalIdentifier (sound : ∀ found, reading = some found → found.Sound tidy above) :
    Draws tidy [] (Numbered.onSome (·.shape.identifier) reading)
      fun identifier => identifier.toList.map (·.link above) :=
  .onSome (fun found isFound => (sound found isFound).shape.identifier) rfl fun _ => rfl

namespace Shape.Sound

variable {shape : Shape} (sound : shape.Sound tidy above)

include sound

theorem inside : shape.Sound tidy shape.range :=
  { sound with isWithin := fun _ => shape.range.within_refl }

theorem marked {β : Type} {held : List Link} {rest : Mark → Numbered β} {others : β → List Link}
    (second : ∀ id, shape.Sound tidy shape.range →
      Draws tidy (held ++ [⟨above, id, shape.range⟩]) (rest ⟨id, shape.range⟩) others) :
    Draws tidy held (Numbered.freshMark shape.range >>= rest) others :=
  .marked sound.isWithin fun id => second id sound.inside

theorem child {reading : Reading} (isChild : reading ∈ shape.children) :
    reading.Sound tidy above := by
  have childSound := sound.children reading isChild
  exact childSound.inRange fun isTidy =>
    within_trans (childSound.shape.isWithin isTidy) (sound.isWithin isTidy)

theorem named : ∀ child ∈ shape.named, child.Sound tidy above :=
  fun _ isNamed => sound.child (mem_filter.mp isNamed).1

theorem labelled (label : String) : ∀ child ∈ shape.labelled label, child.Sound tidy above :=
  fun _ isLabelled => sound.child (mem_filter.mp isLabelled).1

theorem labelled? (label : String) :
    ∀ child, shape.labelled? label = some child → child.Sound tidy above :=
  fun _ isFound => sound.child (mem_of_find?_eq_some isFound)

theorem firstNamed? : ∀ child, shape.firstNamed? = some child → child.Sound tidy above :=
  fun _ isFound => sound.child (mem_of_find?_eq_some isFound)

theorem findNamed? (asked : Reading → Bool) :
    ∀ child, shape.named.find? asked = some child → child.Sound tidy above :=
  fun child isFound => sound.named child (mem_of_find?_eq_some isFound)

theorem filterNamed (asked : Reading → Bool) :
    ∀ child ∈ shape.named.filter asked, child.Sound tidy above :=
  fun child isIn => sound.named child (mem_filter.mp isIn).1

theorem labelledIdentifier (label : String) :
    Draws tidy [] (shape.labelledIdentifier label) fun identifier => [identifier.link above] := by
  unfold Shape.labelledIdentifier
  split
  next child isFound => exact (sound.labelled? label child isFound).shape.identifier
  · refine .marked (fun isTidy => ?_) fun _ => .value rfl
    have isWithin := sound.isWithin isTidy
    have isProper := sound.isProper isTidy
    rw [within_iff] at isWithin ⊢
    exact ⟨isWithin.1, Nat.le_trans isProper isWithin.2⟩

theorem unreadable : Draws tidy [] shape.unreadable (Expr.links above) :=
  sound.marked fun _ _ => .value rfl

theorem literal (kind : LiteralKind) : Draws tidy [] (shape.literal kind) (Expr.links above) :=
  sound.marked fun _ _ => .value rfl

theorem labelledExpr (label : String) :
    Draws tidy [] (shape.labelledExpr label) (Expr.links above) := by
  unfold Shape.labelledExpr
  split
  next child isFound => exact (sound.labelled? label child isFound).expr
  · exact sound.unreadable

theorem firstNamedExpr : Draws tidy [] shape.firstNamedExpr (Expr.links above) := by
  unfold Shape.firstNamedExpr
  split
  next child isFound => exact (sound.firstNamed? child isFound).expr
  · exact sound.unreadable

theorem namedExprs : Draws tidy [] shape.namedExprs (Expr.linksOfAll above) :=
  draws_exprs sound.named

end Shape.Sound

theorem Reading.sound_aliasTarget?
    (sound : ∀ found, reading = some found → found.Sound tidy above) :
    ∀ found, reading.bind Reading.aliasTarget? = some found → found.Sound tidy above := by
  intro found isFound
  obtain ⟨wrapper, isWrapper, isTarget⟩ := Option.bind_eq_some_iff.mp isFound
  unfold Reading.aliasTarget? at isTarget
  split at isTarget
  · exact (sound wrapper isWrapper).shape.firstNamed? found isTarget
  · cases isTarget
    exact sound _ isWrapper

theorem Shape.Sound.parameterTarget {shape : Shape} (sound : shape.Sound tidy above) :
    Draws tidy [] shape.parameterTarget (ParameterTarget.links above) := by
  have items : Draws tidy [] (shape.named.mapM (·.target))
      fun items => (ParameterTarget.namesOfAll items).map (·.link above) := by
    refine .mapM (fun child isNamed => (sound.named child isNamed).meant.target) rfl
      fun item items => ?_
    exact map_append
  have tuple : Draws tidy [] (do return .tuple (← shape.named.mapM (·.target)))
      (ParameterTarget.links above) :=
    items.andThen fun _ => .value rfl
  unfold Shape.parameterTarget
  split
  iterate 3 · exact tuple
  · split
    next inner isFirst => exact (sound.firstNamed? inner isFirst).meant.target
    · exact .value rfl
  · exact sound.identifier.andThen fun _ => .value rfl

theorem Parameter.linksOfAll_map (above : TextRange) (parameters : List Parameter) :
    Parameter.linksOfAll above (parameters.map fun parameter =>
      { parameter with positionalOnly := true }) = Parameter.linksOfAll above parameters := by
  induction parameters with
  | nil => rfl
  | cons parameter _ ih =>
    cases parameter
    exact congrArg (_ ++ ·) ih

def Parameter.linksOfOption (above : TextRange) (parameter : Option Parameter) : List Link :=
  Parameter.linksOfAll above parameter.toList

theorem draws_parameterOf {shape : Shape} (sound : shape.Sound tidy above) {binder : Reading}
    (binderSound : binder.Sound tidy shape.range) {hint default : Option Reading}
    (hintSound : ∀ found, hint = some found → found.Sound tidy shape.range)
    (defaultSound : ∀ found, default = some found → found.Sound tidy shape.range) :
    Draws tidy [] (shape.parameterOf binder hint default) (Parameter.linksOfOption above) := by
  refine sound.marked fun _ _ => ?_
  dsimp only
  split
  · exact .of_within (nil_within _)
  next inner isInner =>
    have innerSound : inner.Sound tidy shape.range := by
      split at isInner
      · exact binderSound.shape.firstNamed? inner isInner
      · exact binderSound.shape.firstNamed? inner isInner
      · cases isInner
        exact binderSound
    refine innerSound.meant.target.andThen fun target => ?_
    refine (draws_optionalExpr hintSound).andThen fun hint => ?_
    refine (draws_optionalExpr defaultSound).andThen fun default => ?_
    exact .value (append_nil _)

theorem draws_parameter? {reading : Reading} (sound : reading.Sound tidy above) :
    Draws tidy [] (reading.shape.parameter? reading) (Parameter.linksOfOption above) := by
  have inside := sound.shape.inside
  have bare : Draws tidy [] (reading.shape.parameterOf reading none none)
      (Parameter.linksOfOption above) :=
    draws_parameterOf sound.shape (sound.inRange inside.isWithin) (by rintro _ ⟨⟩)
      (by rintro _ ⟨⟩)
  have dropped : Draws tidy [] (pure none) (Parameter.linksOfOption above) := .value rfl
  unfold Shape.parameter?
  split
  iterate 5 · exact bare
  · split
    next inner isFirst =>
      exact draws_parameterOf sound.shape (inside.firstNamed? inner isFirst) (inside.labelled? _)
        (by rintro _ ⟨⟩)
    · exact dropped
  · split
    next inner isNamed =>
      exact draws_parameterOf sound.shape (inside.labelled? _ inner isNamed) (inside.labelled? _)
        (inside.labelled? _)
    · exact dropped
  · split
    next inner isNamed =>
      exact draws_parameterOf sound.shape (inside.labelled? _ inner isNamed) (inside.labelled? _)
        (inside.labelled? _)
    · exact dropped
  · exact dropped

theorem draws_parametersFrom (sound : ∀ reading ∈ readings, reading.Sound tidy above)
    (keywordOnly : Bool) (before : List Parameter) :
    Draws tidy (Parameter.linksOfAll above before)
      (Reading.parametersFrom keywordOnly before readings) (Parameter.linksOfAll above) := by
  induction readings generalizing keywordOnly before with
  | nil => exact .value rfl
  | cons _ _ ih =>
    rw [forall_mem_cons] at sound
    have continues := ih sound.2
    unfold Reading.parametersFrom
    split
    · rw [← Parameter.linksOfAll_map above before]
      exact continues keywordOnly _
    · split
      · exact continues true before
      · refine (draws_parameter? sound.1).andThen fun found => ?_
        cases found with
        | none =>
          refine (continues keywordOnly before).weaken (.of_count_le fun link => ?_)
          rw [count_append]
          exact Nat.le_add_right _ _
        | some parameter =>
          refine (continues _ _).weaken ?_
          rw [(Parameter.additive above).append]
          cases parameter
          exact .refl _

namespace Shape

theorem Sound.parameters {shape : Shape} (sound : shape.Sound tidy above) :
    Draws tidy [] shape.parameters (Parameter.linksOfAll above) := by
  unfold Shape.parameters
  split
  next list isFound =>
    exact draws_parametersFrom (sound.labelled? _ list isFound).shape.named false []
  · exact .value rfl

theorem Sound.arguments {shape : Shape} (sound : shape.Sound tidy above) :
    Draws tidy [] shape.arguments (Argument.linksOfAll above) := by
  refine .mapEach (fun child isNamed => ?_) (Argument.additive above)
  have childSound := sound.named child isNamed
  unfold argument
  split
  · exact (childSound.shape.labelledIdentifier _).andThen fun _ =>
      (childSound.shape.labelledExpr _).andThen fun _ => .value (append_nil _)
  · exact childSound.expr.andThen fun _ => .value (append_nil _)

theorem count_addCondition (above : TextRange) (condition : Expr) (clauses : List Generator)
    (link : Link) : (Generator.linksOfAll above (addCondition condition clauses)).count link ≤
      (Generator.linksOfAll above clauses ++ condition.links above).count link := by
  fun_induction addCondition condition clauses with
  | case1 => exact Nat.zero_le _
  | case2 last =>
    cases last
    simp [Generator.linksOfAll, (Expr.additive above).append, Expr.linksOfAll]
  | case3 first rest _ ih =>
    rw [(Generator.additive above).cons, (Generator.additive above).cons first rest,
      append_assoc, count_append, count_append]
    exact Nat.add_le_add_left ih _

namespace Sound

variable {shape : Shape} (sound : shape.Sound tidy above)

include sound

theorem collection (form : CollectionShape) :
    Draws tidy [] (shape.collection form) (Expr.links above) :=
  sound.marked fun _ inside => inside.namedExprs.andThen fun _ => .value rfl

theorem invalid : Draws tidy [] shape.invalid (Expr.links above) :=
  sound.marked fun _ inside => inside.namedExprs.andThen fun _ => .value rfl

theorem parenthesized : Draws tidy [] shape.parenthesized (Expr.links above) := by
  unfold Shape.parenthesized
  split
  next inner isFirst =>
    split
    · exact sound.collection .tuple
    · exact (sound.firstNamed? inner isFirst).expr
  · exact sound.collection .tuple

theorem member : Draws tidy [] shape.member (Expr.links above) :=
  sound.marked fun _ inside => (inside.labelledExpr _).andThen fun _ =>
    (inside.labelledIdentifier _).andThen fun _ => .value rfl

theorem subscript : Draws tidy [] shape.subscript (Expr.links above) :=
  sound.marked fun _ inside => (inside.labelledExpr _).andThen fun _ =>
    (draws_exprs (inside.labelled _)).andThen fun _ => .value rfl

theorem slice : Draws tidy [] shape.slice (Expr.links above) :=
  sound.marked fun _ inside => inside.namedExprs.andThen fun _ => .value rfl

theorem call : Draws tidy [] shape.call (Expr.links above) := by
  refine sound.marked fun _ inside => (inside.labelledExpr _).andThen fun func => ?_
  split
  next list isFound =>
    have listSound := inside.labelled? _ list isFound
    split
    · refine listSound.expr.andThen fun value => ?_
      exact .value (by simp [Expr.links, Argument.linksOfAll])
    · exact listSound.shape.arguments.andThen fun _ => .value rfl
  · exact .value (append_nil _)

theorem string : Draws tidy [] shape.string (Expr.links above) := by
  have partSound : ∀ part ∈ shape.stringParts, part.Sound tidy shape.range := by
    intro part isPart
    unfold stringParts at isPart
    split at isPart
    · obtain ⟨child, isNamed, rfl⟩ := mem_map.mp isPart
      exact (sound.inside.named child isNamed).shape
    · rw [mem_singleton.mp isPart]
      exact sound.inside
  refine sound.marked fun _ _ => (draws_exprs ?_).andThen fun _ => .value rfl
  intro held isHeld
  obtain ⟨part, isPart, isHeld⟩ := mem_flatMap.mp isHeld
  obtain ⟨child, isNamed, isHeld⟩ := mem_filterMap.mp isHeld
  have childSound := (partSound part isPart).named child isNamed
  unfold interpolated? at isHeld
  split at isHeld
  · exact Reading.sound_orElse (childSound.shape.labelled? _) childSound.shape.firstNamed? held
      isHeld
  · cases isHeld

theorem dictionary : Draws tidy [] shape.dictionary (Expr.links above) := by
  refine sound.marked fun _ inside => .andThen (.mapEach ?_ (DictItem.additive _)) fun _ =>
    .value rfl
  intro child isNamed
  have childSound := inside.named child isNamed
  split
  · exact (childSound.shape.labelledExpr _).andThen fun _ =>
      (childSound.shape.labelledExpr _).andThen fun _ => .value (append_nil _)
  · have innerSound : ((if child.kind == "dictionary_splat" then child.shape.firstNamed?
        else none).getD child).Sound tidy shape.range := by
      split
      · cases found : child.shape.firstNamed? with
        | none => exact childSound
        | some inner => exact childSound.shape.firstNamed? inner found
      · exact childSound
    exact innerSound.expr.andThen fun _ => .value (append_nil _)

theorem iterable : Draws tidy [] shape.iterable (Expr.links above) := by
  have rights := sound.labelled "right"
  unfold Shape.iterable
  split
  next only isOnly =>
    rw [isOnly] at rights
    exact (rights only mem_cons_self).expr
  · exact sound.unreadable
  · exact sound.marked fun _ inside =>
      (draws_exprs (inside.labelled _)).andThen fun _ => .value rfl

end Sound

theorem draws_clausesFrom {readings : List Reading}
    (sound : ∀ reading ∈ readings, reading.Sound tidy above) (before : List Generator) :
    Draws tidy (Generator.linksOfAll above before) (clausesFrom before readings)
      (Generator.linksOfAll above) := by
  induction readings generalizing before with
  | nil => exact .value rfl
  | cons _ _ ih =>
    rw [forall_mem_cons] at sound
    have continues := ih sound.2
    unfold clausesFrom
    split
    · refine (sound.1.shape.labelledExpr _).andThen fun target => ?_
      refine sound.1.shape.iterable.andThen fun iter => (continues _).weaken ?_
      rw [(Generator.additive above).append]
      exact .of_count_le fun link => by simp [Generator.linksOfAll, Expr.linksOfAll]
    · split
      · split
        next condition isFirst =>
          refine (sound.1.shape.firstNamed? condition isFirst).expr.andThen fun condition => ?_
          exact (continues _).weaken (.of_count_le (count_addCondition above condition before))
        · exact continues before
      · exact continues before

namespace Sound

variable {shape : Shape} (sound : shape.Sound tidy above)

include sound

theorem comprehension (kind : ComprehensionKind) :
    Draws tidy [] (shape.comprehension kind) (Expr.links above) := by
  refine sound.marked fun _ inside => ?_
  have clauses := draws_clausesFrom inside.named []
  split
  next body isFound =>
    have bodySound := inside.labelled? _ body isFound
    split
    · refine (bodySound.shape.labelledExpr _).andThen fun key => ?_
      refine (bodySound.shape.labelledExpr _).andThen fun value => ?_
      exact clauses.andThen fun _ => .value (by simp [Expr.links, Expr.linksOfOption])
    · refine bodySound.expr.andThen fun element => ?_
      exact clauses.andThen fun _ => .value (by simp [Expr.links, Expr.linksOfOption])
  · refine inside.unreadable.andThen fun element => ?_
    exact clauses.andThen fun _ => .value (by simp [Expr.links, Expr.linksOfOption])

theorem lambda : Draws tidy [] shape.lambda (Expr.links above) :=
  sound.marked fun _ inside => inside.parameters.andThen fun _ =>
    (inside.labelledExpr _).andThen fun _ => .value rfl

theorem conditional : Draws tidy [] shape.conditional (Expr.links above) := by
  refine sound.marked fun _ inside => inside.namedExprs.andThen fun parts => ?_
  split
  next body test orelse =>
    refine .of_within (.of_count_le fun link => ?_)
    simp only [Expr.links, Expr.linksOfAll, count_append, count_nil]
    omega
  · exact .value rfl

theorem binary (kind : BinaryKind) : Draws tidy [] (shape.binary kind) (Expr.links above) :=
  sound.marked fun _ inside => (inside.labelledExpr _).andThen fun _ =>
    (inside.labelledExpr _).andThen fun _ => .value rfl

theorem unary : Draws tidy [] shape.unary (Expr.links above) :=
  sound.marked fun _ inside => (inside.labelledExpr _).andThen fun _ => .value rfl

theorem comparison : Draws tidy [] shape.comparison (Expr.links above) :=
  sound.marked fun _ inside => inside.namedExprs.andThen fun _ => .value rfl

theorem namedExpression : Draws tidy [] shape.namedExpression (Expr.links above) :=
  sound.marked fun _ inside => (inside.labelledIdentifier _).andThen fun _ =>
    (inside.labelledExpr _).andThen fun _ => .value rfl

theorem starred (double : Bool) : Draws tidy [] (shape.starred double) (Expr.links above) :=
  sound.marked fun _ inside => inside.firstNamedExpr.andThen fun _ => .value rfl

theorem awaited : Draws tidy [] shape.awaited (Expr.links above) :=
  sound.marked fun _ inside => inside.firstNamedExpr.andThen fun _ => .value rfl

theorem yielded : Draws tidy [] shape.yielded (Expr.links above) := by
  have given (expr : Expr) :
      Expr.linksOfOption shape.range (some expr) = expr.links shape.range := rfl
  refine sound.marked fun _ inside => ?_
  have namedSound := inside.named
  split
  · exact .value rfl
  next only isOnly =>
    rw [isOnly] at namedSound
    exact ((namedSound only mem_cons_self).expr.map given).andThen fun _ => .value rfl
  · exact ((inside.collection .tuple).map given).andThen fun _ => .value rfl

theorem genericType : Draws tidy [] shape.genericType (Expr.links above) := by
  have parameters : ∀ reading ∈ (shape.named.filter (·.kind == "type_parameter")).flatMap
      fun list => list.shape.named, reading.Sound tidy shape.range := by
    intro reading isIn
    obtain ⟨list, isList, isIn⟩ := mem_flatMap.mp isIn
    exact (sound.inside.filterNamed _ list isList).shape.named reading isIn
  refine sound.marked fun _ inside => ?_
  split
  next base isHead =>
    exact (inside.named base (mem_of_head? isHead)).expr.andThen fun _ =>
      (draws_exprs parameters).andThen fun _ => .value rfl
  · exact inside.unreadable.andThen fun _ =>
      (draws_exprs parameters).andThen fun _ => .value rfl

theorem unionType : Draws tidy [] shape.unionType (Expr.links above) := by
  refine sound.marked fun _ inside => inside.namedExprs.andThen fun parts => ?_
  split
  · exact .value (by simp [Expr.links, Expr.linksOfAll])
  · exact .value rfl

theorem memberType : Draws tidy [] shape.memberType (Expr.links above) := by
  refine sound.marked fun _ inside => ?_
  have namedSound := inside.named
  split
  next object attr isPair =>
    simp only [isPair, forall_mem_cons] at namedSound
    exact namedSound.1.expr.andThen fun _ =>
      namedSound.2.1.shape.identifier.andThen fun _ => .value rfl
  · exact inside.namedExprs.andThen fun _ => .value rfl

theorem expr : Draws tidy [] shape.expr (Expr.links above) := by
  have name : Draws tidy [] (do return .name (← shape.identifier)) (Expr.links above) :=
    sound.identifier.andThen fun _ => .value rfl
  unfold Shape.expr
  split
  · exact name
  · exact name
  · exact sound.parenthesized
  · exact sound.member
  · exact sound.subscript
  · exact sound.slice
  · exact sound.call
  · exact sound.string
  · exact sound.string
  iterate 6 · exact sound.literal _
  iterate 7 · exact sound.collection _
  · exact sound.dictionary
  iterate 4 · exact sound.comprehension _
  · exact sound.lambda
  · exact sound.conditional
  · exact sound.binary _
  · exact sound.binary _
  · exact sound.unary
  · exact sound.unary
  · exact sound.comparison
  · exact sound.namedExpression
  iterate 5 · exact sound.starred _
  · exact sound.awaited
  · exact sound.yielded
  iterate 3 · exact sound.firstNamedExpr
  · exact sound.genericType
  · exact sound.unionType
  · exact sound.memberType
  · exact sound.starred _
  · exact sound.invalid

end Sound

namespace Sound

variable {shape : Shape} (sound : shape.Sound tidy above)

include sound

theorem captureOrWildcard : Draws tidy [] shape.captureOrWildcard (Pattern.links above) := by
  unfold Shape.captureOrWildcard
  split
  · exact .value rfl
  · exact sound.identifier.andThen fun _ => .value rfl

theorem memberChain (value : Expr) {parts : List Reading}
    (isInside : ∀ part ∈ parts, part.Sound tidy shape.range)
    (isSorted : tidy → parts.Pairwise Reading.Before)
    (starts : tidy → shape.range.start ≤ value.range.start)
    (stops : tidy → ∀ part ∈ parts, value.range.stop ≤ part.range.stop) :
    Draws tidy (value.links above) (shape.memberChain value parts) (Expr.links above) := by
  induction parts generalizing value with
  | nil => exact .value rfl
  | cons part _ ih =>
    rw [forall_mem_cons] at isInside
    simp only [forall_mem_cons, pairwise_cons] at stops isSorted
    have isPart (isTidy : tidy) := (within_iff ..).mp (isInside.1.shape.isWithin isTidy)
    have isShape (isTidy : tidy) := (within_iff ..).mp (sound.isWithin isTidy)
    have attrSound : part.Sound tidy (shape.range.cover part.range) :=
      isInside.1.inRange fun isTidy =>
        (within_iff ..).mpr ⟨(isPart isTidy).1, Nat.le_refl _⟩
    have isWithin (isTidy : tidy) : (shape.range.cover part.range).within above = true :=
      (within_iff ..).mpr
        ⟨(isShape isTidy).1, Nat.le_trans (isPart isTidy).2 (isShape isTidy).2⟩
    refine .marked isWithin fun id => attrSound.shape.identifier.andThen fun attr => ?_
    refine (ih (.member ⟨id, shape.range.cover part.range⟩ value attr) isInside.2
      (fun isTidy => (isSorted isTidy).2) (fun _ => Nat.le_refl _)
      fun isTidy later isLater => ((isSorted isTidy).1 later isLater).2).weaken ?_
    -- The value stands in the new attribute now, and it reaches no further.
    obtain ⟨below, isBelow⟩ := value.links_eq_cons
    simp only [Expr.links, isBelow]
    refine ⟨fun node => ?_, fun isTidy nests => ?_⟩
    · simp only [map_append, map_cons, count_append, count_cons, Link.id_mk]
      omega
    · simp only [forall_mem_append, forall_mem_cons] at nests ⊢
      have isHeld : value.range.within (shape.range.cover part.range) = true :=
        (within_iff ..).mpr ⟨starts isTidy, (stops isTidy).1⟩
      exact ⟨⟨nests.1.2, isHeld, nests.1.1.2⟩, nests.2⟩

theorem dottedExpr : Draws tidy [] shape.dottedExpr (Expr.links above) := by
  have inside := sound.inside.named
  have isSorted (isTidy : tidy) : shape.named.Pairwise Reading.Before :=
    (sound.isSorted isTidy).filter _
  unfold Shape.dottedExpr
  split
  · exact sound.unreadable
  next first rest isNamed =>
    simp only [isNamed, forall_mem_cons, pairwise_cons] at inside isSorted
    have firstSound := sound.named first (isNamed ▸ mem_cons_self)
    rw [Shape.identifier, bind_assoc]
    refine firstSound.shape.marked fun id _ => ?_
    exact sound.memberChain (.name ⟨⟨id, _⟩, _⟩) inside.2 (fun isTidy => (isSorted isTidy).2)
      (fun isTidy => ((within_iff ..).mp (inside.1.shape.isWithin isTidy)).1)
      fun isTidy later isLater => ((isSorted isTidy).1 later isLater).2

theorem aliasCapture : Draws tidy [] shape.aliasCapture (Pattern.linksOfAll above) := by
  have bound := Reading.sound_aliasTarget? (sound.labelled? "alias")
  unfold Shape.aliasCapture
  split
  next target isTarget =>
    exact (bound target isTarget).shape.captureOrWildcard.andThen fun _ =>
      .value (append_nil _)
  · exact .value rfl

end Sound

end Shape

theorem Reading.Sound.valueExpr {reading : Reading} (sound : reading.Sound tidy above) :
    Draws tidy [] reading.valueExpr (Expr.links above) := by
  unfold Reading.valueExpr
  split
  · exact sound.shape.dottedExpr
  · exact sound.expr

namespace Shape.Sound

variable {shape : Shape} (sound : shape.Sound tidy above)

include sound

theorem tailPatterns :
    Draws tidy [] (shape.named.tail.mapM (·.pattern)) (Pattern.linksOfAll above) :=
  draws_patterns fun child isIn => sound.named child (mem_of_mem_tail isIn)

theorem groupPattern :
    Draws tidy [] (do return .group (← shape.named.mapM (·.pattern))) (Pattern.links above) :=
  (draws_patterns sound.named).andThen fun _ => .value rfl

theorem splatPattern : Draws tidy [] (match shape.firstNamed? with
    | some inner => inner.shape.captureOrWildcard
    | none => pure (.wildcard shape.range)) (Pattern.links above) := by
  split
  next inner isFirst => exact (sound.firstNamed? inner isFirst).shape.captureOrWildcard
  · exact .value rfl

theorem pattern : Draws tidy [] (shape.pattern shape.expr) (Pattern.links above) := by
  have namedSound := sound.named
  unfold Shape.pattern
  split
  · split
    next inner isFirst => exact (sound.firstNamed? inner isFirst).pattern
    · exact .value rfl
  · exact sound.captureOrWildcard
  · split
    next single isSingle =>
      rw [isSingle] at namedSound
      exact (namedSound single mem_cons_self).shape.captureOrWildcard
    · exact sound.dottedExpr.andThen fun _ => .value rfl
  · split
    next inner isFirst =>
      refine (sound.firstNamed? inner isFirst).pattern.andThen fun pattern => ?_
      exact sound.aliasCapture.andThen fun captures => .value rfl
    · rw [pure_bind]
      exact sound.aliasCapture.andThen fun captures => .value rfl
  iterate 3 · exact sound.splatPattern
  · split
    next subject isHead =>
      exact (sound.named subject (mem_of_head? isHead)).valueExpr.andThen fun _ =>
        sound.tailPatterns.andThen fun _ => .value rfl
    · exact sound.unreadable.andThen fun _ => sound.tailPatterns.andThen fun _ => .value rfl
  · exact sound.tailPatterns.andThen fun _ => .value rfl
  · refine .andThen (.mapM ?_ rfl fun _ _ => rfl) fun _ => .value rfl
    intro child isNamed
    split
    · exact (sound.named child isNamed).valueExpr.andThen fun _ => .value rfl
    · exact (sound.named child isNamed).pattern
  iterate 4 · exact sound.groupPattern
  · exact sound.expr.andThen fun _ => .value rfl

end Shape.Sound

end Children

end PyStatic
