import PyStatic.Proofs.Types.Joins

/-!
Contract: the questions about a type are answered consistently.

A union keeps one of several types that agree, and types agree if their classes have the same names.
So a union answers for the types it is made of only as far as these know the same of such classes.
-/

namespace PyStatic

open List ClassSummary

namespace ClassSummary

def outlook (summary : ClassSummary) : List String × List String × Bool :=
  (summary.ancestors, summary.members, summary.hasUnresolvedHierarchy)

variable {left right : ClassSummary}

theorem isOrExtends_congr (agree : left.outlook = right.outlook) (fqn : String) :
    left.isOrExtends fqn = right.isOrExtends fqn := by
  rw [isOrExtends, isOrExtends, (Prod.mk.inj agree).1]

theorem declaresMember_congr (agree : left.outlook = right.outlook) (name : String) :
    left.declaresMember name = right.declaresMember name := by
  rw [declaresMember, declaresMember, (Prod.mk.inj (Prod.mk.inj agree).2).1]

theorem unresolved_congr (agree : left.outlook = right.outlook) :
    left.hasUnresolvedHierarchy = right.hasUnresolvedHierarchy :=
  (Prod.mk.inj (Prod.mk.inj agree).2).2

theorem canHaveMember_congr (agree : left.outlook = right.outlook) (name : String) :
    left.canHaveMember name = right.canHaveMember name := by
  rw [canHaveMember, canHaveMember, unresolved_congr agree, declaresMember_congr agree]

theorem overlaps_comm (left right : ClassSummary) : left.overlaps right = right.overlaps left := by
  simp only [overlaps, Bool.or_assoc, Bool.or_left_comm, Bool.or_comm]

end ClassSummary

namespace DeclaredType

theorem branches_ne_nil : ∀ declared : DeclaredType, declared.branches ≠ []
  | ⟨_, _, _, []⟩ => by
    rw [branches]
    exact cons_ne_nil _ _
  | ⟨_, _, _, first :: _⟩ => by
    rw [branches]
    exact fun isNil => branches_ne_nil first (append_eq_nil_iff.mp isNil).1

theorem map_fqn_of_sameClass {left right : Option ClassSummary}
    (agree : sameClass left right = true) : left.map (·.fqn) = right.map (·.fqn) := by
  cases left <;> cases right <;> simp_all [sameClass, same_iff]

mutual

theorem branches_fqns_of_same : ∀ left right : DeclaredType, left.same right = true →
    left.branches.map (·.ofClass.map (·.fqn)) = right.branches.map (·.ofClass.map (·.fqn))
  | ⟨_, _, _, []⟩, ⟨_, _, _, []⟩, agree => by
    simp only [same, Bool.and_eq_true] at agree
    simp only [branches, map_cons, map_nil, map_fqn_of_sameClass agree.1.1.2]
  | ⟨_, _, _, []⟩, ⟨_, _, _, _ :: _⟩, agree => by
    simp [same, sameAll] at agree
  | ⟨_, _, _, _ :: _⟩, ⟨_, _, _, []⟩, agree => by
    simp [same, sameAll] at agree
  | ⟨_, _, _, first :: rest⟩, ⟨_, _, _, first₂ :: rest₂⟩, agree => by
    simp only [same, sameAll, Bool.and_eq_true] at agree
    rw [branches, branches, map_append, map_append,
      branches_fqns_of_same first first₂ agree.2.1,
      branchesOfAll_fqns_of_sameAll rest rest₂ agree.2.2]

theorem branchesOfAll_fqns_of_sameAll : ∀ left right : List DeclaredType,
    sameAll left right = true →
    (branchesOfAll left).map (·.ofClass.map (·.fqn)) =
      (branchesOfAll right).map (·.ofClass.map (·.fqn))
  | [], [], _ => rfl
  | [], _ :: _, agree => by simp [sameAll] at agree
  | _ :: _, [], agree => by simp [sameAll] at agree
  | first :: rest, first₂ :: rest₂, agree => by
    simp only [sameAll, Bool.and_eq_true] at agree
    rw [branchesOfAll, branchesOfAll, map_append, map_append,
      branches_fqns_of_same first first₂ agree.1, branchesOfAll_fqns_of_sameAll rest rest₂ agree.2]

end

end DeclaredType

namespace ValueType

variable {type member : ValueType} {ask : ValueType → Bool}

mutual

/-- A hint that names no known class gives `none`. -/
def leafClasses : ValueType → List (Option ClassSummary)
  | any => []
  | instanceOf summary => [some summary]
  | declared hinted => hinted.branches.map (·.ofClass)
  | union members => leafClassesOfAll members

def leafClassesOfAll : List ValueType → List (Option ClassSummary)
  | [] => []
  | type :: rest => leafClasses type ++ leafClassesOfAll rest

end

/-- Every class is among its own ancestors. -/
def ListsItself (type : ValueType) : Prop :=
  ∀ found ∈ type.leafClasses, ∀ summary ∈ found, summary.fqn ∈ summary.ancestors

instance : DecidablePred ListsItself :=
  fun type => inferInstanceAs
    (Decidable (∀ found ∈ type.leafClasses, ∀ summary ∈ found, summary.fqn ∈ summary.ancestors))

/-- The same is known of their classes. -/
def Agrees (left right : ValueType) : Prop :=
  left.leafClasses.map (·.map (·.outlook)) = right.leafClasses.map (·.map (·.outlook))

instance (left right : ValueType) : Decidable (left.Agrees right) :=
  inferInstanceAs (Decidable (_ = _))

theorem leafClasses_subset (isMember : member ∈ type.members) :
    member.leafClasses ⊆ type.leafClasses := by
  have ofAll : ∀ members : List ValueType, member ∈ members →
      member.leafClasses ⊆ leafClassesOfAll members := by
    intro members isIn
    induction members with
    | nil => cases isIn
    | cons _ _ ih =>
      rw [leafClassesOfAll]
      rcases mem_cons.mp isIn with rfl | isIn
      · exact subset_append_left _ _
      · exact Subset.trans (ih isIn) (subset_append_right _ _)
  cases type with
  | union members =>
    rw [leafClasses]
    exact ofAll members isMember
  | _ =>
    rw [mem_singleton.mp isMember]
    exact Subset.refl _

theorem ListsItself.of_mem (listed : type.ListsItself) (isMember : member ∈ type.members) :
    member.ListsItself :=
  fun found isIn => listed found (leafClasses_subset isMember isIn)

def ByAll (ask : ValueType → Bool) : Prop :=
  ∀ type : ValueType, ask type = type.members.all ask

def BySome (ask : ValueType → Bool) : Prop :=
  ∀ type : ValueType, ask type = type.members.any ask

section Asking

variable (ofAny : Bool) (ofClass : ClassSummary → Bool) (ofHint : DeclaredType → Bool)

theorem asksAll_byAll : ByAll (asksAll ofAny ofClass ofHint) := by
  have ofAll (members : List ValueType) : asksAllOf ofAny ofClass ofHint members =
      members.all (asksAll ofAny ofClass ofHint) := by
    induction members with
    | nil => rfl
    | cons _ _ ih => rw [asksAllOf, ih, all_cons]
  intro type
  cases type with
  | union members => exact ofAll members
  | _ => simp [members]

theorem asksSomeOf_eq_any (members : List ValueType) : asksSomeOf ofAny ofClass ofHint members =
    members.any (asksSome ofAny ofClass ofHint) := by
  induction members with
  | nil => rfl
  | cons _ _ ih => rw [asksSomeOf, ih, any_cons]

theorem asksSome_bySome : BySome (asksSome ofAny ofClass ofHint) := by
  intro type
  cases type with
  | union members => exact asksSomeOf_eq_any ofAny ofClass ofHint members
  | _ => simp [members]

end Asking

section Members

variable (name : String)

theorem canOnlyBe_byAll : ByAll (canOnlyBe name) :=
  asksAll_byAll _ _ _

theorem mustBeOrExtend_byAll : ByAll (mustBeOrExtend name) :=
  asksAll_byAll _ _ _

theorem canBeOrExtend_bySome : BySome (canBeOrExtend name) :=
  asksSome_bySome _ _ _

theorem canHaveMember_bySome : BySome (canHaveMember name) :=
  asksSome_bySome _ _ _

theorem declaresMember_bySome : BySome (declaresMember name) :=
  asksSome_bySome _ _ _

end Members

section Implications

variable {name : String}

theorem mustBeOrExtend_of_canOnlyBe (normal : type.NormalForm) (listed : type.ListsItself)
    (only : type.canOnlyBe name = true) : type.mustBeOrExtend name = true := by
  rw [canOnlyBe_byAll name type, all_eq_true] at only
  rw [mustBeOrExtend_byAll name type, all_eq_true]
  intro member isMember
  have memberOnly := only member isMember
  have memberListed := listed.of_mem isMember
  have single := normal.wellFormed.isSingle_of_mem isMember
  cases member with
  | any => cases memberOnly
  | union => cases single
  | instanceOf summary =>
    rw [canOnlyBe, asksAll, beq_iff_eq] at memberOnly
    rw [mustBeOrExtend, asksAll, isOrExtends, contains_iff_mem, ← memberOnly]
    exact memberListed (some summary) (by simp [leafClasses]) summary rfl
  | declared hinted =>
    rw [canOnlyBe, asksAll, DeclaredType.canOnlyBe, all_eq_true] at memberOnly
    obtain ⟨branch, isBranch⟩ := exists_mem_of_ne_nil _ hinted.branches_ne_nil
    obtain ⟨summary, isClass, isName⟩ := (Option.any_eq_true ..).mp (memberOnly branch isBranch)
    rw [mustBeOrExtend, asksAll, DeclaredType.mustBeOrExtend, any_eq_true]
    refine ⟨branch, isBranch, ?_⟩
    rw [isClass, Option.all_some, isOrExtends, contains_iff_mem,
      ← beq_iff_eq.mp isName]
    refine memberListed (some summary) ?_ summary rfl
    rw [leafClasses, ← isClass]
    exact mem_map_of_mem isBranch

theorem canBeOrExtend_of_mustBeOrExtend (normal : type.NormalForm)
    (must : type.mustBeOrExtend name = true) : type.canBeOrExtend name = true := by
  rw [mustBeOrExtend_byAll name type, all_eq_true] at must
  rw [canBeOrExtend_bySome name type, any_eq_true]
  -- a union has a member, and what holds of all holds of that
  obtain ⟨member, isMember⟩ := normal.wellFormed.exists_member
  have memberMust := must member isMember
  have single := normal.wellFormed.isSingle_of_mem isMember
  refine ⟨member, isMember, ?_⟩
  cases member with
  | any => rfl
  | union => cases single
  | instanceOf =>
    rw [mustBeOrExtend, asksAll] at memberMust
    rw [canBeOrExtend, asksSome, memberMust, Bool.true_or]
  | declared => rfl

theorem canHaveMember_of_declaresMember (normal : type.NormalForm)
    (declares : type.declaresMember name = true) : type.canHaveMember name = true := by
  rw [declaresMember_bySome name type, any_eq_true] at declares
  rw [canHaveMember_bySome name type, any_eq_true]
  obtain ⟨member, isMember, memberDeclares⟩ := declares
  have single := normal.wellFormed.isSingle_of_mem isMember
  refine ⟨member, isMember, ?_⟩
  cases member with
  | any => rfl
  | union => cases single
  | instanceOf =>
    rw [declaresMember, asksSome] at memberDeclares
    rw [canHaveMember, asksSome, ClassSummary.canHaveMember, memberDeclares, Bool.or_true]
  | declared => cases memberDeclares

end Implications

def meets : ValueType → ValueType → Bool
  | instanceOf left, instanceOf right => left.overlaps right
  | _, _ => true

theorem meets_comm (left right : ValueType) : left.meets right = right.meets left := by
  cases left <;> cases right <;> simp [meets, overlaps_comm]

theorem meets_of_isUncertain (left : ValueType) {right : ValueType}
    (uncertain : right.isUncertain = true) : left.meets right = true := by
  cases left <;> cases right <;> first | rfl | cases uncertain

theorem any_congr_of_mem {types : List ValueType} {ask answer : ValueType → Bool}
    (agree : ∀ type ∈ types, ask type = answer type) : types.any ask = types.any answer := by
  rw [Bool.eq_iff_iff, any_eq_true, any_eq_true]
  exact exists_congr fun type => and_congr_right fun isIn => by rw [agree type isIn]

section Identity

variable {other : ValueType} (otherNormal : other.NormalForm)

include otherNormal

theorem overlapsClass_eq_any (summary : ClassSummary) :
    other.overlapsClass summary = other.members.any fun member =>
      (instanceOf summary).meets member := by
  rw [overlapsClass, asksSome_bySome]
  apply any_congr_of_mem
  intro member isMember
  have single := otherNormal.wellFormed.isSingle_of_mem isMember
  cases member with
  | union => cases single
  | _ => rfl

theorem isIdentityComparableWith_single (single : type.isSingle = true) :
    other.isIdentityComparableWith type = other.members.any fun member => type.meets member := by
  have uncertain (type : ValueType) (meetsAll : ∀ member, type.meets member = true) :
      true = other.members.any fun member => type.meets member := by
    obtain ⟨member, isMember⟩ := otherNormal.wellFormed.exists_member
    exact (any_eq_true.mpr ⟨member, isMember, meetsAll member⟩).symm
  cases type with
  | union => cases single
  | instanceOf summary =>
    exact overlapsClass_eq_any otherNormal summary
  | any => exact uncertain any fun _ => rfl
  | declared hinted => exact uncertain (declared hinted) fun _ => rfl

theorem isIdentityComparableWith_eq_any (normal : type.NormalForm) :
    other.isIdentityComparableWith type =
      type.members.any fun left => other.members.any fun right => left.meets right := by
  cases type with
  | union members =>
    have each : members.any (asksSome true other.overlapsClass fun _ => true) =
        members.any fun left => other.members.any fun right => left.meets right := by
      refine any_congr_of_mem fun left isLeft => ?_
      have single := normal.apart.single left isLeft
      rw [← isIdentityComparableWith_single otherNormal single]
      cases left with
      | union => cases single
      | _ => rfl
    rw [isIdentityComparableWith, asksSomeOf_eq_any, each]
    cases uncertain : other.isUncertain with
    | false => rfl
    | true =>
      -- the union itself says yes then, and so does each of its members
      obtain ⟨member, isMember⟩ := normal.wellFormed.exists_member
      have isOwn : other ∈ other.members := by
        cases other <;> first | exact mem_singleton_self _ | cases uncertain
      exact (any_eq_true.mpr ⟨member, isMember, any_eq_true.mpr
        ⟨other, isOwn, meets_of_isUncertain member uncertain⟩⟩).symm
  | _ => exact (isIdentityComparableWith_single otherNormal rfl).trans (Bool.or_false _).symm

theorem isIdentityComparableWith_comm (normal : type.NormalForm) :
    other.isIdentityComparableWith type = type.isIdentityComparableWith other := by
  rw [isIdentityComparableWith_eq_any otherNormal normal,
    isIdentityComparableWith_eq_any normal otherNormal, Bool.eq_iff_iff]
  simp only [any_eq_true]
  constructor
  · rintro ⟨left, isLeft, right, isRight, meet⟩
    exact ⟨right, isRight, left, isLeft, meets_comm left right ▸ meet⟩
  · rintro ⟨right, isRight, left, isLeft, meet⟩
    exact ⟨left, isLeft, right, isRight, meets_comm right left ▸ meet⟩

theorem isIdentityComparableWith_self (listed : other.ListsItself) :
    other.isIdentityComparableWith other = true := by
  rw [isIdentityComparableWith_eq_any otherNormal otherNormal]
  obtain ⟨member, isMember⟩ := otherNormal.wellFormed.exists_member
  have meetsItself : member.meets member = true := by
    cases member with
    | instanceOf summary =>
      have isAncestor := listed.of_mem isMember (some summary) (by simp [leafClasses]) summary rfl
      simp [meets, overlaps, isOrExtends, isAncestor]
    | _ => rfl
  exact any_eq_true.mpr ⟨member, isMember, any_eq_true.mpr ⟨member, isMember, meetsItself⟩⟩

end Identity

section Unions

variable {types : List ValueType} (normal : ∀ type ∈ types, type.NormalForm)
  (known : any ∉ types) (nonempty : types ≠ [])

include normal

def Uniform (ask : ValueType → Bool) (types : List ValueType) : Prop :=
  ∀ left ∈ types, ∀ right ∈ types, left.same right = true → ask left = ask right

theorem exists_joined (uniform : Uniform ask (types.flatMap (·.members))) {member : ValueType}
    (isPart : member ∈ types.flatMap (·.members)) :
    ∃ kept ∈ joined types, ask kept = ask member := by
  obtain ⟨kept, isKept, agree⟩ := @exists_same_of_mem member [] _ isPart
    (single_of_mem_flatMap normal member isPart)
  have keptPart := (mem_of_mem_addNew isKept).resolve_left not_mem_nil
  exact ⟨kept, isKept, uniform kept keptPart member isPart agree⟩

include known nonempty

theorem ByAll.unionOf_eq_all (byAll : ByAll ask)
    (uniform : Uniform ask (types.flatMap (·.members))) : ask (unionOf types) = types.all ask := by
  rw [byAll, members_unionOf normal known nonempty, Bool.eq_iff_iff, all_eq_true, all_eq_true]
  constructor
  · intro all type isIn
    rw [byAll, all_eq_true]
    intro member isMember
    obtain ⟨kept, isKept, sameAnswer⟩ := exists_joined normal uniform
      (mem_flatMap.mpr ⟨type, isIn, isMember⟩)
    exact sameAnswer ▸ all kept isKept
  · intro all kept isKept
    have isPart := (mem_of_mem_addNew isKept).resolve_left not_mem_nil
    obtain ⟨type, isIn, isMember⟩ := mem_flatMap.mp isPart
    have answer := all type isIn
    rw [byAll, all_eq_true] at answer
    exact answer kept isMember

theorem BySome.unionOf_eq_any (bySome : BySome ask)
    (uniform : Uniform ask (types.flatMap (·.members))) : ask (unionOf types) = types.any ask := by
  rw [bySome, members_unionOf normal known nonempty, Bool.eq_iff_iff, any_eq_true, any_eq_true]
  constructor
  · rintro ⟨kept, isKept, answer⟩
    have isPart := (mem_of_mem_addNew isKept).resolve_left not_mem_nil
    obtain ⟨type, isIn, isMember⟩ := mem_flatMap.mp isPart
    exact ⟨type, isIn, (bySome type).trans (any_eq_true.mpr ⟨kept, isMember, answer⟩)⟩
  · rintro ⟨type, isIn, answer⟩
    rw [bySome, any_eq_true] at answer
    obtain ⟨member, isMember, answer⟩ := answer
    obtain ⟨kept, isKept, sameAnswer⟩ := exists_joined normal uniform
      (mem_flatMap.mpr ⟨type, isIn, isMember⟩)
    exact ⟨kept, isKept, sameAnswer.trans answer⟩

end Unions

theorem same_cases {left right : ValueType} (single : left.isSingle = true)
    (agree : left.same right = true) :
    (left = any ∧ right = any) ∨
      (∃ summary other, left = instanceOf summary ∧ right = instanceOf other ∧
        summary.same other = true) ∨
      ∃ hinted other, left = declared hinted ∧ right = declared other ∧
        hinted.same other = true := by
  cases left <;> cases right <;> simp_all [same, isSingle]

theorem outlook_of_agrees {summary other : ClassSummary}
    (agrees : (instanceOf summary).Agrees (instanceOf other)) :
    summary.outlook = other.outlook := by
  simpa [Agrees, leafClasses] using agrees

theorem any_all_congr {lefts rights : List (Option ClassSummary)} {ask : ClassSummary → Bool}
    (uniform : ∀ left right : ClassSummary, left.outlook = right.outlook → ask left = ask right)
    (agree : lefts.map (·.map (·.outlook)) = rights.map (·.map (·.outlook))) :
    (lefts.any fun left => left.all ask) = rights.any fun right => right.all ask := by
  induction lefts generalizing rights with
  | nil =>
    obtain rfl := map_eq_nil_iff.mp agree.symm
    rfl
  | cons left _ ih =>
    cases rights with
    | nil => cases agree
    | cons right =>
      obtain ⟨agreeFirst, agreeRest⟩ := List.cons.inj agree
      rw [any_cons, any_cons, ih agreeRest]
      congr 1
      cases left with
      | none => cases right <;> first | rfl | cases agreeFirst
      | some left =>
        cases right with
        | none => cases agreeFirst
        | some right => exact uniform left right (Option.some.inj agreeFirst)

section Uniform

variable {types : List ValueType} (single : ∀ type ∈ types, type.isSingle = true)

include single

theorem uniform_canOnlyBe (name : String) : Uniform (canOnlyBe name) types := by
  intro left isLeft right _ agree
  rcases same_cases (single left isLeft) agree with
    ⟨rfl, rfl⟩ | ⟨summary, other, rfl, rfl, agree⟩ | ⟨hinted, other, rfl, rfl, agree⟩
  · rfl
  · rw [canOnlyBe, asksAll, asksAll, (same_iff.mp agree).2]
  · have sameNames := DeclaredType.branches_fqns_of_same hinted other agree
    have byNames (declared : DeclaredType) : declared.canOnlyBe name =
        (declared.branches.map (·.ofClass.map (·.fqn))).all fun fqn => fqn.any (· == name) := by
      simp only [DeclaredType.canOnlyBe, all_map, Function.comp_def, Option.any_map]
    rw [canOnlyBe, asksAll, asksAll, byNames, byNames, sameNames]

variable (agreeing : ∀ left ∈ types, ∀ right ∈ types, left.same right = true → left.Agrees right)

include agreeing

theorem uniform_of_agrees {ask : ValueType → Bool}
    (byClass : ∀ summary other : ClassSummary, summary.outlook = other.outlook →
      ask (instanceOf summary) = ask (instanceOf other))
    (byHint : ∀ hinted other, (declared hinted).Agrees (declared other) →
      ask (declared hinted) = ask (declared other)) : Uniform ask types := by
  intro left isLeft right isRight agree
  have agrees := agreeing left isLeft right isRight agree
  rcases same_cases (single left isLeft) agree with
    ⟨rfl, rfl⟩ | ⟨summary, other, rfl, rfl, _⟩ | ⟨hinted, other, rfl, rfl, _⟩
  · rfl
  · exact byClass summary other (outlook_of_agrees agrees)
  · exact byHint hinted other agrees

theorem uniform_mustBeOrExtend (name : String) : Uniform (mustBeOrExtend name) types := by
  refine uniform_of_agrees single agreeing (fun summary other outlook => ?_)
    (fun hinted other agrees => ?_)
  · exact isOrExtends_congr outlook name
  · have answers := any_all_congr
      (fun left right outlook => isOrExtends_congr outlook name) agrees
    simpa [mustBeOrExtend, asksAll, DeclaredType.mustBeOrExtend, leafClasses, Function.comp_def]
      using answers

theorem uniform_canHaveMember (name : String) : Uniform (canHaveMember name) types := by
  refine uniform_of_agrees single agreeing (fun summary other outlook => ?_)
    (fun hinted other agrees => ?_)
  · exact canHaveMember_congr outlook name
  · have answers := any_all_congr
      (fun left right outlook => canHaveMember_congr outlook name) agrees
    simpa [canHaveMember, asksSome, DeclaredType.canHaveMember, leafClasses, Function.comp_def]
      using answers

theorem uniform_canBeOrExtend (name : String) : Uniform (canBeOrExtend name) types := by
  refine uniform_of_agrees single agreeing (fun summary other outlook => ?_) fun _ _ _ => rfl
  rw [canBeOrExtend, asksSome, asksSome, isOrExtends_congr outlook, unresolved_congr outlook]

theorem uniform_declaresMember (name : String) : Uniform (declaresMember name) types :=
  uniform_of_agrees single agreeing
    (fun _ _ outlook => declaresMember_congr outlook name) fun _ _ _ => rfl

end Uniform

/-- The questions about types in normal form are answered consistently. -/
theorem questions_consistent :
    (∀ type : ValueType, type.NormalForm → type.ListsItself →
      type.isIdentityComparableWith type = true ∧ ∀ name,
        (type.canOnlyBe name = true → type.mustBeOrExtend name = true) ∧
        (type.mustBeOrExtend name = true → type.canBeOrExtend name = true) ∧
        (type.declaresMember name = true → type.canHaveMember name = true)) ∧
    (∀ left right : ValueType, left.NormalForm → right.NormalForm →
      left.isIdentityComparableWith right = right.isIdentityComparableWith left) ∧
    ∀ types : List ValueType, types ≠ [] → any ∉ types →
      (∀ type ∈ types, type.NormalForm ∧ type.ListsItself) →
      (∀ left ∈ types.flatMap (·.members), ∀ right ∈ types.flatMap (·.members),
        left.same right = true → left.Agrees right) → ∀ name,
        (unionOf types).canOnlyBe name = types.all (·.canOnlyBe name) ∧
        (unionOf types).mustBeOrExtend name = types.all (·.mustBeOrExtend name) ∧
        (unionOf types).canBeOrExtend name = types.any (·.canBeOrExtend name) ∧
        (unionOf types).canHaveMember name = types.any (·.canHaveMember name) ∧
        (unionOf types).declaresMember name = types.any (·.declaresMember name) := by
  refine ⟨?_, ?_, ?_⟩
  · intro type normal listed
    refine ⟨isIdentityComparableWith_self normal listed, fun name => ⟨?_, ?_, ?_⟩⟩
    · exact mustBeOrExtend_of_canOnlyBe normal listed
    · exact canBeOrExtend_of_mustBeOrExtend normal
    · exact canHaveMember_of_declaresMember normal
  · exact fun left right normal otherNormal => isIdentityComparableWith_comm normal otherNormal
  · intro types nonempty known wellBehaved agreeing name
    have normal : ∀ type ∈ types, type.NormalForm := fun type isIn => (wellBehaved type isIn).1
    have single := single_of_mem_flatMap normal
    refine ⟨?_, ?_, ?_, ?_, ?_⟩
    · exact (canOnlyBe_byAll name).unionOf_eq_all normal known nonempty
        (uniform_canOnlyBe single name)
    · exact (mustBeOrExtend_byAll name).unionOf_eq_all normal known nonempty
        (uniform_mustBeOrExtend single agreeing name)
    · exact (canBeOrExtend_bySome name).unionOf_eq_any normal known nonempty
        (uniform_canBeOrExtend single agreeing name)
    · exact (canHaveMember_bySome name).unionOf_eq_any normal known nonempty
        (uniform_canHaveMember single agreeing name)
    · exact (declaresMember_bySome name).unionOf_eq_any normal known nonempty
        (uniform_declaresMember single agreeing name)

def narrowing : List ValueType :=
  let hint (name : String) : DeclaredType := ⟨name, ClassSummary.builtin? name, [], []⟩
  [builtin "bool", declared ⟨"Union", none, [], [hint "int", hint "NoneType"]⟩, builtin "bool"]

theorem narrowing_consistent :
    (∀ type ∈ narrowing, type.NormalForm ∧ type.ListsItself) ∧
      (unionOf narrowing).mustBeOrExtend "int" = true ∧
      (unionOf narrowing).canOnlyBe "bool" = false ∧
      (unionOf narrowing).declaresMember "bit_length" = true ∧
      (unionOf narrowing).isIdentityComparableWith (builtin "str") = true := by
  have wellBehaved : ∀ type ∈ narrowing, type.NormalForm ∧ type.ListsItself := by decide +kernel
  have known : any ∉ narrowing := not_any_isAny_iff.mp (by decide +kernel)
  have agreeing : ∀ left ∈ narrowing.flatMap (·.members), ∀ right ∈ narrowing.flatMap (·.members),
      left.same right = true → left.Agrees right := by decide +kernel
  obtain ⟨_, comparable, unions⟩ := questions_consistent
  have answers := unions narrowing (by simp [narrowing]) known wellBehaved agreeing
  have normal := normalForm_unionOf fun type isIn => (wellBehaved type isIn).1
  refine ⟨wellBehaved, (answers "int").2.1.trans ?_, (answers "bool").1.trans ?_,
    (answers "bit_length").2.2.2.2.trans ?_, (comparable _ _ normal (by decide +kernel)).trans ?_⟩
  all_goals decide +kernel

end ValueType

end PyStatic
