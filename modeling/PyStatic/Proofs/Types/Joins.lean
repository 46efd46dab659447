import Mathlib.Data.List.Induction
import PyStatic.Proofs.Types.NormalForms

/-!
Contract: the union of types is a join, up to agreement.

Unions are compared by their lengths and in one direction only. That this is symmetric is a matter
of counting: members that do not agree with one another need as many partners.
-/

namespace PyStatic

open List

namespace ValueType

variable {types others members : List ValueType} {type : ValueType}

/-- Types that are no unions and of which no two agree. -/
structure Apart (types : List ValueType) : Prop where
  single : ∀ type ∈ types, type.isSingle = true
  differ : types.Pairwise fun earlier later => earlier.same later = false

def Within (types others : List ValueType) : Prop :=
  ∀ type ∈ types, ∃ other ∈ others, type.same other = true

theorem allSameAsSome_iff : allSameAsSome types others = true ↔ Within types others := by
  induction types with
  | nil => simp [allSameAsSome, Within]
  | cons _ _ ih =>
    rw [allSameAsSome, Bool.and_eq_true, ih, any_eq_true]
    simp only [Within, forall_mem_cons]

theorem Apart.tail {rest : List ValueType} (apart : Apart (type :: rest)) : Apart rest :=
  ⟨fun other isIn => apart.single other (mem_cons_of_mem _ isIn),
    (pairwise_cons.mp apart.differ).2⟩

theorem Within.length_le :
    ∀ {others : List ValueType}, Apart types → Within types others →
      types.length ≤ others.length := by
  induction types with
  | nil => exact fun _ _ => Nat.zero_le _
  | cons type rest ih =>
    intro others apart within
    obtain ⟨partner, isIn, agree⟩ := within type mem_cons_self
    obtain ⟨before, after, rfl⟩ := append_of_mem isIn
    have elsewhere : Within rest (before ++ after) := by
      intro later isLater
      obtain ⟨other, isOther, laterAgrees⟩ := within later (mem_cons_of_mem _ isLater)
      have laterSingle := apart.single later (mem_cons_of_mem _ isLater)
      refine ⟨other, ?_, laterAgrees⟩
      rcases mem_append.mp isOther with isBefore | isAfter
      · exact mem_append_left _ isBefore
      · rcases mem_cons.mp isAfter with rfl | isAfter
        · -- the partner is taken: `later` would agree with `type`
          have agreeBoth := same_euclidean (isSingle_of_same (same_symm laterSingle laterAgrees)
            laterSingle) (same_symm (apart.single type mem_cons_self) agree)
            (same_symm laterSingle laterAgrees)
          have differ := (pairwise_cons.mp apart.differ).1 later isLater
          exact absurd (differ.symm.trans agreeBoth) Bool.false_ne_true
        · exact mem_append_right _ isAfter
    have shorter := ih apart.tail elsewhere
    simp only [length_append, length_cons] at shorter ⊢
    omega

theorem Within.symm (apart : Apart types) (within : Within types others)
    (noMore : others.length ≤ types.length) : Within others types := by
  intro other isIn
  by_contra alone
  obtain ⟨before, after, rfl⟩ := append_of_mem isIn
  have elsewhere : Within types (before ++ after) := by
    intro type isType
    obtain ⟨partner, isPartner, agree⟩ := within type isType
    refine ⟨partner, ?_, agree⟩
    rcases mem_append.mp isPartner with isBefore | isAfter
    · exact mem_append_left _ isBefore
    · rcases mem_cons.mp isAfter with rfl | isAfter
      · exact absurd ⟨type, isType, same_symm (apart.single type isType) agree⟩ alone
      · exact mem_append_right _ isAfter
  have shorter := elsewhere.length_le apart
  simp only [length_append, length_cons] at shorter noMore
  omega

theorem Within.trans {first second third : List ValueType}
    (single : ∀ type ∈ second, type.isSingle = true) (left : Within first second)
    (right : Within second third) : Within first third := by
  intro type isIn
  obtain ⟨middle, isMiddle, agree⟩ := left type isIn
  obtain ⟨last, isLast, agree'⟩ := right middle isMiddle
  exact ⟨last, isLast, same_trans (single middle isMiddle) agree agree'⟩

theorem Within.of_subset (single : ∀ type ∈ types, type.isSingle = true) (subset : types ⊆ others) :
    Within types others :=
  fun type isIn => ⟨type, subset isIn, same_refl (single type isIn)⟩

instance : DecidablePred NormalForm
  | union members => inferInstanceAs (Decidable (2 ≤ members.length ∧
      (∀ member ∈ members, member.isSingle = true ∧ member.isAny = false) ∧
      members.Pairwise fun left right => left.same right = false ∧ right.same left = false))
  | any | instanceOf _ | declared _ => isTrue trivial

theorem NormalForm.apart (normal : type.NormalForm) : Apart type.members := by
  refine ⟨fun member isIn => normal.wellFormed.isSingle_of_mem isIn, ?_⟩
  cases type with
  | union => exact normal.2.2.imp And.left
  | _ => exact pairwise_singleton _ _

theorem same_union_iff :
    (union members).same (union others) = true ↔
      members.length = others.length ∧ Within members others := by
  rw [same, Bool.and_eq_true, beq_iff_eq, allSameAsSome_iff]

theorem NormalForm.same_self (normal : type.NormalForm) : type.same type = true := by
  cases type with
  | union =>
    exact same_union_iff.mpr ⟨rfl, .of_subset normal.apart.single (Subset.refl _)⟩
  | _ => exact same_refl rfl

theorem NormalForm.same_comm {first second : ValueType} (normal : first.NormalForm)
    (agree : first.same second = true) : second.same first = true := by
  cases first with
  | union =>
    cases second with
    | union =>
      obtain ⟨sameLength, within⟩ := same_union_iff.mp agree
      exact same_union_iff.mpr
        ⟨sameLength.symm, within.symm normal.apart (Nat.le_of_eq sameLength.symm)⟩
    | _ => simp [same] at agree
  | _ => exact same_symm rfl agree

theorem NormalForm.same_trans {first second third : ValueType} (normal : second.NormalForm)
    (left : first.same second = true) (right : second.same third = true) :
    first.same third = true := by
  cases second with
  | union =>
    cases first with
    | union =>
      cases third with
      | union =>
        obtain ⟨sameLength, within⟩ := same_union_iff.mp left
        obtain ⟨sameLength', within'⟩ := same_union_iff.mp right
        exact same_union_iff.mpr
          ⟨sameLength.trans sameLength', within.trans normal.apart.single within'⟩
      | _ => simp [same] at right
    | _ => simp [same] at left
  | _ => exact ValueType.same_trans rfl left right

/-- The types that agree with none before them. -/
def firstOccurrences (types : List ValueType) : List ValueType :=
  types.zipIdx.filterMap fun placed =>
    if placed.1.occursIn (types.take placed.2) then none else some placed.1

theorem occursIn_nil (type : ValueType) : type.occursIn [] = false :=
  rfl

theorem addNew_append (known first second : List ValueType) :
    addNew known (first ++ second) = addNew (addNew known first) second :=
  foldl_append

theorem addNew_singleton (known : List ValueType) (type : ValueType) :
    addNew known [type] = if type.occursIn known then known else known ++ [type] :=
  rfl

theorem occursIn_addNew {known fresh : List ValueType}
    (single : ∀ other ∈ fresh, other.isSingle = true) :
    type.occursIn (addNew known fresh) = (type.occursIn known || type.occursIn fresh) := by
  rw [Bool.eq_iff_iff, Bool.or_eq_true]
  constructor
  · intro occurs
    obtain ⟨kept, isKept, agree⟩ := any_eq_true.mp occurs
    rcases mem_of_mem_addNew isKept with isOld | isNew
    · exact .inl (any_eq_true.mpr ⟨kept, isOld, agree⟩)
    · exact .inr (any_eq_true.mpr ⟨kept, isNew, agree⟩)
  · rintro (occurs | occurs)
    · obtain ⟨old, isOld, agree⟩ := any_eq_true.mp occurs
      exact any_eq_true.mpr ⟨old, mem_addNew_of_mem isOld, agree⟩
    · obtain ⟨new, isNew, agree⟩ := any_eq_true.mp occurs
      obtain ⟨kept, isKept, keptAgrees⟩ :=
        @exists_same_of_mem new known fresh isNew (single new isNew)
      exact any_eq_true.mpr ⟨kept, isKept, ValueType.same_trans (single new isNew) keptAgrees agree⟩

theorem firstOccurrences_append_singleton (types : List ValueType) (type : ValueType) :
    firstOccurrences (types ++ [type]) =
      firstOccurrences types ++ if type.occursIn types then [] else [type] := by
  rw [firstOccurrences, zipIdx_append, filterMap_append]
  congr 1
  · -- the types before a place of `types` are the same with one more behind
    apply filterMap_congr
    rintro ⟨earlier, place⟩ isIn
    obtain ⟨-, inRange, -⟩ := mem_zipIdx isIn
    rw [take_append_of_le_length (by omega)]
  · by_cases occurs : type.occursIn types = true <;> simp [occurs]

theorem addNew_nil_eq_firstOccurrences (single : ∀ type ∈ types, type.isSingle = true) :
    addNew [] types = firstOccurrences types := by
  induction types using reverseRecOn with
  | nil => rfl
  | append_singleton types type ih =>
    have earlier : ∀ other ∈ types, other.isSingle = true :=
      fun other isIn => single other (mem_append_left _ isIn)
    rw [addNew_append, addNew_singleton, occursIn_addNew earlier,
      firstOccurrences_append_singleton, ← ih earlier]
    by_cases occurs : type.occursIn types = true <;> simp [occurs, occursIn_nil]

theorem addNew_addNew {fresh : List ValueType} (known : List ValueType)
    (single : ∀ type ∈ fresh, type.isSingle = true) :
    addNew known (addNew [] fresh) = addNew known fresh := by
  induction fresh using reverseRecOn with
  | nil => rfl
  | append_singleton fresh type ih =>
    have earlier : ∀ other ∈ fresh, other.isSingle = true :=
      fun other isIn => single other (mem_append_left _ isIn)
    rw [addNew_append, addNew_singleton, addNew_append, addNew_singleton, ← ih earlier]
    by_cases occurs : type.occursIn (addNew [] fresh) = true
    · have occursLater : type.occursIn (addNew known (addNew [] fresh)) = true := by
        rw [occursIn_addNew earlier, occursIn_nil, Bool.false_or] at occurs
        rw [ih earlier, occursIn_addNew earlier, occurs, Bool.or_true]
      rw [if_pos occurs, if_pos occursLater]
    · rw [if_neg occurs, addNew_append, addNew_singleton]

def ofMembers : List ValueType → ValueType
  | [] => any
  | [type] => type
  | members => union members

theorem members_ofMembers {members : List ValueType} (nonempty : members ≠ [])
    (single : ∀ member ∈ members, member.isSingle = true) : (ofMembers members).members = members :=
  match members, nonempty, single with
  | [_], _, single => members_of_isSingle (single _ mem_cons_self)
  | _ :: _ :: _, _, _ => rfl

theorem same_ofMembers (apart : Apart members) (othersApart : Apart others)
    (within : Within members others) (back : Within others members) :
    (ofMembers members).same (ofMembers others) = true := by
  have sameLength := Nat.le_antisymm (within.length_le apart) (back.length_le othersApart)
  match members, others, sameLength with
  | [], [], _ => rw [ofMembers, same]
  | [member], [_], _ =>
    obtain ⟨partner, isPartner, agree⟩ := within member mem_cons_self
    rwa [mem_singleton.mp isPartner] at agree
  | _ :: _ :: _, _ :: _ :: _, sameLength => exact same_union_iff.mpr ⟨sameLength, within⟩

def joined (types : List ValueType) : List ValueType :=
  addNew [] (types.flatMap (·.members))

theorem not_any_isAny_iff : types.any (·.isAny) = false ↔ any ∉ types := by
  rw [← Bool.not_eq_true, any_eq_true]
  refine not_congr ⟨?_, fun isIn => ⟨any, isIn, rfl⟩⟩
  rintro ⟨type, isIn, isAny⟩
  exact isAny_iff.mp isAny ▸ isIn

theorem unionOf_eq_any_of_mem (isIn : any ∈ types) : unionOf types = any :=
  unionOf_of_any (any_eq_true.mpr ⟨any, isIn, rfl⟩)

theorem unionOf_eq_ofMembers (known : any ∉ types) : unionOf types = ofMembers (joined types) := by
  rw [unionOf, not_any_isAny_iff.mpr known, joined]
  generalize addNew [] (types.flatMap (·.members)) = members
  rcases members with _ | ⟨_, _ | _⟩ <;> rfl

section OfNormalForms

variable (normal : ∀ type ∈ types, type.NormalForm)

include normal

theorem single_of_mem_flatMap : ∀ member ∈ types.flatMap (·.members), member.isSingle = true := by
  intro member isMember
  obtain ⟨type, isIn, isMember⟩ := mem_flatMap.mp isMember
  exact (normal type isIn).wellFormed.isSingle_of_mem isMember

theorem apart_joined : Apart (joined types) := by
  refine ⟨?_, pairwise_addNew List.Pairwise.nil⟩
  intro member isMember
  rcases mem_of_mem_addNew isMember with isOld | isNew
  · cases isOld
  · exact single_of_mem_flatMap normal member isNew

theorem joined_ne_nil (nonempty : types ≠ []) : joined types ≠ [] := by
  obtain ⟨type, isIn⟩ := exists_mem_of_ne_nil types nonempty
  obtain ⟨member, isMember⟩ := (normal type isIn).wellFormed.exists_member
  obtain ⟨kept, isKept, -⟩ := @exists_same_of_mem member [] _
    (mem_flatMap.mpr ⟨type, isIn, isMember⟩)
    ((normal type isIn).wellFormed.isSingle_of_mem isMember)
  exact ne_nil_of_mem isKept

theorem members_unionOf (known : any ∉ types) (nonempty : types ≠ []) :
    (unionOf types).members = joined types := by
  rw [unionOf_eq_ofMembers known]
  exact members_ofMembers (joined_ne_nil normal nonempty) (apart_joined normal).single

theorem unionOf_ne_any (known : any ∉ types) (nonempty : types ≠ []) : unionOf types ≠ any := by
  intro isAny
  have isMember : any ∈ joined types := by
    rw [← members_unionOf normal known nonempty, isAny]
    exact mem_singleton_self any
  rcases mem_of_mem_addNew isMember with isOld | isNew
  · cases isOld
  · obtain ⟨type, isIn, isMember⟩ := mem_flatMap.mp isNew
    have noAny : type.isAny = false := by
      rw [← Bool.not_eq_true, isAny_iff]
      exact fun same => known (same ▸ isIn)
    cases (normal type isIn).isAny_of_mem noAny isMember

theorem unionOf_eq_any_iff : unionOf types = any ↔ types = [] ∨ any ∈ types := by
  constructor
  · intro isAny
    by_contra neither
    obtain ⟨nonempty, known⟩ := not_or.mp neither
    exact unionOf_ne_any normal known nonempty isAny
  · rintro (rfl | isIn)
    · rfl
    · exact unionOf_eq_any_of_mem isIn

theorem unionOf_perm (perm : types.Perm others) : (unionOf types).same (unionOf others) = true := by
  have othersNormal : ∀ type ∈ others, type.NormalForm :=
    fun type isIn => normal type (perm.mem_iff.mpr isIn)
  by_cases isIn : any ∈ types
  · rw [unionOf_eq_any_of_mem isIn, unionOf_eq_any_of_mem (perm.mem_iff.mp isIn), same]
  · rw [unionOf_eq_ofMembers isIn, unionOf_eq_ofMembers fun other => isIn (perm.mem_iff.mpr other)]
    -- what is joined is the same on both sides, so each member kept on one has a partner
    have sameParts : (types.flatMap (·.members)).Perm (others.flatMap (·.members)) :=
      perm.flatMap_right _
    have partners : ∀ {left right : List ValueType}, (∀ type ∈ left, type.NormalForm) →
        (∀ type ∈ right, type.NormalForm) →
        left.flatMap (·.members) ⊆ right.flatMap (·.members) →
        Within (joined left) (joined right) := by
      intro left right leftNormal rightNormal subset member isMember
      have single := (apart_joined leftNormal).single member isMember
      have isPart := subset ((mem_of_mem_addNew isMember).resolve_left not_mem_nil)
      obtain ⟨kept, isKept, agree⟩ := @exists_same_of_mem member [] _ isPart single
      exact ⟨kept, isKept, same_symm (isSingle_of_same agree single) agree⟩
    exact same_ofMembers (apart_joined normal) (apart_joined othersNormal)
      (partners normal othersNormal sameParts.subset)
      (partners othersNormal normal sameParts.symm.subset)

theorem unionOf_unionOf (othersNormal : ∀ type ∈ others, type.NormalForm) (nonempty : types ≠ [])
    (othersNonempty : others ≠ []) :
    unionOf [unionOf types, unionOf others] = unionOf (types ++ others) := by
  by_cases isIn : any ∈ types ++ others
  · rw [unionOf_eq_any_of_mem isIn]
    apply unionOf_eq_any_of_mem
    rcases mem_append.mp isIn with isIn | isIn
    · rw [unionOf_eq_any_of_mem isIn]
      exact mem_cons_self
    · rw [unionOf_eq_any_of_mem isIn]
      exact mem_cons_of_mem _ (mem_singleton_self any)
  · have known : any ∉ types := fun isType => isIn (mem_append_left _ isType)
    have othersKnown : any ∉ others := fun isOther => isIn (mem_append_right _ isOther)
    have unionsKnown : any ∉ [unionOf types, unionOf others] := by
      intro isUnion
      rcases mem_pair.mp isUnion with isAny | isAny
      · exact unionOf_ne_any normal known nonempty isAny.symm
      · exact unionOf_ne_any othersNormal othersKnown othersNonempty isAny.symm
    have sameMembers : joined [unionOf types, unionOf others] = joined (types ++ others) := by
      calc joined [unionOf types, unionOf others]
          = addNew [] (joined types ++ joined others) := by
            simp only [joined, flatMap_cons, flatMap_nil, append_nil]
            rw [members_unionOf normal known nonempty,
              members_unionOf othersNormal othersKnown othersNonempty, joined, joined]
        _ = addNew (addNew [] (types.flatMap (·.members))) (others.flatMap (·.members)) := by
            rw [addNew_append, joined, joined, addNew_addNew _ (single_of_mem_flatMap normal),
              addNew_addNew _ (single_of_mem_flatMap othersNormal)]
        _ = joined (types ++ others) := by
            rw [joined, flatMap_append, addNew_append]
    rw [unionOf_eq_ofMembers unionsKnown, unionOf_eq_ofMembers isIn, sameMembers]

end OfNormalForms

theorem NormalForm.unionOf_self (normal : type.NormalForm) :
    (unionOf [type, type]).same type = true := by
  by_cases isAny : type = any
  · rw [isAny, unionOf_eq_any_of_mem mem_cons_self, same]
  · have known : any ∉ [type, type] := by
      intro isIn
      rcases mem_pair.mp isIn with same | same <;> exact isAny same.symm
    have both : ∀ other ∈ [type, type], other.NormalForm := by
      intro other isIn
      rcases mem_pair.mp isIn with rfl | rfl <;> exact normal
    have single := normal.apart.single
    have whole : type = ofMembers type.members := by
      cases type with
      | union members =>
        have several := normal.1
        rcases members with _ | ⟨_, _ | _⟩
        · simp at several
        · simp at several
        · rfl
      | _ => rfl
    rw [unionOf_eq_ofMembers known]
    nth_rewrite 3 [whole]
    apply same_ofMembers (apart_joined both) normal.apart
    · intro member isMember
      have isPart := (mem_of_mem_addNew isMember).resolve_left not_mem_nil
      have isOwn : member ∈ type.members := by simpa using isPart
      exact ⟨member, isOwn, same_refl (single member isOwn)⟩
    · intro member isMember
      have isPart : member ∈ [type, type].flatMap (·.members) := by simpa using isMember
      obtain ⟨kept, isKept, agree⟩ :=
        @exists_same_of_mem member [] _ isPart (single member isMember)
      exact ⟨kept, isKept, same_symm (isSingle_of_same agree (single member isMember)) agree⟩

/-- On types in normal form the union is a join up to agreement. -/
theorem unionOf_joins :
    (Equivalence fun left right : { type : ValueType // type.NormalForm } =>
      left.val.same right.val = true) ∧
    (∀ types : List ValueType, (∀ type ∈ types, type.NormalForm) →
      (unionOf types).NormalForm ∧
      (unionOf types = any ↔ types = [] ∨ any ∈ types) ∧
      (types ≠ [] → any ∉ types →
        (unionOf types).members = firstOccurrences (types.flatMap (·.members))) ∧
      (∀ others, types.Perm others → (unionOf types).same (unionOf others) = true) ∧
      ∀ others : List ValueType, (∀ type ∈ others, type.NormalForm) → types ≠ [] → others ≠ [] →
        (unionOf [unionOf types, unionOf others]).same (unionOf (types ++ others)) = true) ∧
    ∀ type : ValueType, type.NormalForm →
      (unionOf [type, type]).same type = true ∧ unionOf [type, any] = any := by
  refine ⟨⟨?_, ?_, ?_⟩, ?_, ?_⟩
  · exact fun type => type.property.same_self
  · exact fun {first _} agree => first.property.same_comm agree
  · exact fun {_ second _} left right => second.property.same_trans left right
  · intro types normal
    refine ⟨normalForm_unionOf normal, unionOf_eq_any_iff normal, ?_, ?_, ?_⟩
    · intro nonempty known
      rw [members_unionOf normal known nonempty, joined,
        addNew_nil_eq_firstOccurrences (single_of_mem_flatMap normal)]
    · exact fun others perm => unionOf_perm normal perm
    · intro others othersNormal nonempty othersNonempty
      rw [unionOf_unionOf normal othersNormal nonempty othersNonempty]
      apply NormalForm.same_self
      exact normalForm_unionOf (List.forall_mem_append.mpr ⟨normal, othersNormal⟩)
  · intro type normal
    exact ⟨normal.unionOf_self,
      unionOf_eq_any_of_mem (List.mem_cons_of_mem _ (List.mem_singleton_self any))⟩

def branching : List ValueType :=
  [union [builtin "str", builtin "int"], builtin "float", builtin "str"]

theorem branching_joins :
    (∀ type ∈ branching, type.NormalForm) ∧
      (unionOf branching).members = [builtin "str", builtin "int", builtin "float"] ∧
      (unionOf branching).same (unionOf branching.reverse) = true := by
  have normal : ∀ type ∈ branching, type.NormalForm := by decide +kernel
  obtain ⟨_, _, isFirst, perm, _⟩ := unionOf_joins.2.1 branching normal
  have known : any ∉ branching := not_any_isAny_iff.mp (by decide +kernel)
  refine ⟨normal, (isFirst (by simp [branching]) known).trans ?_, perm _ ?_⟩
  · rfl
  · exact (List.reverse_perm branching).symm

end ValueType

end PyStatic
