import PyStatic.Types.State
import Mathlib.Data.List.Basic

/-!
Contract: when one type, or one state, covers another.

A type is covered when each of its members agrees with a member of the covering type. Only the
covered type has to be well-formed: a covering type is never taken apart except to say that nothing
is known.
-/

namespace PyStatic

open List ClassSummary Std.ExtTreeMap

theorem ClassSummary.same_iff {left right : ClassSummary} :
    left.same right = true ↔ left.name = right.name ∧ left.fqn = right.fqn := by
  simp [same]

namespace DeclaredType

theorem sameClass_refl (summary : Option ClassSummary) : sameClass summary summary = true := by
  cases summary <;> simp [sameClass, same_iff]

theorem sameClass_euclidean {first second third : Option ClassSummary}
    (left : sameClass first second = true) (right : sameClass first third = true) :
    sameClass second third = true := by
  cases first <;> cases second <;> cases third <;>
    simp_all [sameClass, same_iff]

mutual

theorem same_refl : ∀ declared : DeclaredType, declared.same declared = true
  | ⟨_, ofClass, args, alternatives⟩ => by
    simp only [same, beq_self_eq_true, Bool.true_and, Bool.and_eq_true]
    exact ⟨⟨sameClass_refl ofClass, sameAll_refl args⟩, sameAll_refl alternatives⟩

theorem sameAll_refl : ∀ declared : List DeclaredType, sameAll declared declared = true
  | [] => by rw [sameAll]
  | first :: rest => by
    rw [sameAll, same_refl first, sameAll_refl rest]
    rfl

end

mutual

theorem same_euclidean : ∀ first second third : DeclaredType, first.same second = true →
    first.same third = true → second.same third = true
  | ⟨_, _, args, alternatives⟩, ⟨_, _, args₂, alternatives₂⟩,
      ⟨_, _, args₃, alternatives₃⟩, left, right => by
    simp only [same, Bool.and_eq_true, beq_iff_eq] at left right ⊢
    obtain ⟨⟨⟨sameName, sameClass₂⟩, sameArgs⟩, sameAlternatives⟩ := left
    obtain ⟨⟨⟨sameName₃, sameClass₃⟩, sameArgs₃⟩, sameAlternatives₃⟩ := right
    exact ⟨⟨⟨sameName.symm.trans sameName₃, sameClass_euclidean sameClass₂ sameClass₃⟩,
      sameAll_euclidean args args₂ args₃ sameArgs sameArgs₃⟩,
      sameAll_euclidean alternatives alternatives₂ alternatives₃ sameAlternatives
        sameAlternatives₃⟩

theorem sameAll_euclidean : ∀ first second third : List DeclaredType,
    sameAll first second = true → sameAll first third = true → sameAll second third = true
  | [], [], [], _, _ => by rw [sameAll]
  | [], _ :: _, _, left, _ => by simp [sameAll] at left
  | [], [], _ :: _, _, right => by simp [sameAll] at right
  | _ :: _, [], _, left, _ => by simp [sameAll] at left
  | _ :: _, _ :: _, [], _, right => by simp [sameAll] at right
  | first :: rest, second :: rest₂, third :: rest₃, left, right => by
    simp only [sameAll, Bool.and_eq_true] at left right ⊢
    exact ⟨same_euclidean first second third left.1 right.1,
      sameAll_euclidean rest rest₂ rest₃ left.2 right.2⟩

end

end DeclaredType

namespace ValueType

variable {type member first second third : ValueType} {types : List ValueType}

def isSingle : ValueType → Bool
  | union _ => false
  | _ => true

theorem members_of_isSingle (single : type.isSingle = true) : type.members = [type] := by
  cases type with
  | union => simp [isSingle] at single
  | _ => rfl

theorem same_refl (single : type.isSingle = true) : type.same type = true := by
  cases type with
  | any => rw [same]
  | instanceOf => rw [same, same_iff]; exact ⟨rfl, rfl⟩
  | declared hinted => rw [same]; exact DeclaredType.same_refl hinted
  | union => simp [isSingle] at single

theorem isSingle_of_same (agree : first.same second = true) (single : second.isSingle = true) :
    first.isSingle = true := by
  cases first <;> cases second <;> simp_all [same, isSingle]

theorem same_euclidean (single : first.isSingle = true) (left : first.same second = true)
    (right : first.same third = true) : second.same third = true := by
  cases first with
  | union => simp [isSingle] at single
  | any => cases second <;> cases third <;> simp_all [same]
  | instanceOf =>
    cases second <;> cases third <;> simp_all [same, same_iff]
  | declared =>
    cases second <;> cases third <;> simp_all [same]
    exact DeclaredType.same_euclidean _ _ _ left right

theorem same_symm (single : first.isSingle = true) (agree : first.same second = true) :
    second.same first = true :=
  same_euclidean single agree (same_refl single)

theorem same_trans (single : second.isSingle = true) (left : first.same second = true)
    (right : second.same third = true) : first.same third = true :=
  same_euclidean single (same_symm (isSingle_of_same left single) left) right

def WellFormed : ValueType → Prop
  | union members => 2 ≤ members.length ∧ (∀ member ∈ members, member.isSingle = true) ∧
      members.Pairwise fun earlier later => earlier.same later = false
  | _ => True

theorem WellFormed.isSingle_of_mem (wellFormed : type.WellFormed)
    (isMember : member ∈ type.members) : member.isSingle = true := by
  cases type with
  | union => exact wellFormed.2.1 member isMember
  | _ =>
    rw [mem_singleton.mp isMember]
    rfl

theorem WellFormed.exists_member (wellFormed : type.WellFormed) :
    ∃ member, member ∈ type.members := by
  cases type with
  | union members =>
    have nonempty : 0 < members.length := Nat.lt_of_lt_of_le (by decide) wellFormed.1
    exact exists_mem_of_length_pos nonempty
  | _ => exact ⟨_, mem_singleton_self _⟩

section AddNew

variable (known fresh : List ValueType)

theorem addNew_cons (type : ValueType) :
    addNew known (type :: fresh) =
      addNew (if type.occursIn known then known else known ++ [type]) fresh :=
  rfl

variable {known fresh}

theorem mem_of_mem_addNew (isIn : type ∈ addNew known fresh) : type ∈ known ∨ type ∈ fresh := by
  induction fresh generalizing known with
  | nil => exact .inl isIn
  | cons first _ ih =>
    rw [addNew_cons] at isIn
    rcases ih isIn with old | new
    · split at old
      · exact .inl old
      · rw [mem_append, mem_singleton] at old
        rcases old with old | rfl
        · exact .inl old
        · exact .inr (mem_cons_self ..)
    · exact .inr (mem_cons_of_mem first new)

theorem mem_addNew_of_mem (isIn : type ∈ known) : type ∈ addNew known fresh := by
  induction fresh generalizing known with
  | nil => exact isIn
  | cons first _ ih =>
    rw [addNew_cons]
    apply ih
    split
    · exact isIn
    · exact mem_append_left [first] isIn

theorem exists_same_of_mem (isIn : type ∈ fresh) (single : type.isSingle = true) :
    ∃ kept ∈ addNew known fresh, kept.same type = true := by
  induction fresh generalizing known with
  | nil => exact absurd isIn (not_mem_nil)
  | cons _ _ ih =>
    rw [addNew_cons]
    rcases mem_cons.mp isIn with rfl | later
    · by_cases occurs : type.occursIn known
      · obtain ⟨kept, isKept, agree⟩ := any_eq_true.mp occurs
        rw [if_pos occurs]
        exact ⟨kept, mem_addNew_of_mem isKept, agree⟩
      · rw [if_neg occurs]
        have isKept : type ∈ known ++ [type] :=
          mem_append_right known (mem_singleton_self type)
        exact ⟨type, mem_addNew_of_mem isKept, same_refl single⟩
    · exact ih later

theorem pairwise_addNew
    (apart : known.Pairwise fun earlier later => earlier.same later = false) :
    (addNew known fresh).Pairwise fun earlier later => earlier.same later = false := by
  induction fresh generalizing known with
  | nil => exact apart
  | cons first _ ih =>
    rw [addNew_cons]
    apply ih
    by_cases occurs : first.occursIn known
    · rw [if_pos occurs]
      exact apart
    · rw [if_neg occurs, pairwise_append]
      refine ⟨apart, pairwise_singleton _ _, ?_⟩
      intro earlier isIn later isLater
      rw [mem_singleton.mp isLater, ← Bool.not_eq_true]
      exact fun agree => occurs (any_eq_true.mpr ⟨earlier, isIn, agree⟩)

end AddNew

theorem unionOf_of_any (isAny : types.any (·.isAny) = true) : unionOf types = any :=
  if_pos isAny

theorem unionOf_cases (isIn : type ∈ types) {other : ValueType} (isMember : other ∈ type.members)
    (agree : other.same member = true) (single : member.isSingle = true) :
    unionOf types = any ∨ ∃ kept ∈ (unionOf types).members, kept.same member = true := by
  by_cases isAny : types.any (·.isAny)
  · exact .inl (unionOf_of_any isAny)
  · have otherSingle := isSingle_of_same agree single
    obtain ⟨kept, isKept, keptAgrees⟩ : ∃ kept ∈ addNew [] (types.flatMap (·.members)),
        kept.same other = true :=
      exists_same_of_mem (mem_flatMap.mpr ⟨type, isIn, isMember⟩) otherSingle
    have keptSingle := isSingle_of_same keptAgrees otherSingle
    refine .inr ⟨kept, ?_, same_trans otherSingle keptAgrees agree⟩
    rw [unionOf, if_neg isAny]
    generalize addNew [] (types.flatMap (·.members)) = all at isKept
    match all, isKept with
    | [_], isKept =>
      rw [← mem_singleton.mp isKept, members_of_isSingle keptSingle]
      exact mem_singleton_self kept
    | _ :: _ :: _, isKept => exact isKept

section OfWellFormed

variable (wellFormed : ∀ type ∈ types, type.WellFormed)

include wellFormed

theorem mem_members_unionOf (nonempty : types ≠ []) {member : ValueType}
    (isMember : member ∈ (unionOf types).members) : ∃ type ∈ types, member ∈ type.members := by
  by_cases isAny : types.any (·.isAny)
  · rw [unionOf_of_any isAny] at isMember
    obtain ⟨type, isIn, typeIsAny⟩ := any_eq_true.mp isAny
    cases type with
    | any => exact ⟨any, isIn, isMember⟩
    | _ => simp [ValueType.isAny] at typeIsAny
  · have comesFrom : ∀ kept ∈ addNew [] (types.flatMap (·.members)),
        ∃ type ∈ types, kept ∈ type.members := by
      intro kept isKept
      rcases mem_of_mem_addNew isKept with old | new
      · exact absurd old (not_mem_nil)
      · exact mem_flatMap.mp new
    have notEmpty : addNew [] (types.flatMap (·.members)) ≠ [] := by
      obtain ⟨type, isIn⟩ := exists_mem_of_ne_nil types nonempty
      obtain ⟨member, isMember⟩ := (wellFormed type isIn).exists_member
      obtain ⟨kept, isKept, -⟩ : ∃ kept ∈ addNew [] (types.flatMap (·.members)),
          kept.same member = true :=
        exists_same_of_mem (mem_flatMap.mpr ⟨type, isIn, isMember⟩)
          ((wellFormed type isIn).isSingle_of_mem isMember)
      exact ne_nil_of_mem isKept
    rw [unionOf, if_neg isAny] at isMember
    generalize addNew [] (types.flatMap (·.members)) = all at comesFrom notEmpty isMember
    match all, notEmpty, isMember with
    | [only], _, isMember =>
      obtain ⟨type, isIn, onlyIn⟩ := comesFrom only (mem_singleton_self only)
      have single := (wellFormed type isIn).isSingle_of_mem onlyIn
      rw [members_of_isSingle single, mem_singleton] at isMember
      exact ⟨type, isIn, isMember ▸ onlyIn⟩
    | _ :: _ :: _, _, isMember => exact comesFrom member isMember

theorem wellFormed_unionOf : (unionOf types).WellFormed := by
  by_cases isAny : types.any (·.isAny)
  · rw [unionOf_of_any isAny]
    trivial
  · have apart : (addNew [] (types.flatMap (·.members))).Pairwise
        fun earlier later => earlier.same later = false := pairwise_addNew List.Pairwise.nil
    have singles : ∀ kept ∈ addNew [] (types.flatMap (·.members)), kept.isSingle = true := by
      intro kept isKept
      rcases mem_of_mem_addNew isKept with old | new
      · exact absurd old (not_mem_nil)
      · obtain ⟨type, isIn, isMember⟩ := mem_flatMap.mp new
        exact (wellFormed type isIn).isSingle_of_mem isMember
    rw [unionOf, if_neg isAny]
    generalize addNew [] (types.flatMap (·.members)) = all at apart singles
    match all, apart, singles with
    | [], _, _ => trivial
    | [only], _, singles =>
      have single := singles only (mem_singleton_self only)
      cases only with
      | union => simp [isSingle] at single
      | _ => trivial
    | _ :: _ :: _, apart, singles => exact ⟨by simp, singles, apart⟩

end OfWellFormed

/-- Each member of the narrow type agrees with a member of the wide one. -/
def Contains (wide narrow : ValueType) : Prop :=
  wide = any ∨ ∀ member ∈ narrow.members, ∃ other ∈ wide.members, other.same member = true

theorem isAny_iff : type.isAny = true ↔ type = any := by
  cases type <;> simp [isAny]

instance (wide narrow : ValueType) : Decidable (wide.Contains narrow) :=
  decidable_of_iff (wide.isAny = true ∨
    ∀ member ∈ narrow.members, ∃ other ∈ wide.members, other.same member = true)
    (or_congr_left isAny_iff)

structure Covers (wide narrow : ValueType) : Prop where
  wellFormed : narrow.WellFormed
  contains : wide.Contains narrow

theorem WellFormed.covers_any (wellFormed : type.WellFormed) : any.Covers type :=
  ⟨wellFormed, .inl rfl⟩

theorem WellFormed.covers_self (wellFormed : type.WellFormed) : type.Covers type := by
  refine ⟨wellFormed, .inr fun member isMember => ?_⟩
  exact ⟨member, isMember, same_refl (wellFormed.isSingle_of_mem isMember)⟩

theorem exists_same_of_allSameAsSome {members others : List ValueType}
    (all : allSameAsSome members others = true) {member : ValueType} (isMember : member ∈ members) :
    ∃ other ∈ others, member.same other = true := by
  induction members with
  | nil => exact absurd isMember (not_mem_nil)
  | cons _ _ ih =>
    rw [allSameAsSome, Bool.and_eq_true, any_eq_true] at all
    rcases mem_cons.mp isMember with rfl | later
    · exact all.1
    · exact ih all.2 later

theorem exists_same_member {wide other : ValueType} (agree : wide.same other = true)
    {member : ValueType} (isMember : member ∈ wide.members) :
    ∃ kept ∈ other.members, member.same kept = true := by
  cases wide with
  | union =>
    cases other with
    | union =>
      rw [same, Bool.and_eq_true] at agree
      exact exists_same_of_allSameAsSome agree.2 isMember
    | _ => simp [same] at agree
  | _ =>
    rw [mem_singleton.mp isMember]
    cases other with
    | union => simp [same] at agree
    | _ => exact ⟨_, mem_singleton_self _, agree⟩

theorem Covers.of_same {wide other narrow : ValueType} (covers : wide.Covers narrow)
    (agree : wide.same other = true) : other.Covers narrow := by
  refine ⟨covers.wellFormed, ?_⟩
  rcases covers.contains with rfl | contains
  · refine .inl ?_
    cases other <;> simp_all [same]
  · refine .inr fun member isMember => ?_
    have single := covers.wellFormed.isSingle_of_mem isMember
    obtain ⟨found, isFound, foundAgrees⟩ := contains member isMember
    obtain ⟨kept, isKept, keptAgrees⟩ := exists_same_member agree isFound
    exact ⟨kept, isKept, same_euclidean (isSingle_of_same foundAgrees single) keptAgrees
      foundAgrees⟩

theorem Covers.unionOf_of_mem {wide narrow : ValueType} (covers : wide.Covers narrow)
    (isIn : wide ∈ types) : (unionOf types).Covers narrow := by
  refine ⟨covers.wellFormed, ?_⟩
  rcases covers.contains with rfl | contains
  · exact .inl (unionOf_of_any (any_eq_true.mpr ⟨any, isIn, rfl⟩))
  · by_cases isAny : unionOf types = any
    · exact .inl isAny
    · refine .inr fun member isMember => ?_
      obtain ⟨found, isFound, agree⟩ := contains member isMember
      exact (unionOf_cases isIn isFound agree
        (covers.wellFormed.isSingle_of_mem isMember)).resolve_left isAny

theorem covers_unionOf {wides narrows : List ValueType} (nonempty : narrows ≠ [])
    (covers : ∀ narrow ∈ narrows, ∃ wide ∈ wides, wide.Covers narrow) :
    (unionOf wides).Covers (unionOf narrows) := by
  have wellFormed : ∀ narrow ∈ narrows, narrow.WellFormed := by
    intro narrow isIn
    obtain ⟨wide, -, covers⟩ := covers narrow isIn
    exact covers.wellFormed
  refine ⟨wellFormed_unionOf wellFormed, ?_⟩
  by_cases isAny : unionOf wides = any
  · exact .inl isAny
  · refine .inr fun member isMember => ?_
    obtain ⟨narrow, isNarrow, isMember⟩ := mem_members_unionOf wellFormed nonempty isMember
    obtain ⟨wide, isWide, covers⟩ := covers narrow isNarrow
    exact ((covers.unionOf_of_mem isWide).contains.resolve_left isAny) member isMember

theorem Covers.of_instanceOf {summary : ClassSummary} {narrow : ValueType}
    (covers : (instanceOf summary).Covers narrow) :
    ∃ other, narrow = instanceOf other ∧ summary.same other = true := by
  have contains : ∀ member ∈ narrow.members, (instanceOf summary).same member = true := by
    intro member isMember
    obtain ⟨other, isOther, agree⟩ := covers.contains.resolve_left (by simp) member isMember
    rwa [mem_singleton.mp isOther] at agree
  cases narrow with
  | any => simpa [same] using contains any (mem_singleton_self _)
  | declared hinted => simpa [same] using contains (declared hinted) (mem_singleton_self _)
  | instanceOf other =>
    have agree := contains (instanceOf other) (mem_singleton_self _)
    exact ⟨other, rfl, agree⟩
  | union members =>
    -- two members agree with the class, hence with each other
    obtain ⟨long, -, apart⟩ := covers.wellFormed
    match members, long, apart, contains with
    | first :: second :: _, _, apart, contains =>
      have agree := same_euclidean (by rfl) (contains first (by simp [ValueType.members]))
        (contains second (by simp [ValueType.members]))
      rw [rel_of_pairwise_cons apart (mem_cons_self ..)] at agree
      exact absurd agree Bool.false_ne_true

end ValueType

namespace TypeState

variable {wide narrow : TypeState}

def HasCovering (state : TypeState) (symbol : SymbolId) (type : ValueType) : Prop :=
  ∃ wide, state[symbol]? = some wide ∧ wide.Covers type

def Covers (wide narrow : TypeState) : Prop :=
  ∀ symbol type, narrow[symbol]? = some type → wide.HasCovering symbol type

theorem covers_empty (wide : TypeState) : wide.Covers ∅ := by
  intro symbol type found
  simp at found

theorem getElem?_insert_eq (state : TypeState) (added symbol : SymbolId) (type : ValueType) :
    (state.insert added type)[symbol]? = if added = symbol then some type else state[symbol]? := by
  simp only [Std.ExtTreeMap.getElem?_insert, Std.compare_eq_iff_eq]

theorem Covers.insert (covers : wide.Covers narrow) (symbol : SymbolId)
    {wideType narrowType : ValueType} (typeCovers : wideType.Covers narrowType) :
    TypeState.Covers (wide.insert symbol wideType) (narrow.insert symbol narrowType) := by
  intro other type found
  rw [getElem?_insert_eq] at found
  unfold HasCovering
  rw [getElem?_insert_eq]
  by_cases same : symbol = other
  · rw [if_pos same] at found ⊢
    exact ⟨wideType, rfl, Option.some.inj found ▸ typeCovers⟩
  · rw [if_neg same] at found ⊢
    exact covers other type found

section Join

variable {symbol : SymbolId} {type : ValueType} {state : TypeState}
  {entries : List (SymbolId × ValueType)}

def joinOne (joined : TypeState) (entry : SymbolId × ValueType) : TypeState :=
  joined.insert entry.1 (joinType joined[entry.1]? entry.2)

theorem getElem?_joinOne_of_ne {entry : SymbolId × ValueType} (differs : entry.1 ≠ symbol) :
    (joinOne state entry)[symbol]? = state[symbol]? := by
  unfold joinOne
  rw [getElem?_insert_eq, if_neg differs]

theorem getElem?_foldl_joinOne_of_ne (state : TypeState)
    (differ : ∀ entry ∈ entries, entry.1 ≠ symbol) :
    (entries.foldl joinOne state)[symbol]? = state[symbol]? := by
  induction entries generalizing state with
  | nil => rfl
  | cons _ _ ih =>
    rw [forall_mem_cons] at differ
    rw [foldl_cons, ih _ differ.2, getElem?_joinOne_of_ne differ.1]

theorem getElem?_foldl_joinOne_of_mem (state : TypeState)
    (distinct : entries.Pairwise fun earlier later => earlier.1 ≠ later.1)
    (isIn : (symbol, type) ∈ entries) :
    (entries.foldl joinOne state)[symbol]? = some (joinType state[symbol]? type) := by
  induction entries generalizing state with
  | nil => exact absurd isIn (not_mem_nil)
  | cons _ _ ih =>
    obtain ⟨isOther, distinct⟩ := pairwise_cons.mp distinct
    rw [foldl_cons]
    rcases mem_cons.mp isIn with rfl | later
    · rw [getElem?_foldl_joinOne_of_ne _ fun entry isLater => (isOther entry isLater).symm]
      unfold joinOne
      rw [getElem?_insert_eq, if_pos rfl]
    · rw [ih _ distinct later, getElem?_joinOne_of_ne (isOther _ later)]

theorem getElem?_join (left right : TypeState) (symbol : SymbolId) :
    (left.join right)[symbol]? =
      (right[symbol]?.map (joinType left[symbol]?)).or left[symbol]? := by
  have distinct : right.toList.Pairwise fun earlier later => earlier.1 ≠ later.1 :=
    distinct_keys_toList.imp fun differ same => differ (by rw [same]; simp)
  cases found : right[symbol]? with
  | none =>
    apply getElem?_foldl_joinOne_of_ne
    intro entry isEntry same
    rw [← same, mem_toList_iff_getElem?_eq_some.mp isEntry] at found
    cases found
  | some =>
    exact getElem?_foldl_joinOne_of_mem left distinct
      (mem_toList_iff_getElem?_eq_some.mpr found)

theorem joinType_covers {known : Option ValueType} {wide : ValueType}
    (covers : wide.Covers type) : (joinType known wide).Covers type := by
  cases known with
  | none => exact covers
  | some => exact covers.unionOf_of_mem (by simp)

theorem HasCovering.joinOne (has : state.HasCovering symbol type) (entry : SymbolId × ValueType) :
    (joinOne state entry).HasCovering symbol type := by
  obtain ⟨wide, found, covers⟩ := has
  unfold HasCovering TypeState.joinOne
  rw [getElem?_insert_eq]
  by_cases same : entry.1 = symbol
  · rw [if_pos same, same, found]
    exact ⟨_, rfl, covers.unionOf_of_mem (by simp)⟩
  · rw [if_neg same]
    exact ⟨wide, found, covers⟩

theorem HasCovering.foldl_joinOne (has : state.HasCovering symbol type)
    (entries : List (SymbolId × ValueType)) :
    (entries.foldl TypeState.joinOne state).HasCovering symbol type := by
  induction entries generalizing state with
  | nil => exact has
  | cons first _ ih => exact ih (has.joinOne first)

theorem HasCovering.join_left {left : TypeState} (has : left.HasCovering symbol type)
    (right : TypeState) : (left.join right).HasCovering symbol type :=
  has.foldl_joinOne right.toList

theorem HasCovering.join_right {right : TypeState} (has : right.HasCovering symbol type)
    (left : TypeState) : (left.join right).HasCovering symbol type := by
  obtain ⟨wide, found, covers⟩ := has
  have isEntry : (symbol, wide) ∈ right.toList :=
    mem_toList_iff_getElem?_eq_some.mpr found
  show (right.toList.foldl TypeState.joinOne left).HasCovering symbol type
  generalize right.toList = entries at isEntry
  induction entries generalizing left with
  | nil => exact absurd isEntry (not_mem_nil)
  | cons _ rest ih =>
    rcases mem_cons.mp isEntry with rfl | later
    · refine HasCovering.foldl_joinOne ?_ rest
      unfold HasCovering TypeState.joinOne
      rw [getElem?_insert_eq, if_pos rfl]
      exact ⟨_, rfl, joinType_covers covers⟩
    · exact ih _ later

end Join

theorem Covers.join_left {left narrow : TypeState} (covers : left.Covers narrow)
    (right : TypeState) : (left.join right).Covers narrow :=
  fun symbol type found => (covers symbol type found).join_left right

theorem Covers.join_right {right narrow : TypeState} (covers : right.Covers narrow)
    (left : TypeState) : (left.join right).Covers narrow :=
  fun symbol type found => (covers symbol type found).join_right left

theorem Covers.foldl_join {state narrow : TypeState} (covers : state.Covers narrow)
    (others : List TypeState) : TypeState.Covers (others.foldl join state) narrow := by
  induction others generalizing state with
  | nil => exact covers
  | cons first _ ih => exact ih (covers.join_left first)

theorem Covers.foldl_join_of_mem {state wide narrow : TypeState} {others : List TypeState}
    (covers : wide.Covers narrow) (isIn : wide ∈ others) :
    TypeState.Covers (others.foldl join state) narrow := by
  induction others generalizing state with
  | nil => exact absurd isIn (not_mem_nil)
  | cons _ rest ih =>
    rcases mem_cons.mp isIn with rfl | later
    · exact (covers.join_right state).foldl_join rest
    · exact ih later

theorem Covers.joinAll {states : List TypeState} (covers : wide.Covers narrow)
    (isIn : wide ∈ states) : ∃ joined, joinAll states = some joined ∧ joined.Covers narrow := by
  cases states with
  | nil => exact absurd isIn (not_mem_nil)
  | cons first rest =>
    refine ⟨rest.foldl join first, rfl, ?_⟩
    rcases mem_cons.mp isIn with rfl | later
    · exact covers.foldl_join rest
    · exact covers.foldl_join_of_mem later

theorem exists_of_same {left right : TypeState} (agree : left.same right = true)
    {symbol : SymbolId} {type : ValueType} (found : left[symbol]? = some type) :
    ∃ other, right[symbol]? = some other ∧ type.same other = true := by
  rw [same, Bool.and_eq_true, all_eq_true] at agree
  have entryAgrees := agree.2 (symbol, type)
    (mem_toList_iff_getElem?_eq_some.mpr found)
  exact (Option.any_eq_true ..).mp entryAgrees

theorem Covers.of_same {wide other narrow : TypeState} (covers : wide.Covers narrow)
    (agree : wide.same other = true) : other.Covers narrow := by
  intro symbol type found
  obtain ⟨known, knownFound, knownCovers⟩ := covers symbol type found
  obtain ⟨kept, keptFound, typesAgree⟩ := exists_of_same agree knownFound
  exact ⟨kept, keptFound, knownCovers.of_same typesAgree⟩

end TypeState

end PyStatic
