import PyStatic.Syntax.Outline
import Mathlib.Data.List.Basic

/-!
Contract: what a walk over outlines meets.

An address tells the place of an item among its siblings, after the places of the nodes above it. So
one item is above another exactly if its address begins the other's.
-/

namespace PyStatic.Outline

open List

variable {α : Type} {skips stops : α → Bool} {outlines : List (Outline α)} {address : List Nat}

def children : Outline α → List (Outline α)
  | node _ children => children

def entries : List (Outline α) → List (List Nat × α)
  | [] => []
  | node item children :: rest =>
    ([0], item) :: ((entries children).map fun entry => (0 :: entry.1, entry.2)) ++
      (entries rest).map fun entry => (entry.1.modifyHead (· + 1), entry.2)

def reached (skips : α → Bool) (outlines : List (Outline α)) : List α :=
  (walkAll skips (fun _ => false) outlines).met

theorem walkAll_stopped (outlines : List (Outline α)) :
    (walkAll skips (fun _ => false) outlines).stopped = false := by
  induction outlines using entries.induct with
  | case1 => rw [walkAll]
  | case2 _ _ _ below later =>
    rw [walkAll, walk, if_neg Bool.false_ne_true]
    split
    · simp [later]
    · simp [below, later]

theorem reached_nil : reached skips [] = [] := by
  rw [reached, walkAll]

theorem reached_cons (item : α) (children rest : List (Outline α)) :
    reached skips (node item children :: rest) =
      (item :: if skips item then [] else reached skips children) ++ reached skips rest := by
  rw [reached, walkAll, walk, if_neg Bool.false_ne_true]
  split
  · rfl
  · simp [walkAll_stopped, reached]

theorem reached_node (item : α) (children : List (Outline α)) :
    reached skips [node item children] =
      item :: if skips item then [] else reached skips children := by
  rw [reached_cons, reached_nil, append_nil]

theorem reached_append (first second : List (Outline α)) :
    reached skips (first ++ second) = reached skips first ++ reached skips second := by
  induction first with
  | nil => rw [nil_append, reached_nil, nil_append]
  | cons outline _ ih =>
    cases outline
    rw [cons_append, reached_cons, reached_cons, ih, append_assoc]

theorem reached_subset (outlines : List (Outline α)) :
    reached skips outlines ⊆ preorderOfAll outlines := by
  induction outlines using entries.induct with
  | case1 =>
    rw [reached_nil]
    exact nil_subset _
  | case2 item _ _ below later =>
    rw [reached_cons, preorderOfAll, preorder]
    refine append_subset.mpr ⟨subset_append_of_subset_left _ (cons_subset_cons item ?_),
      subset_append_of_subset_right _ later⟩
    split
    · exact nil_subset _
    · exact below

def upTo (stops : α → Bool) (items : List α) : List α :=
  items.take (items.findIdx stops + 1)

@[simp] theorem upTo_nil : upTo stops [] = [] :=
  rfl

theorem upTo_cons (item : α) (rest : List α) :
    upTo stops (item :: rest) = item :: if stops item then [] else upTo stops rest := by
  cases isStop : stops item <;> simp [upTo, findIdx_cons, isStop]

theorem upTo_append (first second : List α) :
    upTo stops (first ++ second) =
      if first.any stops then upTo stops first else first ++ upTo stops second := by
  induction first with
  | nil => simp
  | cons item _ ih =>
    cases isStop : stops item <;> simp [upTo_cons, ih, isStop]
    split <;> rfl

theorem upTo_of_not_any {items : List α} (noStop : items.any stops = false) :
    upTo stops items = items := by
  simpa [noStop] using @upTo_append _ stops items []

theorem walkAll_eq (outlines : List (Outline α)) :
    walkAll skips stops outlines =
      ⟨upTo stops (reached skips outlines), (reached skips outlines).any stops⟩ := by
  induction outlines using entries.induct with
  | case1 =>
    rw [walkAll, reached_nil]
    rfl
  | case2 item children _ below later =>
    have first : walk skips stops (node item children) =
        ⟨upTo stops (item :: if skips item then [] else reached skips children),
          (item :: if skips item then [] else reached skips children).any stops⟩ := by
      rw [walk, below]
      cases isStop : stops item <;> cases isSkipped : skips item <;> simp [upTo_cons, isStop]
    rw [walkAll, reached_cons, upTo_append, any_append, later, first]
    generalize (item :: if skips item then [] else reached skips children) = met
    cases isAny : met.any stops with
    | true => simp
    | false => simp [upTo_of_not_any isAny]

def itemAt? : List (Outline α) → List Nat → Option α
  | _, [] => none
  | outlines, [place] => outlines[place]?.map item
  | outlines, place :: next :: rest =>
    outlines[place]?.bind fun outline => itemAt? outline.children (next :: rest)

theorem exists_cons_of_mem_entries {entry : List Nat × α} (isEntry : entry ∈ entries outlines) :
    ∃ place rest, entry.1 = place :: rest := by
  induction outlines using entries.induct generalizing entry with
  | case1 => simp [entries] at isEntry
  | case2 _ _ rest _ later =>
    simp only [entries, mem_append, mem_cons, mem_map] at isEntry
    rcases isEntry with (rfl | ⟨inner, _, rfl⟩) | ⟨other, isOther, rfl⟩
    · exact ⟨0, [], rfl⟩
    · exact ⟨0, inner.1, rfl⟩
    · obtain ⟨place, rest, isCons⟩ := later isOther
      exact ⟨place + 1, rest, by rw [isCons]; rfl⟩

theorem mem_entries_cons {top : α} {children rest : List (Outline α)} {item : α} :
    (address, item) ∈ entries (node top children :: rest) ↔
      (address = [0] ∧ item = top) ∨
        (∃ inner, (inner, item) ∈ entries children ∧ address = 0 :: inner) ∨
          ∃ place tail, (place :: tail, item) ∈ entries rest ∧ address = (place + 1) :: tail := by
  simp only [entries, mem_append, mem_cons, mem_map, Prod.mk.injEq, Prod.exists]
  constructor
  · rintro ((isTop | ⟨inner, _, isIn, rfl, rfl⟩) | ⟨other, _, isIn, rfl, rfl⟩)
    · exact .inl isTop
    · exact .inr (.inl ⟨inner, isIn, rfl⟩)
    · obtain ⟨place, tail, rfl⟩ := exists_cons_of_mem_entries isIn
      exact .inr (.inr ⟨place, tail, isIn, rfl⟩)
  · rintro (isTop | ⟨inner, isIn, rfl⟩ | ⟨place, tail, isIn, rfl⟩)
    · exact .inl (.inl isTop)
    · exact .inl (.inr ⟨inner, item, isIn, rfl, rfl⟩)
    · exact .inr ⟨place :: tail, item, isIn, rfl, rfl⟩

theorem mem_entries {item : α} :
    (address, item) ∈ entries outlines ↔ itemAt? outlines address = some item := by
  induction outlines using entries.induct generalizing address with
  | case1 =>
    rcases address with _ | ⟨place, _ | ⟨next, rest⟩⟩ <;> simp [entries, itemAt?]
  | case2 _ children _ below later =>
    rw [mem_entries_cons]
    rcases address with _ | ⟨_ | place, _ | ⟨next, tail⟩⟩
    · simp [itemAt?]
    · simp [itemAt?, below, Outline.item, eq_comm]
    · simp [itemAt?, below, Outline.children]
    · simp [itemAt?, later]
    · simp [itemAt?, later]

theorem pairwise_entries (outlines : List (Outline α)) :
    (entries outlines).Pairwise fun earlier later => ¬ later.1 <+: earlier.1 := by
  induction outlines using entries.induct with
  | case1 => simp [entries]
  | case2 _ _ _ below later =>
    simp only [entries, pairwise_append, pairwise_cons, pairwise_map, mem_cons, mem_map]
    refine ⟨⟨?_, ?_⟩, ?_, ?_⟩
    · rintro _ ⟨inner, isIn, rfl⟩
      obtain ⟨place, tail, isCons⟩ := exists_cons_of_mem_entries isIn
      simp [isCons]
    · simpa using below
    · refine later.imp_of_mem fun {first second} isFirst isSecond notAbove => ?_
      obtain ⟨place, tail, isCons⟩ := exists_cons_of_mem_entries isFirst
      obtain ⟨other, others, isOther⟩ := exists_cons_of_mem_entries isSecond
      simpa [isCons, isOther] using notAbove
    · rintro earlier isEarlier _ ⟨other, isIn, rfl⟩
      obtain ⟨place, tail, isCons⟩ := exists_cons_of_mem_entries isIn
      rcases isEarlier with rfl | ⟨inner, -, rfl⟩ <;> simp [isCons]

/-- No node above the address is skipped. -/
def isOpen (skips : α → Bool) (find? : List Nat → Option α) (address : List Nat) : Bool :=
  (List.range address.length).all fun depth => (find? (address.take depth)).all (!skips ·)

theorem isOpen_cons (find? : List Nat → Option α) (isNone : find? [] = none) (place : Nat)
    (tail : List Nat) :
    isOpen skips find? (place :: tail) =
      (List.range tail.length).all fun depth =>
        (find? (place :: tail.take depth)).all (!skips ·) := by
  simp [isOpen, range_succ_eq_map, all_map, isNone]
  rfl

section isOpen

variable (top : α) (children rest : List (Outline α))

theorem isOpen_first : isOpen skips (itemAt? (node top children :: rest)) [0] = true :=
  rfl

theorem isOpen_below {inner : List Nat} (isCons : ∃ place tail, inner = place :: tail) :
    isOpen skips (itemAt? (node top children :: rest)) (0 :: inner) =
      (!skips top && isOpen skips (itemAt? children) inner) := by
  obtain ⟨place, tail, rfl⟩ := isCons
  rw [isOpen_cons _ rfl, isOpen_cons _ rfl, length_cons, range_succ_eq_map, all_cons, all_map]
  rfl

theorem isOpen_later {address : List Nat} (isCons : ∃ place tail, address = place :: tail) :
    isOpen skips (itemAt? (node top children :: rest)) (address.modifyHead (· + 1)) =
      isOpen skips (itemAt? rest) address := by
  obtain ⟨place, tail, rfl⟩ := isCons
  rw [modifyHead_cons, isOpen_cons _ rfl, isOpen_cons _ rfl]
  congr
  funext depth
  cases tail.take depth <;> rfl

end isOpen

theorem reached_eq (outlines : List (Outline α)) :
    reached skips outlines =
      ((entries outlines).filter fun entry => isOpen skips (itemAt? outlines) entry.1).map
        (·.2) := by
  induction outlines using entries.induct with
  | case1 => simp [entries, reached_nil]
  | case2 top children rest below later =>
    have inside : ∀ entry ∈ entries children,
        isOpen skips (itemAt? (node top children :: rest)) (0 :: entry.1) =
          (!skips top && isOpen skips (itemAt? children) entry.1) := fun _ isIn =>
      isOpen_below _ _ _ (exists_cons_of_mem_entries isIn)
    have beside : ∀ entry ∈ entries rest,
        isOpen skips (itemAt? (node top children :: rest)) (entry.1.modifyHead (· + 1)) =
          isOpen skips (itemAt? rest) entry.1 := fun _ isIn =>
      isOpen_later _ _ _ (exists_cons_of_mem_entries isIn)
    simp only [reached_cons, entries, filter_append, filter_cons, isOpen_first, if_true, map_append,
      filter_map, Function.comp_def, filter_congr inside, filter_congr beside, map_cons, map_map,
      later]
    cases skips top with
    | true => simp
    | false => simp [below]

def addresses (outlines : List (Outline α)) : List (List Nat) :=
  (entries outlines).map (·.1)

theorem mem_addresses : address ∈ addresses outlines ↔ (itemAt? outlines address).isSome := by
  simp [addresses, Option.isSome_iff_exists, ← mem_entries]

theorem pairwise_addresses (outlines : List (Outline α)) :
    (addresses outlines).Pairwise fun earlier later => ¬ later <+: earlier :=
  pairwise_map.mpr (pairwise_entries outlines)

theorem reached_eq_filterMap (outlines : List (Outline α)) :
    reached skips outlines =
      ((addresses outlines).filter (isOpen skips (itemAt? outlines))).filterMap
        (itemAt? outlines) := by
  rw [reached_eq, addresses, filter_map, filterMap_map, ← filterMap_eq_map]
  refine filterMap_congr fun entry isEntry => ?_
  exact (mem_entries.mp (mem_filter.mp isEntry).1).symm

end PyStatic.Outline
