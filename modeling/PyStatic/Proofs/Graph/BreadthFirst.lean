import Mathlib.Data.List.Perm.Subperm
import Mathlib.Order.Lattice.Nat
import PyStatic.Graph.BreadthFirst
import PyStatic.Proofs.Sequence.Distinct

/-!
Contract: what breadth-first walks list, and in which order.

While a queue is served, the items seen are those served and those waiting, in this order. They
stand by their distance, and no two that wait are more than one link apart in it, so what the next
item brings is farther than all before.
-/

namespace PyStatic.BreadthFirst

open List Sequence

section Distances

variable {α : Type} (links : α → List α) (start : α)

inductive Leads : Nat → α → Prop where
  | here : Leads 0 start
  | on {steps : Nat} {item next : α} :
      Leads steps item → next ∈ links item → Leads (steps + 1) next

def Reaches (item : α) : Prop :=
  ∃ steps, Leads links start steps item

noncomputable def distance (item : α) : Nat :=
  sInf { steps | Leads links start steps item }

variable {links start} {steps : Nat} {item next : α}

theorem Reaches.leads (reaches : Reaches links start item) :
    Leads links start (distance links start item) item :=
  Nat.sInf_mem reaches

theorem Leads.distance_le (leads : Leads links start steps item) :
    distance links start item ≤ steps :=
  Nat.sInf_le leads

theorem Reaches.step (reaches : Reaches links start item) (isLink : next ∈ links item) :
    Reaches links start next :=
  ⟨_, .on reaches.leads isLink⟩

theorem Reaches.distance_next_le (reaches : Reaches links start item)
    (isLink : next ∈ links item) :
    distance links start next ≤ distance links start item + 1 :=
  (Leads.on reaches.leads isLink).distance_le

theorem Reaches.exists_nearer (reaches : Reaches links start item) (notStart : item ≠ start) :
    ∃ nearer, Reaches links start nearer ∧ item ∈ links nearer ∧
      distance links start nearer < distance links start item := by
  have leads := reaches.leads
  generalize distance links start item = steps at leads
  cases leads with
  | here => exact absurd rfl notStart
  | on earlier isLink => exact ⟨_, ⟨_, earlier⟩, isLink, Nat.lt_succ_of_le earlier.distance_le⟩

end Distances

structure Serving {α : Type} (links : α → List α) (start : α) (served queue : List α) : Prop where
  distinct : (served ++ queue).Nodup
  starts : start ∈ served ++ queue
  reached : ∀ item ∈ served ++ queue, Reaches links start item
  closed : ∀ item ∈ served, ∀ next ∈ links item, next ∈ served ++ queue
  ordered : (served ++ queue).Pairwise fun earlier later =>
    distance links start earlier ≤ distance links start later
  close : ∀ item ∈ queue, ∀ other ∈ served ++ queue,
    distance links start other ≤ distance links start item + 1

namespace Serving

variable {α : Type} {links : α → List α} {start current : α} {served queue : List α}

theorem init (links : α → List α) (start : α) : Serving links start [] [start] where
  distinct := nodup_singleton start
  starts := mem_singleton_self start
  reached item isIn := mem_singleton.mp isIn ▸ ⟨0, .here⟩
  closed _ isIn := absurd isIn not_mem_nil
  ordered := pairwise_singleton _ start
  close item isIn other isOther := by
    rw [mem_singleton.mp isIn, mem_singleton.mp isOther]
    exact Nat.le_succ _

theorem head_le (serving : Serving links start served (current :: queue)) {item : α}
    (waits : item ∈ current :: queue) :
    distance links start current ≤ distance links start item := by
  rcases mem_cons.mp waits with rfl | isLater
  · exact Nat.le_refl _
  · have waiting := (pairwise_append.mp serving.ordered).2.1
    exact (pairwise_cons.mp waiting).1 item isLater

/-- The way there leaves what was served through one that waits. -/
theorem head_lt (serving : Serving links start served (current :: queue)) {item : α}
    (reaches : Reaches links start item) (isNew : item ∉ served ++ current :: queue) :
    distance links start current < distance links start item := by
  generalize length : distance links start item = steps
  induction steps using Nat.strong_induction_on generalizing item with
  | _ _ ih =>
    have notStart : item ≠ start := fun same => isNew (same ▸ serving.starts)
    obtain ⟨nearer, reachesNearer, isLink, lt⟩ := reaches.exists_nearer notStart
    by_cases isServed : nearer ∈ served
    · exact absurd (serving.closed nearer isServed item isLink) isNew
    · by_cases waits : nearer ∈ current :: queue
      · exact Nat.lt_of_le_of_lt (serving.head_le waits) (length ▸ lt)
      · have unseenYet : nearer ∉ served ++ current :: queue := by
          rw [mem_append]
          exact not_or.mpr ⟨isServed, waits⟩
        exact Nat.lt_trans (ih _ (length ▸ lt) reachesNearer unseenYet rfl) (length ▸ lt)

end Serving

theorem seen_step {α : Type} (served queue fresh : List α) (current : α) :
    served ++ [current] ++ (queue ++ fresh) = served ++ current :: queue ++ fresh := by
  simp

variable {α : Type} [BEq α] [LawfulBEq α] {links : α → List α}

theorem mem_unseen {seen : List α} {current item : α} :
    item ∈ unseen links seen current ↔ item ∈ links current ∧ item ∉ seen := by
  simp [unseen]

namespace Serving

variable {start current : α} {served queue : List α}

theorem step (serving : Serving links start served (current :: queue)) :
    Serving links start (served ++ [current])
      (queue ++ unseen links (served ++ current :: queue) current) := by
  have reachesCurrent : Reaches links start current := serving.reached current (by simp)
  have fresh : ∀ item ∈ unseen links (served ++ current :: queue) current,
      distance links start item = distance links start current + 1 := by
    intro item isFresh
    obtain ⟨isLink, isNew⟩ := mem_unseen.mp isFresh
    exact Nat.le_antisymm (reachesCurrent.distance_next_le isLink)
      (serving.head_lt (reachesCurrent.step isLink) isNew)
  have near : ∀ item ∈ served ++ current :: queue,
      distance links start item ≤ distance links start current + 1 :=
    serving.close current mem_cons_self
  constructor
  · rw [seen_step, nodup_append]
    refine ⟨serving.distinct, nodup_eraseDups _, ?_⟩
    rintro item isSeen _ isFresh rfl
    exact (mem_unseen.mp isFresh).2 isSeen
  · rw [seen_step]
    exact mem_append_left _ serving.starts
  · rw [seen_step]
    intro item isIn
    rcases mem_append.mp isIn with isSeen | isFresh
    · exact serving.reached item isSeen
    · exact reachesCurrent.step (mem_unseen.mp isFresh).1
  · rw [seen_step]
    intro item isServed next isLink
    rcases mem_append.mp isServed with isEarlier | isCurrent
    · exact mem_append_left _ (serving.closed item isEarlier next isLink)
    · by_cases isSeen : next ∈ served ++ current :: queue
      · exact mem_append_left _ isSeen
      · rw [mem_singleton.mp isCurrent] at isLink
        exact mem_append_right _ (mem_unseen.mpr ⟨isLink, isSeen⟩)
  · rw [seen_step, pairwise_append]
    refine ⟨serving.ordered, ?_, ?_⟩
    · apply pairwise_of_forall_mem_list
      intro earlier isEarlier later isLater
      rw [fresh earlier isEarlier, fresh later isLater]
    · intro earlier isEarlier later isLater
      rw [fresh later isLater]
      exact near earlier isEarlier
  · rw [seen_step]
    intro item waits other isOther
    have noNearer : distance links start current ≤ distance links start item := by
      rcases mem_append.mp waits with isOld | isFresh
      · exact serving.head_le (mem_cons_of_mem _ isOld)
      · rw [fresh item isFresh]
        exact Nat.le_succ _
    have otherNear : distance links start other ≤ distance links start current + 1 := by
      rcases mem_append.mp isOther with isSeen | isFresh
      · exact near other isSeen
      · exact Nat.le_of_eq (fresh other isFresh)
    omega

theorem serve (rounds : Nat) (serving : Serving links start served queue) :
    ∃ rest, Serving links start
        (served ++ BreadthFirst.serve links rounds queue (served ++ queue)) rest ∧
      (rest = [] ∨ (BreadthFirst.serve links rounds queue (served ++ queue)).length = rounds) := by
  induction rounds generalizing served queue with
  | zero =>
    refine ⟨queue, ?_, Or.inr rfl⟩
    rw [BreadthFirst.serve, append_nil]
    exact serving
  | succ _ ih =>
    cases queue with
    | nil =>
      refine ⟨[], ?_, Or.inl rfl⟩
      rw [BreadthFirst.serve, append_nil]
      exact serving
    | cons =>
      obtain ⟨rest, serving, ends⟩ := ih serving.step
      rw [seen_step] at serving ends
      refine ⟨rest, ?_, ends.imp id (congrArg Nat.succ)⟩
      rw [append_assoc] at serving
      exact serving

end Serving

section Walks

variable {start : α} {items : List α} (within : ∀ item, Reaches links start item → item ∈ items)
  {rounds : Nat} (enough : items.length ≤ rounds)

include within enough

theorem serving_walk : Serving links start (walk links rounds start) [] := by
  obtain ⟨rest, serving, isDone | length⟩ := (Serving.init links start).serve rounds
  · exact isDone ▸ serving
  · rw [nil_append] at length serving
    have bounded : (walk links rounds start ++ rest).length ≤ items.length :=
      (serving.distinct.subperm fun item isIn => within item (serving.reached item isIn)).length_le
    have noRest : rest = [] := by
      rw [length_append, walk, length] at bounded
      exact eq_nil_of_length_eq_zero (by omega)
    exact noRest ▸ serving

theorem mem_walk {item : α} : item ∈ walk links rounds start ↔ Reaches links start item := by
  have serving := serving_walk within enough
  constructor
  · intro isIn
    exact serving.reached item (mem_append_left [] isIn)
  · rintro ⟨steps, leads⟩
    induction leads with
    | here => simpa using serving.starts
    | on _ isLink ih => simpa using serving.closed _ ih _ isLink

theorem nodup_walk : (walk links rounds start).Nodup := by
  simpa using (serving_walk within enough).distinct

theorem walk_ordered : (walk links rounds start).Pairwise fun earlier later =>
    distance links start earlier ≤ distance links start later := by
  simpa using (serving_walk within enough).ordered

omit [LawfulBEq α] in
theorem head?_walk : (walk links rounds start).head? = some start := by
  have listed : start ∈ items := within start ⟨0, .here⟩
  obtain ⟨rounds, rfl⟩ := Nat.exists_eq_succ_of_ne_zero
    (Nat.ne_of_gt (Nat.lt_of_lt_of_le (length_pos_of_mem listed) enough))
  rfl

omit [LawfulBEq α] within enough in
theorem serve_prefix_add (rounds more : Nat) (queue seen : List α) :
    serve links rounds queue seen <+: serve links (rounds + more) queue seen := by
  induction rounds generalizing queue seen with
  | zero => exact nil_prefix
  | succ _ ih =>
    cases queue with
    | nil => exact nil_prefix
    | cons =>
      rw [Nat.add_right_comm]
      exact cons_prefix_cons.mpr ⟨rfl, ih _ _⟩

theorem walk_eq_of_enough : walk links rounds start = walk links items.length start := by
  obtain ⟨more, rfl⟩ := Nat.exists_eq_add_of_le enough
  have sameItems : (walk links items.length start).Perm (walk links (items.length + more) start) :=
    (perm_ext_iff_of_nodup (nodup_walk within (Nat.le_refl _)) (nodup_walk within enough)).mpr
      fun _ => (mem_walk within (Nat.le_refl _)).trans (mem_walk within enough).symm
  exact ((serve_prefix_add items.length more [start] [start]).eq_of_length sameItems.length_eq).symm

end Walks

section Sweeping

def remaining (weight : α → Nat) (order : List α) : List α → Nat
  | [] => 0
  | item :: rest => (if order.contains item then 0 else weight item) + remaining weight order rest

variable (weight : α → Nat) {order items : List α} {current : α}

theorem remaining_append_le (order items : List α) (current : α) :
    remaining weight (order ++ [current]) items ≤ remaining weight order items := by
  induction items with
  | nil => exact Nat.le_refl _
  | cons item =>
    have term : (if (order ++ [current]).contains item then 0 else weight item) ≤
        if order.contains item then 0 else weight item := by
      by_cases isServed : item ∈ order <;> by_cases isCurrent : item = current <;>
        simp [isServed, isCurrent]
    simp only [remaining]
    omega

theorem remaining_append_add_le (isItem : current ∈ items) (isNew : current ∉ order) :
    remaining weight (order ++ [current]) items + weight current ≤
      remaining weight order items := by
  induction items with
  | nil => cases isItem
  | cons item rest ih =>
    have others := remaining_append_le weight order rest current
    rcases mem_cons.mp isItem with rfl | isLater
    · simp only [remaining, contains_eq_mem, isNew]
      simp
      omega
    · have later := ih isLater
      have one := remaining_append_le weight order [item] current
      simp only [remaining] at one ⊢
      omega

theorem eraseDups_append_links {seen distinct : List α} (same : seen.eraseDups = distinct) :
    (seen ++ links current).eraseDups = distinct ++ unseen links distinct current := by
  rw [eraseDups_append, same, removeAll, unseen, ← same]
  simp only [elem_eq_contains, contains_eq_mem, mem_eraseDups]

theorem eq_nil_of_eraseDups {queue : List α} (same : (order ++ []).eraseDups = order ++ queue) :
    queue = [] := by
  have distinct : (order ++ queue).Nodup := same ▸ nodup_eraseDups _
  rw [append_nil, eraseDups_of_nodup (nodup_append.mp distinct).1] at same
  exact (append_right_eq_self.mp same.symm)

theorem sweep_eq_serve (closed : ∀ item ∈ items, ∀ next ∈ links item, next ∈ items) :
    ∀ {rounds more : Nat} {waiting queue order : List α}, (∀ item ∈ waiting, item ∈ items) →
      (order ++ waiting).eraseDups = order ++ queue →
      waiting.length + remaining (fun item => (links item).length) order items ≤ rounds →
      remaining (fun _ => 1) order items ≤ more →
      sweep links rounds waiting order = order ++ serve links more queue (order ++ queue) := by
  intro rounds
  induction rounds with
  | zero =>
    intro more waiting queue order _ same enough _
    obtain rfl : waiting = [] := eq_nil_of_length_eq_zero (by omega)
    rw [eq_nil_of_eraseDups same, sweep]
    cases more <;> simp [serve]
  | succ _ ih =>
    intro more waiting queue order within same enough enoughMore
    cases waiting with
    | nil =>
      rw [eq_nil_of_eraseDups same, sweep]
      cases more <;> simp [serve]
    | cons current rest =>
      have restWithin : ∀ item ∈ rest, item ∈ items :=
        fun item isIn => within item (mem_cons_of_mem _ isIn)
      have isItem : current ∈ items := within current mem_cons_self
      rw [length_cons] at enough
      rw [sweep]
      split
      next isServed =>
        have passed : (order ++ current :: rest).eraseDups = (order ++ rest).eraseDups :=
          eraseDups_append_cons (contains_iff_mem.mp isServed) rest
        exact ih restWithin (passed.symm.trans same) (by omega) enoughMore
      next isNew =>
        rw [contains_iff_mem] at isNew
        -- the first that waits is the first that is new
        obtain ⟨later, rfl⟩ : ∃ later, queue = current :: later := by
          have distinct : (order ++ queue).Nodup := same ▸ nodup_eraseDups _
          have distinctOrder := (nodup_append.mp distinct).1
          rw [eraseDups_append, eraseDups_of_nodup distinctOrder,
            cons_removeAll, if_pos (by simpa using isNew), eraseDups_cons] at same
          exact ⟨_, (append_cancel_left same).symm⟩
        have lessLinks :=
          remaining_append_add_le (fun item => (links item).length) isItem isNew
        have lessItems := remaining_append_add_le (fun _ => 1) isItem isNew
        cases more with
        | zero => omega
        | succ more =>
          have sameLater : (order ++ [current] ++ (rest ++ links current)).eraseDups =
              order ++ [current] ++
                (later ++ unseen links (order ++ current :: later) current) := by
            rw [seen_step, eraseDups_append_links same, seen_step]
          have fewer : remaining (fun _ => 1) (order ++ [current]) items ≤ more := by omega
          have swept := ih
            (forall_mem_append.mpr ⟨restWithin, closed current isItem⟩) sameLater
            (by rw [length_append]; omega) fewer
          rw [swept, seen_step, append_assoc]
          rfl

end Sweeping

section Naming

variable {β : Type} [BEq β] [LawfulBEq β] {named : β → List β} {name : α → β}
  {Known : α → Prop} (closed : ∀ item, Known item → ∀ next ∈ links item, Known next)
  (agree : ∀ item, Known item → named (name item) = (links item).map name)
  (apart : ∀ first second, Known first → Known second → name first = name second → first = second)

include closed agree apart

theorem unseen_map {seen : List α} (known : ∀ item ∈ seen, Known item) {current : α}
    (isKnown : Known current) :
    unseen named (seen.map name) (name current) = (unseen links seen current).map name := by
  have new : (links current).filter ((fun item => !(seen.map name).contains item) ∘ name) =
      (links current).filter fun item => !seen.contains item := by
    apply filter_congr
    intro item isLink
    have isItem := closed current isKnown item isLink
    have same : name item ∈ seen.map name ↔ item ∈ seen := by
      refine ⟨?_, mem_map_of_mem⟩
      intro isNamed
      obtain ⟨other, isSeen, sameName⟩ := mem_map.mp isNamed
      exact apart other item (known other isSeen) isItem sameName ▸ isSeen
    simp only [Function.comp_apply, contains_eq_mem, same]
  rw [unseen, unseen, agree current isKnown, filter_map, new, eraseDups_map]
  intro first isFirst second isSecond
  exact apart first second (closed current isKnown first (mem_filter.mp isFirst).1)
    (closed current isKnown second (mem_filter.mp isSecond).1)

theorem serve_map (rounds : Nat) : ∀ {queue seen : List α}, (∀ item ∈ queue, Known item) →
    (∀ item ∈ seen, Known item) →
    serve named rounds (queue.map name) (seen.map name) =
      (serve links rounds queue seen).map name := by
  induction rounds with
  | zero => exact fun _ _ => rfl
  | succ _ ih =>
    intro queue seen waits known
    cases queue with
    | nil => rfl
    | cons current =>
      obtain ⟨isKnown, others⟩ := forall_mem_cons.mp waits
      have fresh : ∀ item ∈ unseen links seen current, Known item :=
        fun item isFresh => closed current isKnown item (mem_unseen.mp isFresh).1
      simp only [serve, map_cons, unseen_map closed agree apart known isKnown, ← map_append]
      rw [ih (forall_mem_append.mpr ⟨others, fresh⟩) (forall_mem_append.mpr ⟨known, fresh⟩)]

end Naming

end PyStatic.BreadthFirst
