import PyStatic.Proofs.Graph.BreadthFirst
import PyStatic.Symbol.Hierarchy

/-!
Contract: the hierarchy of a class, and the questions about it, are exact on any links.
-/

namespace PyStatic.SymbolTable

open BreadthFirst List

def LinksInside (table : SymbolTable) : Prop :=
  ∀ id, id < table.size → ∀ base ∈ table.superClasses id, base < table.size

instance (table : SymbolTable) : Decidable table.LinksInside :=
  inferInstanceAs (Decidable (∀ id, id < table.size →
    ∀ base ∈ table.superClasses id, base < table.size))

def Declares (table : SymbolTable) (owner : SymbolId) (name : String) (member : SymbolId) : Prop :=
  member ∈ table.members owner ∧ ∃ symbol, table.get? member = some symbol ∧ symbol.name = name

variable {table : SymbolTable} {start : SymbolId} {name : String} {owner member : SymbolId}

theorem named?_eq_some (found : table.named? (table.members owner) name = some member) :
    table.Declares owner name member := by
  refine ⟨mem_of_find?_eq_some found, ?_⟩
  simpa [Option.any_eq_true] using find?_some found

theorem exists_named? (declares : table.Declares owner name member) :
    (table.named? (table.members owner) name).isSome = true := by
  obtain ⟨isMember, symbol, found, isName⟩ := declares
  exact find?_isSome.mpr ⟨member, isMember, by simp [found, isName]⟩

theorem hasUnresolvedHierarchy_iff : table.hasUnresolvedHierarchy start = true ↔
    ∃ id ∈ table.hierarchy start, table.class? id = none ∨
      ∃ info, table.class? id = some info ∧ info.hasUnresolvedBase = true := by
  rw [hasUnresolvedHierarchy, any_eq_true]
  refine exists_congr fun id => and_congr_right fun _ => ?_
  cases table.class? id <;> simp

theorem isSome_member?_iff : (table.member? start name).isSome = true ↔
    ∃ owner ∈ table.hierarchy start, ∃ member, table.Declares owner name member := by
  rw [member?, findSome?_isSome_iff]
  refine exists_congr fun owner => and_congr_right fun _ => ⟨?_, ?_⟩
  · intro found
    obtain ⟨member, found⟩ := Option.isSome_iff_exists.mp found
    exact ⟨member, named?_eq_some found⟩
  · rintro ⟨member, declares⟩
    exact exists_named? declares

theorem member?_first {member : SymbolId} (found : table.member? start name = some member) :
    ∃ before owner after, table.hierarchy start = before ++ owner :: after ∧
      table.Declares owner name member ∧ ∀ earlier ∈ before, ∀ other,
        ¬ table.Declares earlier name other := by
  obtain ⟨before, owner, after, isList, isFound, none'⟩ := findSome?_eq_some_iff.mp found
  refine ⟨before, owner, after, isList, named?_eq_some isFound, ?_⟩
  intro earlier isEarlier other declares
  have isSome := exists_named? declares
  rw [none' earlier isEarlier] at isSome
  cases isSome

theorem LinksInside.mem_range (inside : table.LinksInside) (inRange : start < table.size)
    (id : SymbolId) (reaches : Reaches table.superClasses start id) :
    id ∈ List.range table.size := by
  rw [List.mem_range]
  obtain ⟨steps, leads⟩ := reaches
  induction leads with
  | here => exact inRange
  | on _ isLink ih => exact inside _ ih _ isLink

/-- A hierarchy lists what superclass links lead to, each once and nearer ones first. -/
theorem hierarchy_exact (table : SymbolTable) (inside : table.LinksInside) (start : SymbolId)
    (inRange : start < table.size) :
    (∀ rounds, table.size ≤ rounds →
      walk table.superClasses rounds start = table.hierarchy start) ∧
    (∀ id, id ∈ table.hierarchy start ↔ Reaches table.superClasses start id) ∧
    (table.hierarchy start).Nodup ∧ (table.hierarchy start).head? = some start ∧
    ((table.hierarchy start).Pairwise fun earlier later =>
      distance table.superClasses start earlier ≤ distance table.superClasses start later) ∧
    (table.hasUnresolvedHierarchy start = true ↔
      ∃ id ∈ table.hierarchy start, table.class? id = none ∨
        ∃ info, table.class? id = some info ∧ info.hasUnresolvedBase = true) ∧
    ∀ name, ((table.member? start name).isSome = true ↔
        ∃ owner ∈ table.hierarchy start, ∃ member, table.Declares owner name member) ∧
      ∀ member, table.member? start name = some member →
        ∃ owner ∈ table.hierarchy start, table.Declares owner name member ∧
          ∀ other ∈ table.hierarchy start, (∃ member, table.Declares other name member) →
            distance table.superClasses start owner ≤ distance table.superClasses start other := by
  have within := inside.mem_range inRange
  have enough : (List.range table.size).length ≤ table.size := by rw [List.length_range]
  have ordered := walk_ordered within enough
  refine ⟨?_, fun _ => mem_walk within enough, nodup_walk within enough, head?_walk within enough,
    ordered, hasUnresolvedHierarchy_iff, ?_⟩
  · intro rounds more
    rw [walk_eq_of_enough within (by rwa [List.length_range]), List.length_range, hierarchy]
  · intro name
    refine ⟨isSome_member?_iff, ?_⟩
    intro member found
    obtain ⟨before, owner, after, isList, declares, none'⟩ := member?_first found
    refine ⟨owner, by simp [isList], declares, ?_⟩
    intro other isListed ⟨_, otherDeclares⟩
    rw [← hierarchy, isList] at ordered
    rw [isList, List.mem_append, List.mem_cons] at isListed
    rcases isListed with isBefore | rfl | isAfter
    · exact absurd otherDeclares (none' other isBefore _)
    · exact Nat.le_refl _
    · have behind := (List.pairwise_append.mp ordered).2.1
      exact (List.pairwise_cons.mp behind).1 other isAfter

def circling : SymbolTable :=
  let classOf (name : String) (superClasses members : List SymbolId) : Symbol :=
    .fresh name none (.ofClass { ClassInfo.blank with superClasses, members }) none
  ⟨#[classOf "A" [1] [], classOf "B" [0, 2] [3], .fresh "x" none (.other []) none,
    .fresh "run" none (.function .blank) none], ∅⟩

theorem circling_hierarchy :
    circling.LinksInside ∧ 0 < circling.size ∧
      Reaches circling.superClasses 0 2 ∧ circling.hasUnresolvedHierarchy 0 = true ∧
      ∃ owner ∈ circling.hierarchy 0, circling.Declares owner "run" 3 := by
  have inside : circling.LinksInside := by decide
  obtain ⟨-, listed, -, -, -, unresolved, members⟩ := hierarchy_exact circling inside 0 (by decide)
  obtain ⟨owner, isListed, declares, -⟩ := (members "run").2 3 (by decide)
  exact ⟨inside, by decide, (listed 2).mp (by decide),
    unresolved.mpr ⟨2, by decide, Or.inl (by decide)⟩, owner, isListed, declares⟩

end PyStatic.SymbolTable
