import PyStatic.Proofs.Binding.SymbolNames

/-!
Contract: the names that scopes have symbols for are those that a survey binds or declares there.
-/

namespace PyStatic

open List

namespace SymbolTable

def Binds (table : SymbolTable) (scope : ScopeId) (name : String) : Prop :=
  (table.lookup? scope name).isSome = true

instance (table : SymbolTable) (scope : ScopeId) (name : String) :
    Decidable (table.Binds scope name) :=
  inferInstanceAs (Decidable (_ = true))

variable {table post : SymbolTable}

theorem binds_congr (same : post.bound = table.bound) (scope : ScopeId) (name : String) :
    post.Binds scope name ↔ table.Binds scope name := by
  rw [Binds, Binds, lookup?_congr same]

theorem binds_bind (table : SymbolTable) (scope : ScopeId) (name : String) (id : SymbolId)
    (otherScope : ScopeId) (otherName : String) :
    (table.bind scope name id).Binds otherScope otherName ↔
      table.Binds otherScope otherName ∨ (otherScope = scope ∧ otherName = name) := by
  rw [Binds, Binds, lookup?_bind]
  split
  next same => exact iff_of_true rfl (.inr ⟨same.1.symm, same.2.symm⟩)
  next different =>
    refine (or_iff_left ?_).symm
    rintro ⟨rfl, rfl⟩
    exact different ⟨rfl, rfl⟩

theorem not_binds_empty (scope : ScopeId) (name : String) :
    ¬SymbolTable.empty.Binds scope name := by
  rw [Binds, lookup?_empty]
  exact Bool.false_ne_true

end SymbolTable

namespace Merging

open SymbolTable

variable {settings : Settings} {merging : Merging}

theorem add_bound (tidy : merging.Tidy settings) (around : Surroundings) (scope : ScopeId)
    (path name : String) (binding : Binding) :
    (merging.add around scope path name binding).resolution.table.bound =
      merging.resolution.table.bound := by
  have sound := tidy.resolution.sound
  rw [add]
  cases merging.common? binding.origin with
  | some id => exact (gains_extend sound around id binding.origin).bound
  | none =>
    have pushed := (gains_pushSymbol sound around scope path name binding.origin).1.bound
    dsimp only
    generalize pushSymbol around scope path name merging.resolution.table binding.origin =
      result at pushed ⊢
    obtain ⟨table, id⟩ := result
    show (define id binding.origin { merging.resolution with table }).table.bound = _
    rw [table_define]
    exact pushed

def Settled (merging : Merging) : Prop :=
  merging.shared.isSome = true → merging.alternatives ≠ []

theorem add_alternatives (settled : merging.Settled) (around : Surroundings) (scope : ScopeId)
    (path name : String) (binding : Binding) :
    (merging.add around scope path name binding).alternatives ≠ [] := by
  rw [add]
  cases common : merging.common? binding.origin with
  | none => exact append_ne_nil_of_right_ne_nil _ (cons_ne_nil _ _)
  | some =>
    rcases common?_eq_some common with shared | mem
    · exact settled (Option.isSome_of_eq_some shared)
    · exact ne_nil_of_mem mem

theorem foldl_add_bound (around : Surroundings) (scope : ScopeId) (path name : String)
    (bindings : List Binding) : ∀ {merging : Merging}, merging.Tidy settings → merging.Settled →
    let merged := bindings.foldl (add around scope path name) merging
    merged.resolution.table.bound = merging.resolution.table.bound ∧
      (bindings ≠ [] ∨ merging.alternatives ≠ [] → merged.alternatives ≠ []) := by
  induction bindings with
  | nil =>
    intro merging _ _
    exact ⟨rfl, fun some' => some'.resolve_left fun different => different rfl⟩
  | cons binding _ ih =>
    intro merging tidy settled
    have isThere := add_alternatives settled around scope path name binding
    obtain ⟨sameBound, alternatives⟩ := ih
      (add_tidy tidy around scope path name binding).1 fun _ => isThere
    exact ⟨sameBound.trans (add_bound tidy around scope path name binding),
      fun _ => alternatives (.inr isThere)⟩

theorem finish_bound (merging : Merging) :
    merging.finish.1.table.bound = merging.resolution.table.bound := by
  rw [finish]
  split
  · rfl
  · rfl
  · exact bound_unite _ _

theorem finish_isSome (isThere : merging.alternatives ≠ []) : merging.finish.2.isSome = true := by
  rw [finish]
  split
  next none' => exact absurd none' isThere
  next => rfl
  next =>
    rw [unite]
    cases merging.resolution.table.pushAmbiguous merging.alternatives with
    | ok => rfl
    | error =>
      apply Option.isSome_iff_ne_none.mpr
      intro absent
      exact isThere (getLast?_eq_none_iff.mp absent)

end Merging

namespace Resolution

open SymbolTable

variable {settings : Settings} {resolution : Resolution} {bindings : List Binding}

theorem bindName_eq (tidy : resolution.Tidy settings) (around : Surroundings) (tree : ScopeTree)
    (scope : ScopeId) {name : String} (isBound : name ∈ bindings.map (·.name)) :
    let merging := (bindings.filter (·.name == name)).foldl
      (Merging.add around scope (tree.pathOf scope) name) ⟨resolution, [], none⟩
    ∃ id, merging.finish.2 = some id ∧ merging.finish.1.table.bound = resolution.table.bound ∧
      resolution.bindName around tree scope bindings name =
        { merging.finish.1 with
          table := (merging.finish.1.table.setScope id scope).bind scope name id } := by
  have opened : Merging.Tidy settings ⟨resolution, [], none⟩ := ⟨tidy, nofun, nofun⟩
  have some' : bindings.filter (·.name == name) ≠ [] := by
    obtain ⟨binding, mem, rfl⟩ := mem_map.mp isBound
    exact ne_nil_of_mem (mem_filter.mpr ⟨mem, beq_self_eq_true _⟩)
  obtain ⟨sameBound, isThere⟩ := Merging.foldl_add_bound around scope (tree.pathOf scope) name
    (bindings.filter (·.name == name)) opened nofun
  rw [bindName]
  generalize (bindings.filter (·.name == name)).foldl
    (Merging.add around scope (tree.pathOf scope) name) ⟨resolution, [], none⟩ = merging
    at sameBound isThere ⊢
  obtain ⟨id, isId⟩ := Option.isSome_iff_exists.mp (Merging.finish_isSome (isThere (.inl some')))
  refine ⟨id, isId, merging.finish_bound.trans sameBound, ?_⟩
  dsimp only
  generalize merging.finish = result at isId ⊢
  obtain ⟨last, id?⟩ := result
  obtain rfl : id? = some id := isId
  rfl

theorem bindName_binds (tidy : resolution.Tidy settings) (around : Surroundings) (tree : ScopeTree)
    (scope : ScopeId) {name : String} (isBound : name ∈ bindings.map (·.name))
    (otherScope : ScopeId) (otherName : String) :
    (resolution.bindName around tree scope bindings name).table.Binds otherScope otherName ↔
      resolution.table.Binds otherScope otherName ∨ (otherScope = scope ∧ otherName = name) := by
  obtain ⟨id, _, sameBound, way⟩ := bindName_eq tidy around tree scope isBound
  rw [way, binds_bind]
  exact or_congr_left (binds_congr sameBound otherScope otherName)

theorem foldl_binds {α : Type} {step : Resolution → α → Resolution}
    {binds : α → ScopeId → String → Prop} (items : List α)
    (steps : ∀ resolution, ∀ item ∈ items, resolution.Tidy settings →
      (step resolution item).Tidy settings ∧ ∀ scope name,
        (step resolution item).table.Binds scope name ↔
          resolution.table.Binds scope name ∨ binds item scope name) :
    ∀ {resolution : Resolution}, resolution.Tidy settings → ∀ scope name,
      (items.foldl step resolution).table.Binds scope name ↔
        resolution.table.Binds scope name ∨ ∃ item ∈ items, binds item scope name := by
  induction items with
  | nil =>
    intro resolution _ scope name
    simp only [foldl_nil, not_mem_nil, false_and, exists_false, or_false]
  | cons item _ ih =>
    intro resolution tidy scope name
    obtain ⟨firstTidy, first⟩ := steps resolution item mem_cons_self tidy
    rw [foldl_cons, ih (fun resolution other mem =>
      steps resolution other (mem_cons_of_mem _ mem)) firstTidy, first,
      exists_mem_cons_iff, or_assoc]

theorem bindScope_binds (tidy : resolution.Tidy settings) (around : Surroundings) (survey : Survey)
    (scope : ScopeId) (otherScope : ScopeId) (otherName : String) :
    (resolution.bindScope around survey scope).table.Binds otherScope otherName ↔
      resolution.table.Binds otherScope otherName ∨
        (otherScope = scope ∧ ∃ binding ∈ survey.bindings,
          binding.target = scope ∧ binding.name = otherName) := by
  let bindings := survey.bindings.filter (·.target == scope)
  have each := foldl_binds (bindings.map (·.name)).eraseDups (fun resolution name mem tidy =>
    ⟨(bindName_tidy tidy around survey.scopes scope bindings name).1,
      bindName_binds tidy around survey.scopes scope (mem_eraseDups.mp mem)⟩) tidy
    otherScope otherName
  refine each.trans (or_congr_right ?_)
  constructor
  · rintro ⟨_, mem, rfl, rfl⟩
    obtain ⟨binding, isBinding, rfl⟩ := mem_map.mp (mem_eraseDups.mp mem)
    obtain ⟨mem, isHere⟩ := mem_filter.mp isBinding
    exact ⟨rfl, binding, mem, eq_of_beq isHere, rfl⟩
  · rintro ⟨rfl, binding, mem, rfl, rfl⟩
    have isBinding : binding ∈ bindings := mem_filter.mpr ⟨mem, beq_self_eq_true _⟩
    exact ⟨binding.name, mem_eraseDups.mpr (mem_map_of_mem isBinding), rfl, rfl⟩

theorem ofBindings_binds (around : Surroundings) {survey : Survey} (wellFormed : survey.WellFormed)
    (scope : ScopeId) (name : String) :
    (ofBindings around survey).table.Binds scope name ↔
      ∃ binding ∈ survey.bindings, binding.target = scope ∧ binding.name = name := by
  have each := foldl_binds survey.scopes.ids (fun resolution scope _ tidy =>
    ⟨(bindScope_tidy tidy around survey scope).1, bindScope_binds tidy around survey scope⟩)
    (tidy_empty around.settings) scope name
  refine each.trans ((or_iff_right (not_binds_empty scope name)).trans ?_)
  constructor
  · rintro ⟨_, _, rfl, binding, mem, sameScope, sameName⟩
    exact ⟨binding, mem, sameScope, sameName⟩
  · rintro ⟨binding, mem, rfl, rfl⟩
    exact ⟨binding.target, List.mem_range.mpr (wellFormed.target_lt binding mem), rfl, binding, mem,
      rfl, rfl⟩

theorem addDeclaration_binds (tree : ScopeTree) (resolution : Resolution)
    (declaration : Declaration) (scope : ScopeId) (name : String) :
    (resolution.addDeclaration tree declaration).table.Binds scope name ↔
      resolution.table.Binds scope name ∨
        (declaredScope? tree declaration = some scope ∧ declaration.name.text = name) := by
  rcases addDeclaration_cases tree resolution declaration with ⟨undeclared, way⟩ |
    ⟨target, declared, ⟨id, found, way⟩ | ⟨_, way⟩⟩
  · rw [way, undeclared]
    exact (or_iff_left fun declared => nomatch declared.1).symm
  · rw [way, declared]
    refine (or_iff_left_of_imp ?_).symm
    rintro ⟨⟨⟩, rfl⟩
    exact Option.isSome_of_eq_some found
  · rw [way, declared]
    refine (binds_bind _ target declaration.name.text _ scope name).trans (or_congr_right ?_)
    rw [Option.some_inj]
    exact and_congr eq_comm eq_comm

end Resolution

namespace Model

open Resolution SymbolTable

theorem resolve_binds (around : Surroundings) {survey : Survey} (wellFormed : survey.WellFormed)
    (scope : ScopeId) (name : String) :
    (resolve around survey).table.Binds scope name ↔
      (∃ binding ∈ survey.bindings, binding.target = scope ∧ binding.name = name) ∨
        ∃ declaration ∈ survey.declarations,
          declaredScope? survey.scopes declaration = some scope ∧ declaration.name.text = name := by
  have sameBound := (resolve_records around wellFormed).gains.bound.trans
    (read_records around wellFormed).1.gains.bound
  have declarations := foldl_binds survey.declarations (fun resolution declaration _ tidy =>
    ⟨(addDeclaration_tidy tidy survey.scopes declaration).1,
      addDeclaration_binds survey.scopes resolution declaration⟩)
    (ofBindings_tidy around.settings around wellFormed).1 scope name
  exact (binds_congr sameBound scope name).trans
    (declarations.trans (or_congr_left (ofBindings_binds around wellFormed scope name)))

end Model

end PyStatic
