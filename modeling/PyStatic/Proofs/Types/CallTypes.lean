import PyStatic.Proofs.Binding.Usages
import PyStatic.Proofs.Types.Questions

/-!
Contract: the type of calling an ambiguous symbol.

A union keeps the first of several types that agree, and classes agree by their names alone. So of
two alternatives that are classes with one name, what only the second can be is lost.
-/

namespace PyStatic

namespace ValueType

variable {ask : ValueType → Bool} {types : List ValueType}

theorem eq_any_of_same {type : ValueType} (agree : type.same any = true) : type = any := by
  cases type with
  | any => rfl
  | _ => simp [same] at agree

theorem BySome.unionOf_iff (bySome : BySome ask) (askAny : ask any = true)
    (normal : ∀ type ∈ types, type.NormalForm) (nonempty : types ≠ []) :
    ask (unionOf types) = true ↔
      ∃ type ∈ firstOccurrences (types.flatMap (·.members)), ask type = true := by
  have single := single_of_mem_flatMap normal
  rw [← addNew_nil_eq_firstOccurrences single]
  by_cases isIn : any ∈ types
  · have isPart : any ∈ types.flatMap (·.members) :=
      List.mem_flatMap.mpr ⟨any, isIn, List.mem_singleton_self any⟩
    obtain ⟨kept, isKept, agree⟩ := @exists_same_of_mem any [] _ isPart rfl
    rw [unionOf_eq_any_of_mem isIn]
    exact iff_of_true askAny ⟨kept, isKept, eq_any_of_same agree ▸ askAny⟩
  · rw [bySome, members_unionOf normal isIn nonempty, List.any_eq_true]
    rfl

theorem BySome.unionOf_uniform (bySome : BySome ask) (askAny : ask any = true)
    (normal : ∀ type ∈ types, type.NormalForm) (nonempty : types ≠ [])
    (uniform : Uniform ask (types.flatMap (·.members))) : ask (unionOf types) = types.any ask := by
  by_cases isIn : any ∈ types
  · rw [unionOf_eq_any_of_mem isIn, askAny]
    exact (List.any_eq_true.mpr ⟨any, isIn, askAny⟩).symm
  · exact bySome.unionOf_eq_any normal isIn nonempty uniform

end ValueType

namespace Model

open ValueType

variable {model : Model} {id : SymbolId}

theorem callResultWithin_of_plain (isPlain : model.table.Plain id) (depth : Nat) :
    model.callResultWithin (depth + 1) id = model.callResultWithin 1 id := by
  obtain ⟨symbol, found, isPlain⟩ := isPlain
  simp only [callResultWithin, found]
  cases isData : symbol.data with
  | ambiguous => exact absurd (congrArg SymbolData.kind isData) isPlain
  | _ => rfl

section Ambiguous

variable (sound : model.table.Sound) {symbol : Symbol} {alternatives : List SymbolId}
  (found : model.table.get? id = some symbol) (isData : symbol.data = .ambiguous alternatives)

include sound found isData

theorem callResult_eq_unionOf :
    model.callResult id = .unionOf (alternatives.map model.callResult) := by
  have plain := (sound id symbol alternatives found isData).2.2.2
  have inRange := SymbolTable.lt_size_of_get? found
  obtain ⟨depth, isSize⟩ := Nat.exists_eq_succ_of_ne_zero (Nat.ne_zero_of_lt inRange)
  have opened : model.callResult id =
      .unionOf (alternatives.map (model.callResultWithin depth)) := by
    simp only [callResult, isSize, callResultWithin, found, isData]
  rw [opened]
  congr 1
  apply List.map_congr_left
  intro alternative isAlternative
  obtain ⟨other, otherFound, isPlain⟩ := plain alternative isAlternative
  -- an alternative is another symbol than the one it belongs to, so there is depth for it
  have notSame : alternative ≠ id := by
    rintro rfl
    obtain rfl := Option.some.inj (found.symm.trans otherFound)
    exact isPlain (congrArg SymbolData.kind isData)
  have otherInRange := SymbolTable.lt_size_of_get? otherFound
  have isDeep : depth ≠ 0 := by
    rintro rfl
    rw [isSize] at inRange otherInRange
    exact notSame ((Nat.lt_one_iff.mp otherInRange).trans (Nat.lt_one_iff.mp inRange).symm)
  obtain ⟨depth, rfl⟩ := Nat.exists_eq_succ_of_ne_zero isDeep
  rw [callResult, isSize]
  have shallow := callResultWithin_of_plain (plain alternative isAlternative)
  exact (shallow depth).trans (shallow (depth + 1)).symm

theorem calls_ne_nil : alternatives.map model.callResult ≠ [] := by
  have several := (sound id symbol alternatives found isData).2.1
  rw [ne_eq, List.map_eq_nil_iff]
  exact List.ne_nil_of_length_pos (Nat.lt_of_lt_of_le Nat.two_pos several)

end Ambiguous

theorem normalForm_calls (model : Model) (alternatives : List SymbolId) :
    ∀ type ∈ alternatives.map model.callResult, type.NormalForm := by
  intro type isCall
  obtain ⟨alternative, _, rfl⟩ := List.mem_map.mp isCall
  exact closed_normalForm.callResult model alternative

theorem sound_ofModule (around : Surroundings) (module' : Module) :
    (Model.ofModule around module').table.Sound :=
  (resolve_records around (Survey.wellFormed_ofModule around module')).tidy.sound

theorem data_of_alternatives {table : SymbolTable} (isAmbiguous : table.alternatives id ≠ []) :
    ∃ symbol, table.get? id = some symbol ∧ symbol.data = .ambiguous (table.alternatives id) := by
  cases found : table.get? id with
  | none => exact absurd (by rw [SymbolTable.alternatives, found]; rfl) isAmbiguous
  | some symbol =>
    rw [SymbolTable.alternatives_of_get? found, Symbol.alternatives] at isAmbiguous ⊢
    cases isData : symbol.data with
    | ambiguous => exact ⟨symbol, rfl, by rw [isData]⟩
    | _ => exact absurd (by rw [isData]) isAmbiguous

/-- Calling an ambiguous symbol gives the union of what calling its alternatives gives. -/
theorem callResult_ambiguous (around : Surroundings) (module' : Module) (id : SymbolId)
    (isAmbiguous : (Model.ofModule around module').table.alternatives id ≠ []) :
    let model := Model.ofModule around module'
    let calls := (model.table.alternatives id).map model.callResult
    model.callResult id = .unionOf calls ∧
    (∀ name,
      ((model.callResult id).canBeOrExtend name = true ↔
        ∃ type ∈ firstOccurrences (calls.flatMap (·.members)), type.canBeOrExtend name = true) ∧
      ((model.callResult id).canHaveMember name = true ↔
        ∃ type ∈ firstOccurrences (calls.flatMap (·.members)), type.canHaveMember name = true)) ∧
    ((∀ left ∈ calls.flatMap (·.members), ∀ right ∈ calls.flatMap (·.members),
        left.same right = true → left.Agrees right) → ∀ name,
      (model.callResult id).canBeOrExtend name = calls.any (·.canBeOrExtend name) ∧
      (model.callResult id).canHaveMember name = calls.any (·.canHaveMember name)) ∧
    ∀ alternative ∈ model.table.alternatives id, model.callResult id = .any ∨
      ∀ member ∈ (model.callResult alternative).members,
        ∃ kept ∈ (model.callResult id).members, kept.same member = true := by
  intro model calls
  have sound := sound_ofModule around module'
  obtain ⟨symbol, found, isData⟩ := data_of_alternatives isAmbiguous
  have isUnion : model.callResult id = .unionOf calls := callResult_eq_unionOf sound found isData
  have nonempty : calls ≠ [] := calls_ne_nil sound found isData
  have normal : ∀ type ∈ calls, type.NormalForm := normalForm_calls model _
  have single := single_of_mem_flatMap normal
  refine ⟨isUnion, ?_, ?_, ?_⟩ <;> rw [isUnion]
  · intro name
    exact ⟨(canBeOrExtend_bySome name).unionOf_iff rfl normal nonempty,
      (canHaveMember_bySome name).unionOf_iff rfl normal nonempty⟩
  · intro agreeing name
    exact ⟨(canBeOrExtend_bySome name).unionOf_uniform rfl normal nonempty
        (uniform_canBeOrExtend single agreeing name),
      (canHaveMember_bySome name).unionOf_uniform rfl normal nonempty
        (uniform_canHaveMember single agreeing name)⟩
  · intro alternative isAlternative
    by_cases isIn : any ∈ calls
    · exact .inl (unionOf_eq_any_of_mem isIn)
    · right
      intro member isMember
      have isPart : member ∈ calls.flatMap (·.members) :=
        List.mem_flatMap.mpr ⟨_, List.mem_map_of_mem isAlternative, isMember⟩
      rw [members_unionOf normal isIn nonempty]
      exact exists_same_of_mem isPart (single member isPart)

end Model

def Module.parting (bases others : List String) : Module :=
  let mark (id : NodeId) : Mark := ⟨id, ⟨0, 0⟩⟩
  let argument (id : NodeId) (base : String) : Argument := ⟨none, .name ⟨mark id, base⟩⟩
  let classWith (id : NodeId) (bases : List String) : Stmt :=
    .classDef ⟨mark id, ⟨mark (id + 1), "A"⟩, bases.map (argument (id + 2)), []⟩
      [.simple (mark (id + 3)) .pass]
  ⟨mark 0, [.branch (mark 1) (.name ⟨mark 2, "c"⟩) [classWith 3 bases] [classWith 7 others]]⟩

theorem Model.callResult_parting :
    (Model.ofModule ⟨"", "m.py", none, {}⟩ (.parting ["int"] ["int"])).table.alternatives 2 =
        [0, 1] ∧
      ((Model.ofModule ⟨"", "m.py", none, {}⟩ (.parting ["int"] ["int"])).callResult
        2).canHaveMember "bit_length" = true := by
  have isAmbiguous : (Model.ofModule ⟨"", "m.py", none, {}⟩
      (.parting ["int"] ["int"])).table.alternatives 2 = [0, 1] := by decide +kernel
  obtain ⟨-, -, possible, -⟩ := Model.callResult_ambiguous ⟨"", "m.py", none, {}⟩
    (.parting ["int"] ["int"]) 2 (isAmbiguous ▸ List.cons_ne_nil 0 [1])
  refine ⟨isAmbiguous, ((possible ?_ "bit_length").2).trans ?_⟩
  · decide +kernel
  · decide +kernel

/-- A class that agrees in its names with the first is dropped, with all that it extends. -/
theorem Model.not_every_alternative_possible :
    (¬ ∀ (around : Surroundings) (module' : Module) (id alternative : SymbolId) (name : String),
      alternative ∈ (Model.ofModule around module').table.alternatives id →
      ((Model.ofModule around module').callResult alternative).canBeOrExtend name = true →
      ((Model.ofModule around module').callResult id).canBeOrExtend name = true) ∧
    ¬ ∀ (around : Surroundings) (module' : Module) (id alternative : SymbolId) (name : String),
      alternative ∈ (Model.ofModule around module').table.alternatives id →
      ((Model.ofModule around module').callResult alternative).canHaveMember name = true →
      ((Model.ofModule around module').callResult id).canHaveMember name = true := by
  constructor
  · intro possible
    have extended := possible ⟨"", "m.py", none, {}⟩ (.parting [] ["int"]) 2 1 "int"
      (by decide +kernel) (by decide +kernel)
    exact absurd extended (by decide +kernel)
  · intro possible
    have hasMember := possible ⟨"", "m.py", none, {}⟩ (.parting [] ["int"]) 2 1 "bit_length"
      (by decide +kernel) (by decide +kernel)
    exact absurd hasMember (by decide +kernel)

end PyStatic
