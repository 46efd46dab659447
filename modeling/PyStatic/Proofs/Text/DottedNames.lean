import PyStatic.Text.Dotted

/-!
Contract: cutting a dotted name into its parts and joining them undo each other.
-/

namespace PyStatic

open List

theorem Text.splitChars_eq (separator : Char) (current chars : List Char) :
    Text.splitChars separator current chars =
      (splitOnPPrepend (· == separator) chars current).map String.ofList := by
  induction chars generalizing current with
  | nil => simp [Text.splitChars]
  | cons char _ ih =>
    rw [Text.splitChars, splitOnPPrepend_cons_eq_if]
    by_cases isSeparator : char = separator <;> simp [isSeparator, ih]

namespace Dotted

theorem parts_eq (name : String) : parts name = (name.toList.splitOn '.').map String.ofList :=
  Text.splitChars_eq '.' [] name.toList

theorem map_toList_parts (name : String) :
    (parts name).map String.toList = name.toList.splitOn '.' := by
  simp [parts_eq, Function.comp_def]

theorem parts_ne_nil (name : String) : parts name ≠ [] := by
  simp [parts_eq, splitOn]

theorem ofParts_parts (name : String) : ofParts (parts name) = name := by
  apply String.toList_inj.mp
  rw [ofParts, String.toList_intercalate, map_toList_parts]
  exact intercalate_splitOn '.'

theorem parts_of_not_mem {name : String} (isPlain : '.' ∉ name.toList) : parts name = [name] := by
  have onlyOne : name.toList.splitOn '.' = [name.toList] := by
    have undone : (['.'].intercalate [name.toList]).splitOn '.' = [name.toList] :=
      splitOn_intercalate '.' (by simpa using isPlain) (cons_ne_nil _ _)
    rwa [intercalate_singleton] at undone
  rw [parts_eq, onlyOne, map_singleton, String.ofList_toList]

theorem parts_append (qualifier name : String) :
    parts (qualifier ++ "." ++ name) = parts qualifier ++ parts name := by
  have dotted : (qualifier ++ "." ++ name).toList = qualifier.toList ++ '.' :: name.toList := by
    simp
  rw [parts_eq, parts_eq, parts_eq, dotted, ← map_append]
  exact congrArg _ (splitOnP_append_cons _ _ (beq_self_eq_true '.'))

theorem ofParts_append_parts {front : List String} (name : String) (isQualified : front ≠ []) :
    ofParts (front ++ parts name) = ofParts front ++ "." ++ name := by
  rw [ofParts, String.intercalate_append_of_ne_nil isQualified (parts_ne_nil name)]
  exact congrArg _ (ofParts_parts name)

end Dotted

end PyStatic
