/-!
Contract: type hints whose names are resolved to fully qualified names.
-/

namespace PyStatic

/-- An `unresolved` hint is a name that is no known class, or empty. -/
inductive TypeHint where
  | ofClass (name fqn : String) (args : List TypeHint)
  | union (alternatives : List TypeHint)
  | ambiguous (name : String) (alternatives : List TypeHint)
  | unresolved (text : String)

namespace TypeHint

def builtin (name : String) : TypeHint :=
  ofClass name name []

mutual

def same : TypeHint → TypeHint → Bool
  | ofClass name fqn args, ofClass otherName otherFqn otherArgs =>
    name == otherName && fqn == otherFqn && sameAll args otherArgs
  | union alternatives, union others => sameAll alternatives others
  | ambiguous name alternatives, ambiguous otherName others =>
    name == otherName && sameAll alternatives others
  | unresolved text, unresolved otherText => text == otherText
  | _, _ => false

def sameAll : List TypeHint → List TypeHint → Bool
  | [], [] => true
  | hint :: rest, other :: others => same hint other && sameAll rest others
  | _, _ => false

end

mutual

theorem same_self : ∀ hint : TypeHint, same hint hint = true
  | ofClass _ _ args => by simp [same, sameAll_self args]
  | union alternatives => by simp [same, sameAll_self alternatives]
  | ambiguous _ alternatives => by simp [same, sameAll_self alternatives]
  | unresolved _ => by simp [same]

theorem sameAll_self : ∀ hints : List TypeHint, sameAll hints hints = true
  | [] => by simp [sameAll]
  | hint :: rest => by simp [sameAll, same_self hint, sameAll_self rest]

end

mutual

theorem eq_of_same : ∀ left right : TypeHint, same left right = true → left = right
  | ofClass _ _ args, right, equal => by
    cases right with
    | ofClass _ _ others =>
      simp only [same, Bool.and_eq_true, beq_iff_eq] at equal
      rw [equal.1.1, equal.1.2, eq_of_sameAll args others equal.2]
    | _ => simp [same] at equal
  | union alternatives, right, equal => by
    cases right with
    | union others =>
      simp only [same] at equal
      rw [eq_of_sameAll alternatives others equal]
    | _ => simp [same] at equal
  | ambiguous _ alternatives, right, equal => by
    cases right with
    | ambiguous _ others =>
      simp only [same, Bool.and_eq_true, beq_iff_eq] at equal
      rw [equal.1, eq_of_sameAll alternatives others equal.2]
    | _ => simp [same] at equal
  | unresolved _, right, equal => by
    cases right with
    | unresolved _ =>
      simp only [same, beq_iff_eq] at equal
      rw [equal]
    | _ => simp [same] at equal

theorem eq_of_sameAll : ∀ left right : List TypeHint, sameAll left right = true → left = right
  | [], right, equal => by
    cases right with
    | nil => rfl
    | cons _ _ => simp [sameAll] at equal
  | hint :: rest, right, equal => by
    cases right with
    | nil => simp [sameAll] at equal
    | cons other others =>
      simp only [sameAll, Bool.and_eq_true] at equal
      rw [eq_of_same hint other equal.1, eq_of_sameAll rest others equal.2]

end

theorem same_iff_eq (left right : TypeHint) : same left right = true ↔ left = right :=
  ⟨eq_of_same left right, fun equal => equal ▸ same_self left⟩

instance : DecidableEq TypeHint := fun left right =>
  decidable_of_iff (same left right = true) (same_iff_eq left right)

def alternatives : TypeHint → List TypeHint
  | union alternatives => alternatives
  | hint => [hint]

/-- Unions are opened, repeats dropped, and a union of one is that hint. -/
def unionOf (hints : List TypeHint) : TypeHint :=
  match (hints.flatMap (·.alternatives)).eraseDups with
  | [hint] => hint
  | hints => union hints

end TypeHint

end PyStatic
