import PyStatic.Binding.Imports
import PyStatic.Proofs.Text.DottedNames

/-!
Contract: where relative imports lead.

The two agree except one step above the top-level package: there an import without a path names no
module, but one with a path names that path as if it were absolute.
-/

namespace PyStatic

def packageParts (package : String) : List String :=
  (Dotted.parts package).filter (!·.isEmpty)

theorem isEmpty_ofParts {parts : List String} (named : ∀ part ∈ parts, part ≠ "") :
    (Dotted.ofParts parts).isEmpty = parts.isEmpty := by
  cases parts with
  | nil => rfl
  | cons _ rest =>
    rw [List.forall_mem_cons] at named
    cases rest with
    | nil => simpa [Dotted.ofParts] using named.1
    | cons =>
      rw [Dotted.ofParts, String.intercalate_cons_cons, String.isEmpty_eq_false_iff.mpr]
      · rfl
      · simp [named.1]

/-- The module that a relative import names inside the top-level package. -/
def FromImport.confined? (imported : FromImport) (package : String) : Option String :=
  let parts := packageParts package
  if imported.level ≤ parts.length then
    some (Dotted.ofParts (parts.take (parts.length - (imported.level - 1)) ++
      imported.target.toList.flatMap fun target => Dotted.parts target.text))
  else none

/-- A relative import stays in the top-level package, unless it climbs exactly one step above. -/
theorem FromImport.module?_relative {imported : FromImport} (package : String)
    (isRelative : 0 < imported.level) :
    imported.module? package =
      if imported.level = (packageParts package).length + 1 then imported.target.map (·.text)
      else imported.confined? package := by
  have named : ∀ part ∈ packageParts package, part ≠ "" := by simp [packageParts]
  have parts : (Dotted.parts package).filter (!·.isEmpty) = packageParts package := rfl
  unfold module? importedModule? confined?
  rw [if_neg (Nat.ne_of_gt isRelative)]
  dsimp only
  rw [parts]
  clear parts
  generalize packageParts package = parts at named ⊢
  by_cases above : parts.length < imported.level - 1
  · rw [if_pos above, if_neg (by omega), if_neg (by omega)]
  rw [if_neg above]
  by_cases atTop : imported.level = parts.length + 1
  · have nothingKept : parts.length - (imported.level - 1) = 0 := by omega
    rw [if_pos atTop, nothingKept]
    cases imported.target <;> rfl
  · have inside : imported.level ≤ parts.length := by omega
    rw [if_neg atTop, if_pos inside]
    generalize isKept : parts.take (parts.length - (imported.level - 1)) = kept
    have stays : kept ≠ [] := by
      rw [← isKept, ne_eq, ← List.length_eq_zero_iff, List.length_take]
      omega
    have isNamed : (Dotted.ofParts kept).isEmpty = kept.isEmpty :=
      isEmpty_ofParts fun part isPart => named part (List.mem_of_mem_take (isKept ▸ isPart))
    cases imported.target with
    | none => simp [stays]
    | some target =>
      simp [Dotted.join, isNamed, stays, Dotted.ofParts_append_parts target.text stays]

def climbing : FromImport :=
  ⟨some ⟨⟨7, 11⟩, [⟨⟨1, ⟨7, 11⟩⟩, "base"⟩]⟩, 2, [], false⟩

theorem climbing_relative :
    climbing.module? "pkg.sub" = some "pkg.base" ∧ climbing.module? "pkg" = some "base" := by
  rw [FromImport.module?_relative "pkg.sub" (by decide),
    FromImport.module?_relative "pkg" (by decide)]
  decide +kernel

/-- A relative import may lead out of the top-level package. -/
theorem not_module?_confined :
    ¬ ∀ (imported : FromImport) (package : String), 0 < imported.level →
      imported.module? package = imported.confined? package := by
  intro confined
  exact absurd (confined climbing "pkg" (by decide)) (by decide +kernel)

end PyStatic
