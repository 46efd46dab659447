import PyStatic.Symbol.Copy
import PyStatic.Proofs.Symbol.Ambiguity

/-!
Contract: a copy of a symbol says the same and shares no symbol with what was there before.

While copies are made, the table that is read is the table that grows. Symbols only come after those
that were there, so what is read of an old symbol is what it was at the start.
-/

namespace PyStatic

open List SymbolPool

/-- An ambiguous symbol has its alternatives for data, and these are copied in turn. -/
structure Symbol.CopyOf (copied source : Symbol) : Prop where
  name : copied.name = source.name
  fqn : copied.fqn = source.fqn
  scope : copied.scope = source.scope
  isBuiltin : copied.isBuiltin = source.isBuiltin
  kind : copied.kind = source.kind
  data : source.kind ≠ .ambiguous → copied.data = source.data
  usages : copied.usages = []

theorem Symbol.copyOf_plain (source : Symbol) :
    ({ source with usages := [] } : Symbol).CopyOf source :=
  ⟨rfl, rfl, rfl, rfl, rfl, fun _ => rfl, rfl⟩

theorem Symbol.copyOf_ambiguous {source : Symbol} {alternatives : List SymbolId}
    (isData : source.data = .ambiguous alternatives) (copies : List SymbolId) :
    ({ source with data := .ambiguous copies, usages := [] } : Symbol).CopyOf source := by
  have isKind : source.kind = .ambiguous := congrArg SymbolData.kind isData
  exact ⟨rfl, rfl, rfl, rfl, isKind.symm, absurd isKind, rfl⟩

namespace SymbolTable

/-- `made` are the symbols of all the copies, those of alternatives included. -/
inductive Copies (table post : SymbolTable) : (ids copies made : List SymbolId) → Prop where
  | nil : Copies table post [] [] []
  | cons {id copy : SymbolId} {source copied : Symbol} {ids copies inside made : List SymbolId}
      (found : table.get? id = some source) (isCopied : post.get? copy = some copied)
      (isNew : table.size ≤ copy) (isCopy : copied.CopyOf source)
      (inner : Copies table post source.alternatives copied.alternatives inside)
      (rest : Copies table post ids copies made) :
      Copies table post (id :: ids) (copy :: copies) (inside ++ copy :: made)

/-- A table is a pool in which nothing is registered; `made` were added to it in this order. -/
structure Enlarges (table post : SymbolTable) (made : List SymbolId) : Prop
    extends Extends ⟨table, ∅⟩ ⟨post, ∅⟩ where
  ids : post.ids = table.ids ++ made

variable {table middle post : SymbolTable} {id : SymbolId} {ids copies made more : List SymbolId}

namespace Enlarges

theorem refl (table : SymbolTable) : table.Enlarges table [] :=
  ⟨.refl _, (append_nil _).symm⟩

theorem push (table : SymbolTable) (symbol : Symbol) :
    table.Enlarges (table.push symbol) [table.size] where
  toExtends := (Extends.refl ⟨table, ∅⟩).push symbol
  ids := by rw [SymbolTable.ids, size_push, range_succ, SymbolTable.ids]

theorem trans (first : table.Enlarges middle made) (second : middle.Enlarges post more) :
    table.Enlarges post (made ++ more) where
  toExtends := first.toExtends.trans second.toExtends
  ids := by rw [second.ids, first.ids, append_assoc]

theorem nodup (adds : table.Enlarges post made) : made.Nodup := by
  have distinct : post.ids.Nodup := nodup_range
  rw [adds.ids] at distinct
  exact distinct.of_append_right

end Enlarges

namespace Copies

theorem mono (copied : table.Copies middle ids copies made) (adds : middle.Enlarges post more) :
    table.Copies post ids copies made := by
  induction copied with
  | nil => exact .nil
  | cons found isCopied isNew isCopy _ _ inner rest =>
    exact .cons found (adds.get?_of_some isCopied) isNew isCopy inner rest

theorem append {others otherCopies : List SymbolId} (first : table.Copies post ids copies made)
    (second : table.Copies post others otherCopies more) :
    table.Copies post (ids ++ others) (copies ++ otherCopies) (made ++ more) := by
  induction first with
  | nil => exact second
  | cons found isCopied isNew isCopy inner _ _ rest =>
    rw [append_assoc]
    exact .cons found isCopied isNew isCopy inner rest

end Copies

section Steps

variable {depth : Nat} {source : Symbol} (found : table.get? id = some source)

include found

theorem copyWithin_plain (isPlain : source.kind ≠ .ambiguous) :
    copyWithin (depth + 1) table id = (table.push { source with usages := [] }, table.size) := by
  rw [copyWithin, found]
  cases isData : source.data with
  | ambiguous => exact absurd (congrArg SymbolData.kind isData) isPlain
  | _ => simp only [isData]

theorem copyWithin_ambiguous {alternatives copies : List SymbolId}
    (isData : source.data = .ambiguous alternatives)
    (ran : Sequence.collect (copyWithin depth) table alternatives = (middle, copies)) :
    copyWithin (depth + 1) table id =
      (middle.push { source with data := .ambiguous copies, usages := [] }, middle.size) := by
  rw [copyWithin, found]
  simp only [isData, ran]

end Steps

/-- Wherever copying has come to by then, `step` adds a copy of the symbol in `table`. -/
def CopiedBy (table : SymbolTable) (step : SymbolTable → SymbolId → SymbolTable × SymbolId)
    (id : SymbolId) : Prop :=
  ∀ current earlier, table.Enlarges current earlier → ∃ post copy made,
    step current id = (post, copy) ∧ table.Copies post [id] [copy] made ∧ current.Enlarges post made

theorem copies_collect {step : SymbolTable → SymbolId → SymbolTable × SymbolId}
    (each : ∀ id ∈ ids, table.CopiedBy step id) {current : SymbolTable} {earlier : List SymbolId}
    (adds : table.Enlarges current earlier) : ∃ post copies made,
      Sequence.collect step current ids = (post, copies) ∧ table.Copies post ids copies made ∧
        current.Enlarges post made := by
  induction ids generalizing current earlier with
  | nil => exact ⟨current, [], [], rfl, .nil, .refl current⟩
  | cons id _ ih =>
    obtain ⟨first, others⟩ := forall_mem_cons.mp each
    obtain ⟨middle, copy, made, ran, copied, now⟩ := first current earlier adds
    obtain ⟨post, copies, more, ranRest, copiedRest, later⟩ := ih others (adds.trans now)
    refine ⟨post, copy :: copies, made ++ more, ?_, (copied.mono later).append copiedRest,
      now.trans later⟩
    simp only [Sequence.collect, ran, ranRest]

theorem copiedBy_copyWithin (older : table.AlternativesOlder) (depth : Nat)
    (inRange : id < table.size) (below : id < depth) : table.CopiedBy (copyWithin depth) id := by
  -- each step down goes to an older symbol, so `depth` does not run out
  induction depth generalizing id with
  | zero => exact absurd below (Nat.not_lt_zero id)
  | succ depth ih =>
    intro current earlier adds
    rcases plain_or_ambiguous inRange with ⟨source, found, isPlain⟩ | ⟨source, parts, found, isData⟩
    · refine ⟨_, _, [] ++ [_], copyWithin_plain (adds.get?_of_some found) isPlain,
        .cons found (get?_push_size ..) adds.size_le source.copyOf_plain ?_ .nil, .push current _⟩
      show table.Copies _ source.alternatives source.alternatives []
      rw [← alternatives_of_get? found, alternatives_of_plain ⟨source, found, isPlain⟩]
      exact .nil
    · have each (part : SymbolId) (isIn : part ∈ parts) :
          table.CopiedBy (copyWithin depth) part := by
        have lt := older.lt found isData part isIn
        exact ih (Nat.lt_trans lt inRange) (Nat.lt_of_lt_of_le lt (Nat.le_of_lt_succ below))
      obtain ⟨middle, copies, inside, ran, inner, now⟩ := copies_collect each adds
      have pushed := Enlarges.push middle { source with data := .ambiguous copies, usages := [] }
      refine ⟨_, _, _, copyWithin_ambiguous (adds.get?_of_some found) isData ran,
        .cons found (get?_push_size ..) (adds.trans now).size_le
          (Symbol.copyOf_ambiguous isData copies) ?_ .nil, now.trans pushed⟩
      rw [Symbol.alternatives, isData]
      exact inner.mono pushed

/-- The copy and the copies of all its alternatives are new, and no two of them are one symbol. -/
theorem copy_fresh (table : SymbolTable) (older : table.AlternativesOlder) (id : SymbolId)
    (inRange : id < table.size) :
    ∃ post copy made, table.copy id = (post, copy) ∧ table.Copies post [id] [copy] made ∧
      (post.ids = table.ids ++ made ∧ made.Nodup) ∧ post.bound = table.bound ∧
      ∀ old, old < table.size → post.get? old = table.get? old := by
  obtain ⟨post, copy, made, ran, copied, adds⟩ :=
    copiedBy_copyWithin older table.size inRange inRange table [] (.refl table)
  exact ⟨post, copy, made, ran, copied, ⟨adds.ids, adds.nodup⟩, adds.bound, adds.get?⟩

def layeredAmbiguity : SymbolTable :=
  (nestedAmbiguity.push (.fresh "f" none (.ambiguous [2, 0]) none)).addUsage 0
    ⟨7, ⟨0, 1⟩, .assignmentTarget⟩

theorem copy_layered : layeredAmbiguity.AlternativesOlder ∧
    ∃ post, layeredAmbiguity.copy 4 = (post, 9) ∧
      layeredAmbiguity.Copies post [4] [9] [5, 6, 7, 8, 9] ∧
      post.alternatives 9 = [7, 8] ∧ post.alternatives 7 = [5, 6] ∧
      (post.get? 0).map (·.usages.length) = some 1 := by
  have older : layeredAmbiguity.AlternativesOlder := by decide +kernel
  obtain ⟨post, copy, made, ran, copied, ⟨ids, _⟩, _, old⟩ :=
    copy_fresh layeredAmbiguity older 4 (by decide +kernel)
  have outcome : (layeredAmbiguity.copy 4).2 = 9 ∧
      (layeredAmbiguity.copy 4).1.ids = layeredAmbiguity.ids ++ [5, 6, 7, 8, 9] ∧
      (layeredAmbiguity.copy 4).1.alternatives 9 = [7, 8] ∧
      (layeredAmbiguity.copy 4).1.alternatives 7 = [5, 6] := by decide +kernel
  rw [ran] at outcome
  obtain ⟨rfl, all, top, nested⟩ := outcome
  obtain rfl := append_cancel_left (ids.symm.trans all)
  refine ⟨older, post, ran, copied, top, nested, ?_⟩
  rw [old 0 (by decide +kernel)]
  decide +kernel

end SymbolTable

end PyStatic
