/-!
Contract: half-open byte ranges of a source text.
-/

namespace PyStatic

structure TextRange where
  start : Nat
  stop : Nat
  deriving DecidableEq, Repr, Inhabited

namespace TextRange

def length (range : TextRange) : Nat :=
  range.stop - range.start

def isEmpty (range : TextRange) : Bool :=
  range.length == 0

def contains (range : TextRange) (offset : Nat) : Bool :=
  decide (range.start ≤ offset) && decide (offset < range.stop)

def within (inner outer : TextRange) : Bool :=
  decide (outer.start ≤ inner.start) && decide (inner.stop ≤ outer.stop)

def cover (first last : TextRange) : TextRange :=
  ⟨first.start, last.stop⟩

def collapse (range : TextRange) : TextRange :=
  ⟨range.start, range.start⟩

theorem within_iff (inner outer : TextRange) :
    inner.within outer = true ↔ outer.start ≤ inner.start ∧ inner.stop ≤ outer.stop := by
  simp [within]

theorem within_refl (range : TextRange) : range.within range = true :=
  (within_iff ..).mpr ⟨Nat.le_refl _, Nat.le_refl _⟩

theorem within_trans {inner middle outer : TextRange} (first : inner.within middle = true)
    (second : middle.within outer = true) : inner.within outer = true := by
  rw [within_iff] at *
  omega

end TextRange

end PyStatic
