/-!
# Repeat ranges

A `Range` says how often something is repeated: at least `min` and at most `max` times. Both
ends are 32-bit counts. A range may be written the wrong way round; it is then kept as
written, and whoever needs a count from it finds it `inverted`.

* `Range.check` — the range itself as the error if it is inverted;
* `Range.size` — how many counts lie in it.
-/

namespace Moniker

/-- How often something is repeated: from `min` to `max` times. -/
structure Range where
  min : UInt32
  max : UInt32
deriving DecidableEq, Repr

namespace Range

/-- Exactly one repetition, which is what an unwritten count means. -/
def once : Range := ⟨1, 1⟩

/-- Exactly `n` repetitions. -/
def fixed (n : UInt32) : Range := ⟨n, n⟩

/-- Whether only one count lies between the ends. -/
def isFixed (r : Range) : Bool := r.min == r.max

/-- Whether the range is written the wrong way round, so that no count lies in it. -/
def inverted (r : Range) : Bool := r.max < r.min

/-- The range, unless it is inverted. -/
def check (r : Range) : Except Range Unit := if r.inverted then .error r else .ok ()

/-- How many counts lie in the range; up to 2 ^ 32. -/
def size (r : Range) : Nat := r.max.toNat + 1 - r.min.toNat

/-- The counts in the range. -/
def Contains (r : Range) (n : Nat) : Prop := r.min.toNat ≤ n ∧ n ≤ r.max.toNat

/-- The wording of the error about an inverted range. -/
def message (r : Range) : String :=
  s!"invalid range ({r.min},{r.max}): min is greater than max"

@[simp] theorem isFixed_iff (r : Range) : r.isFixed = true ↔ r.min = r.max := by
  simp [isFixed]

@[simp] theorem inverted_iff (r : Range) : r.inverted = true ↔ r.max < r.min := by
  simp [inverted]

/-- A range that is not inverted holds a count. -/
theorem contains_min {r : Range} (h : r.inverted = false) : r.Contains r.min.toNat := by
  refine ⟨Nat.le_refl _, Nat.le_of_not_lt fun hlt => ?_⟩
  have : r.inverted = true := r.inverted_iff.2 hlt
  simp [h] at this

end Range

end Moniker
