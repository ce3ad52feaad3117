/-!
# Choosing evenly with one random word

A random word of `w` bits is turned into a choice among `n` values: the word times `n` has an
upper part, which is below `n` and is the choice, and a lower part of `w` bits. So that every
choice has the same number of words, a word is used only if the lower part is below
`n * 2 ^ z`, where `z` is the largest number with `n * 2 ^ z < 2 ^ w`, or 0 if `n` is `2 ^ w`
itself; other words are refused, and the next one is tried.

* `Width` — the two widths of words in use;
* `Width.choose?` — the choice that a word makes, if it is not refused.
-/

namespace Moniker.Draw

/-- The width of a random word. -/
inductive Width where
  | w32
  | w64
deriving DecidableEq, Repr

namespace Width

/-- The number of bits in a word. -/
def bits : Width → Nat
  | w32 => 32
  | w64 => 64

/-- How many words a width has. -/
def count (w : Width) : Nat := 1 <<< w.bits

theorem count_eq (w : Width) : w.count = Nat.pow 2 w.bits := by cases w <;> rfl

/-- The lower parts that are used: `n`, shifted up as far as the width allows. -/
def zone (w : Width) (n : Nat) : Nat := n <<< (w.bits - (n.log2 + 1))

/-- The choice among `n` values that a word makes, unless it is refused. -/
def choose? (w : Width) (n : Nat) (word : BitVec w.bits) : Option (Fin n) :=
  if h : word.toNat * n % w.count < w.zone n then
    some ⟨word.toNat * n / w.count, by
      have hn : 0 < n := Nat.pos_of_ne_zero fun h0 => by simp [h0, zone] at h
      have hc : 0 < w.count := by cases w <;> decide
      rw [Nat.div_lt_iff_lt_mul hc, Nat.mul_comm n]
      exact Nat.mul_lt_mul_of_pos_right (w.count_eq ▸ word.isLt) hn⟩
  else none

end Width

end Moniker.Draw
