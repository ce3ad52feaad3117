import Mathlib.Computability.Language
import Moniker.Range

/-!
# Counted languages and what words lead to

Names are read and written word by word, in several places and each time in other terms: text
is appended, text is consumed, a position moves. What these have in common is stated here once.

* `Range.counted` — the words made of as many words of a language as a range allows;
* `Times` — so many steps of a relation, one after the other;
* `Passage` — a way in which words lead from one state to another, one word after the other;
* `Passage.Along` — some word of a language leads from one state to another;
* `Passage.along_mul`, `Passage.along_pow`, `Passage.along_counted` — a product is passed by
  passing its factors in turn, a power by as many passages, a counted language by a number of
  passages that the range allows.
-/

namespace Moniker

variable {l m : Language Char}

theorem mem_word {v w : List Char} : w ∈ ({v} : Language Char) ↔ w = v := Iff.rfl

/-- A longer word is its first character and the rest of it. -/
theorem word_cons (c : Char) (w : List Char) : ({c :: w} : Language Char) = {[c]} * {w} := by
  ext v
  simp [Language.mem_mul, mem_word, eq_comm]

/-! ## Counted languages -/

/-- The words made of as many words of `l` as the range allows. -/
def Range.counted (r : Range) (l : Language Char) : Language Char :=
  {w | ∃ n, r.Contains n ∧ w ∈ l ^ n}

theorem Range.mem_counted {r : Range} {w : List Char} :
    w ∈ r.counted l ↔ ∃ n, r.Contains n ∧ w ∈ l ^ n := Iff.rfl

@[simp] theorem Range.counted_once (l : Language Char) : Range.once.counted l = l := by
  ext w
  rw [mem_counted]
  constructor
  · rintro ⟨n, ⟨hmin, hmax⟩, hw⟩
    obtain rfl : n = 1 := Nat.le_antisymm hmax hmin
    rwa [pow_one] at hw
  · intro hw
    exact ⟨1, ⟨le_rfl, le_rfl⟩, by rwa [pow_one]⟩

/-! ## Passages -/

/-- `R` leads from `a` to `b` in `n` steps. -/
def Times {S : Type} (R : S → S → Prop) : Nat → S → S → Prop
  | 0, a, b => a = b
  | n + 1, a, b => ∃ mid, R a mid ∧ Times R n mid b

section

variable {S : Type} {R : S → S → Prop} {a b c : S}

/-- To take `i + j` steps is to take `i` of them and then `j`. -/
theorem times_add {i j : Nat} : Times R (i + j) a c ↔ ∃ b, Times R i a b ∧ Times R j b c := by
  induction i generalizing a with
  | zero => simp [Times]
  | succ i ih =>
    rw [Nat.succ_add]
    simp only [Times, ih]
    constructor
    · rintro ⟨mid, hmid, b, hb, hc⟩
      exact ⟨b, ⟨mid, hmid, hb⟩, hc⟩
    · rintro ⟨b, ⟨mid, hmid, hb⟩, hc⟩
      exact ⟨mid, hmid, b, hb, hc⟩

/-- Steps that may be left out make fewer steps. -/
theorem times_eq_or {n : Nat} :
    Times (fun a b => a = b ∨ R a b) n a b ↔ ∃ j ≤ n, Times R j a b := by
  induction n generalizing a with
  | zero => simp [Times]
  | succ n ih =>
    simp only [Times, ih]
    constructor
    · rintro ⟨mid, rfl | hmid, j, hj, hb⟩
      · exact ⟨j, Nat.le_succ_of_le hj, hb⟩
      · exact ⟨j + 1, Nat.succ_le_succ hj, mid, hmid, hb⟩
    · rintro ⟨j, hj, hb⟩
      cases j with
      | zero => exact ⟨a, .inl rfl, 0, Nat.zero_le n, hb⟩
      | succ j =>
        obtain ⟨mid, hmid, hb⟩ := hb
        exact ⟨mid, .inr hmid, j, Nat.le_of_succ_le_succ hj, hb⟩

end

/-- A way in which words lead from one state to another. -/
structure Passage (S : Type) where
  /-- the word leads from the first state to the second -/
  Leads : List Char → S → S → Prop
  /-- the empty word leads nowhere else -/
  leads_nil : ∀ {a b}, Leads [] a b ↔ a = b
  /-- of two words the second goes on where the first has led -/
  leads_append : ∀ {v w a c}, Leads (v ++ w) a c ↔ ∃ b, Leads v a b ∧ Leads w b c

namespace Passage

variable {S : Type} (P : Passage S) {a b c : S}

/-- Some word of `l` leads from `a` to `b`. -/
def Along (l : Language Char) (a b : S) : Prop := ∃ w ∈ l, P.Leads w a b

theorem along_one : P.Along 1 a b ↔ a = b := by
  simp [Along, P.leads_nil]

theorem along_word {w : List Char} : P.Along {w} a b ↔ P.Leads w a b := by
  simp [Along, mem_word]

theorem along_mul : P.Along (l * m) a c ↔ ∃ b, P.Along l a b ∧ P.Along m b c := by
  simp only [Along, Language.mem_mul]
  constructor
  · rintro ⟨_, ⟨v, hv, w, hw, rfl⟩, hlead⟩
    obtain ⟨b, hab, hbc⟩ := P.leads_append.1 hlead
    exact ⟨b, ⟨v, hv, hab⟩, w, hw, hbc⟩
  · rintro ⟨b, ⟨v, hv, hab⟩, w, hw, hbc⟩
    exact ⟨v ++ w, ⟨v, hv, w, hw, rfl⟩, P.leads_append.2 ⟨b, hab, hbc⟩⟩

theorem along_pow {n : Nat} : P.Along (l ^ n) a b ↔ Times (P.Along l) n a b := by
  induction n generalizing a with
  | zero => exact P.along_one
  | succ n ih => simp only [pow_succ', along_mul, Times, ih]

theorem along_counted {r : Range} :
    P.Along (r.counted l) a b ↔ ∃ n, r.Contains n ∧ P.Along (l ^ n) a b := by
  simp only [Along, Range.mem_counted]
  constructor
  · rintro ⟨w, ⟨n, hn, hw⟩, hlead⟩
    exact ⟨n, hn, w, hw, hlead⟩
  · rintro ⟨n, hn, w, hw, hlead⟩
    exact ⟨w, ⟨n, hn, hw⟩, hlead⟩

end Passage

end Moniker
