import Mathlib.Algebra.Order.Floor.Div
import Mathlib.Data.FinEnum
import Mathlib.Data.Set.Card
import Mathlib.Order.Interval.Finset.Nat
import Mathlib.SetTheory.Cardinal.Finite
import Moniker.Proofs.Draw.Outcomes

/-!
# How many words make a choice

A word makes the choice `i` among `n` values if its product with `n` lies in a certain stretch
that begins at `i * 2 ^ w`. The stretch is a multiple of `n` long, so it has room for the same
number of products wherever it begins, and every choice is made by the same number of words.

* `Width.ncard_choose?` — this number is two to the number of zero bits in front of `n`;
* `Width.ncard_refused_le` — at most half of the words are refused;
* `Draw.SettledBy`, `Draw.Refuses` — what the next word of a source does to a computation;
* `Draw.Even` — a computation that one word settles, evenly among its values.
-/

namespace Moniker.Draw

namespace Width

variable {w : Width} {n : Nat}

/-! ## The zone -/

/-- The number of zero bits in front of `n` in a word. -/
def leadingZeros (w : Width) (n : Nat) : Nat := (BitVec.ofNat w.bits n).clz.toNat

theorem count_eq_two_pow (w : Width) : w.count = 2 ^ w.bits := w.count_eq

theorem count_pos (w : Width) : 0 < w.count := by cases w <;> decide

/-- The bits of a number that fits into a word are as many as those of the word without the zeros
in front. -/
theorem log2_add_leadingZeros (hpos : 0 < n) (hlt : n < w.count) :
    n.log2 + 1 + w.leadingZeros n = w.bits := by
  rw [count_eq_two_pow] at hlt
  have hbits : 0 < w.bits := by cases w <;> decide
  have hnat : (BitVec.ofNat w.bits n).toNat = n := by
    rw [BitVec.toNat_ofNat, Nat.mod_eq_of_lt hlt]
  have hzero : BitVec.ofNat w.bits n ≠ 0#w.bits := by
    rw [← BitVec.toNat_inj.ne, hnat]
    exact hpos.ne'
  have hle := BitVec.two_pow_sub_clz_le_toNat_of_ne_zero hbits hzero
  have hgt := BitVec.toNat_lt_two_pow_sub_clz (x := BitVec.ofNat w.bits n)
  rw [hnat, ← Nat.le_log2 hpos.ne'] at hle
  rw [hnat, ← Nat.log2_lt hpos.ne'] at hgt
  unfold leadingZeros
  omega

theorem zone_eq_shiftLeft (hpos : 0 < n) (hlt : n < w.count) :
    w.zone n = n <<< w.leadingZeros n := by
  have hlog := log2_add_leadingZeros hpos hlt
  rw [zone, show w.bits - (n.log2 + 1) = w.leadingZeros n by omega]

theorem zone_eq_mul (hpos : 0 < n) (hlt : n < w.count) :
    w.zone n = n * 2 ^ w.leadingZeros n := by
  rw [zone_eq_shiftLeft hpos hlt, Nat.shiftLeft_eq]

/-- The shift does not go beyond the word. -/
theorem zone_le_count (hpos : 0 < n) (hlt : n < w.count) : w.zone n ≤ w.count := by
  have hn : n ≤ 2 ^ (n.log2 + 1) := Nat.lt_log2_self.le
  calc w.zone n = n * 2 ^ w.leadingZeros n := zone_eq_mul hpos hlt
    _ ≤ 2 ^ (n.log2 + 1) * 2 ^ w.leadingZeros n := Nat.mul_le_mul_right _ hn
    _ = 2 ^ w.bits := by rw [← Nat.pow_add, log2_add_leadingZeros hpos hlt]
    _ = w.count := w.count_eq_two_pow.symm

/-- The shift goes as far as the word, so that at least half of it is used. -/
theorem count_le_zone (hpos : 0 < n) (hlt : n < w.count) : w.count ≤ 2 * w.zone n := by
  have hn : 2 ^ (n.log2 + 1) ≤ 2 * n := by
    have hself := Nat.log2_self_le hpos.ne'
    rw [Nat.pow_succ]
    omega
  calc w.count = 2 ^ w.bits := w.count_eq_two_pow
    _ = 2 ^ (n.log2 + 1) * 2 ^ w.leadingZeros n := by
      rw [← Nat.pow_add, log2_add_leadingZeros hpos hlt]
    _ ≤ 2 * n * 2 ^ w.leadingZeros n := Nat.mul_le_mul_right _ hn
    _ = 2 * w.zone n := by rw [zone_eq_mul hpos hlt, Nat.mul_assoc]

/-! ## Choices -/

theorem choose?_eq_some_iff {word : BitVec w.bits} {i : Fin n} :
    w.choose? n word = some i ↔
      word.toNat * n % w.count < w.zone n ∧ word.toNat * n / w.count = i := by
  unfold choose?
  split
  · next h => simp [h, Fin.ext_iff]
  · next h => simp [h]

/-- Among as many values as there are words, every word chooses itself. -/
theorem choose?_count {word : BitVec w.bits} {i : Fin w.count} (h : i.val = word.toNat) :
    w.choose? w.count word = some i := by
  rw [choose?_eq_some_iff, Nat.mul_mod_left, Nat.mul_div_cancel _ w.count_pos]
  exact ⟨w.count_pos.trans_le (w.le_zone _), h.symm⟩

/-- A number has the quotient `i` and a small remainder if it is not far beyond the `i`-th
multiple. -/
theorem rem_lt_and_quot_eq_iff {p c i z : Nat} (hc : 0 < c) (hz : z ≤ c) :
    p % c < z ∧ p / c = i ↔ i * c ≤ p ∧ p < i * c + z := by
  constructor
  · rintro ⟨hrem, rfl⟩
    have hp := Nat.div_add_mod p c
    rw [Nat.mul_comm] at hp
    omega
  · rintro ⟨hfirst, hlast⟩
    obtain ⟨r, rfl⟩ := Nat.exists_eq_add_of_le hfirst
    have hr : r < z := by omega
    rw [Nat.mul_comm, Nat.mul_add_mod, Nat.mul_add_div hc, Nat.mod_eq_of_lt (hr.trans_le hz),
      Nat.div_eq_of_lt (hr.trans_le hz)]
    exact ⟨hr, rfl⟩

/-- In a stretch that is `k * n` long lie the products of `k` numbers with `n`. -/
theorem mul_mem_Ico_iff {a n k v : Nat} (hpos : 0 < n) :
    v * n ∈ Finset.Ico a (a + k * n) ↔ v ∈ Finset.Ico (a ⌈/⌉ n) (a ⌈/⌉ n + k) := by
  have hfirst : ∀ u, a ⌈/⌉ n ≤ u ↔ a ≤ u * n := fun u => by
    rw [ceilDiv_le_iff_le_mul hpos, Nat.mul_comm]
  rw [Finset.mem_Ico, Finset.mem_Ico, hfirst]
  refine and_congr_right fun _ => ?_
  -- `v` is beyond the `k` numbers if the number `k` before it is not before them
  rcases Nat.lt_or_ge v k with hv | hv
  · have hvn : v * n < k * n := Nat.mul_lt_mul_of_pos_right hv hpos
    omega
  · obtain ⟨u, rfl⟩ := Nat.exists_eq_add_of_le hv
    have hu := hfirst u
    rw [Nat.add_mul]
    omega

/-- The words that make a choice stand in a row. -/
theorem choose?_eq_some_iff_mem_Ico (hpos : 0 < n) (hlt : n < w.count) {word : BitVec w.bits}
    {i : Fin n} :
    w.choose? n word = some i ↔
      word.toNat ∈ Finset.Ico ((i * w.count) ⌈/⌉ n)
        ((i * w.count) ⌈/⌉ n + 2 ^ w.leadingZeros n) := by
  have hzone : w.zone n = 2 ^ w.leadingZeros n * n := by
    rw [zone_eq_mul hpos hlt, Nat.mul_comm]
  rw [choose?_eq_some_iff, rem_lt_and_quot_eq_iff w.count_pos (zone_le_count hpos hlt), hzone,
    ← mul_mem_Ico_iff hpos, Finset.mem_Ico]

/-- Every choice is made by equally many words. -/
theorem ncard_choose? (hpos : 0 < n) (hlt : n < w.count) (i : Fin n) :
    {word | w.choose? n word = some i}.ncard = 2 ^ w.leadingZeros n := by
  let first := (i * w.count) ⌈/⌉ n
  let run := Finset.Ico first (first + 2 ^ w.leadingZeros n)
  have hpre : {word | w.choose? n word = some i} = Set.preimage BitVec.toNat ↑run :=
    Set.ext fun _ => choose?_eq_some_iff_mem_Ico hpos hlt
  -- the product of a number in the run is below `n * 2 ^ w`, so the number is a word
  have hrange : ↑run ⊆ Set.range (@BitVec.toNat w.bits) := by
    intro v hv
    have hlast := (Finset.mem_Ico.1 ((mul_mem_Ico_iff hpos).2 (Finset.mem_coe.1 hv))).2
    have hzone := zone_le_count hpos hlt
    have hnext : (i + 1) * w.count ≤ n * w.count := Nat.mul_le_mul_right _ i.isLt
    rw [zone_eq_mul hpos hlt, Nat.mul_comm] at hzone
    rw [Nat.add_mul, Nat.one_mul] at hnext
    have hvn : v * n < w.count * n := by
      rw [Nat.mul_comm w.count]
      omega
    have hvlt : v < 2 ^ w.bits := w.count_eq_two_pow ▸ Nat.lt_of_mul_lt_mul_right hvn
    exact ⟨BitVec.ofNatLT v hvlt, BitVec.toNat_ofNatLT v hvlt⟩
  have hinj : Function.Injective (@BitVec.toNat w.bits) := fun _ _ => BitVec.eq_of_toNat_eq
  rw [hpre, Set.ncard_preimage_of_injective_subset_range hinj hrange,
    Set.ncard_coe_finset, Nat.card_Ico, Nat.add_sub_cancel_left]

/-- The words that are refused and those that make a choice are all words. -/
theorem ncard_refused_add (hpos : 0 < n) (hlt : n < w.count) :
    {word | w.choose? n word = none}.ncard + w.zone n = w.count := by
  have hwords : Nat.card (BitVec w.bits) = w.count := by
    rw [Nat.card_eq_fintype_card, ← FinEnum.card_eq_fintypeCard, FinEnum.card_bitVec,
      count_eq_two_pow]
  have hchoice : ∀ i, Nat.card {word // w.choose? n word = some i} = 2 ^ w.leadingZeros n :=
    fun i => ncard_choose? hpos hlt i
  have hfibers := Nat.card_congr (Equiv.sigmaFiberEquiv (w.choose? n))
  rw [Nat.card_sigma, Fintype.sum_option, hwords] at hfibers
  simp only [hchoice, Finset.sum_const, Finset.card_univ, Fintype.card_fin, smul_eq_mul] at hfibers
  rw [zone_eq_mul hpos hlt]
  exact hfibers

/-- At most half of the words are refused. -/
theorem ncard_refused_le (hpos : 0 < n) (hlt : n < w.count) :
    2 * {word | w.choose? n word = none}.ncard ≤ w.count := by
  have hall := ncard_refused_add hpos hlt
  have hhalf := count_le_zone hpos hlt
  omega

/-- The upper part of a product is a choice, also if the word is refused. -/
theorem quot_lt (hpos : 0 < n) (word : BitVec w.bits) : word.toNat * n / w.count < n := by
  rw [Nat.div_lt_iff_lt_mul w.count_pos, Nat.mul_comm n]
  exact Nat.mul_lt_mul_of_pos_right (w.count_eq ▸ word.isLt) hpos

end Width

/-! ## Computations that one word settles -/

variable {ε α : Type} {width : Width} {n : Nat} {word : BitVec width.bits} {f : Fin n → α}

/-- If a source hands out this word next, the computation takes no other one and comes to `a`. -/
def SettledBy (m : Draw ε α) (width : Width) (word : BitVec width.bits) (a : α) : Prop :=
  ∀ (σ : Type) [FiniteSource σ] (s rest : σ),
    WordSource.word? width s = some (word, rest) → m.run s = (.value a, rest)

/-- If a source hands out this word next, the computation goes on as if it had not been there. -/
def Refuses (m : Draw ε α) (width : Width) (word : BitVec width.bits) : Prop :=
  ∀ (σ : Type) [FiniteSource σ] (s rest : σ),
    WordSource.word? width s = some (word, rest) → m.run s = m.run rest

/-- One word is enough unless it is refused, and evenly so among the values, of which there are
`n`. -/
structure Even (m : Draw ε α) (width : Width) (n : Nat) (values : Set α) : Prop where
  /-- no word makes the computation come to anything else -/
  inBounds : ∀ word a, m.SettledBy width word a → a ∈ values
  /-- each of the values has its words, all equally many -/
  ncard_settledBy : ∀ a ∈ values,
    {word | m.SettledBy width word a}.ncard = 2 ^ width.leadingZeros n
  /-- every other word is refused -/
  othersRefused : ∀ word, (∀ a ∈ values, ¬ m.SettledBy width word a) → m.Refuses width word
  /-- no more than half of the words are -/
  ncard_refused_le : 2 * {word | m.Refuses width word}.ncard ≤ 2 ^ width.bits

theorem run_index_map {σ : Type} [FiniteSource σ] (s : σ) :
    ((index width n).map f : Draw ε α).run s =
      match pickFrom width n s with
      | (none, rest) => (.exhausted, rest)
      | (some i, rest) => (.value (f i), rest) := by
  show run (pick width n fun i => done (f i)) s = _
  rw [run]
  rcases pickFrom width n s with ⟨_ | i, rest⟩ <;> rfl

theorem run_index_map_of_word? {σ : Type} [FiniteSource σ] {s rest : σ}
    (h : WordSource.word? width s = some (word, rest)) :
    ((index width n).map f : Draw ε α).run s =
      match width.choose? n word with
      | some i => (.value (f i), rest)
      | none => ((index width n).map f : Draw ε α).run rest := by
  rw [run_index_map, run_index_map, pickFrom_of_word? h]
  cases width.choose? n word <;> rfl

/-- Without words nothing is picked. -/
theorem run_index_map_nil :
    ((index width n).map f : Draw ε α).run (⟨[]⟩ : Words) = (.exhausted, ⟨[]⟩) := by
  rw [run_index_map, pickFrom]
  rfl

/-- There is a source that hands out the word and then no other one. -/
theorem exists_word?_eq (word : BitVec width.bits) :
    ∃ s : Words, WordSource.word? width s = some (word, ⟨[]⟩) := by
  obtain ⟨v, rfl⟩ := width.exists_lower word
  exact ⟨⟨[v]⟩, word?_cons width v []⟩

theorem settledBy_index_map {a : α} :
    ((index width n).map f : Draw ε α).SettledBy width word a ↔
      ∃ i, width.choose? n word = some i ∧ f i = a := by
  constructor
  · intro h
    obtain ⟨s, hs⟩ := exists_word?_eq word
    have hrun := h Words s ⟨[]⟩ hs
    rw [run_index_map_of_word? hs] at hrun
    cases hchoice : width.choose? n word with
    | none => simp [hchoice, run_index_map_nil] at hrun
    | some i =>
      rw [hchoice] at hrun
      exact ⟨i, rfl, Outcome.value.inj (Prod.mk.inj hrun).1⟩
  · rintro ⟨i, hi, rfl⟩ σ _ s rest hs
    rw [run_index_map_of_word? hs, hi]

theorem refuses_index_map :
    ((index width n).map f : Draw ε α).Refuses width word ↔ width.choose? n word = none := by
  constructor
  · intro h
    obtain ⟨s, hs⟩ := exists_word?_eq word
    have hrun := h Words s ⟨[]⟩ hs
    rw [run_index_map_of_word? hs, run_index_map_nil] at hrun
    cases hchoice : width.choose? n word with
    | none => rfl
    | some i => simp [hchoice] at hrun
  · intro hnone σ _ s rest hs
    rw [run_index_map_of_word? hs, hnone]

/-- One of several values that differ is picked evenly. -/
theorem even_index_map (hf : f.Injective) (hpos : 0 < n) (hlt : n < width.count) :
    Even ((index width n).map f : Draw ε α) width n (Set.range f) where
  inBounds word a h := by
    obtain ⟨i, -, rfl⟩ := settledBy_index_map.1 h
    exact ⟨i, rfl⟩
  ncard_settledBy := by
    rintro _ ⟨i, rfl⟩
    simp only [settledBy_index_map, hf.eq_iff, exists_eq_right]
    exact Width.ncard_choose? hpos hlt i
  othersRefused word h := by
    rw [refuses_index_map, Option.eq_none_iff_forall_not_mem]
    intro i hi
    exact h (f i) ⟨i, rfl⟩ (settledBy_index_map.2 ⟨i, hi, rfl⟩)
  ncard_refused_le := by
    simp only [refuses_index_map, ← Width.count_eq_two_pow]
    exact Width.ncard_refused_le hpos hlt

/-- Which word picks which value, told by its product with the number of values. -/
theorem settledBy_index_map_iff_mul (hpos : 0 < n) (hlt : n < width.count) {a : α} :
    ((index width n).map f : Draw ε α).SettledBy width word a ↔
      word.toNat * n % width.count ≤ (n <<< width.leadingZeros n) - 1 ∧
        f ⟨word.toNat * n / width.count, Width.quot_lt hpos word⟩ = a := by
  have hzone := Width.le_zone width n
  rw [Width.zone_eq_shiftLeft hpos hlt] at hzone
  simp only [settledBy_index_map, Width.choose?_eq_some_iff, Width.zone_eq_shiftLeft hpos hlt]
  constructor
  · rintro ⟨i, ⟨hlow, hhigh⟩, rfl⟩
    exact ⟨by omega, congrArg f (Fin.ext hhigh)⟩
  · rintro ⟨hlow, rfl⟩
    exact ⟨_, ⟨by omega, rfl⟩, rfl⟩

end Moniker.Draw
