import Moniker.Draw.Words

/-!
# What a computation can come to

A `Draw` is a tree of choices, and `Draw.run` follows one path through it. This module says
which ends of the tree some sequence of random words leads to.

* `Draw.Leads` — the ends of the tree, reached by choosing freely at every `pick`;
* `Draw.Feasible` — every `pick` has something to choose from, and no more than there are words;
* `Width.exists_choose?` — every choice is made by some word, so no end is out of reach;
* `Draw.exists_words_iff` — the ends that sequences of words lead to are those of the tree;
* `Draw.run_cases` — a run on any source comes to such an end or runs out of words.
-/

namespace Moniker.Draw

variable {ε α β : Type}

/-! ## The ends of a computation -/

/-- `r` is an end of the computation: some choices at its picks lead to it. -/
def Leads : Draw ε α → Except ε α → Prop
  | done a, r => r = .ok a
  | fail e, r => r = .error e
  | pick _ _ next, r => ∃ i, (next i).Leads r

@[simp] theorem leads_done {a : α} {r : Except ε α} :
    (done a).Leads r ↔ r = .ok a := Iff.rfl

@[simp] theorem leads_fail {e : ε} {r : Except ε α} :
    (fail e).Leads r ↔ r = .error e := Iff.rfl

@[simp] theorem leads_pick {width : Width} {n : Nat} {next : Fin n → Draw ε α} {r : Except ε α} :
    (pick width n next).Leads r ↔ ∃ i, (next i).Leads r := Iff.rfl

/-- What follows a computation starts from one of its values. -/
theorem leads_bind_ok {m : Draw ε α} {f : α → Draw ε β} {b : β} :
    (m.bind f).Leads (.ok b) ↔ ∃ a, m.Leads (.ok a) ∧ (f a).Leads (.ok b) := by
  induction m with
  | done a => simp
  | fail e => simp
  | pick width n next ih =>
    simp only [pick_bind, leads_pick, ih]
    exact ⟨fun ⟨i, a, h⟩ => ⟨a, ⟨i, h.1⟩, h.2⟩, fun ⟨a, ⟨i, h⟩, hf⟩ => ⟨i, a, h, hf⟩⟩

/-- A failure is one of the computation itself, or of what follows one of its values. -/
theorem leads_bind_error {m : Draw ε α} {f : α → Draw ε β} {e : ε} :
    (m.bind f).Leads (.error e) ↔
      m.Leads (.error e) ∨ ∃ a, m.Leads (.ok a) ∧ (f a).Leads (.error e) := by
  induction m with
  | done a => simp
  | fail e => simp
  | pick width n next ih =>
    simp only [pick_bind, leads_pick, ih]
    constructor
    · rintro ⟨i, h | ⟨a, h, hf⟩⟩
      · exact .inl ⟨i, h⟩
      · exact .inr ⟨a, ⟨i, h⟩, hf⟩
    · rintro (⟨i, h⟩ | ⟨a, ⟨i, h⟩, hf⟩)
      · exact ⟨i, .inl h⟩
      · exact ⟨i, .inr ⟨a, h, hf⟩⟩

@[simp] theorem leads_map_ok {m : Draw ε α} {f : α → β} {b : β} :
    (m.map f).Leads (.ok b) ↔ ∃ a, m.Leads (.ok a) ∧ b = f a := by
  simp [Draw.map, leads_bind_ok]

@[simp] theorem leads_map_error {m : Draw ε α} {f : α → β} {e : ε} :
    (m.map f).Leads (.error e) ↔ m.Leads (.error e) := by
  simp [Draw.map, leads_bind_error]

@[simp] theorem leads_index_ok {width : Width} {n : Nat} {i : Fin n} :
    (index width n : Draw ε (Fin n)).Leads (.ok i) := ⟨i, rfl⟩

@[simp] theorem not_leads_index_error {width : Width} {n : Nat} {e : ε} :
    ¬ (index width n : Draw ε (Fin n)).Leads (.error e) := by
  simp [index]

/-! ## Feasible computations -/

/-- Every choice is among at least one value and at most as many as there are words. -/
def Feasible : Draw ε α → Prop
  | done _ => True
  | fail _ => True
  | pick width n next => 0 < n ∧ n ≤ width.count ∧ ∀ i, (next i).Feasible

@[simp] theorem feasible_done (a : α) : (done a : Draw ε α).Feasible := trivial

@[simp] theorem feasible_fail (e : ε) : (fail e : Draw ε α).Feasible := trivial

theorem feasible_index {width : Width} {n : Nat} (hpos : 0 < n) (hle : n ≤ width.count) :
    (index width n : Draw ε (Fin n)).Feasible := ⟨hpos, hle, fun _ => trivial⟩

theorem Feasible.bind {m : Draw ε α} {f : α → Draw ε β} (hm : m.Feasible)
    (hf : ∀ a, (f a).Feasible) : (m.bind f).Feasible := by
  induction m with
  | done a => exact hf a
  | fail e => trivial
  | pick width n next ih => exact ⟨hm.1, hm.2.1, fun i => ih i (hm.2.2 i)⟩

theorem Feasible.map {m : Draw ε α} (hm : m.Feasible) (f : α → β) : (m.map f).Feasible :=
  hm.bind fun _ => trivial

theorem Feasible.iterate {f : α → Draw ε α} (hf : ∀ a, (f a).Feasible) (n : Nat) (a : α) :
    (Draw.iterate n f a).Feasible := by
  induction n generalizing a with
  | zero => trivial
  | succ n ih =>
    rw [iterate_succ]
    exact (hf a).bind ih

/-- A feasible computation comes to an end. -/
theorem Feasible.exists_leads {m : Draw ε α} (hm : m.Feasible) : ∃ r, m.Leads r := by
  induction m with
  | done a => exact ⟨.ok a, rfl⟩
  | fail e => exact ⟨.error e, rfl⟩
  | pick width n next ih =>
    obtain ⟨r, hr⟩ := ih ⟨0, hm.1⟩ (hm.2.2 _)
    exact ⟨r, ⟨0, hm.1⟩, hr⟩

/-! ## Every choice is made by a word

The least word whose product with `n` reaches `i * 2 ^ w` exceeds it by less than `n`, so its
upper part is `i` and its lower part is never refused. -/

theorem Width.le_zone (w : Width) (n : Nat) : n ≤ w.zone n := by
  rw [Width.zone, Nat.shiftLeft_eq]
  exact Nat.le_mul_of_pos_right n (Nat.two_pow_pos _)

/-- Every one of at most `2 ^ w` values is the choice of some word. -/
theorem Width.exists_choose? (w : Width) {n : Nat} (hn : n ≤ w.count) (i : Fin n) :
    ∃ word, w.choose? n word = some i := by
  have hpos : 0 < n := Nat.lt_of_le_of_lt (Nat.zero_le _) i.isLt
  have hcount : 0 < w.count := by cases w <;> decide
  -- `v` is the least word that will do, and `r` by how much its product goes beyond
  obtain ⟨v, r, hr, hv⟩ : ∃ v r, r < n ∧ v * n = i * w.count + r := by
    refine ⟨(i * w.count + (n - 1)) / n, n - 1 - (i * w.count + (n - 1)) % n, by omega, ?_⟩
    have hdiv := Nat.div_add_mod (i * w.count + (n - 1)) n
    have hmod := Nat.mod_lt (i * w.count + (n - 1)) hpos
    rw [Nat.mul_comm n] at hdiv
    omega
  have hlt : v < w.count := by
    have hi : (i + 1) * w.count ≤ n * w.count := Nat.mul_le_mul_right _ i.isLt
    rw [Nat.add_mul, Nat.one_mul] at hi
    have hlt : v * n < w.count * n := by
      rw [hv, Nat.mul_comm w.count]
      omega
    exact Nat.lt_of_mul_lt_mul_right hlt
  have hdiv : v * n / w.count = i := by
    rw [hv, Nat.mul_comm, Nat.mul_add_div hcount, Nat.div_eq_of_lt (Nat.lt_of_lt_of_le hr hn)]
    rfl
  have hmod : v * n % w.count < w.zone n := by
    rw [hv, Nat.mul_comm, Nat.mul_add_mod, Nat.mod_eq_of_lt (Nat.lt_of_lt_of_le hr hn)]
    exact Nat.lt_of_lt_of_le hr (w.le_zone n)
  rw [w.count_eq] at hlt
  refine ⟨BitVec.ofNatLT v hlt, ?_⟩
  simp only [choose?, BitVec.toNat_ofNatLT, hmod, ↓reduceDIte, Option.some.injEq]
  exact Fin.ext hdiv

/-- Every word of a width is the lower part of a 64-bit word. -/
theorem Width.exists_lower (w : Width) (word : BitVec w.bits) : ∃ v, w.lower v = word := by
  have hle : w.bits ≤ 64 := by cases w <;> decide
  refine ⟨⟨word.setWidth 64⟩, ?_⟩
  rw [lower, BitVec.setWidth_setWidth_of_le word hle, BitVec.setWidth_eq]

/-! ## Runs -/

/-- How a run ends that did not run out of words. -/
def Outcome.ofExcept : Except ε α → Outcome ε α
  | .ok a => .value a
  | .error e => .failed e

@[simp] theorem Outcome.ofExcept_ok (a : α) :
    (Outcome.ofExcept (.ok a) : Outcome ε α) = .value a := rfl

@[simp] theorem Outcome.ofExcept_error (e : ε) :
    (Outcome.ofExcept (.error e) : Outcome ε α) = .failed e := rfl

theorem Outcome.ofExcept_injective {r s : Except ε α}
    (h : Outcome.ofExcept r = Outcome.ofExcept s) : r = s := by
  cases r <;> cases s <;> simp_all [Outcome.ofExcept]

/-- A run on any source runs out of words or comes to an end of the computation. -/
theorem run_cases {σ : Type} [FiniteSource σ] (m : Draw ε α) (s : σ) :
    (m.run s).1 = .exhausted ∨ ∃ r, m.Leads r ∧ (m.run s).1 = Outcome.ofExcept r := by
  induction m generalizing s with
  | done a => exact .inr ⟨.ok a, rfl, rfl⟩
  | fail e => exact .inr ⟨.error e, rfl, rfl⟩
  | pick width n next ih =>
    rw [run]
    rcases pickFrom width n s with ⟨_ | i, rest⟩
    · exact .inl rfl
    · rcases ih i rest with hout | ⟨r, hr, hrun⟩
      · exact .inl hout
      · exact .inr ⟨r, ⟨i, hr⟩, hrun⟩

/-- The value of a run is a value of the computation. -/
theorem leads_of_run_value {σ : Type} [FiniteSource σ] {m : Draw ε α} {s : σ} {a : α}
    (h : (m.run s).1 = .value a) : m.Leads (.ok a) := by
  rcases m.run_cases s with hout | ⟨r, hr, hrun⟩
  · simp [h] at hout
  · rw [h, ← Outcome.ofExcept_ok] at hrun
    rwa [Outcome.ofExcept_injective hrun]

/-- The failure of a run is a failure of the computation. -/
theorem leads_of_run_failed {σ : Type} [FiniteSource σ] {m : Draw ε α} {s : σ} {e : ε}
    (h : (m.run s).1 = .failed e) : m.Leads (.error e) := by
  rcases m.run_cases s with hout | ⟨r, hr, hrun⟩
  · simp [h] at hout
  · rw [h, ← Outcome.ofExcept_error] at hrun
    rwa [Outcome.ofExcept_injective hrun]

/-- The word that a source hands out next makes its choice, or is gone and the next one is tried. -/
theorem pickFrom_of_word? {σ : Type} [FiniteSource σ] {width : Width} {n : Nat} {s rest : σ}
    {word : BitVec width.bits} (h : WordSource.word? width s = some (word, rest)) :
    pickFrom width n s =
      match width.choose? n word with
      | some i => (some i, rest)
      | none => pickFrom width n rest := by
  rw [pickFrom]
  split
  · next hnone => simp [hnone] at h
  · next hsome =>
    obtain ⟨rfl, rfl⟩ := Prod.mk.inj (Option.some.inj (hsome.symm.trans h))
    rfl

/-- What a list of words hands out next is the lower part of its first word. -/
theorem word?_cons (width : Width) (v : UInt64) (words : List UInt64) :
    WordSource.word? width (⟨v :: words⟩ : Words) = some (width.lower v, ⟨words⟩) := rfl

/-- Every end of a feasible computation has words that lead to it. -/
theorem exists_run_of_leads {m : Draw ε α} (hm : m.Feasible) {r : Except ε α} (hr : m.Leads r) :
    ∃ words, m.run (⟨words⟩ : Words) = (Outcome.ofExcept r, ⟨[]⟩) := by
  induction m with
  | done a => exact ⟨[], by rw [leads_done.1 hr]; rfl⟩
  | fail e => exact ⟨[], by rw [leads_fail.1 hr]; rfl⟩
  | pick width n next ih =>
    obtain ⟨i, hi⟩ := hr
    obtain ⟨words, hwords⟩ := ih i (hm.2.2 i) hi
    -- one word makes the first choice; it need not be refused first, so one is enough
    obtain ⟨word, hword⟩ := width.exists_choose? hm.2.1 i
    obtain ⟨v, hv⟩ := width.exists_lower word
    refine ⟨v :: words, ?_⟩
    rw [run, pickFrom_of_word? (word?_cons width v words), hv, hword]
    exact hwords

/-- **The reachable ends**: sequences of random words lead a feasible computation to exactly the
ends of its tree. -/
theorem exists_words_iff {m : Draw ε α} (hm : m.Feasible) {r : Except ε α} :
    (∃ words : Words, (m.run words).1 = Outcome.ofExcept r) ↔ m.Leads r := by
  constructor
  · rintro ⟨words, h⟩
    cases r with
    | ok a => exact leads_of_run_value h
    | error e => exact leads_of_run_failed h
  · intro hr
    obtain ⟨words, h⟩ := exists_run_of_leads hm hr
    exact ⟨⟨words⟩, by rw [h]⟩

end Moniker.Draw
