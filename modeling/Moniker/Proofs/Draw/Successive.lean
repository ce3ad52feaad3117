import Moniker.Draw.Source

/-!
# Successive runs on one source

Computations can be run one after the other, each on what the one before it has left of a source.
Then what comes later makes no difference to what came before.

* `Successive` — the values that several computations give one after the other;
* `successive_append_iff` — more computations go on where the first ones have stopped;
* `run_collect_iff` — to collect the values of a computation is to run it several times.
-/

namespace Moniker.Draw

variable {σ ε α β : Type} [FiniteSource σ]

/-! ## Values of runs -/

theorem run_bind_eq_value_iff {m : Draw ε α} {f : α → Draw ε β} {s rest : σ} {b : β} :
    (m.bind f).run s = (.value b, rest) ↔
      ∃ a mid, m.run s = (.value a, mid) ∧ (f a).run mid = (.value b, rest) := by
  rw [run_bind]
  rcases m.run s with ⟨a | e | _, mid⟩ <;> simp [and_assoc]

theorem run_map_eq_value_iff {m : Draw ε α} {f : α → β} {s rest : σ} {b : β} :
    (m.map f).run s = (.value b, rest) ↔ ∃ a, m.run s = (.value a, rest) ∧ f a = b := by
  rw [Draw.map, run_bind_eq_value_iff]
  constructor
  · rintro ⟨a, mid, ha, hdone⟩
    obtain ⟨hvalue, rfl⟩ := Prod.mk.inj hdone
    exact ⟨a, ha, Outcome.value.inj hvalue⟩
  · rintro ⟨a, ha, rfl⟩
    exact ⟨a, rest, ha, rfl⟩

/-! ## One after the other -/

/-- Run one after the other on a source, the computations give these values and leave `rest`. -/
inductive Successive : σ → List (Draw ε α) → List α → σ → Prop where
  | nil {s : σ} : Successive s [] [] s
  | cons {s mid rest : σ} {m : Draw ε α} {ms : List (Draw ε α)} {a : α} {as : List α}
    (hfirst : m.run s = (.value a, mid)) (hlater : Successive mid ms as rest) :
    Successive s (m :: ms) (a :: as) rest

variable {s mid rest : σ} {m : Draw ε α} {ms ns : List (Draw ε α)} {as bs : List α}

@[simp] theorem successive_nil_iff :
    Successive s ([] : List (Draw ε α)) as rest ↔ as = [] ∧ s = rest := by
  constructor
  · rintro ⟨⟩
    exact ⟨rfl, rfl⟩
  · rintro ⟨rfl, rfl⟩
    exact .nil

theorem successive_cons_iff :
    Successive s (m :: ms) as rest ↔
      ∃ a mid later, m.run s = (.value a, mid) ∧ Successive mid ms later rest ∧
        a :: later = as := by
  constructor
  · rintro (_ | ⟨hfirst, hlater⟩)
    exact ⟨_, _, _, hfirst, hlater, rfl⟩
  · rintro ⟨a, mid, later, hfirst, hlater, rfl⟩
    exact .cons hfirst hlater

/-- Each computation gives one value. -/
theorem Successive.length_eq (h : Successive s ms as rest) : as.length = ms.length := by
  induction h with
  | nil => rfl
  | cons _ _ ih => rw [List.length_cons, List.length_cons, ih]

/-- Each value is that of one of the computations, run on some part of the source. -/
theorem Successive.exists_run (h : Successive s ms as rest) {a : α} (ha : a ∈ as) :
    ∃ m ∈ ms, ∃ mid : σ, (m.run mid).1 = .value a := by
  induction h with
  | nil => exact absurd ha List.not_mem_nil
  | @cons s _ _ m _ _ _ hfirst _ ih =>
    rcases List.mem_cons.1 ha with rfl | ha
    · exact ⟨m, List.mem_cons_self, s, congrArg Prod.fst hfirst⟩
    · obtain ⟨m, hm, hrun⟩ := ih ha
      exact ⟨m, List.mem_cons_of_mem _ hm, hrun⟩

/-- The values of the first ones do not depend on those that come later. -/
theorem successive_append_iff :
    Successive s (ms ++ ns) as rest ↔
      ∃ first mid later, Successive s ms first mid ∧ Successive mid ns later rest ∧
        first ++ later = as := by
  induction ms generalizing s as with
  | nil => simp [and_assoc]
  | cons m ms ih =>
    simp only [List.cons_append, successive_cons_iff, ih]
    constructor
    · rintro ⟨a, mid, _, hm, ⟨first, mid', later, hfirst, hlater, rfl⟩, rfl⟩
      exact ⟨_, mid', later, ⟨a, mid, first, hm, hfirst, rfl⟩, hlater, rfl⟩
    · rintro ⟨_, mid', later, ⟨a, mid, first, hm, hfirst, rfl⟩, hlater, rfl⟩
      exact ⟨a, mid, _, hm, ⟨first, mid', later, hfirst, hlater, rfl⟩, rfl⟩

/-- A source leads to one list of values only. -/
theorem Successive.unique {rest' : σ} (h : Successive s ms as rest)
    (h' : Successive s ms bs rest') : as = bs ∧ rest = rest' := by
  induction h generalizing bs with
  | nil =>
    obtain ⟨rfl, rfl⟩ := successive_nil_iff.1 h'
    exact ⟨rfl, rfl⟩
  | cons hfirst _ ih =>
    obtain ⟨b, mid, later, hfirst', hlater, rfl⟩ := successive_cons_iff.1 h'
    obtain ⟨hvalue, rfl⟩ := Prod.mk.inj (hfirst.symm.trans hfirst')
    obtain ⟨rfl, rfl⟩ := ih hlater
    exact ⟨congrArg (· :: _) (Outcome.value.inj hvalue), rfl⟩

/-! ## Collected values -/

/-- To take in the value of a computation again and again is to run it as often, and to take in
the values. -/
theorem run_iterate_iff {f : β → α → β} {n : Nat} {b c : β} :
    (iterate n (fun b => m.map (f b)) b).run s = (.value c, rest) ↔
      ∃ as, Successive s (List.replicate n m) as rest ∧ as.foldl f b = c := by
  induction n generalizing s b with
  | zero =>
    simp only [iterate_zero, run_done, Prod.mk.injEq, Outcome.value.injEq, List.replicate_zero,
      successive_nil_iff]
    constructor
    · rintro ⟨rfl, rfl⟩
      exact ⟨[], ⟨rfl, rfl⟩, rfl⟩
    · rintro ⟨_, ⟨rfl, rfl⟩, rfl⟩
      exact ⟨rfl, rfl⟩
  | succ n ih =>
    simp only [iterate_succ, run_bind_eq_value_iff, run_map_eq_value_iff, ih,
      List.replicate_succ, successive_cons_iff]
    constructor
    · rintro ⟨_, mid, ⟨a, ha, rfl⟩, later, hlater, rfl⟩
      exact ⟨a :: later, ⟨a, mid, later, ha, hlater, rfl⟩, rfl⟩
    · rintro ⟨_, ⟨a, mid, later, ha, hlater, rfl⟩, rfl⟩
      exact ⟨_, mid, ⟨a, ha, rfl⟩, later, hlater, rfl⟩

/-- To collect values is to run the computation as often. -/
theorem run_collect_iff {n : Nat} :
    (collect n m).run s = (.value as, rest) ↔ Successive s (List.replicate n m) as rest := by
  have hgather : ∀ new : List α, new.foldl (fun gathered a => a :: gathered) [] = new.reverse :=
    fun _ => List.foldl_flip_cons_eq_append'.trans (List.append_nil _)
  simp only [collect, run_map_eq_value_iff, run_iterate_iff, hgather]
  constructor
  · rintro ⟨_, ⟨new, hnew, rfl⟩, rfl⟩
    rwa [List.reverse_reverse]
  · intro h
    exact ⟨as.reverse, ⟨as, h, rfl⟩, List.reverse_reverse as⟩

end Moniker.Draw
