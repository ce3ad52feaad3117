import Mathlib.Data.List.Destutter
import Mathlib.Data.List.Sort
import Moniker.Proofs.Tree.Evenness
import Moniker.Proofs.Tree.Matching

/-!
# Classes as sets of pools

A class is made from a list of pools, in any order and with repetitions. It depends on nothing but
which pools are in the list, and its characters are told in three ways that agree: by the pools, by
the alphabet that characters are picked from, and by the brackets of the expression that names are
checked with.

* `CharClass.ofPools?_eq_iff` — the class depends on which pools are in the list;
* `CharClass.sortedOnce_eq_filter` — its pools are the list, sorted and without repetitions;
* `CharClass.exists_term_classText` — the brackets of a class match its characters;
* `CharClass.ofPools?_canonical` — all of it together.
-/

namespace Moniker

/-! ## The order of the flags -/

namespace Pool

/-- The place of its flag. -/
def place (p : Pool) : Nat := all.idxOf p

theorem place_injective : Function.Injective place := by
  intro p q
  cases p <;> cases q <;> decide

/-- All pools stand in their order. -/
theorem pairwise_all : all.Pairwise fun p q => p.place < q.place := by decide

end Pool

namespace CharClass

/-! ## Pools of a class -/

variable {chosen : List Pool} {cls : CharClass}

/-- No class is made of no pools. -/
theorem ofPools?_eq_none_iff : ofPools? chosen = none ↔ chosen = [] := by
  simp [ofPools?, Pool.mem_all, List.eq_nil_iff_forall_not_mem]

/-- The pools of a class are those it was made from. -/
theorem mem_pools_of_ofPools? (h : ofPools? chosen = some cls) {p : Pool} :
    p ∈ cls.pools ↔ p ∈ chosen := by
  simp [ofPools?_eq_some_iff.1 h, Pool.mem_all]

/-- Two lists give the same class if they have the same pools. -/
theorem ofPools?_eq_iff {ps qs : List Pool} :
    ofPools? ps = ofPools? qs ↔ ∀ p, p ∈ ps ↔ p ∈ qs := by
  constructor
  · intro h
    rcases hps : ofPools? ps with _ | cls
    · have hqs := h.symm.trans hps
      rw [ofPools?_eq_none_iff] at hps hqs
      simp [hps, hqs]
    · intro p
      rw [← mem_pools_of_ofPools? hps, mem_pools_of_ofPools? (h.symm.trans hps)]
  · intro h
    simp only [ofPools?, h]

/-! ## Sorting -/

/-- The pools of a list in the order of their flags. -/
def sorted (chosen : List Pool) : List Pool := chosen.mergeSort fun p q => p.place ≤ q.place

/-- The pools in order, each once: the list is sorted, and repetitions side by side are dropped. -/
def sortedOnce (chosen : List Pool) : List Pool := (sorted chosen).destutter (· ≠ ·)

theorem pairwise_sorted (chosen : List Pool) :
    (sorted chosen).Pairwise fun p q => p.place ≤ q.place := by
  have h : (sorted chosen).Pairwise fun p q => decide (p.place ≤ q.place) = true := by
    apply List.pairwise_mergeSort
    · intro p q r hpq hqr
      simpa using Nat.le_trans (by simpa using hpq) (by simpa using hqr)
    · intro p q
      simpa using Nat.le_total p.place q.place
  simpa using h

/-- In a sorted list, equal pools stand side by side. -/
theorem sortedOnce_eq_dedup (chosen : List Pool) : sortedOnce chosen = (sorted chosen).dedup := by
  have : Std.Antisymm fun p q : Pool => p.place ≤ q.place :=
    ⟨fun _ _ hpq hqp => Pool.place_injective (Nat.le_antisymm hpq hqp)⟩
  exact (pairwise_sorted chosen).destutter_eq_dedup

theorem mem_sortedOnce {p : Pool} : p ∈ sortedOnce chosen ↔ p ∈ chosen := by
  rw [sortedOnce_eq_dedup, List.mem_dedup, sorted, List.mem_mergeSort]

theorem pairwise_sortedOnce (chosen : List Pool) :
    (sortedOnce chosen).Pairwise fun p q => p.place < q.place := by
  have hle := (pairwise_sorted chosen).sublist (List.dedup_sublist _)
  rw [sortedOnce_eq_dedup]
  refine (hle.and (List.nodup_dedup _)).imp ?_
  rintro p q ⟨hpq, hne⟩
  exact Nat.lt_of_le_of_ne hpq (Pool.place_injective.ne hne)

/-- Sorted lists with the same pools are equal. -/
theorem sortedOnce_eq_filter (chosen : List Pool) :
    sortedOnce chosen = Pool.all.filter (· ∈ chosen) := by
  have : Std.Antisymm fun p q : Pool => p.place < q.place :=
    ⟨fun _ _ hpq hqp => absurd hqp (Nat.lt_asymm hpq)⟩
  have : Std.Irrefl fun p q : Pool => p.place < q.place := ⟨fun p => Nat.lt_irrefl p.place⟩
  refine (pairwise_sortedOnce chosen).eq_of_mem_iff
    (Pool.pairwise_all.sublist List.filter_sublist) ?_
  simp [mem_sortedOnce, Pool.mem_all]

/-! ## Characters of a class -/

/-- A class contains what is in its alphabet. -/
theorem contains_iff_mem_alphabet {c : Char} : cls.contains c = true ↔ c ∈ cls.alphabet := by
  rw [contains, List.contains_iff_mem]

/-- A class contains the characters of the pools that it was made from. -/
theorem contains_iff_of_ofPools? (h : ofPools? chosen = some cls) {c : Char} :
    cls.contains c = true ↔ ∃ p ∈ chosen, c ∈ p.chars := by
  simp only [contains_iff_mem_alphabet, alphabet, List.mem_flatMap, mem_pools_of_ofPools? h]

/-- The brackets that are written for a class are read as one term, and it matches the characters
of the class, one at a time. -/
theorem exists_term_classText (cls : CharClass) :
    ∃ term, Regex.ofText? (Regex.classText cls) = some [term] ∧
      ∀ whole ahead after, term.Matches whole ahead after ↔
        ∃ c, cls.contains c = true ∧ ahead = c :: after := by
  refine ⟨_, Regex.ofText?_classText cls, ?_⟩
  intro whole ahead after
  simp only [Regex.matches_poolRanges, contains_iff_mem_alphabet]

/-- What is written for a node of a class begins with its brackets, and goes on with a count unless
the class stands there once. Nothing is written if the range is inverted. -/
theorem text_chars (range : Range) (cls : CharClass) :
    (Tree.Node.chars range cls).regex?.map Regex.text =
      if range.inverted then .error range
      else .ok (Regex.classText cls ++ if range = .once then [] else Regex.rangeText range) := by
  rw [Tree.Node.regex?, Tree.countedAs?_eq]
  split_ifs
  · rfl
  · simp [Except.map, Regex.text]
  · simp [Except.map, Regex.text]

/-- **Classes are canonical.** Two lists of pools, in any order and with any repetitions, make the
same class if and only if the same pools are in them, and none only if there are none. The pools of
the class are those of the list, sorted and each once. No character stands twice in its alphabet,
and one is in the class if and only if it is in one of the pools. The brackets with which the
expression of a node of the class begins match the same characters, one at a time. -/
theorem ofPools?_canonical :
    (∀ ps qs : List Pool, ofPools? ps = ofPools? qs ↔ ∀ p, p ∈ ps ↔ p ∈ qs) ∧
    (∀ ps : List Pool, ofPools? ps = none ↔ ps = []) ∧
    ∀ (ps : List Pool) (cls : CharClass), ofPools? ps = some cls →
      cls.pools = sortedOnce ps ∧
      (cls.pools.Pairwise fun p q => p.place < q.place) ∧
      cls.alphabet.Nodup ∧
      (∀ c, cls.contains c = true ↔ ∃ p ∈ ps, c ∈ p.chars) ∧
      (∃ term, Regex.ofText? (Regex.classText cls) = some [term] ∧
        ∀ whole ahead after, term.Matches whole ahead after ↔
          ∃ c, cls.contains c = true ∧ ahead = c :: after) ∧
      ∀ range : Range, (Tree.Node.chars range cls).regex?.map Regex.text =
        if range.inverted then .error range
        else .ok (Regex.classText cls ++ if range = .once then [] else Regex.rangeText range) := by
  refine ⟨fun _ _ => ofPools?_eq_iff, fun _ => ofPools?_eq_none_iff, ?_⟩
  intro ps cls h
  refine ⟨?_, ?_, cls.nodup_alphabet, ?_, cls.exists_term_classText, ?_⟩
  · rw [sortedOnce_eq_filter, ofPools?_eq_some_iff.1 h]
  · exact Pool.pairwise_all.sublist cls.inOrder
  · intro c
    exact contains_iff_of_ofPools? h
  · intro range
    exact text_chars range cls

/-- Digits that are chosen twice, behind the capital letters or in front of them, are in the class
once and behind the letters. -/
theorem ofPools?_canonical_digitsTwice :
    ∃ cls, ofPools? [.digit, .upper, .digit] = some cls ∧
      ofPools? [.upper, .digit] = some cls ∧
      sortedOnce [.digit, .upper, .digit] = [.upper, .digit] ∧
      cls.contains 'Q' = true ∧ cls.contains 'q' = false ∧ cls.contains 'É' = false ∧
      (Tree.Node.chars .once cls).regex?.map Regex.text = .ok "[A-Z0-9]".toList ∧
      ∃ term, Regex.ofText? "[A-Z0-9]".toList = some [term] ∧
        ¬ term.Matches ['q'] ['q'] [] ∧ term.Matches ['7', '_'] ['7', '_'] ['_'] := by
  let cls : CharClass := ⟨[.upper, .digit], by decide, by decide⟩
  obtain ⟨hsame, -, hclass⟩ := ofPools?_canonical
  have htwice : ofPools? [.digit, .upper, .digit] = some cls := rfl
  have hset : ∀ p : Pool, p ∈ [Pool.digit, .upper, .digit] ↔ p ∈ [Pool.upper, .digit] := by
    intro p
    cases p <;> decide
  obtain ⟨hpools, -, -, hchars, ⟨term, hread, hmatches⟩, htext⟩ := hclass _ cls htwice
  have hcapital : cls.contains 'Q' = true := (hchars 'Q').2 (by decide +kernel)
  have hsmall : cls.contains 'q' = false := by
    rw [Bool.eq_false_iff, ne_eq, hchars]
    decide +kernel
  have haccent : cls.contains 'É' = false := by
    rw [Bool.eq_false_iff, ne_eq, hchars]
    decide +kernel
  refine ⟨cls, htwice, (hsame _ _).2 hset ▸ htwice, hpools.symm, hcapital, hsmall, haccent,
    htext .once, term, hread, ?_, ?_⟩
  · rw [hmatches]
    rintro ⟨c, hc, heq⟩
    obtain ⟨rfl, -⟩ := List.cons.inj heq
    exact absurd hc (by simp [hsmall])
  · exact (hmatches _ _ _).2 ⟨'7', (hchars '7').2 (by decide +kernel), rfl⟩

end CharClass

end Moniker
