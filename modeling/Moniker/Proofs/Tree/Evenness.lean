import Moniker.Proofs.Draw.Counting
import Moniker.Proofs.Draw.Successive
import Moniker.Proofs.Tree.Language

/-!
# Counts and characters are picked evenly

Every count of a range, and every character of a class, is picked by the same number of words. So
no name is favoured, and nothing outside of the range or of the class is ever picked.

* `Range.even_draw`, `CharClass.even_draw` — one word picks a count or a character, evenly;
* `Range.settledBy_draw_iff`, `CharClass.settledBy_draw_iff` — which word picks which of them;
* `Range.settledBy_draw_all` — if all counts of 32 bits are allowed, a word picks itself;
* `Node.run_extend_chars_iff` — a node of a class writes characters that are picked one after the
  other.
-/

namespace Moniker

open Draw (Width Even FiniteSource Successive)

/-! ## Counts -/

namespace Range

variable {r : Range}

/-- If several counts are possible one of them is picked. -/
theorem draw_of_lt (h : r.min < r.max) :
    r.draw = (Draw.index .w32 r.size).map fun i : Fin r.size => r.min.toNat + i := by
  have hinverted : ¬ r.inverted = true := by
    rw [inverted_iff]
    exact UInt32.lt_asymm h
  have hfixed : ¬ r.isFixed = true := by
    rw [isFixed_iff]
    exact UInt32.ne_of_lt h
  rw [draw, if_neg hinverted, if_neg hfixed]
  rfl

theorem size_pos (h : r.min < r.max) : 0 < r.size := by
  have hlt : r.min.toNat < r.max.toNat := h
  unfold size
  omega

/-- The counts of a range are as many as its size. -/
theorem range_min_add (h : r.min < r.max) :
    Set.range (fun i : Fin r.size => r.min.toNat + i) = {n | r.Contains n} := by
  have hlt : r.min.toNat < r.max.toNat := h
  ext n
  constructor
  · rintro ⟨⟨i, hi⟩, rfl⟩
    simp only [size] at hi
    exact ⟨Nat.le_add_right _ _, by dsimp only; omega⟩
  · rintro ⟨hmin, hmax⟩
    refine ⟨⟨n - r.min.toNat, ?_⟩, Nat.add_sub_cancel' hmin⟩
    unfold size
    omega

theorem min_add_injective : Function.Injective fun i : Fin r.size => r.min.toNat + i :=
  fun _ _ h => Fin.ext (Nat.add_left_cancel h)

/-- Each count of a range is picked by equally many words. -/
theorem even_draw (h : r.min < r.max) (hsize : r.size < 2 ^ 32) :
    Even r.draw .w32 r.size {n | r.Contains n} := by
  rw [draw_of_lt h, ← range_min_add h]
  exact Draw.even_index_map min_add_injective (size_pos h) hsize

/-- The count is the upper part of a product, from the least one on, if the lower part is not
beyond the zone. -/
theorem settledBy_draw_iff (h : r.min < r.max) (hsize : r.size < 2 ^ 32) (word : BitVec 32)
    (n : Nat) :
    r.draw.SettledBy .w32 word n ↔
      word.toNat * r.size % 2 ^ 32 ≤ (r.size <<< Width.w32.leadingZeros r.size) - 1 ∧
        r.min.toNat + word.toNat * r.size / 2 ^ 32 = n := by
  rw [draw_of_lt h]
  have hcount : r.size < Width.w32.count := hsize
  exact Draw.settledBy_index_map_iff_mul (size_pos h) hcount

/-- If all counts of 32 bits are in the range, every word is the count that it picks. -/
theorem settledBy_draw_all (word : BitVec 32) :
    (⟨0, 4294967295⟩ : Range).draw.SettledBy .w32 word word.toNat := by
  rw [draw_of_lt (by decide)]
  exact Draw.settledBy_index_map.2
    ⟨⟨word.toNat, word.isLt⟩, Width.choose?_count (w := .w32) rfl, Nat.zero_add _⟩

variable {σ : Type} [FiniteSource σ] {s : σ}

theorem contains_of_run_draw {n : Nat} (h : (r.draw.run s).1 = .value n) : r.Contains n :=
  draw_leads_ok.1 (Draw.leads_of_run_value h)

/-- If only one count is possible no word is taken. -/
theorem run_draw_of_eq (h : r.min = r.max) : r.draw.run s = (.value r.min.toNat, s) := by
  simp [draw, inverted, isFixed, h]

/-- If the range is inverted no word is taken. -/
theorem run_draw_of_gt (h : r.max < r.min) : r.draw.run s = (.failed r, s) := by
  simp [draw, inverted, h]

end Range

/-! ## Characters -/

namespace CharClass

/-- No character stands twice in the alphabet. -/
theorem nodup_alphabet (cls : CharClass) : cls.alphabet.Nodup := by
  have hall : (Pool.all.flatMap Pool.chars).Nodup := by decide +kernel
  exact hall.sublist cls.alphabet_sublist

theorem length_alphabet_pos (cls : CharClass) : 0 < cls.alphabet.length :=
  List.length_pos_iff.2 cls.alphabet_ne_nil

theorem length_alphabet_lt (cls : CharClass) : cls.alphabet.length < Width.w64.count :=
  cls.length_alphabet_le.trans_lt (by decide)

/-- Each character of a class is picked by equally many words. -/
theorem even_draw (cls : CharClass) :
    Even cls.draw .w64 cls.alphabet.length {c | c ∈ cls.alphabet} := by
  have hrange : Set.range (fun i : Fin cls.alphabet.length => cls.alphabet[i]) =
      {c | c ∈ cls.alphabet} := by
    ext c
    exact List.mem_iff_get.symm
  rw [← hrange]
  exact Draw.even_index_map (List.nodup_iff_injective_get.1 cls.nodup_alphabet)
    cls.length_alphabet_pos cls.length_alphabet_lt

/-- The character is found in the alphabet at the upper part of a product, if the lower part is
not beyond the zone. -/
theorem settledBy_draw_iff (cls : CharClass) (word : BitVec 64) (c : Char) :
    cls.draw.SettledBy .w64 word c ↔
      word.toNat * cls.alphabet.length % 2 ^ 64 ≤
          (cls.alphabet.length <<< Width.w64.leadingZeros cls.alphabet.length) - 1 ∧
        cls.alphabet[word.toNat * cls.alphabet.length / 2 ^ 64]? = some c := by
  have hquot := Width.quot_lt (w := .w64) cls.length_alphabet_pos word
  refine (Draw.settledBy_index_map_iff_mul cls.length_alphabet_pos cls.length_alphabet_lt).trans ?_
  refine and_congr_right fun _ => ?_
  exact (List.getElem?_eq_some_iff.trans (exists_prop_of_true hquot)).symm

end CharClass

namespace Tree

/-- To push characters one by one is to write them. -/
theorem foldl_push (cs : List Char) (written : String) :
    cs.foldl String.push written = written ++ String.ofList cs := by
  induction cs generalizing written with
  | nil => simp
  | cons c cs ih =>
    rw [List.foldl_cons, ih, String.ofList_cons, ← String.append_singleton, String.append_assoc]

/-- A node of a class picks a count and then as many characters, one after the other. -/
theorem Node.run_extend_chars_iff {σ : Type} [FiniteSource σ] {s rest : σ} {range : Range}
    {cls : CharClass} {written text : String} :
    ((Node.chars range cls).extend written).run s = (.value text, rest) ↔
      ∃ n mid cs, range.draw.run s = (.value n, mid) ∧
        Successive mid (List.replicate n cls.draw) cs rest ∧
        written ++ String.ofList cs = text := by
  simp only [extend_chars, Draw.run_bind_eq_value_iff, Draw.run_iterate_iff, foldl_push]
  constructor
  · rintro ⟨n, mid, hn, cs, hcs, rfl⟩
    exact ⟨n, mid, cs, hn, hcs, rfl⟩
  · rintro ⟨n, mid, cs, hn, hcs, rfl⟩
    exact ⟨n, mid, hn, cs, hcs, rfl⟩

end Tree

/-! ## Everything that is picked -/

/-- **Picking is even and stays in bounds.** If a range allows several counts, but not all that 32
bits can write, each of its counts is picked by two to the number of leading zeros of its size many
words, every other word is refused, and no more than half of the words are; the pick is the upper
part of the product of word and size. If it allows all counts, a word picks itself. No count outside
of a range is ever picked, and if there is only one or none no word is taken. In the same way, with
words of 64 bits, the characters of a class are picked, and a node of a class writes such characters
one after the other. -/
theorem draws_even :
    (∀ r : Range, r.min < r.max → r.size < 2 ^ 32 →
      Even r.draw .w32 r.size {n | r.Contains n} ∧
      ∀ (word : BitVec 32) (n : Nat), r.draw.SettledBy .w32 word n ↔
        word.toNat * r.size % 2 ^ 32 ≤ (r.size <<< Width.w32.leadingZeros r.size) - 1 ∧
          r.min.toNat + word.toNat * r.size / 2 ^ 32 = n) ∧
    (∀ word : BitVec 32, (⟨0, 4294967295⟩ : Range).draw.SettledBy .w32 word word.toNat) ∧
    (∀ (r : Range) (σ : Type) [FiniteSource σ] (s : σ),
      (∀ n, (r.draw.run s).1 = .value n → r.Contains n) ∧
      (r.min = r.max → r.draw.run s = (.value r.min.toNat, s)) ∧
      (r.max < r.min → r.draw.run s = (.failed r, s))) ∧
    (∀ cls : CharClass,
      Even cls.draw .w64 cls.alphabet.length {c | c ∈ cls.alphabet} ∧
      (∀ word : BitVec 64,
        word.toNat * cls.alphabet.length / 2 ^ 64 < cls.alphabet.length) ∧
      ∀ (word : BitVec 64) (c : Char), cls.draw.SettledBy .w64 word c ↔
        word.toNat * cls.alphabet.length % 2 ^ 64 ≤
            (cls.alphabet.length <<< Width.w64.leadingZeros cls.alphabet.length) - 1 ∧
          cls.alphabet[word.toNat * cls.alphabet.length / 2 ^ 64]? = some c) ∧
    ∀ (range : Range) (cls : CharClass) (written text : String) (σ : Type) [FiniteSource σ]
      (s rest : σ), ((Tree.Node.chars range cls).extend written).run s = (.value text, rest) ↔
        ∃ n mid cs, range.draw.run s = (.value n, mid) ∧
          Successive mid (List.replicate n cls.draw) cs rest ∧
          written ++ String.ofList cs = text := by
  refine ⟨fun r hlt hsize => ⟨Range.even_draw hlt hsize, Range.settledBy_draw_iff hlt hsize⟩,
    Range.settledBy_draw_all, fun r σ _ s => ⟨?_, Range.run_draw_of_eq, Range.run_draw_of_gt⟩,
    fun cls => ⟨cls.even_draw, ?_, cls.settledBy_draw_iff⟩, ?_⟩
  · intro n hn
    exact Range.contains_of_run_draw hn
  · intro word
    exact Width.quot_lt (w := .w64) cls.length_alphabet_pos word
  · intro range cls written text σ _ s rest
    exact Tree.Node.run_extend_chars_iff

/-- Each side of a die is picked by an eighth of all words, and a quarter of them is refused. -/
theorem draws_even_die :
    {word : BitVec 32 | (⟨1, 6⟩ : Range).draw.SettledBy .w32 word 5}.ncard = 2 ^ 29 ∧
      (⟨1, 6⟩ : Range).draw.SettledBy .w32 3000000000 5 ∧
      (⟨7, 7⟩ : Range).draw.run (⟨[]⟩ : Draw.Words) = (.value 7, ⟨[]⟩) ∧
      (⟨7, 7⟩ : Range).Contains 7 ∧
      (⟨4, 2⟩ : Range).draw.run (⟨[]⟩ : Draw.Words) = (.failed ⟨4, 2⟩, ⟨[]⟩) ∧
      {word : BitVec 64 | (CharClass.ofPool .digit).draw.SettledBy .w64 word '4'}.ncard =
        2 ^ 60 := by
  obtain ⟨hcounts, -, hruns, hchars, -⟩ := draws_even
  obtain ⟨heven, hrule⟩ := hcounts ⟨1, 6⟩ (by decide) (by decide)
  obtain ⟨hbounds, hfixed, -⟩ := hruns ⟨7, 7⟩ Draw.Words ⟨[]⟩
  have hseven := hfixed rfl
  refine ⟨?_, ?_, hseven, hbounds 7 (congrArg Prod.fst hseven), ?_, ?_⟩
  · exact (heven.ncard_settledBy 5 ⟨by decide, by decide⟩).trans (by decide)
  · exact (hrule 3000000000 5).2 (by decide)
  · exact (hruns ⟨4, 2⟩ Draw.Words ⟨[]⟩).2.2 (by decide)
  · have hmem : '4' ∈ (CharClass.ofPool .digit).alphabet := by decide
    exact ((hchars (.ofPool .digit)).1.ncard_settledBy '4' hmem).trans (by decide)

end Moniker
