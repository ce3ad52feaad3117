import Moniker.Proofs.Pattern.Tiling
import Moniker.Proofs.Tree.Meaning

/-!
# The characters of a name

A name is made of the literals of its pattern and of characters of classes, so it can have no
character that is neither in the pattern text nor in one of the pools.

* `Spelled` — the words of a language have no characters but such;
* `Pattern.spelled` — so for the language of a pattern that stands in a text;
* `Tree.occurs_of_run` — and so for every name, whatever the source of its random words.
-/

namespace Moniker

open Draw (FiniteSource)

/-! ## Languages -/

/-- All words of the language are made of such characters. -/
def Spelled (P : Char → Prop) (l : Language Char) : Prop := ∀ w ∈ l, ∀ c ∈ w, P c

namespace Spelled

variable {P : Char → Prop} {l m : Language Char}

theorem one : Spelled P 1 := by
  rintro _ rfl c hc
  exact absurd hc List.not_mem_nil

theorem mul (hl : Spelled P l) (hm : Spelled P m) : Spelled P (l * m) := by
  intro w hw c hc
  obtain ⟨u, hu, v, hv, rfl⟩ := Language.mem_mul.1 hw
  rcases List.mem_append.1 hc with hc | hc
  · exact hl u hu c hc
  · exact hm v hv c hc

theorem pow (hl : Spelled P l) (n : Nat) : Spelled P (l ^ n) := by
  induction n with
  | zero => exact one
  | succ n ih =>
    rw [pow_succ]
    exact ih.mul hl

end Spelled

/-! ## Patterns -/

namespace Pattern

/-- The character is in the pattern text or in one of the pools. -/
def Occurs (text : List Char) (c : Char) : Prop := c ∈ text ∨ ∃ p : Pool, p.covers c = true

/-- No pool has a line feed. -/
theorem newline_notMem_of_occurs {text w : List Char} (h : '\n' ∉ text)
    (hw : ∀ c ∈ w, Occurs text c) : '\n' ∉ w := by
  intro hmem
  rcases hw _ hmem with htext | ⟨p, hp⟩
  · exact h htext
  · cases p <;> exact absurd hp (by decide)

variable {text : List Char}

mutual

theorem Block.spelled : (block : Block) → block.Placed text → Spelled (Occurs text) block.language
  | .charClass _ _, _ => by
    rintro _ ⟨p, c, -, hc, rfl⟩ d hd
    rw [List.mem_singleton.1 hd]
    exact .inr ⟨p, hc⟩
  | .group _ body, ⟨_, _, hbody⟩ => spelled body hbody

theorem Piece.spelled : (piece : Piece) → piece.Placed text → Spelled (Occurs text) piece.language
  | .literal _ _, ⟨hshows, _⟩ => by
    rintro _ rfl c hc
    exact .inl (hshows.1.mem (List.mem_cons_of_mem _ (List.mem_append_left _ hc)))
  | .repeated block _, ⟨hblock, _⟩ => by
    rintro w ⟨n, -, -, hw⟩
    exact (Block.spelled block hblock).pow n w hw

/-- The words of a pattern have characters of its text and of the pools. -/
theorem spelled : (p : Pattern) → p.Placed text → Spelled (Occurs text) p.language
  | .bare block, h => Block.spelled block h
  | .row first others, ⟨hfirst, hothers⟩ =>
    (Piece.spelled first hfirst).mul (spelled_row others hothers)

theorem spelled_row :
    (pieces : List Piece) → RowPlaced text pieces → Spelled (Occurs text) (rowLanguage pieces)
  | [], _ => Spelled.one
  | piece :: pieces, ⟨hpiece, hpieces⟩ =>
    (Piece.spelled piece hpiece).mul (spelled_row pieces hpieces)

end

end Pattern

/-! ## Names -/

namespace Tree

variable {σ : Type} [FiniteSource σ] {source : σ} {t : Tree} {name : String}

/-- A name is a word of the tree, whatever the source. -/
theorem mem_language_of_run (h : (t.generate.run source).1 = .value name) :
    name.toList ∈ t.language :=
  mem_language_iff.2
    ((Draw.exists_words_iff t.feasible_generate).2 (Draw.leads_of_run_value h))

/-- A name has no characters but those of the pattern text and of the pools. -/
theorem occurs_of_run {text : String} (hcompile : compile text = .ok t)
    (h : (t.generate.run source).1 = .value name) :
    ∀ c ∈ name.toList, Pattern.Occurs text.toList c := by
  obtain ⟨p, hp, ht⟩ := bind_eq_ok_iff.1 hcompile
  have hword := mem_language_of_run h
  rw [language_ofPattern p (mapError_eq_ok_iff.1 ht)] at hword
  exact p.spelled (Pattern.placed_of_ofText? (mapError_eq_ok_iff.1 hp)) _ hword

end Tree

end Moniker
