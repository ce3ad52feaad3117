import Moniker.Draw.Basic

/-!
# Running a computation on random words

* `WordSource` — something that hands out random words of either width until it has none left;
* `FiniteSource` — a source that must run out, because every word leaves less behind;
* `Draw.run` — run a computation on a source: its `Outcome`, and what is left of the source.

A word that is refused is gone, and the next one is tried. Since a finite source runs out,
this comes to an end even if every word is refused.
-/

namespace Moniker.Draw

/-- Something that hands out random words. -/
class WordSource (σ : Type) where
  /-- the next word of the given width, and the source without it -/
  word? : (width : Width) → σ → Option (BitVec width.bits × σ)

/-- A source that runs out. -/
class FiniteSource (σ : Type) extends WordSource σ where
  /-- a bound on the number of words that are left -/
  left : σ → Nat
  /-- every word leaves less behind -/
  left_lt : ∀ {width s v s'}, word? width s = some (v, s') → left s' < left s

/-- How a run ends. -/
inductive Outcome (ε α : Type) where
  | value (a : α)
  | failed (e : ε)
  /-- the source had no word left when one was needed -/
  | exhausted
deriving DecidableEq, Repr

variable {σ ε α : Type} [FiniteSource σ]

/-- Pick one of `n` values with the words of a source. -/
def pickFrom (width : Width) (n : Nat) (s : σ) : Option (Fin n) × σ :=
  match _hint : WordSource.word? width s with
  | none => (none, s)
  | some (v, rest) =>
    match width.choose? n v with
    | some i => (some i, rest)
    | none => pickFrom width n rest
termination_by FiniteSource.left s
decreasing_by exact FiniteSource.left_lt ‹_›

/-- Run a computation on a source. -/
def run : Draw ε α → σ → Outcome ε α × σ
  | done a, s => (.value a, s)
  | fail e, s => (.failed e, s)
  | pick width n next, s =>
    match pickFrom width n s with
    | (none, rest) => (.exhausted, rest)
    | (some i, rest) => (next i).run rest

@[simp] theorem run_done (a : α) (s : σ) : (done a : Draw ε α).run s = (.value a, s) := rfl

@[simp] theorem run_fail (e : ε) (s : σ) : (fail e : Draw ε α).run s = (.failed e, s) := rfl

/-- A computation and what follows it run on one source, one after the other. -/
theorem run_bind {β : Type} (m : Draw ε α) (f : α → Draw ε β) (s : σ) :
    (m.bind f).run s =
      match m.run s with
      | (.value a, rest) => (f a).run rest
      | (.failed e, rest) => (.failed e, rest)
      | (.exhausted, rest) => (.exhausted, rest) := by
  induction m generalizing s with
  | done a => rfl
  | fail e => rfl
  | pick width n next ih =>
    simp only [pick_bind, run]
    rcases pickFrom width n s with ⟨_ | i, rest⟩
    · rfl
    · exact ih i rest

end Moniker.Draw
