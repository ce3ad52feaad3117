import Moniker.Draw.Source

/-!
# Plain sources

Sources whose words are easy to foresee:

* `Words` — a list of 64-bit words, handed out in turn;
* `Steps` — an endless arithmetic progression of 64-bit words, which wraps around;
* `Limited` — any source, of which only a given number of words may still be taken.

Of a 64-bit word, a draw of 32 bits takes the lower half and drops the rest.
-/

namespace Moniker.Draw

/-- The lower bits of `v` that a width asks for. -/
def Width.lower (width : Width) (v : UInt64) : BitVec width.bits := v.toBitVec.setWidth width.bits

/-- 64-bit words to be handed out in turn. -/
structure Words where
  words : List UInt64
deriving DecidableEq, Repr

instance : FiniteSource Words where
  word? width s :=
    match s.words with
    | [] => none
    | v :: rest => some (width.lower v, ⟨rest⟩)
  left s := s.words.length
  left_lt {width s v s'} h := by
    obtain ⟨words⟩ := s
    cases words with
    | nil => simp at h
    | cons v rest =>
      simp only [Option.some.injEq, Prod.mk.injEq] at h
      simp [← h.2]

/-- The progression `next`, `next + increment`, and so on, modulo 2 ^ 64. -/
structure Steps where
  next : UInt64
  increment : UInt64
deriving DecidableEq, Repr

instance : WordSource Steps where
  word? width s := some (width.lower s.next, { s with next := s.next + s.increment })

/-- A source of which at most `left` more words may be taken. -/
structure Limited (σ : Type) where
  source : σ
  left : Nat
deriving DecidableEq, Repr

instance {σ : Type} [WordSource σ] : FiniteSource (Limited σ) where
  word? width s :=
    match s.left with
    | 0 => none
    | left + 1 => (WordSource.word? width s.source).map fun (v, rest) => (v, ⟨rest, left⟩)
  left s := s.left
  left_lt {width s v s'} h := by
    obtain ⟨source, left⟩ := s
    cases left with
    | zero => simp at h
    | succ left =>
      simp only [Option.map_eq_some_iff, Prod.mk.injEq] at h
      obtain ⟨_, _, _, rfl⟩ := h
      exact Nat.lt_succ_self left

end Moniker.Draw
