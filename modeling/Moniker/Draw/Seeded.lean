import Moniker.Draw.Source

/-!
# Random words from a seed

A seed of 64 bits is spread over a key of eight 32-bit words by a multiplicative congruential
generator whose state is permuted on the way out. Under that key a ChaCha block function with
twelve rounds turns the numbers 0, 1, 2, ... into blocks of sixteen words each, and the words
of the blocks, one block after the other, are the stream.

* `Seeded.ofSeed` — the stream of a seed;
* `Seeded.next?` — its next 32-bit word.

A draw of 64 bits takes two words of the stream, the lower half first. Blocks are numbered
with 64 bits, and after the last one the stream is over.
-/

namespace Moniker.Draw

/-! ### Keys -/

/-- The key of a stream. -/
abbrev Key := Vector UInt32 8

/-- The states of the generator that spreads a seed: `n` of them, the first not the seed
itself. -/
def seedStates : Nat → UInt64 → List UInt64
  | 0, _ => []
  | n + 1, s =>
    let next := s * 6364136223846793005 + 11634580027462260723
    next :: seedStates n next

/-- The bits of `x` turned to the right by `n` places. -/
def rotateRight (x n : UInt32) : UInt32 := (x >>> n) ||| (x <<< (32 - n))

/-- The key word that a state of the generator gives. -/
def keyWord (s : UInt64) : UInt32 :=
  rotateRight (((s >>> 18) ^^^ s) >>> 27).toUInt32 (s >>> 59).toUInt32

/-- The key that a seed is spread over. -/
def Key.ofSeed (seed : UInt64) : Key :=
  Vector.ofFn fun i => keyWord ((seedStates 8 seed).getD i 0)

/-! ### Blocks -/

/-- The sixteen words that the block function works on. -/
abbrev Block := Vector UInt32 16

/-- The bits of `x` turned to the left by `n` places. -/
def rotateLeft (x n : UInt32) : UInt32 := (x <<< n) ||| (x >>> (32 - n))

/-- Mix four words of a block. -/
def quarterRound (a b c d : Fin 16) (s : Block) : Block :=
  let s := s.set a (s[a] + s[b])
  let s := s.set d (rotateLeft (s[d] ^^^ s[a]) 16)
  let s := s.set c (s[c] + s[d])
  let s := s.set b (rotateLeft (s[b] ^^^ s[c]) 12)
  let s := s.set a (s[a] + s[b])
  let s := s.set d (rotateLeft (s[d] ^^^ s[a]) 8)
  let s := s.set c (s[c] + s[d])
  s.set b (rotateLeft (s[b] ^^^ s[c]) 7)

/-- Mix the columns of a block and then its diagonals. -/
def doubleRound (s : Block) : Block :=
  let s := quarterRound 0 4 8 12 s
  let s := quarterRound 1 5 9 13 s
  let s := quarterRound 2 6 10 14 s
  let s := quarterRound 3 7 11 15 s
  let s := quarterRound 0 5 10 15 s
  let s := quarterRound 1 6 11 12 s
  let s := quarterRound 2 7 8 13 s
  quarterRound 3 4 9 14 s

/-- The block with the given number, before it is mixed: four constants, the key, the number
in two words, and two words that are zero. -/
def initialBlock (key : Key) (number : Nat) : Block :=
  #v[0x61707865, 0x3320646e, 0x79622d32, 0x6b206574,
    key[0], key[1], key[2], key[3], key[4], key[5], key[6], key[7],
    UInt32.ofNat number, UInt32.ofNat (number >>> 32), 0, 0]

/-- The block with the given number: six double rounds, and the unmixed block added. -/
def block (key : Key) (number : Nat) : Block :=
  let s := initialBlock key number
  (Nat.repeat doubleRound 6 s).zipWith (· + ·) s

/-! ### The stream -/

/-- What is left of the stream of a key. -/
structure Seeded where
  key : Key
  /-- the number of the block that comes next -/
  number : Nat
  /-- the words that are left of the block before it -/
  pending : List UInt32
deriving DecidableEq, Repr

namespace Seeded

/-- How many blocks a stream has. -/
def blockCount : Nat := UInt64.size

/-- The whole stream of a seed. -/
def ofSeed (seed : UInt64) : Seeded := ⟨Key.ofSeed seed, 0, []⟩

/-- The next word of the stream. -/
def next? (s : Seeded) : Option (UInt32 × Seeded) :=
  match s.pending with
  | v :: pending => some (v, { s with pending })
  | [] =>
    if s.number < blockCount then
      match (block s.key s.number).toList with
      | v :: pending => some (v, ⟨s.key, s.number + 1, pending⟩)
      | [] => none
    else none

/-- The number of words left. -/
def left (s : Seeded) : Nat := 16 * (blockCount - s.number) + s.pending.length

theorem left_next {s rest : Seeded} {v : UInt32} (h : s.next? = some (v, rest)) :
    rest.left < s.left := by
  obtain ⟨key, number, pending⟩ := s
  cases pending with
  | cons u pending =>
    simp only [next?, Option.some.injEq, Prod.mk.injEq] at h
    obtain ⟨_, rfl⟩ := h
    simp [left]
  | nil =>
    simp only [next?] at h
    split at h
    · next hlt =>
      have hlen : (block key number).toList.length = 16 := Vector.length_toList
      split at h
      · next v pending heq =>
        simp only [Option.some.injEq, Prod.mk.injEq] at h
        obtain ⟨_, rfl⟩ := h
        rw [heq, List.length_cons] at hlen
        simp only [left, List.length_nil]
        omega
      · simp at h
    · simp at h

instance : FiniteSource Seeded where
  word?
    | .w32, s => s.next?.map fun (v, rest) => (v.toBitVec, rest)
    | .w64, s => do
      let (low, s) ← s.next?
      let (high, s) ← s.next?
      some (high.toBitVec ++ low.toBitVec, s)
  left := left
  left_lt {width s v s'} h := by
    cases width with
    | w32 =>
      simp only [Option.map_eq_some_iff] at h
      obtain ⟨⟨u, rest⟩, hu, _, rfl⟩ := h
      exact left_next hu
    | w64 =>
      simp only [Option.bind_eq_bind, Option.bind_eq_some_iff, Option.some.injEq] at h
      obtain ⟨⟨u, rest⟩, hu, ⟨u', rest'⟩, hu', _, rfl⟩ := h
      exact Nat.lt_trans (left_next hu') (left_next hu)

end Seeded

end Moniker.Draw
