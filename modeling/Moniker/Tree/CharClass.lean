/-!
# Character classes

Names are made of ASCII letters, digits and the underscore. These fall into four `Pool`s, and
a `CharClass` is a choice of at least one of them:

* `CharClass.ofPools?` — the class of the pools in a list, whatever their order and however
  often each occurs;
* `CharClass.ofFlags?` — the class that four flags `0` or `1` choose, one flag for each pool;
* `CharClass.alphabet` — its characters, each once.

A class keeps its pools in one fixed order, so two classes with the same pools are equal.
-/

namespace Moniker

/-- A pool of characters. -/
inductive Pool where
  | upper
  | lower
  | digit
  | underscore
deriving DecidableEq, Repr

namespace Pool

/-- The pools in the order of their flags. -/
def all : List Pool := [upper, lower, digit, underscore]

theorem mem_all (p : Pool) : p ∈ all := by cases p <;> simp [all]

/-- The first character of a pool. -/
def first : Pool → Char
  | upper => 'A'
  | lower => 'a'
  | digit => '0'
  | underscore => '_'

/-- The last character of a pool. -/
def last : Pool → Char
  | upper => 'Z'
  | lower => 'z'
  | digit => '9'
  | underscore => '_'

/-- How many characters a pool holds. -/
def size (p : Pool) : Nat := p.last.toNat + 1 - p.first.toNat

/-- The characters of a pool. -/
def chars : Pool → List Char
  | upper => "ABCDEFGHIJKLMNOPQRSTUVWXYZ".toList
  | lower => "abcdefghijklmnopqrstuvwxyz".toList
  | digit => "0123456789".toList
  | underscore => "_".toList

/-- They are all characters from the first to the last. -/
theorem chars_eq (p : Pool) :
    p.chars = (List.range p.size).map fun i => Char.ofNat (p.first.toNat + i) := by
  cases p <;> decide +kernel

/-- Whether `c` lies between the first and the last character of a pool. -/
def covers (p : Pool) (c : Char) : Bool := p.first ≤ c && c ≤ p.last

/-- The characters of a pool are those between its first and its last. -/
theorem mem_chars {p : Pool} {c : Char} : c ∈ p.chars ↔ p.covers c = true := by
  have hvalid : ∀ i < p.size, (Char.ofNat (p.first.toNat + i)).toNat = p.first.toNat + i := by
    cases p <;> decide +kernel
  have hle : p.covers c = true ↔ p.first.toNat ≤ c.toNat ∧ c.toNat ≤ p.last.toNat := by
    simp only [covers, Bool.and_eq_true, decide_eq_true_eq, Char.le_def, UInt32.le_iff_toNat_le]
    rfl
  rw [hle, chars_eq, List.mem_map]
  constructor
  · rintro ⟨i, hi, rfl⟩
    rw [List.mem_range] at hi
    rw [hvalid i hi]
    simp only [size] at hi
    omega
  · rintro ⟨hfirst, hlast⟩
    refine ⟨c.toNat - p.first.toNat, ?_, ?_⟩
    · rw [List.mem_range, size]
      omega
    · rw [Nat.add_sub_cancel' hfirst, Char.ofNat_toNat]

end Pool

/-- A choice of at least one pool. -/
structure CharClass where
  pools : List Pool
  /-- the pools stand in the order of their flags, each at most once -/
  inOrder : pools.Sublist Pool.all
  nonempty : pools ≠ []
deriving DecidableEq

namespace CharClass

/-- The class of the pools in `chosen`, if there is any. -/
def ofPools? (chosen : List Pool) : Option CharClass :=
  let pools := Pool.all.filter (· ∈ chosen)
  if h : pools ≠ [] then some ⟨pools, List.filter_sublist, h⟩ else none

/-- The class of some pools has them in order. -/
theorem ofPools?_eq_some_iff {chosen : List Pool} {cls : CharClass} :
    ofPools? chosen = some cls ↔ cls.pools = Pool.all.filter (· ∈ chosen) := by
  obtain ⟨pools, inOrder, nonempty⟩ := cls
  simp only [ofPools?]
  split
  · simp [eq_comm]
  · next hnil =>
    simp only [ne_eq, Classical.not_not] at hnil
    simp [hnil, nonempty]

/-- The characters of a class, in the order of its pools. -/
def alphabet (cls : CharClass) : List Char := cls.pools.flatMap Pool.chars

/-- Whether `c` is one of the characters of the class. -/
def contains (cls : CharClass) (c : Char) : Bool := cls.alphabet.contains c

/-- The characters of a class are those that one of its pools covers. -/
theorem mem_alphabet {cls : CharClass} {c : Char} :
    c ∈ cls.alphabet ↔ ∃ p ∈ cls.pools, p.covers c = true := by
  simp only [alphabet, List.mem_flatMap, Pool.mem_chars]

/-- There is always a character to choose from. -/
theorem alphabet_ne_nil (cls : CharClass) : cls.alphabet ≠ [] := by
  obtain ⟨pools, _, nonempty⟩ := cls
  cases pools with
  | nil => exact absurd rfl nonempty
  | cons p pools => cases p <;> exact List.cons_ne_nil _ _

/-! ### Classes from flags -/

/-- Why a text is not the flags of a class. -/
inductive FlagsFault where
  /-- it has not one character for each pool -/
  | wrongCount
  /-- one of its characters is neither `0` nor `1` -/
  | wrongFlag
  /-- no flag is `1` -/
  | noneSet
deriving DecidableEq, Repr

/-- The wording of the reason. -/
def FlagsFault.reason : FlagsFault → String
  | wrongCount => "expected exactly four flags"
  | wrongFlag => "flags must be '0' or '1'"
  | noneSet => "at least one flag must be '1'"

/-- The pools whose flag is `1`. -/
def chosen (flags : List Char) : List Pool :=
  (flags.zip Pool.all).filterMap fun (flag, pool) => if flag = '1' then some pool else none

/-- The class that `flags` choose. -/
def ofFlags? (flags : List Char) : Except FlagsFault CharClass :=
  if flags.length ≠ Pool.all.length then .error .wrongCount
  else if flags.any fun flag => flag ≠ '0' ∧ flag ≠ '1' then .error .wrongFlag
  else match ofPools? (chosen flags) with
    | some cls => .ok cls
    | none => .error .noneSet

end CharClass

end Moniker
