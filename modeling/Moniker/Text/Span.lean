/-!
# Positions in a text

Offsets count the bytes of a text's UTF-8 form, so that a position can be handed to any
editor. This module holds

* `byteLength` — how many bytes a run of characters takes;
* `Span` — a stretch of bytes `start ≤ i < stop`, and `Span.join`, the least stretch that has two
  others in it.

A position that is a `byteLength` of some leading part of the text lies between two
characters; `byteLength_append` is what adds such positions up.
-/

namespace Moniker.Text

/-- The number of bytes that a run of characters takes in UTF-8. -/
def byteLength : List Char → Nat
  | [] => 0
  | c :: cs => c.utf8Size + byteLength cs

@[simp] theorem byteLength_nil : byteLength [] = 0 := rfl

@[simp] theorem byteLength_cons (c : Char) (cs : List Char) :
    byteLength (c :: cs) = c.utf8Size + byteLength cs := rfl

@[simp] theorem byteLength_append (cs ds : List Char) :
    byteLength (cs ++ ds) = byteLength cs + byteLength ds := by
  induction cs with
  | nil => simp
  | cons c cs ih => simp [ih, Nat.add_assoc]

/-- Every character takes at least one byte, so only the empty run takes none. -/
theorem byteLength_eq_zero {cs : List Char} : byteLength cs = 0 ↔ cs = [] := by
  cases cs with
  | nil => simp
  | cons c cs =>
    have := c.utf8Size_pos
    simp only [byteLength_cons, reduceCtorEq, iff_false]
    omega

/-- A stretch of a text: the bytes from `start` up to, and without, `stop`. -/
structure Span where
  /-- the first byte of the stretch -/
  start : Nat
  /-- the first byte after the stretch -/
  stop : Nat
deriving DecidableEq, Repr

namespace Span

/-- The least stretch that has both `a` and `b` in it. -/
def join (a b : Span) : Span := ⟨min a.start b.start, max a.stop b.stop⟩

/-- If `b` neither begins before `a` nor ends before it, the stretch reaches from where `a` begins
to where `b` ends. -/
theorem join_eq {a b : Span} (hstart : a.start ≤ b.start) (hstop : a.stop ≤ b.stop) :
    a.join b = ⟨a.start, b.stop⟩ := by
  rw [join, Nat.min_eq_left hstart, Nat.max_eq_right hstop]

end Span

end Moniker.Text
