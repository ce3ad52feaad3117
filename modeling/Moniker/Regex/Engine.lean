import Moniker.Regex.Notation

/-!
# Engines

Names are checked by an `Engine` that is handed the text of an expression. Engines differ in which
texts they refuse, so the program takes whichever it is given.

* `Regex.Engine` — an engine;
* `Regex.Engine.builtIn` — the one that comes with the program. It takes every text that it can
  read, and follows its terms through a name from a set of positions to the set of positions where
  matches of them can end (`Regex.reachAll`). A position counts the characters before it, and a set
  of positions is a list in increasing order.

A repetition is followed step by step, but no further than the positions keep changing, so a
great number of repetitions of something small costs little.
-/

namespace Moniker.Regex

/-- Something that checks names with regular expressions. -/
structure Engine where
  /-- what tells in which names the expression with the given text is found, or why the engine
  refuses the text -/
  compile? : String → Except String (String → Bool)

/-! ### Sets of positions -/

/-- The positions in either of two sets. -/
def union : List Nat → List Nat → List Nat
  | [], t => t
  | i :: s, [] => i :: s
  | i :: s, j :: t =>
    if i < j then i :: union s (j :: t)
    else if j < i then j :: union (i :: s) t
    else i :: union s t
termination_by s t => s.length + t.length

/-- A position lies in the union if it lies in one of the sets. -/
theorem mem_union {k : Nat} {s t : List Nat} : k ∈ union s t ↔ k ∈ s ∨ k ∈ t := by
  fun_induction union s t with
  | case1 t => simp
  | case2 i s => simp
  | case3 i s j t _ ih => simp [ih, or_assoc]
  | case4 i s j t _ _ ih => rw [List.mem_cons, ih, or_left_comm, ← List.mem_cons]
  | case5 i s j t hij hji ih =>
    obtain rfl : i = j := Nat.le_antisymm (Nat.le_of_not_lt hji) (Nat.le_of_not_lt hij)
    rw [List.mem_cons, ih, List.mem_cons, List.mem_cons]
    exact or_or_distrib_left

/-- Apply `f` `n` times, or until it changes nothing any more. -/
def settle {α : Type} [DecidableEq α] : Nat → (α → α) → α → α
  | 0, _, a => a
  | n + 1, f, a =>
    let b := f a
    if b = a then a else settle n f b

theorem repeat_shift {α : Type} (n : Nat) (f : α → α) (a : α) :
    Nat.repeat f n (f a) = Nat.repeat f (n + 1) a := by
  induction n with
  | zero => rfl
  | succ n ih => exact congrArg f ih

theorem repeat_fixed {α : Type} {f : α → α} {a : α} (h : f a = a) (n : Nat) :
    Nat.repeat f n a = a := by
  induction n with
  | zero => rfl
  | succ n ih => exact (congrArg f ih).trans h

/-- To stop when nothing changes makes no difference. -/
theorem settle_eq_repeat {α : Type} [DecidableEq α] (n : Nat) (f : α → α) (a : α) :
    settle n f a = Nat.repeat f n a := by
  induction n generalizing a with
  | zero => rfl
  | succ n ih =>
    simp only [settle]
    split
    · next h => exact (repeat_fixed h (n + 1)).symm
    · rw [ih, repeat_shift]

/-- The positions after one more character that satisfies `p`. -/
def after (name : Array Char) (p : Char → Bool) (s : List Nat) : List Nat :=
  s.filterMap fun i => if (name[i]?).any p then some (i + 1) else none

/-! ### Following terms -/

mutual

/-- Where matches of a term in `name` end that begin at one of the positions `s`. -/
def Term.reach (name : Array Char) : Term → List Nat → List Nat
  | .char c, s => after name (· == c) s
  | .oneOf ranges, s => after name (fun c => ranges.any fun range => range.1 ≤ c && c ≤ range.2) s
  | .group terms, s => reachAll name terms s
  | .repeated term min max, s =>
    if min ≤ max then
      settle (max - min) (fun s => union s (term.reach name s)) (settle min (term.reach name) s)
    else []
  | .start, s => s.filter (· == 0)
  | .stop, s => s.filter (· == name.size)

/-- Where matches of several terms in a row end. -/
def reachAll (name : Array Char) : List Term → List Nat → List Nat
  | [], s => s
  | term :: terms, s => reachAll name terms (term.reach name s)

end

/-- Whether the terms match something in `name`, which may begin anywhere. -/
def accepts (terms : List Term) (name : String) : Bool :=
  let name := name.toList.toArray
  !(reachAll name terms (List.range (name.size + 1))).isEmpty

/-- The engine that comes with the program. -/
def Engine.builtIn : Engine where
  compile? text :=
    match ofText? text.toList with
    | some terms => .ok (accepts terms)
    | none => .error "the expression cannot be read"

end Moniker.Regex
