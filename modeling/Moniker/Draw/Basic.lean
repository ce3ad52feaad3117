import Moniker.Draw.Uniform

/-!
# Computations that choose

A `Draw ε α` is a computation that now and then picks one of several values at random, and in
the end gives an `α` or fails with an `ε`. It is a tree: `pick` has a branch for every value
that may be picked. Where the random words come from is not part of it, so two computations
that are equal behave alike on every source of randomness.

* `Draw.bind` makes it a monad;
* `Draw.iterate` — repeat a step a given number of times;
* `Draw.collect` — repeat a computation and list what it gives.
-/

namespace Moniker

open Draw (Width)

/-- A computation that picks values at random. -/
inductive Draw (ε α : Type) where
  /-- it is over and gives `a` -/
  | done (a : α)
  /-- it is over and has failed -/
  | fail (e : ε)
  /-- pick one of `n` values, with words of the given width, and go on with it -/
  | pick (width : Width) (n : Nat) (next : Fin n → Draw ε α)

namespace Draw

variable {ε α β γ : Type}

/-- Go on with `f` where the computation is over. -/
protected def bind : Draw ε α → (α → Draw ε β) → Draw ε β
  | done a, f => f a
  | fail e, _ => fail e
  | pick width n next, f => pick width n fun i => (next i).bind f

instance : Monad (Draw ε) where
  pure := done
  bind := Draw.bind

@[simp] theorem pure_eq (a : α) : (pure a : Draw ε α) = done a := rfl

@[simp] theorem bind_eq (m : Draw ε α) (f : α → Draw ε β) : m >>= f = m.bind f := rfl

@[simp] theorem done_bind (a : α) (f : α → Draw ε β) : (done a).bind f = f a := rfl

@[simp] theorem fail_bind (e : ε) (f : α → Draw ε β) : (fail e).bind f = fail e := rfl

@[simp] theorem pick_bind (width : Width) (n : Nat) (next : Fin n → Draw ε α)
    (f : α → Draw ε β) : (pick width n next).bind f = pick width n fun i => (next i).bind f := rfl

@[simp] theorem bind_done (m : Draw ε α) : m.bind done = m := by
  induction m with
  | done a => rfl
  | fail e => rfl
  | pick width n next ih => exact congrArg (pick width n) (funext ih)

theorem bind_assoc (m : Draw ε α) (f : α → Draw ε β) (g : β → Draw ε γ) :
    (m.bind f).bind g = m.bind fun a => (f a).bind g := by
  induction m with
  | done a => rfl
  | fail e => rfl
  | pick width n next ih => exact congrArg (pick width n) (funext ih)

/-- Give what `f` makes of the outcome. -/
protected def map (f : α → β) (m : Draw ε α) : Draw ε β := m.bind fun a => done (f a)

/-- Pick one of `n` values. -/
def index (width : Width) (n : Nat) : Draw ε (Fin n) := pick width n done

/-! ### Repetition -/

/-- Take the step `f` `n` times, starting from `a`. -/
def iterate : Nat → (α → Draw ε α) → α → Draw ε α
  | 0, _, a => done a
  | n + 1, f, a =>
    match f a with
    | done b => iterate n f b
    | fail e => fail e
    | pick width m next => pick width m fun i => (next i).bind (iterate n f)

@[simp] theorem iterate_zero (f : α → Draw ε α) (a : α) : iterate 0 f a = done a := rfl

/-- To take a step `n + 1` times is to take it once and then `n` times. -/
theorem iterate_succ (n : Nat) (f : α → Draw ε α) (a : α) :
    iterate (n + 1) f a = (f a).bind (iterate n f) := by
  cases h : f a <;> simp [iterate, h]

/-- What `n` runs of `m` give, one after the other. -/
def collect (n : Nat) (m : Draw ε α) : Draw ε (List α) :=
  (iterate n (fun gathered => m.map (· :: gathered)) []).map List.reverse

end Draw

end Moniker
