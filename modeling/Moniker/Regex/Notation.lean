/-!
# The notation of regular expressions

An expression is handed over as a text. This module reads such a text again, character by
character. It knows nothing of how the text was put together.

* `Regex.Term` — what the notation is made of: single characters, bracket classes, groups,
  counted repetitions and the two marks `^` and `$`;
* `Regex.ofText?` — the terms that a text is made of. Of the characters that mean something in
  the notation, those that begin none of these are refused.
-/

namespace Moniker.Regex

/-- A part of an expression. -/
inductive Term where
  /-- this character -/
  | char (c : Char)
  /-- one character between the ends of one of the ranges -/
  | oneOf (ranges : List (Char × Char))
  /-- several terms in a row, as a unit -/
  | group (terms : List Term)
  /-- a term, at least `min` and at most `max` times -/
  | repeated (term : Term) (min max : Nat)
  /-- the beginning of the name -/
  | start
  /-- the end of the name -/
  | stop

/-- To show something of every term, show it of a group from what is in it. -/
@[elab_as_elim, induction_eliminator]
theorem Term.induct {motive : Term → Prop} (char : ∀ c, motive (char c))
    (oneOf : ∀ ranges, motive (oneOf ranges))
    (group : ∀ terms, (∀ term ∈ terms, motive term) → motive (group terms))
    (repeated : ∀ term min max, motive term → motive (repeated term min max))
    (start : motive start) (stop : motive stop) (term : Term) : motive term :=
  Term.rec (motive_1 := motive) (motive_2 := fun terms => ∀ t ∈ terms, motive t)
    char oneOf (fun terms ih => group terms ih) (fun term min max ih => repeated term min max ih)
    start stop (fun _ h => absurd h List.not_mem_nil)
    (fun _ _ hd tl t h => (List.mem_cons.1 h).elim (fun e => e ▸ hd) (tl t)) term

/-! ### Brackets and braces -/

/-- Characters that do not stand for themselves unless a backslash stands before them. -/
def metacharacters : List Char := "\\.+*?()|[]\x7b\x7d^$#&-~".toList

/-- Characters that stand for themselves inside brackets: letters, digits and the underscore. -/
def isPlain (c : Char) : Bool := c.isAlphanum || c == '_'

/-- The ranges in the body of a bracket class; a lone character is a range of its own. -/
def ranges? : List Char → Option (List (Char × Char))
  | [] => some []
  | a :: '-' :: b :: body =>
    if isPlain a && isPlain b && a ≤ b then ((a, b) :: ·) <$> ranges? body else none
  | a :: body => if isPlain a then ((a, a) :: ·) <$> ranges? body else none

/-- The number that a run of digits writes. -/
def number? (digits : List Char) : Option Nat :=
  if digits ≠ [] ∧ digits.all Char.isDigit then some (Nat.ofDigitChars 10 digits 0) else none

/-- The bounds in the body of a counted repetition: one number, or two with a comma between
them, the lesser first. -/
def bounds? (body : List Char) : Option (Nat × Nat) :=
  match body.dropWhile (· != ',') with
  | [] => (number? body).map fun n => (n, n)
  | _ :: later =>
    match number? (body.takeWhile (· != ',')), number? later with
    | some min, some max => if min ≤ max then some (min, max) else none
    | _, _ => none

/-! ### Terms from characters -/

/-- How far the reading is into something that takes several characters. -/
inductive Progress where
  /-- not inside anything -/
  | outside
  /-- behind a backslash -/
  | escape
  /-- behind `(` -/
  | paren
  /-- behind `(?` -/
  | question
  /-- inside brackets; the characters so far, the last first -/
  | bracket (body : List Char)
  /-- inside the braces of a repetition; the characters so far, the last first -/
  | brace (body : List Char)

/-- What has been read of an expression. -/
structure Reader where
  progress : Progress
  /-- the terms of the group that is open, the last first -/
  row : List Term
  /-- the terms before the open groups, the innermost first -/
  opened : List (List Term)

namespace Reader

/-- Nothing has been read. -/
def empty : Reader := ⟨.outside, [], []⟩

/-- A term has been read. -/
def push (s : Reader) (term : Term) : Reader := ⟨.outside, term :: s.row, s.opened⟩

/-- Several terms have been read. -/
def pushAll (s : Reader) (terms : List Term) : Reader :=
  ⟨.outside, terms.reverse ++ s.row, s.opened⟩

/-- A group has come to its end. -/
def close? (s : Reader) : Option Reader :=
  match s.opened with
  | [] => none
  | outer :: opened => some ⟨.outside, .group s.row.reverse :: outer, opened⟩

/-- The last term is repeated. -/
def repeatLast? (s : Reader) (bounds : Nat × Nat) : Option Reader :=
  match s.row with
  | [] => none
  | term :: row => some ⟨.outside, .repeated term bounds.1 bounds.2 :: row, s.opened⟩

/-- Read a character outside of everything. -/
def stepOutside? (s : Reader) (c : Char) : Option Reader :=
  match c with
  | '\\' => some { s with progress := .escape }
  | '(' => some { s with progress := .paren }
  | ')' => s.close?
  | '[' => some { s with progress := .bracket [] }
  | '{' => some { s with progress := .brace [] }
  | '^' => some (s.push .start)
  | '$' => some (s.push .stop)
  | c => if c ∈ metacharacters then none else some (s.push (.char c))

/-- Read a character. -/
def step? (s : Reader) (c : Char) : Option Reader :=
  match s.progress with
  | .outside => s.stepOutside? c
  | .escape => if c ∈ metacharacters then some (s.push (.char c)) else none
  | .paren => if c = '?' then some { s with progress := .question } else none
  | .question => if c = ':' then some ⟨.outside, [], s.row :: s.opened⟩ else none
  | .bracket body =>
    if c = ']' then if body = [] then none else (ranges? body.reverse).map (s.push <| .oneOf ·)
    else some { s with progress := .bracket (c :: body) }
  | .brace body =>
    if c = '}' then (bounds? body.reverse).bind s.repeatLast?
    else some { s with progress := .brace (c :: body) }

/-- Read characters one after the other. -/
def run? (s : Reader) (text : List Char) : Option Reader := text.foldlM step? s

@[simp] theorem run?_nil (s : Reader) : s.run? [] = some s := rfl

@[simp] theorem run?_cons (s : Reader) (c : Char) (text : List Char) :
    s.run? (c :: text) = (s.step? c).bind (·.run? text) := rfl

theorem run?_append (s : Reader) (text later : List Char) :
    s.run? (text ++ later) = (s.run? text).bind (·.run? later) := by
  simp only [run?, List.foldlM_append]
  rfl

/-- The terms that have been read, unless something is still open. -/
def finish? (s : Reader) : Option (List Term) :=
  match s.progress, s.opened with
  | .outside, [] => some s.row.reverse
  | _, _ => none

end Reader

/-- The terms of a text. -/
def ofText? (text : List Char) : Option (List Term) := (Reader.empty.run? text).bind Reader.finish?

end Moniker.Regex
