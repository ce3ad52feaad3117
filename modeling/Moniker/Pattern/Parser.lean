import Moniker.Pattern.Basic
import Moniker.Pattern.Fault

/-!
# From lexemes to patterns

A pattern is put together lexeme by lexeme, from left to right. An `Assembly` is what has
been gathered so far: the `Level` that is being filled, the levels around it whose groups are
still open, and how far into a repeat count the reading is. What comes later never changes
what was found wrong before (`Assembly.run_append`).

* `Assembly.step` — take in one lexeme;
* `Level.shape` — the pattern that the finished items of a level make up;
* `Pattern.ofText?` — the pattern that a text says, or the first fault in it.

A level is judged when it is complete: a lone block stands for itself, otherwise blocks and
counts have to alternate. A literal counts as a block with its count.
-/

namespace Moniker.Pattern

open Moniker.Text

/-! ### Numbers -/

/-- The number that a run of digits writes. -/
def decimal (digits : List Char) : Nat :=
  digits.foldl (fun n c => 10 * n + (c.toNat - '0'.toNat)) 0

/-- The number that a run of digits writes, if it fits into 32 bits. -/
def count? (digits : String) : Option UInt32 :=
  let n := decimal digits.toList
  if h : n < UInt32.size then some (UInt32.ofNatLT n h) else none

/-! ### The items of a level -/

/-- What stands side by side at one level. -/
inductive Item where
  | literal (span : Span) (text : String)
  | block (block : Block)
  | quantifier (quantifier : Quantifier)

/-- How many blocks and counts an item stands for; a literal brings its own count. -/
def Item.weight : Item → Nat
  | literal .. => 2
  | block _ | quantifier _ => 1

/-- How many blocks and counts there are in all. -/
def weight : List Item → Nat
  | [] => 0
  | item :: items => item.weight + weight items

/-- Join blocks and the counts after them. A block that is left over is the fault `odd`. -/
def pair (odd : Fault) : List Item → Except Fault (List Piece)
  | [] => .ok []
  | .literal span text :: items => (.literal span text :: ·) <$> pair odd items
  | .block block :: .quantifier quantifier :: items =>
    (.repeated block quantifier :: ·) <$> pair odd items
  | .block _ :: .literal span _ :: _ => .error (.missingCount span)
  | .block _ :: .block next :: _ => .error (.missingCount next.span)
  | [.block _] => .error odd
  | .quantifier quantifier :: _ => .error (.strayCount quantifier.span)

/-- The pattern that the items of a level make up. The level takes the bytes `span`, and
`empty` is the fault if nothing stands there. -/
def shape (empty : Span → Fault) (span : Span) (items : List Item) : Except Fault Pattern :=
  let odd := Fault.unpaired (weight items) span
  match items with
  | [.block block] => .ok (.bare block)
  | [.quantifier quantifier] => .error (.strayCount quantifier.span)
  | items =>
    if weight items % 2 = 1 then .error odd
    else do
      match ← pair odd items with
      | [] => .error (empty span)
      | first :: others => .ok (.row first others)

/-- A level while it is being filled. -/
structure Level where
  /-- what stands there, the last item first -/
  items : List Item
  /-- where its group begins, if it has one already -/
  group? : Option Nat

namespace Level

/-- The level at whose place nothing has been read. -/
def empty : Level := ⟨[], none⟩

/-- The level with one item more. -/
def push (level : Level) (item : Item) : Level := { level with items := item :: level.items }

/-- The pattern that the finished level makes up. -/
def shape (level : Level) (empty : Span → Fault) (span : Span) : Except Fault Pattern :=
  Pattern.shape empty span level.items.reverse

/-- The level with a finished group, which has to be its only one. -/
def pushGroup (level : Level) (span : Span) (body : Pattern) : Except Fault Level :=
  match level.group? with
  | some first => .error (.secondGroup span first)
  | none => .ok ⟨.block (.group span body) :: level.items, some span.start⟩

end Level

/-! ### Assembling -/

/-- How far the reading is into a repeat count; `paren` is the parenthesis that opens it. -/
inductive Progress where
  /-- not inside a count -/
  | outside
  /-- a number comes next -/
  | opened (paren : Span)
  /-- a comma or the end comes next -/
  | least (paren : Span) (min : UInt32)
  /-- the second number comes next -/
  | separated (paren : Span) (min : UInt32)
  /-- the end comes next -/
  | most (paren : Span) (min max : UInt32)
deriving DecidableEq

/-- What has been gathered of a pattern. -/
structure Assembly where
  progress : Progress
  /-- the level that is being filled -/
  level : Level
  /-- the opening braces of the groups that are open, the innermost first, each with the level
  that the group will stand in -/
  enclosing : List (Span × Level)

namespace Assembly

/-- Nothing has been gathered. -/
def start : Assembly := ⟨.outside, .empty, []⟩

/-- The assembly with one item more at its level, outside of any count. -/
def push (a : Assembly) (item : Item) : Assembly :=
  { a with progress := .outside, level := a.level.push item }

/-- Take in a number, which `next` puts into the progress of the count. -/
def takeNumber (a : Assembly) (found : Lexeme) (next : UInt32 → Progress) :
    Except Fault Assembly :=
  match found.token with
  | .number digits =>
    match count? digits with
    | some n => .ok { a with progress := next n }
    | none => .error (.countTooLarge found.span digits)
  | _ => .error (.expectedNumber found)

/-- Take in the end of a group. -/
def closeGroup (a : Assembly) (brace : Span) : Except Fault Assembly :=
  match a.enclosing with
  | [] => .error (.unmatchedBrace brace)
  | (opening, outer) :: enclosing => do
    let body ← a.level.shape .emptyGroup ⟨opening.stop, brace.start⟩
    let level ← outer.pushGroup (opening.join brace) body
    .ok ⟨.outside, level, enclosing⟩

/-- Take in a lexeme outside of a repeat count. -/
def stepOutside (a : Assembly) (found : Lexeme) : Except Fault Assembly :=
  match found.token with
  | .literal text => .ok (a.push (.literal found.span text))
  | .flags flags => .ok (a.push (.block (.charClass found.span flags)))
  | .openBrace => .ok ⟨.outside, .empty, (found.span, a.level) :: a.enclosing⟩
  | .closeBrace => a.closeGroup found.span
  | .openParen => .ok { a with progress := .opened found.span }
  | .closeParen | .comma | .number _ => .error (.misplaced found)

/-- Take in one lexeme. -/
def step (a : Assembly) (found : Lexeme) : Except Fault Assembly :=
  match a.progress with
  | .outside => a.stepOutside found
  | .opened paren => a.takeNumber found (.least paren)
  | .least paren min =>
    match found.token with
    | .comma => .ok { a with progress := .separated paren min }
    | .closeParen => .ok (a.push (.quantifier ⟨paren.join found.span, min, none⟩))
    | _ => .error (.expectedParen found)
  | .separated paren min => a.takeNumber found (.most paren min)
  | .most paren min max =>
    match found.token with
    | .closeParen => .ok (a.push (.quantifier ⟨paren.join found.span, min, some max⟩))
    | _ => .error (.expectedParen found)

/-- Take in all of `found` in order. -/
def run (a : Assembly) (found : List Lexeme) : Except Fault Assembly := found.foldlM step a

@[simp] theorem run_nil (a : Assembly) : a.run [] = .ok a := rfl

@[simp] theorem run_cons (a : Assembly) (found : Lexeme) (later : List Lexeme) :
    a.run (found :: later) = (a.step found).bind (·.run later) := rfl

/-- Lexemes are taken in one after the other, and the first fault ends it. -/
theorem run_append (a : Assembly) (found later : List Lexeme) :
    a.run (found ++ later) = (a.run found).bind (·.run later) := by
  simp only [run, List.foldlM_append]
  rfl

/-- The pattern that has been gathered when the text, of `size` bytes, is at its end. -/
def finish (a : Assembly) (size : Nat) : Except Fault Pattern :=
  match a.progress with
  | .opened paren | .separated paren _ => .error (.unclosedCount paren)
  | .least .. | .most .. => .error (.unclosedParen size)
  | .outside =>
    match a.enclosing with
    | (brace, _) :: _ => .error (.unclosedGroup brace)
    | [] => a.level.shape .emptyPattern ⟨0, size⟩

end Assembly

/-- The pattern that a text says, or the first fault in it. That the text is made of tokens is
looked at first. -/
def ofText? (text : String) : Except Fault Pattern := do
  let found ← (lexemes text).mapError .lexical
  let assembly ← Assembly.start.run found
  assembly.finish (byteLength text.toList)

end Moniker.Pattern
