import Moniker.Pattern.Lexer

/-!
# What can be wrong with a pattern

`Fault` names every way in which a text can fail to be a pattern, with the place where it
fails. From the cause follow

* `Fault.offset` and `Fault.span?` — the byte, and if there is one the stretch, to point at;
* `Fault.text` and `Fault.message` — the wording, without and with the place.
-/

namespace Moniker.Pattern

open Moniker.Text

/-- A way in which a text fails to be a pattern. -/
inductive Fault where
  /-- the text is not a sequence of tokens -/
  | lexical (error : LexError)
  /-- the pattern holds nothing; `span` is the whole of it -/
  | emptyPattern (span : Span)
  /-- a group holds nothing; `span` is what lies between its braces -/
  | emptyGroup (span : Span)
  /-- the pattern ends inside the group that opens at `brace` -/
  | unclosedGroup (brace : Span)
  /-- the pattern ends where a number was expected, inside the count that opens at `paren` -/
  | unclosedCount (paren : Span)
  /-- the pattern ends, at `size`, where a count should have been closed -/
  | unclosedParen (size : Nat)
  /-- a `}` that closes no group -/
  | unmatchedBrace (brace : Span)
  /-- a token of a repeat count stands outside of one -/
  | misplaced (found : Lexeme)
  /-- something else stands where a number was expected -/
  | expectedNumber (found : Lexeme)
  /-- something else stands where a count should have been closed -/
  | expectedParen (found : Lexeme)
  /-- a number does not fit into 32 bits -/
  | countTooLarge (span : Span) (digits : String)
  /-- a second group at one level; the other one begins at `first` -/
  | secondGroup (span : Span) (first : Nat)
  /-- an odd number of blocks and counts, more than one, at the level `span` -/
  | unpaired (count : Nat) (span : Span)
  /-- a block stands where the count of the block before it was expected -/
  | missingCount (block : Span)
  /-- a count follows no block -/
  | strayCount (quantifier : Span)
deriving DecidableEq, Repr

namespace Fault

/-- The bytes to point at, unless there are none left. -/
def span? : Fault → Option Span
  | lexical error => some ⟨error.offset, error.offset + 1⟩
  | emptyPattern span | emptyGroup span | unclosedGroup span | unclosedCount span
  | unmatchedBrace span | countTooLarge span _ | secondGroup span _ | unpaired _ span
  | missingCount span | strayCount span => some span
  | misplaced found | expectedNumber found | expectedParen found => some found.span
  | unclosedParen _ => none

/-- The byte to point at: where the stretch to point at begins, or the end of the text. -/
def offset : Fault → Nat
  | lexical error => error.offset
  | emptyPattern span | emptyGroup span | unclosedGroup span | unclosedCount span
  | unmatchedBrace span | countTooLarge span _ | secondGroup span _ | unpaired _ span
  | missingCount span | strayCount span => span.start
  | misplaced found | expectedNumber found | expectedParen found => found.span.start
  | unclosedParen size => size

/-- The offset is where the stretch begins. -/
theorem offset_eq_start {fault : Fault} {span : Span} (h : fault.span? = some span) :
    fault.offset = span.start := by
  cases fault <;> simp_all [span?, offset]
  simp [← h]

/-- What is wrong, without the place. -/
def text : Fault → String
  | lexical error => error.message
  | emptyPattern _ => "empty pattern"
  | emptyGroup _ => "empty group '\x7b\x7d' is not allowed"
  | unclosedGroup _ => "unclosed '\x7b'"
  | unclosedCount _ => "unclosed quantifier"
  | unclosedParen _ => "expected ')'"
  | unmatchedBrace _ => "unmatched '\x7d'"
  | misplaced found => "unexpected token " ++ found.token.description
  | expectedNumber found => "expected a repeat count, got " ++ found.token.description
  | expectedParen found => "expected ')', got " ++ found.token.description
  | countTooLarge _ digits => s!"repeat count {digits} is too large"
  | secondGroup _ first =>
    "only one '\x7b...\x7d' group is allowed per level; " ++
      s!"another group already starts at byte {first}"
  | unpaired count _ =>
    s!"malformed pattern: {count} blocks and quantifiers do not pair up"
  | missingCount _ => "expected a quantifier before this block"
  | strayCount _ => "quantifier is not attached to a '[...]' or '\x7b...\x7d' block"

/-- What is wrong and where. The wording of a lexical error names its place itself. -/
def message : Fault → String
  | lexical error => error.message
  | fault => fault.text ++ s!" (at byte {fault.offset})"

end Fault

end Moniker.Pattern
