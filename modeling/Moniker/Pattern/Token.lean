import Moniker.Text.Span
import Moniker.Text.Quoted

/-!
# Tokens of a naming pattern

* `Token` — what a pattern is made of: braces, parentheses and commas, the bodies of `<...>`
  and `[...]`, and the digit runs of a repeat count;
* `Token.source` — the characters a token is written with;
* `Lexeme` — a token together with the bytes it takes in the pattern.

`source` is what ties tokens to texts: a lexeme at offset `at` covers exactly
`at ≤ i < at + byteLength token.source`.
-/

namespace Moniker.Pattern

open Moniker.Text

/-- A token of a naming pattern. Bodies and digits are kept as written. -/
inductive Token where
  | openBrace
  | closeBrace
  | openParen
  | closeParen
  | comma
  /-- the text between `<` and `>` -/
  | literal (text : String)
  /-- the text between `[` and `]` -/
  | flags (text : String)
  /-- a run of decimal digits in a repeat count -/
  | number (digits : String)
deriving DecidableEq, Repr

namespace Token

/-- The characters that a token is written with. -/
def source : Token → List Char
  | openBrace => ['{']
  | closeBrace => ['}']
  | openParen => ['(']
  | closeParen => [')']
  | comma => [',']
  | literal text => '<' :: (text.toList ++ ['>'])
  | flags text => '[' :: (text.toList ++ [']'])
  | number digits => digits.toList

/-- The name of the token's kind, as messages give it. -/
def kindName : Token → String
  | openBrace => "LBrace"
  | closeBrace => "RBrace"
  | openParen => "LParen"
  | closeParen => "RParen"
  | comma => "Comma"
  | literal _ => "Literal"
  | flags _ => "Flags"
  | number _ => "Number"

/-- What a token holds beside its kind. -/
def text? : Token → Option String
  | literal text | flags text | number text => some text
  | _ => none

/-- The token as messages show it: its kind, and what it holds in parentheses. -/
def description (t : Token) : String :=
  match t.text? with
  | none => t.kindName
  | some text => t.kindName ++ "(" ++ quote text ++ ")"

end Token

/-- A token and the bytes that it takes in the pattern. -/
structure Lexeme where
  token : Token
  span : Span
deriving DecidableEq, Repr

namespace Lexeme

/-- The lexeme of `token` when it is written at the offset `start`. -/
def ofToken (token : Token) (start : Nat) : Lexeme :=
  ⟨token, start, start + byteLength token.source⟩

@[simp] theorem ofToken_token (token : Token) (start : Nat) :
    (Lexeme.ofToken token start).token = token := rfl

@[simp] theorem ofToken_start (token : Token) (start : Nat) :
    (Lexeme.ofToken token start).span.start = start := rfl

@[simp] theorem ofToken_stop (token : Token) (start : Nat) :
    (Lexeme.ofToken token start).span.stop = start + byteLength token.source := rfl

/-- A stretch in front of a lexeme is joined with it from its beginning to the end of the lexeme. -/
theorem join_ofToken {before : Span} (token : Token) {start : Nat}
    (hbefore : before.start ≤ before.stop) (h : before.stop ≤ start) :
    before.join (ofToken token start).span = ⟨before.start, start + byteLength token.source⟩ :=
  Span.join_eq (Nat.le_trans hbefore h) (Nat.le_trans h (Nat.le_add_right ..))

end Lexeme

end Moniker.Pattern
