import Moniker.Range
import Moniker.Tree.CharClass

/-!
# Regular expressions

The expressions that names are checked with are built from literal texts, character classes,
groups and repetition. An `Expression` is a run of them that has to match a name from its
first character to its last.

* `Regex.text` — an expression in the usual notation;
* `Expression.text` — the same with `^` and `$` around it.
-/

namespace Moniker

/-- A regular expression. -/
inductive Regex where
  /-- these characters and no others -/
  | literal (text : String)
  /-- one character of a class -/
  | oneOf (cls : CharClass)
  /-- several expressions in a row, as a unit -/
  | group (parts : List Regex)
  /-- an expression as often as the range says -/
  | repeated (body : Regex) (range : Range)

namespace Regex

/-! ### Notation -/

/-- Characters that mean something else in the notation unless a backslash stands before
them. -/
def special : List Char :=
  ['\\', '.', '+', '*', '?', '(', ')', '|', '[', ']', '\x7b', '\x7d', '^', '$', '#', '&', '-', '~']

/-- The notation for the character itself. -/
def escapeChar (c : Char) : List Char := if c ∈ special then ['\\', c] else [c]

/-- The notation for a text that stands for itself. -/
def escape (text : List Char) : List Char := text.flatMap escapeChar

/-- The notation for the characters of a pool inside brackets. -/
def poolText (p : Pool) : List Char :=
  if p.first = p.last then [p.first] else [p.first, '-', p.last]

/-- The notation for one character of a class. -/
def classText (cls : CharClass) : List Char := '[' :: (cls.pools.flatMap poolText ++ [']'])

/-- The decimal digits of a number. -/
def decimal (n : UInt32) : List Char := Nat.toDigits 10 n.toNat

/-- The notation for a repetition that is more or less than once. -/
def rangeText (r : Range) : List Char :=
  if r.isFixed then '{' :: (decimal r.min ++ ['}'])
  else '{' :: (decimal r.min ++ ',' :: (decimal r.max ++ ['}']))

mutual

/-- The notation for an expression. -/
def text : Regex → List Char
  | literal t => escape t.toList
  | oneOf cls => classText cls
  | group parts => '(' :: '?' :: ':' :: (textAll parts ++ [')'])
  | repeated body range => body.text ++ rangeText range

/-- The notation for several expressions in a row. -/
def textAll : List Regex → List Char
  | [] => []
  | part :: parts => part.text ++ textAll parts

end

end Regex

/-- A run of expressions that has to match a name from its beginning to its end. -/
structure Expression where
  parts : List Regex

namespace Expression

/-- The expression in the usual notation. -/
def text (e : Expression) : String := String.ofList ('^' :: (Regex.textAll e.parts ++ ['$']))

end Expression

end Moniker
