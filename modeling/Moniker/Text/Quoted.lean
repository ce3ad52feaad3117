import Moniker.Text.Unprintable
import Moniker.Text.GraphemeExtend
import Moniker.Text.DefaultIgnorable

/-!
# Quoted text

How messages show a text or a character that came from outside, so that the reader sees where
it begins and ends and what is in it:

* `quote` — a text between double quotes;
* `quoteChar` — a character between single quotes.

NUL, tab, line feed, carriage return, the backslash and the enclosing quote get a short
escape. A character that would not be seen on its own is written as its code point in
hexadecimal. All others stand for themselves.
-/

namespace Moniker.Text

/-- The code point of `c` in braces after `\u`, in lower case without leading zeros. -/
def codePointEscape (c : Char) : String :=
  "\\u\x7b" ++ String.ofList (Nat.toDigits 16 c.toNat) ++ "\x7d"

/-- The halfwidth voiced and semi-voiced sound marks of katakana. They change the sound of the
character before them, but are drawn after it, in a column of their own. -/
def isHalfwidthSoundMark (c : Char) : Bool := c == '\uFF9E' || c == '\uFF9F'

/-- Whether `c` is drawn onto the character before it: all that Grapheme_Extend holds, the
halfwidth sound marks apart. -/
def isAttached (c : Char) : Bool := isGraphemeExtend c && !isHalfwidthSoundMark c

/-- Whether `c` can be shown as it is: it leaves a mark, or is the space, and does not run into
the character before it. -/
def isVisible (c : Char) : Bool :=
  c == ' ' || !(isUnprintable c || isDefaultIgnorable c || isAttached c)

/-- How `c` is written between two `mark`s. -/
def escapeWithin (mark c : Char) : String :=
  if c = '\x00' then "\\0"
  else if c = '\t' then "\\t"
  else if c = '\n' then "\\n"
  else if c = '\r' then "\\r"
  else if c = '\\' then "\\\\"
  else if c = mark then "\\".push c
  else if isVisible c then c.toString
  else codePointEscape c

/-- The text between double quotes. -/
def quote (s : String) : String :=
  "\"" ++ String.join (s.toList.map (escapeWithin '"')) ++ "\""

/-- The character between single quotes. -/
def quoteChar (c : Char) : String := "'" ++ escapeWithin '\'' c ++ "'"

end Moniker.Text
