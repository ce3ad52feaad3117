/-!
# Blank characters and lines

What a reader of rule files skips:

* `isBlank` — the characters of the Unicode property White_Space;
* `trimLeft`, `trimRight`, `trim` — a text without the blanks at its ends;
* `lines` — a text cut at its line feeds, the last line counting only if it is not empty.

A carriage return before a line feed is a blank, so trimming a line takes it away too.
-/

namespace Moniker.Text

/-- The characters with the Unicode property White_Space. -/
def isBlank (c : Char) : Bool :=
  let n := c.toNat
  (0x9 ≤ n && n ≤ 0xD) || n == 0x20 || n == 0x85 || n == 0xA0 || n == 0x1680 ||
    (0x2000 ≤ n && n ≤ 0x200A) || n == 0x2028 || n == 0x2029 || n == 0x202F || n == 0x205F ||
    n == 0x3000

/-- The text without the blanks it starts with. -/
def trimLeft (cs : List Char) : List Char := cs.dropWhile isBlank

/-- The text without the blanks it ends with. -/
def trimRight (cs : List Char) : List Char :=
  cs.foldr (fun c kept => if kept.isEmpty && isBlank c then [] else c :: kept) []

/-- The text without the blanks at its two ends. -/
def trim (cs : List Char) : List Char := trimRight (trimLeft cs)

@[simp] theorem trimRight_nil : trimRight [] = [] := rfl

theorem trimRight_cons (c : Char) (cs : List Char) :
    trimRight (c :: cs) =
      if (trimRight cs).isEmpty && isBlank c then [] else c :: trimRight cs := rfl

/-- One character in front of a text whose lines are known. -/
def consLine (c : Char) (later : List (List Char)) : List (List Char) :=
  if c = '\n' then [] :: later
  else match later with
    | [] => [[c]]
    | line :: later => (c :: line) :: later

/-- The lines of a text, without the line feeds that end them. A text that ends with a line
feed has no further line after it. -/
def lines (cs : List Char) : List (List Char) := cs.foldr consLine []

@[simp] theorem lines_nil : lines [] = [] := rfl

theorem lines_cons (c : Char) (cs : List Char) : lines (c :: cs) = consLine c (lines cs) := rfl

@[simp] theorem lines_newline (cs : List Char) : lines ('\n' :: cs) = [] :: lines cs := rfl

end Moniker.Text
