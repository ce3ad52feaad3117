/-!
# JSON

The values that reports are made of, and their text: two blanks of indentation for each level,
one member on a line, members of an object in the order given, and `[]` or braces with nothing
between them for what is empty. In a string the quote, the backslash and the control
characters of ASCII are escaped, the common ones with a letter; all others stand for
themselves.
-/

namespace Moniker

/-- A value of a report. -/
inductive Json where
  | bool (b : Bool)
  | string (s : String)
  | list (values : List Json)
  | object (members : List (String × Json))

namespace Json

/-- To show something of every value, show it of a list from its values and of an object from the
values of its members. -/
@[elab_as_elim, induction_eliminator]
theorem induct {motive : Json → Prop}
    (bool : ∀ b, motive (bool b)) (string : ∀ s, motive (string s))
    (list : ∀ values, (∀ value ∈ values, motive value) → motive (list values))
    (object : ∀ members, (∀ member ∈ members, motive member.2) → motive (object members))
    (value : Json) : motive value :=
  Json.rec (motive_1 := motive) (motive_2 := fun values => ∀ v ∈ values, motive v)
    (motive_3 := fun members => ∀ m ∈ members, motive m.2) (motive_4 := fun m => motive m.2)
    bool string (fun values ih => list values ih) (fun members ih => object members ih)
    (fun _ h => absurd h List.not_mem_nil)
    (fun _ _ hd tl v h => (List.mem_cons.1 h).elim (fun e => e ▸ hd) (tl v))
    (fun _ h => absurd h List.not_mem_nil)
    (fun _ _ hd tl m h => (List.mem_cons.1 h).elim (fun e => e ▸ hd) (tl m))
    (fun _ _ h => h)
    value

/-- The two hexadecimal digits of a number below 256. -/
def hexByte (n : Nat) : List Char := [Nat.digitChar (n / 16), Nat.digitChar (n % 16)]

/-- How a character is written inside a string. -/
def escapeChar (c : Char) : List Char :=
  if c = '"' then ['\\', '"']
  else if c = '\\' then ['\\', '\\']
  else if c = '\x08' then ['\\', 'b']
  else if c = '\x0c' then ['\\', 'f']
  else if c = '\n' then ['\\', 'n']
  else if c = '\r' then ['\\', 'r']
  else if c = '\t' then ['\\', 't']
  else if c.toNat < 0x20 then '\\' :: 'u' :: '0' :: '0' :: hexByte c.toNat
  else [c]

/-- A string with its quotes. -/
def stringText (s : String) : List Char := '"' :: (s.toList.flatMap escapeChar ++ ['"'])

/-- A new line at the given level of indentation. -/
def newLine (level : Nat) : List Char := '\n' :: List.replicate (2 * level) ' '

mutual

/-- The text of a value that stands at the given level of indentation. -/
def text (level : Nat) : Json → List Char
  | bool true => ['t', 'r', 'u', 'e']
  | bool false => ['f', 'a', 'l', 's', 'e']
  | string s => stringText s
  | list [] => ['[', ']']
  | list (value :: values) =>
    '[' :: (newLine (level + 1) ++ value.text (level + 1) ++ textRest (level + 1) values ++
      newLine level ++ [']'])
  | object [] => ['{', '}']
  | object ((key, value) :: members) =>
    '{' :: (newLine (level + 1) ++ stringText key ++ [':', ' '] ++ value.text (level + 1) ++
      membersRest (level + 1) members ++ newLine level ++ ['}'])

/-- The values of a list after the first. -/
def textRest (level : Nat) : List Json → List Char
  | [] => []
  | value :: values => ',' :: (newLine level ++ value.text level ++ textRest level values)

/-- The members of an object after the first. -/
def membersRest (level : Nat) : List (String × Json) → List Char
  | [] => []
  | (key, value) :: members =>
    ',' :: (newLine level ++ stringText key ++ [':', ' '] ++ value.text level ++
      membersRest level members)

end

/-- The text of a whole document, which ends with a line feed. -/
def document (value : Json) : String := String.ofList (value.text 0 ++ ['\n'])

end Json

end Moniker
