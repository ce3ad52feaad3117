import Moniker.Report.Json

/-!
# Reading JSON

Whoever is handed a report reads its text as JSON, so this module reads such a text again, character
by character. It knows nothing of how the text was put together: blanks may stand between any two
tokens, and every escape of a string is understood.

* `Json.Quoted` — what has been read of a string;
* `Json.Reader` — what has been read of a text, with the lists and objects that are open;
* `Json.ofText?` — the value that a text stands for. Numbers and `null`, which no report holds, are
  refused along with all that is no JSON.
-/

namespace Moniker.Json

/-! ## Strings -/

/-- The value of a hexadecimal digit. -/
def hexDigit? (c : Char) : Option Nat :=
  if '0' ≤ c ∧ c ≤ '9' then some (c.toNat - '0'.toNat)
  else if 'a' ≤ c ∧ c ≤ 'f' then some (c.toNat - 'a'.toNat + 10)
  else if 'A' ≤ c ∧ c ≤ 'F' then some (c.toNat - 'A'.toNat + 10)
  else none

/-- What a character stands for behind a backslash; `u` is not among them. -/
def escaped? (c : Char) : Option Char :=
  match c with
  | '"' => some '"'
  | '\\' => some '\\'
  | '/' => some '/'
  | 'b' => some '\x08'
  | 'f' => some '\x0c'
  | 'n' => some '\n'
  | 'r' => some '\r'
  | 't' => some '\t'
  | _ => none

/-- How far the reading is into an escape. -/
inductive Escape where
  /-- not in one -/
  | outside
  /-- behind a backslash -/
  | backslash
  /-- behind `\u` and some digits of the code unit, which have this value; behind the next digit
  so many are still missing -/
  | unit (missing value : Nat)
deriving DecidableEq

/-- What has been read of a string. -/
structure Quoted where
  escape : Escape
  /-- the first code unit of a surrogate pair, if the second must follow -/
  high? : Option Nat
  /-- the characters so far, the last first -/
  chars : List Char

namespace Quoted

/-- Only the opening quote has been read. -/
def empty : Quoted := ⟨.outside, none, []⟩

/-- A character has been read. -/
def push (q : Quoted) (c : Char) : Quoted := ⟨.outside, none, c :: q.chars⟩

/-- A code unit has been read: a character by itself or half of a surrogate pair. -/
def addUnit? (q : Quoted) (value : Nat) : Option Quoted :=
  match q.high? with
  | none =>
    if value < 0xd800 ∨ 0xe000 ≤ value then some (q.push (Char.ofNat value))
    else if value < 0xdc00 then some ⟨.outside, some value, q.chars⟩
    else none
  | some high =>
    if 0xdc00 ≤ value ∧ value < 0xe000 then
      some (q.push (Char.ofNat (0x10000 + (high - 0xd800) * 0x400 + (value - 0xdc00))))
    else none

/-- Read a character, which is not the closing quote. Control characters must be escaped, and
between the halves of a surrogate pair nothing may stand. -/
def step? (q : Quoted) (c : Char) : Option Quoted :=
  match q.escape with
  | .outside =>
    if c = '\\' then some { q with escape := .backslash }
    else if q.high?.isSome ∨ c.toNat < 0x20 then none
    else some (q.push c)
  | .backslash =>
    if c = 'u' then some { q with escape := .unit 3 0 }
    else if q.high?.isSome then none
    else (escaped? c).map q.push
  | .unit missing value =>
    (hexDigit? c).bind fun digit =>
      match missing with
      | 0 => q.addUnit? (16 * value + digit)
      | missing + 1 => some { q with escape := .unit missing (16 * value + digit) }

/-- The string, if a quote ends it here. -/
def close? (q : Quoted) : Option String :=
  match q.escape, q.high? with
  | .outside, none => some (String.ofList q.chars.reverse)
  | _, _ => none

end Quoted

/-! ## Values -/

/-- What a string is read for. -/
inductive Role where
  /-- it is a value -/
  | value
  /-- it is a key of an object, which has these members before it, the last first -/
  | key (before : List (String × Json))

/-- What has been read last, so what may come next. -/
inductive Progress where
  /-- a value must follow -/
  | value
  /-- behind `[` -/
  | list
  /-- behind the brace that begins an object -/
  | object
  /-- behind a comma of an object, which has these members before it, the last first -/
  | key (before : List (String × Json))
  /-- behind a key, with the members before it -/
  | colon (before : List (String × Json)) (key : String)
  /-- inside a string -/
  | quoted (role : Role) (q : Quoted)
  /-- inside a word that stands for a value, with the characters of it that are to come -/
  | word (value : Json) (ahead : List Char)
  /-- behind a value -/
  | behind (value : Json)

/-- Something around the value that is being read. -/
inductive Frame where
  /-- a list, which has these values before it, the last first -/
  | list (before : List Json)
  /-- an object, which has these members before it, the last first, and the key of the value -/
  | object (before : List (String × Json)) (key : String)

/-- What has been read of a text. -/
structure Reader where
  progress : Progress
  /-- what is open around it, the innermost first -/
  opened : List Frame

namespace Reader

/-- Nothing has been read. -/
def empty : Reader := ⟨.value, []⟩

/-- Read the first character of a value. -/
def begin? (opened : List Frame) (c : Char) : Option Reader :=
  match c with
  | '"' => some ⟨.quoted .value .empty, opened⟩
  | '[' => some ⟨.list, opened⟩
  | '{' => some ⟨.object, opened⟩
  | 't' => some ⟨.word (.bool true) ['r', 'u', 'e'], opened⟩
  | 'f' => some ⟨.word (.bool false) ['a', 'l', 's', 'e'], opened⟩
  | _ => none

/-- Read the first character of a key. -/
def beginKey? (opened : List Frame) (before : List (String × Json)) (c : Char) : Option Reader :=
  if c = '"' then some ⟨.quoted (.key before) .empty, opened⟩ else none

/-- Read what separates a value from the next, or what closes that which holds it. -/
def resume? (value : Json) (opened : List Frame) (c : Char) : Option Reader :=
  match c, opened with
  | ',', .list before :: outer => some ⟨.value, .list (value :: before) :: outer⟩
  | ']', .list before :: outer => some ⟨.behind (.list (value :: before).reverse), outer⟩
  | ',', .object before key :: outer => some ⟨.key ((key, value) :: before), outer⟩
  | '}', .object before key :: outer =>
    some ⟨.behind (.object ((key, value) :: before).reverse), outer⟩
  | _, _ => none

/-- A string has come to its end. -/
def endQuoted (role : Role) (opened : List Frame) (s : String) : Reader :=
  match role with
  | .value => ⟨.behind (.string s), opened⟩
  | .key before => ⟨.colon before s, opened⟩

/-- Read a character of a string. -/
def stepQuoted? (role : Role) (opened : List Frame) (q : Quoted) (c : Char) : Option Reader :=
  if q.escape = .outside ∧ c = '"' then q.close?.map (endQuoted role opened)
  else (q.step? c).map (⟨.quoted role ·, opened⟩)

/-- Blanks may stand between tokens. -/
def isBlank (c : Char) : Bool := c == ' ' || c == '\t' || c == '\n' || c == '\r'

/-- Read a character. -/
def step? (s : Reader) (c : Char) : Option Reader :=
  match s.progress with
  | .quoted role q => stepQuoted? role s.opened q c
  | .word value ahead =>
    match ahead with
    | [] => none
    | [d] => if c = d then some ⟨.behind value, s.opened⟩ else none
    | d :: ahead => if c = d then some ⟨.word value ahead, s.opened⟩ else none
  | .value => if isBlank c then some s else begin? s.opened c
  | .list =>
    if isBlank c then some s
    else if c = ']' then some ⟨.behind (.list []), s.opened⟩
    else begin? (.list [] :: s.opened) c
  | .object =>
    if isBlank c then some s
    else if c = '}' then some ⟨.behind (.object []), s.opened⟩
    else beginKey? s.opened [] c
  | .key before => if isBlank c then some s else beginKey? s.opened before c
  | .colon before key =>
    if isBlank c then some s
    else if c = ':' then some ⟨.value, .object before key :: s.opened⟩
    else none
  | .behind value => if isBlank c then some s else resume? value s.opened c

/-- Read characters one after the other. -/
def run? (s : Reader) (text : List Char) : Option Reader := text.foldlM step? s

@[simp] theorem run?_nil (s : Reader) : s.run? [] = some s := rfl

@[simp] theorem run?_cons (s : Reader) (c : Char) (text : List Char) :
    s.run? (c :: text) = (s.step? c).bind (·.run? text) := rfl

theorem run?_append (s : Reader) (text later : List Char) :
    s.run? (text ++ later) = (s.run? text).bind (·.run? later) := by
  simp only [run?, List.foldlM_append]
  rfl

/-- If reading a text leads somewhere, reading goes on from there. -/
theorem run?_append_of_eq {s mid : Reader} {text : List Char} (h : s.run? text = some mid)
    (later : List Char) : s.run? (text ++ later) = mid.run? later := by
  rw [run?_append, h, Option.bind_some]

/-- The value that has been read, unless something is still open. -/
def finish? (s : Reader) : Option Json :=
  match s.progress, s.opened with
  | .behind value, [] => some value
  | _, _ => none

end Reader

/-- The value of a text. -/
def ofText? (text : String) : Option Json :=
  (Reader.empty.run? text.toList).bind Reader.finish?

end Moniker.Json
