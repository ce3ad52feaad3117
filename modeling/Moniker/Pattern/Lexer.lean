import Moniker.Pattern.Token

/-!
# Reading a pattern as lexemes

A `Cursor` stands between two characters of a pattern and reads one lexeme at a time.
Between blocks it knows braces, `<...>`, `[...]` and the parenthesis that opens a repeat
count; inside a repeat count only digits, commas and the closing parenthesis. White space is
not skipped anywhere.

* `Cursor.next?` — the next lexeme, or what is wrong with the text there, and the cursor
  after it; nothing at the end of the text. After an error reading may go on: the cursor
  then stands at the offending character, or at the end if a delimiter was never closed.
* `Cursor.lexemes` — all lexemes up to the end, or the first error.

Reading a lexeme always leaves less text to read (`Cursor.rest_shorter`), which is why
`lexemes` comes to an end.
-/

namespace Moniker.Pattern

open Moniker.Text

/-- What can be wrong with a text before it is even a sequence of tokens. -/
inductive LexFault where
  /-- a `<` without a `>` after it -/
  | unterminatedLiteral
  /-- a `[` without a `]` after it -/
  | unterminatedClass
  /-- a `>` that closes nothing -/
  | unmatchedAngle
  /-- a `]` that closes nothing -/
  | unmatchedBracket
  /-- a `)` that closes nothing -/
  | unmatchedParen
  /-- an angle bracket or brace inside `<...>` -/
  | reservedInLiteral (c : Char)
  /-- any other character that may not stand where it stands -/
  | unexpected (c : Char)
deriving DecidableEq, Repr

/-- A fault and the byte where it was found: for a delimiter that is never closed, that of
the delimiter. -/
structure LexError where
  fault : LexFault
  offset : Nat
deriving DecidableEq, Repr

/-- The wording of an error. -/
def LexError.message (e : LexError) : String :=
  match e.fault with
  | .unterminatedLiteral => s!"unterminated '<' literal at byte {e.offset}"
  | .unterminatedClass => s!"unterminated '[' class at byte {e.offset}"
  | .unmatchedAngle => s!"unmatched '>' at byte {e.offset}"
  | .unmatchedBracket => s!"unmatched ']' at byte {e.offset}"
  | .unmatchedParen => s!"unmatched ')' at byte {e.offset}"
  | .reservedInLiteral c => quoteChar c ++ s!" is not allowed inside a literal (byte {e.offset})"
  | .unexpected c => "unexpected character " ++ quoteChar c ++ s!" at byte {e.offset}"

/-- Where in a pattern the cursor is. -/
inductive Mode where
  /-- between blocks -/
  | blocks
  /-- inside the parentheses of a repeat count -/
  | quantifier
deriving DecidableEq, Repr

/-- A position between two characters of a pattern. -/
structure Cursor where
  /-- how many bytes lie before it -/
  offset : Nat
  mode : Mode
  /-- the characters after it -/
  rest : List Char
deriving DecidableEq, Repr

/-- The cursor at the beginning of a pattern. -/
def Cursor.start (pattern : List Char) : Cursor := ⟨0, .blocks, pattern⟩

/-- The lexeme of a token that is written at `offset`, and the cursor behind it. -/
def Cursor.emit (offset : Nat) (token : Token) (mode : Mode) (rest : List Char) :
    Except LexError Lexeme × Cursor :=
  let lexeme := Lexeme.ofToken token offset
  (.ok lexeme, ⟨lexeme.span.stop, mode, rest⟩)

/-! ### Delimited bodies -/

/-- A pair of delimiters with raw text between them. -/
structure Delimiters where
  closing : Char
  /-- what is wrong with a character that may not stand in the body -/
  veto : Char → Option LexFault
  /-- what is wrong if `closing` never comes -/
  unterminated : LexFault
  /-- the token with the given body -/
  token : String → Token

namespace Delimiters

/-- The delimiters `<` and `>`: no angle bracket and no brace may stand between them. -/
def angles : Delimiters where
  closing := '>'
  veto c := if c = '<' ∨ c = '{' ∨ c = '}' then some (.reservedInLiteral c) else none
  unterminated := .unterminatedLiteral
  token := .literal

/-- The delimiters `[` and `]`: no bracket may stand between them. -/
def brackets : Delimiters where
  closing := ']'
  veto c := if c = '[' then some (.unexpected c) else none
  unterminated := .unterminatedClass
  token := .flags

/-- Whether `c` belongs to the body: it neither closes it nor is refused there. -/
def continues (d : Delimiters) (c : Char) : Bool := c != d.closing && (d.veto c).isNone

/-- Read the body after an opening delimiter at `start`; `text` is what follows the
delimiter. -/
def read (d : Delimiters) (start : Nat) (text : List Char) : Except LexError Lexeme × Cursor :=
  let body := text.takeWhile d.continues
  let stop := start + 1 + byteLength body
  match text.dropWhile d.continues with
  | [] => (.error ⟨d.unterminated, start⟩, ⟨stop, .blocks, []⟩)
  | c :: rest =>
    match d.veto c with
    | some fault => (.error ⟨fault, stop⟩, ⟨stop, .blocks, c :: rest⟩)
    | none => Cursor.emit start (d.token (String.ofList body)) .blocks rest

end Delimiters

/-! ### One step of the cursor -/

namespace Cursor

/-- Read between blocks: `c` is the character after the cursor and `rest` what follows it. -/
def nextBlock (offset : Nat) (c : Char) (rest : List Char) : Except LexError Lexeme × Cursor :=
  let refuse (fault : LexFault) : Except LexError Lexeme × Cursor :=
    (.error ⟨fault, offset⟩, ⟨offset, .blocks, c :: rest⟩)
  match c with
  | '{' => emit offset .openBrace .blocks rest
  | '}' => emit offset .closeBrace .blocks rest
  | '(' => emit offset .openParen .quantifier rest
  | '<' => Delimiters.angles.read offset rest
  | '[' => Delimiters.brackets.read offset rest
  | '>' => refuse .unmatchedAngle
  | ']' => refuse .unmatchedBracket
  | ')' => refuse .unmatchedParen
  | other => refuse (.unexpected other)

/-- Read inside a repeat count: `c` is the character after the cursor and `rest` what follows
it. A run of digits is read as far as it goes. -/
def nextCount (offset : Nat) (c : Char) (rest : List Char) : Except LexError Lexeme × Cursor :=
  if c = ',' then emit offset .comma .quantifier rest
  else if c = ')' then emit offset .closeParen .blocks rest
  else if c.isDigit then
    emit offset (.number (String.ofList (c :: rest.takeWhile Char.isDigit))) .quantifier
      (rest.dropWhile Char.isDigit)
  else (.error ⟨.unexpected c, offset⟩, ⟨offset, .quantifier, c :: rest⟩)

/-- Read one lexeme, or find what is wrong; nothing at the end of the pattern. -/
def next? (cursor : Cursor) : Option (Except LexError Lexeme × Cursor) :=
  match cursor with
  | ⟨_, _, []⟩ => none
  | ⟨offset, .blocks, c :: rest⟩ => some (nextBlock offset c rest)
  | ⟨offset, .quantifier, c :: rest⟩ => some (nextCount offset c rest)

end Cursor

/-! ### All lexemes -/

theorem length_dropWhile_le (p : Char → Bool) (cs : List Char) :
    (cs.dropWhile p).length ≤ cs.length := by
  have h := congrArg List.length (List.takeWhile_append_dropWhile (p := p) (l := cs))
  rw [List.length_append] at h
  omega

namespace Cursor

/-- Reading a body leaves no more text than there was after the opening delimiter. -/
theorem read_rest_le (d : Delimiters) (start : Nat) (text : List Char) :
    (d.read start text).2.rest.length ≤ text.length := by
  have h := length_dropWhile_le d.continues text
  unfold Delimiters.read
  split
  · simp
  · next c rest hd =>
    rw [hd] at h
    simp only [List.length_cons] at h
    dsimp only
    split <;> simp only [emit, List.length_cons] <;> omega

/-- A cursor that has read a lexeme has less text in front of it. -/
theorem rest_shorter {cursor after : Cursor} {lexeme : Lexeme}
    (h : cursor.next? = some (.ok lexeme, after)) : after.rest.length < cursor.rest.length := by
  obtain ⟨offset, mode, rest⟩ := cursor
  cases rest with
  | nil => cases mode <;> simp [next?] at h
  | cons c rest =>
    cases mode with
    | blocks =>
      simp only [next?, Option.some.injEq] at h
      have hd := fun d : Delimiters => read_rest_le d offset rest
      unfold nextBlock at h
      split at h
      case h_4 => have := hd .angles; rw [h] at this; exact Nat.lt_succ_of_le this
      case h_5 => have := hd .brackets; rw [h] at this; exact Nat.lt_succ_of_le this
      all_goals simp only [emit, Prod.mk.injEq, reduceCtorEq, false_and] at h
      all_goals rw [← h.2]; exact Nat.lt_succ_self _
    | quantifier =>
      simp only [next?, Option.some.injEq] at h
      unfold nextCount at h
      split at h
      · simp only [emit, Prod.mk.injEq] at h; rw [← h.2]; exact Nat.lt_succ_self _
      · split at h
        · simp only [emit, Prod.mk.injEq] at h; rw [← h.2]; exact Nat.lt_succ_self _
        · split at h
          · simp only [emit, Prod.mk.injEq] at h
            rw [← h.2]
            exact Nat.lt_succ_of_le (length_dropWhile_le _ _)
          · simp at h

/-- The lexemes from the cursor to the end of the pattern, or the first error. -/
def lexemes (cursor : Cursor) : Except LexError (List Lexeme) :=
  match _ : cursor.next? with
  | none => .ok []
  | some (.error e, _) => .error e
  | some (.ok lexeme, after) => (lexeme :: ·) <$> after.lexemes
termination_by cursor.rest.length
decreasing_by exact rest_shorter ‹_›

/-- What successive calls of `next?` give, at most `calls` of them, going on after errors. At
the end of the pattern every call gives nothing. -/
def successive (cursor : Cursor) : Nat → List (Option (Except LexError Lexeme))
  | 0 => []
  | calls + 1 =>
    match cursor.next? with
    | none => none :: cursor.successive calls
    | some (found, after) => some found :: after.successive calls

end Cursor

/-- The lexemes of a whole pattern, or the first error in it. -/
def lexemes (pattern : String) : Except LexError (List Lexeme) :=
  (Cursor.start pattern.toList).lexemes

end Moniker.Pattern
