import Mathlib.Data.List.TakeWhile
import Mathlib.Tactic.Tauto
import Moniker.Proofs.Except
import Moniker.Pattern.Lexer

/-!
# Lexemes are tokens written out

Which tokens may follow each other is said here without a cursor, and the cursor is shown to
read exactly such tokens.

* `Mode.Takes` — which token may stand at a place, and what kind of place it leads to;
* `Written` — tokens that may stand in a row from a place on;
* `Apart` — a text behind tokens that does not go on with the digits of the last one;
* `lexemesAt` — the lexemes of tokens that are written one behind the other;
* `Cursor.lexemes_eq_ok_iff` — what the cursor reads are the lexemes of the tokens that are
  written in front of it;
* `Written.unique` — a text is written with one list of tokens only.
-/

namespace Moniker.Pattern

open Text (byteLength)

/-! ## Tokens in a row -/

/-- Whether a token is a run of digits, which goes as far as there are digits. -/
def Token.isNumber : Token → Bool
  | number _ => true
  | _ => false

/-- At a place of the one mode the token may stand, and it leads to a place of the other. What
is written between delimiters must not hold a character that would end it there. -/
inductive Mode.Takes : Mode → Token → Mode → Prop where
  | openBrace : Takes .blocks .openBrace .blocks
  | closeBrace : Takes .blocks .closeBrace .blocks
  | literal {text : String} (h : ∀ c ∈ text.toList, c ∉ ['<', '>', '{', '}']) :
    Takes .blocks (.literal text) .blocks
  | flags {text : String} (h : ∀ c ∈ text.toList, c ∉ ['[', ']']) :
    Takes .blocks (.flags text) .blocks
  | openParen : Takes .blocks .openParen .quantifier
  | comma : Takes .quantifier .comma .quantifier
  | number {digits : String} (hne : digits.toList ≠ [])
    (h : ∀ c ∈ digits.toList, c.isDigit = true) : Takes .quantifier (.number digits) .quantifier
  | closeParen : Takes .quantifier .closeParen .blocks

/-- The tokens may stand in a row from a place of the given mode on. Two runs of digits never
meet, for they would be one. -/
inductive Written : Mode → List Token → Prop where
  | nil {mode : Mode} : Written mode []
  | cons {mode next : Mode} {token : Token} {tokens : List Token} (htakes : mode.Takes token next)
    (hends : token.isNumber = true → ∀ later ∈ tokens.head?, later.isNumber = false)
    (hwritten : Written next tokens) : Written mode (token :: tokens)

/-- The lexemes of tokens that are written one behind the other from `offset` on. -/
def lexemesAt (offset : Nat) : List Token → List Lexeme
  | [] => []
  | token :: tokens =>
    .ofToken token offset :: lexemesAt (offset + byteLength token.source) tokens

theorem lexemesAt_append (offset : Nat) (tokens later : List Token) :
    lexemesAt offset (tokens ++ later) =
      lexemesAt offset tokens ++
        lexemesAt (offset + byteLength (tokens.flatMap Token.source)) later := by
  induction tokens generalizing offset with
  | nil => rfl
  | cons token tokens ih =>
    simp only [List.cons_append, lexemesAt, ih, List.flatMap_cons, Text.byteLength_append,
      Nat.add_assoc]

/-- The lexemes say which tokens they are of. -/
theorem map_token_lexemesAt (offset : Nat) (tokens : List Token) :
    (lexemesAt offset tokens).map Lexeme.token = tokens := by
  induction tokens generalizing offset with
  | nil => rfl
  | cons token tokens ih => rw [lexemesAt, List.map_cons, ih, Lexeme.ofToken_token]

/-- A token takes at least one character, and the first one tells whether it is a number. -/
theorem Mode.Takes.exists_source {mode next : Mode} {token : Token} (h : mode.Takes token next) :
    ∃ c cs, token.source = c :: cs ∧ c.isDigit = token.isNumber := by
  cases h with
  | openBrace | closeBrace | literal | flags | openParen | comma | closeParen =>
    exact ⟨_, _, rfl, rfl⟩
  | @number digits hne hdigits =>
    obtain ⟨c, cs, hcs⟩ := List.exists_cons_of_ne_nil hne
    exact ⟨c, cs, hcs, hdigits c (by rw [hcs]; exact List.mem_cons_self)⟩

/-- No digit comes next in the text exactly if no number comes next in the tokens. -/
theorem Written.digit_ahead_iff {mode : Mode} {tokens : List Token} (h : Written mode tokens) :
    (∀ c ∈ (tokens.flatMap Token.source).head?, c.isDigit = false) ↔
      ∀ later ∈ tokens.head?, later.isNumber = false := by
  cases h with
  | nil => simp
  | @cons _ _ token tokens htakes hends hwritten =>
    -- both sides look at the first character of the first token
    obtain ⟨c, cs, hsource, hdigit⟩ := htakes.exists_source
    simp [hsource, hdigit]

/-- The text goes on behind the tokens, and not with digits of the last one. -/
def Apart (tokens : List Token) (rest : List Char) : Prop :=
  ∀ token ∈ tokens.getLast?, token.isNumber = true → ∀ c ∈ rest.head?, c.isDigit = false

theorem Apart.tail {token : Token} {tokens : List Token} {rest : List Char}
    (h : Apart (token :: tokens) rest) : Apart tokens rest := by
  intro last hlast
  refine h last ?_
  rw [Option.mem_def] at hlast ⊢
  rw [List.getLast?_cons, hlast]
  rfl

/-- No digit follows the first token, be it that another token follows or the text behind them. -/
theorem Apart.digit_ahead {mode : Mode} {token : Token} {tokens : List Token} {rest : List Char}
    (h : Apart (token :: tokens) rest) (hwritten : Written mode tokens)
    (hends : token.isNumber = true → ∀ later ∈ tokens.head?, later.isNumber = false) :
    token.isNumber = true →
      ∀ c ∈ (tokens.flatMap Token.source ++ rest).head?, c.isDigit = false := by
  intro hnumber
  have hahead := hwritten.digit_ahead_iff.2 (hends hnumber)
  cases hwritten with
  | nil => exact h token rfl hnumber
  | cons htakes =>
    obtain ⟨c, cs, hsource, -⟩ := htakes.exists_source
    rw [List.flatMap_cons, hsource] at hahead ⊢
    exact hahead

/-- A token in front is the last one only if the rest follows it at once. -/
theorem Apart.cons {token : Token} {tokens : List Token} {rest : List Char} (h : Apart tokens rest)
    (hends : token.isNumber = true →
      ∀ c ∈ (tokens.flatMap Token.source ++ rest).head?, c.isDigit = false) :
    Apart (token :: tokens) rest := by
  intro last hlast
  cases tokens with
  | nil =>
    obtain rfl := Option.some.inj hlast
    exact hends
  | cons later tokens => exact h last hlast

theorem Apart.append {tokens : List Token} {rest : List Char} (h : Apart tokens rest)
    (hne : rest ≠ []) (more : List Char) : Apart tokens (rest ++ more) := by
  rwa [Apart, List.head?_append_of_ne_nil _ hne]

/-- Each token of a row may stand somewhere. -/
theorem Written.exists_takes {mode : Mode} {tokens : List Token} (h : Written mode tokens)
    {token : Token} (hmem : token ∈ tokens) : ∃ mode' next : Mode, mode'.Takes token next := by
  induction h with
  | nil => exact absurd hmem List.not_mem_nil
  | cons htakes _ _ ih =>
    rcases List.mem_cons.1 hmem with rfl | hlater
    · exact ⟨_, _, htakes⟩
    · exact ih hlater

/-! ## Delimited bodies -/

namespace Delimiters

theorem angles_continues {c : Char} :
    angles.continues c = true ↔ c ∉ ['<', '>', '{', '}'] := by
  simp only [continues, angles, Bool.and_eq_true, bne_iff_ne, ne_eq, Option.isNone_iff_eq_none,
    ite_eq_right_iff, reduceCtorEq, imp_false, List.mem_cons, List.not_mem_nil, or_false]
  tauto

theorem brackets_continues {c : Char} : brackets.continues c = true ↔ c ∉ ['[', ']'] := by
  simp only [continues, brackets, Bool.and_eq_true, bne_iff_ne, ne_eq, Option.isNone_iff_eq_none,
    ite_eq_right_iff, reduceCtorEq, imp_false, List.mem_cons, List.not_mem_nil, or_false]
  tauto

/-- A body up to the closing delimiter is read. -/
theorem read_closed {d : Delimiters} (hveto : d.veto d.closing = none) (start : Nat)
    {body : String} (hbody : ∀ c ∈ body.toList, d.continues c = true) (rest : List Char) :
    d.read start (body.toList ++ d.closing :: rest) =
      Cursor.emit start (d.token body) .blocks rest := by
  have hclosing : ¬ d.continues d.closing = true := by simp [continues]
  have htake : (body.toList ++ d.closing :: rest).takeWhile d.continues = body.toList := by
    rw [List.takeWhile_append_of_pos hbody, List.takeWhile_cons_of_neg hclosing, List.append_nil]
  have hdrop : (body.toList ++ d.closing :: rest).dropWhile d.continues =
      d.closing :: rest := by
    rw [List.dropWhile_append_of_pos hbody, List.dropWhile_cons_of_neg hclosing]
  simp only [read, htake, hdrop, hveto, String.ofList_toList]

/-- Where a body was read, it is followed by the closing delimiter. -/
theorem closed_of_read {d : Delimiters} {start : Nat} {text : List Char} {lexeme : Lexeme}
    {after : Cursor} (h : d.read start text = (.ok lexeme, after)) :
    ∃ body rest, (∀ c ∈ body, d.continues c = true) ∧ text = body ++ d.closing :: rest ∧
      Cursor.emit start (d.token (String.ofList body)) .blocks rest = (.ok lexeme, after) := by
  have hhead := List.head?_dropWhile_not d.continues text
  have htext := List.takeWhile_append_dropWhile (p := d.continues) (l := text)
  unfold read at h
  split at h
  · simp at h
  · next c rest hdrop =>
    split at h
    · simp at h
    · next hveto =>
      -- reading stops at a character that closes the body or is refused, and it is not refused
      have hc : c = d.closing := by
        rw [hdrop] at hhead
        simpa [continues, hveto] using hhead
      subst hc
      refine ⟨text.takeWhile d.continues, rest, fun c hc => List.mem_takeWhile_imp hc, ?_, h⟩
      rw [← hdrop, htext]

end Delimiters

/-! ## The cursor -/

namespace Cursor

/-- A token that may stand in front of the cursor is read there, if it ends where it says. -/
theorem next?_token {mode next : Mode} {token : Token} (h : mode.Takes token next)
    (offset : Nat) {rest : List Char}
    (hends : token.isNumber = true → ∀ c ∈ rest.head?, c.isDigit = false) :
    next? ⟨offset, mode, token.source ++ rest⟩ = some (emit offset token next rest) := by
  cases h with
  | openBrace | closeBrace | openParen | comma | closeParen => rfl
  | @literal text htext =>
    have hread := Delimiters.read_closed (d := .angles) rfl offset
      (fun c hc => Delimiters.angles_continues.2 (htext c hc)) rest
    rw [Token.source, List.cons_append, List.append_assoc]
    exact congrArg some hread
  | @flags text htext =>
    have hread := Delimiters.read_closed (d := .brackets) rfl offset
      (fun c hc => Delimiters.brackets_continues.2 (htext c hc)) rest
    rw [Token.source, List.cons_append, List.append_assoc]
    exact congrArg some hread
  | @number digits hne hdigits =>
    obtain ⟨c, cs, hcs⟩ := List.exists_cons_of_ne_nil hne
    have hall : ∀ d ∈ c :: cs, d.isDigit = true := hcs ▸ hdigits
    have hc := hall c List.mem_cons_self
    have hlater : ∀ d ∈ cs, d.isDigit = true := fun d hd => hall d (List.mem_cons_of_mem c hd)
    -- no digit follows, so the run of digits ends where the token does
    have hstops : rest.takeWhile Char.isDigit = [] ∧ rest.dropWhile Char.isDigit = rest := by
      cases rest with
      | nil => exact ⟨rfl, rfl⟩
      | cons d rest =>
        have hd : ¬ d.isDigit = true := by simpa using hends rfl d rfl
        exact ⟨List.takeWhile_cons_of_neg hd, List.dropWhile_cons_of_neg hd⟩
    have hne : c ≠ ',' ∧ c ≠ ')' := by
      constructor <;> rintro rfl <;> exact absurd hc (by decide)
    have hofList : String.ofList (c :: cs) = digits := by rw [← hcs, String.ofList_toList]
    rw [Token.source, hcs, List.cons_append]
    simp only [next?, nextCount, hne.1, hne.2, if_false, hc, if_true,
      List.takeWhile_append_of_pos hlater, List.dropWhile_append_of_pos hlater, hstops.1,
      hstops.2, List.append_nil, hofList]

/-- What is read between blocks is a token in front of the cursor. -/
theorem exists_token_of_nextBlock {offset : Nat} {c : Char} {text : List Char} {lexeme : Lexeme}
    {after : Cursor} (h : nextBlock offset c text = (.ok lexeme, after)) :
    ∃ token next rest, Mode.blocks.Takes token next ∧ token.isNumber = false ∧
      c :: text = token.source ++ rest ∧ emit offset token next rest = (.ok lexeme, after) := by
  unfold nextBlock at h
  split at h
  case h_1 => exact ⟨_, _, text, .openBrace, rfl, rfl, h⟩
  case h_2 => exact ⟨_, _, text, .closeBrace, rfl, rfl, h⟩
  case h_3 => exact ⟨_, _, text, .openParen, rfl, rfl, h⟩
  case h_4 =>
    obtain ⟨body, rest, hbody, htext, h⟩ := Delimiters.closed_of_read h
    refine ⟨.literal (String.ofList body), .blocks, rest, .literal ?_, rfl, ?_, h⟩
    · simpa only [String.toList_ofList, Delimiters.angles_continues] using hbody
    · simp [Token.source, htext, Delimiters.angles]
  case h_5 =>
    obtain ⟨body, rest, hbody, htext, h⟩ := Delimiters.closed_of_read h
    refine ⟨.flags (String.ofList body), .blocks, rest, .flags ?_, rfl, ?_, h⟩
    · simpa only [String.toList_ofList, Delimiters.brackets_continues] using hbody
    · simp [Token.source, htext, Delimiters.brackets]
  all_goals simp at h

/-- What is read inside a repeat count is a token in front of the cursor, and a number there is
read as far as it goes. -/
theorem exists_token_of_nextCount {offset : Nat} {c : Char} {text : List Char} {lexeme : Lexeme}
    {after : Cursor} (h : nextCount offset c text = (.ok lexeme, after)) :
    ∃ token next rest, Mode.quantifier.Takes token next ∧
      (token.isNumber = true → ∀ d ∈ rest.head?, d.isDigit = false) ∧
      c :: text = token.source ++ rest ∧ emit offset token next rest = (.ok lexeme, after) := by
  unfold nextCount at h
  split at h
  · next hc => exact ⟨_, _, text, .comma, by simp [Token.isNumber], by rw [hc]; rfl, h⟩
  · split at h
    · next hc => exact ⟨_, _, text, .closeParen, by simp [Token.isNumber], by rw [hc]; rfl, h⟩
    · split at h
      · next hdigit =>
        have hhead := List.head?_dropWhile_not Char.isDigit text
        refine ⟨_, _, text.dropWhile Char.isDigit, .number ?_ ?_, ?_, ?_, h⟩
        · simp
        · simp only [String.toList_ofList, List.mem_cons, forall_eq_or_imp]
          exact ⟨hdigit, fun d hd => List.mem_takeWhile_imp hd⟩
        · intro _ d hd
          rw [Option.mem_def] at hd
          rw [hd] at hhead
          exact hhead
        · rw [Token.source, String.toList_ofList, List.cons_append,
            List.takeWhile_append_dropWhile]
      · simp at h

/-- What is read is a token in front of the cursor. -/
theorem exists_token_of_next? {cursor after : Cursor} {lexeme : Lexeme}
    (h : cursor.next? = some (.ok lexeme, after)) :
    ∃ token next rest, cursor.mode.Takes token next ∧
      (token.isNumber = true → ∀ c ∈ rest.head?, c.isDigit = false) ∧
      cursor.rest = token.source ++ rest ∧
      emit cursor.offset token next rest = (.ok lexeme, after) := by
  obtain ⟨offset, mode, text⟩ := cursor
  cases text with
  | nil => cases mode <;> simp [next?] at h
  | cons c text =>
    cases mode with
    | blocks =>
      obtain ⟨token, next, rest, htakes, hnumber, htext, h⟩ :=
        exists_token_of_nextBlock (Option.some.inj h)
      exact ⟨token, next, rest, htakes, by simp [hnumber], htext, h⟩
    | quantifier => exact exists_token_of_nextCount (Option.some.inj h)

/-! ### All lexemes -/

theorem lexemes_nil (offset : Nat) (mode : Mode) : lexemes ⟨offset, mode, []⟩ = .ok [] := by
  unfold lexemes
  cases mode <;> rfl

theorem lexemes_of_next? {cursor after : Cursor} {lexeme : Lexeme}
    (h : cursor.next? = some (.ok lexeme, after)) :
    cursor.lexemes = (lexeme :: ·) <$> after.lexemes := by
  rw [lexemes]
  split
  · next h' => simp [h] at h'
  · next h' => simp [h] at h'
  · next h' =>
    obtain ⟨rfl, rfl⟩ : _ ∧ _ := by simpa [h] using h'
    rfl

theorem lexemes_of_error {cursor after : Cursor} {e : LexError}
    (h : cursor.next? = some (.error e, after)) : cursor.lexemes = .error e := by
  rw [lexemes]
  split
  · next h' => simp [h] at h'
  · next h' =>
    obtain ⟨rfl, rfl⟩ : _ ∧ _ := by simpa [h] using h'
    rfl
  · next h' => simp [h] at h'

/-- Tokens that may stand in front of the cursor are read to the end. -/
theorem lexemes_written {mode : Mode} {tokens : List Token} (h : Written mode tokens)
    (offset : Nat) :
    lexemes ⟨offset, mode, tokens.flatMap Token.source⟩ = .ok (lexemesAt offset tokens) := by
  induction h generalizing offset with
  | nil => exact lexemes_nil offset _
  | @cons mode next token tokens htakes hends hwritten ih =>
    have hnext := next?_token htakes offset
      (fun hnumber => hwritten.digit_ahead_iff.2 (hends hnumber))
    rw [List.flatMap_cons, lexemes_of_next? hnext, Lexeme.ofToken_stop, ih]
    rfl

/-- The cursor reads the lexemes of the tokens that are written in front of it, and reads to
the end only if some are. -/
theorem lexemes_eq_ok_iff {cursor : Cursor} {found : List Lexeme} :
    cursor.lexemes = .ok found ↔
      ∃ tokens, Written cursor.mode tokens ∧ tokens.flatMap Token.source = cursor.rest ∧
        lexemesAt cursor.offset tokens = found := by
  constructor
  · intro h
    induction cursor using lexemes.induct generalizing found with
    | case1 cursor hnext =>
      obtain ⟨offset, mode, text⟩ := cursor
      cases text with
      | nil =>
        rw [lexemes_nil] at h
        exact ⟨[], .nil, rfl, Except.ok.inj h⟩
      | cons c text => cases mode <;> simp [next?] at hnext
    | case2 cursor e after hnext =>
      rw [lexemes_of_error hnext] at h
      cases h
    | case3 cursor lexeme after hnext ih =>
      rw [lexemes_of_next? hnext] at h
      obtain ⟨later, hlater, rfl⟩ := map_eq_ok_iff.1 h
      obtain ⟨tokens, hwritten, htext, rfl⟩ := ih hlater
      obtain ⟨token, next, rest, htakes, hends, hrest, hemit⟩ := exists_token_of_next? hnext
      obtain ⟨hlexeme, rfl⟩ := Prod.mk.inj hemit
      obtain rfl := Except.ok.inj hlexeme
      subst htext
      refine ⟨token :: tokens, .cons htakes ?_ hwritten, ?_, rfl⟩
      · exact fun hnumber => hwritten.digit_ahead_iff.1 (hends hnumber)
      · rw [hrest, List.flatMap_cons]
  · rintro ⟨tokens, hwritten, htext, rfl⟩
    obtain ⟨offset, mode, text⟩ := cursor
    subst htext
    exact lexemes_written hwritten offset

end Cursor

/-- A text is written with one list of tokens only. -/
theorem Written.unique {mode : Mode} {tokens tokens' : List Token} (h : Written mode tokens)
    (h' : Written mode tokens')
    (htext : tokens.flatMap Token.source = tokens'.flatMap Token.source) : tokens = tokens' := by
  have hread := Cursor.lexemes_written h 0
  rw [htext, Cursor.lexemes_written h' 0] at hread
  rw [← map_token_lexemesAt 0 tokens, ← Except.ok.inj hread, map_token_lexemesAt]

/-- A text is made of tokens exactly if it is written with some. -/
theorem lexemes_eq_ok_iff {text : String} {found : List Lexeme} :
    lexemes text = .ok found ↔
      ∃ tokens, Written .blocks tokens ∧ tokens.flatMap Token.source = text.toList ∧
        lexemesAt 0 tokens = found :=
  Cursor.lexemes_eq_ok_iff

end Moniker.Pattern
