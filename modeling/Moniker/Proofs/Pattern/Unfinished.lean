import Moniker.Proofs.Pattern.Cursor
import Moniker.Proofs.Pattern.Places

/-!
# Texts that are not finished

A text that is not made of tokens may be the beginning of one that is. Which texts are is told by
the error alone, because a character that is refused is refused whatever comes behind it.

* `Cursor.lexemes_append` — tokens in front of the cursor are read, and then the rest;
* `Cursor.exists_stop` — where reading stops, tokens lie behind and the next one cannot be read;
* `FinishedBy` — a closing delimiter makes the text one of tokens;
* `unfinished_iff` — a text can be finished exactly if what it lacks is a closing delimiter.
-/

namespace Moniker.Pattern

open Text (byteLength)

variable {mode : Mode} {tokens : List Token} {rest : List Char}

namespace Cursor

/-! ## Where reading stops -/

/-- The cursor behind tokens that are written from the cursor on, with the rest in front of it. -/
def behind (cursor : Cursor) (tokens : List Token) (rest : List Char) : Cursor :=
  ⟨cursor.offset + byteLength (tokens.flatMap Token.source), tokens.foldl Mode.after cursor.mode,
    rest⟩

/-- To be behind tokens is to be behind the first one, and then behind the others. -/
theorem behind_cons {cursor : Cursor} {next : Mode} {token : Token}
    (htakes : cursor.mode.Takes token next) (later : List Char) :
    cursor.behind (token :: tokens) rest =
      behind ⟨cursor.offset + byteLength token.source, next, later⟩ tokens rest := by
  obtain ⟨-, -, hafter⟩ := Mode.takes_iff.1 htakes
  simp only [behind, List.flatMap_cons, Text.byteLength_append, List.foldl_cons, hafter,
    Nat.add_assoc]

/-- Tokens in front of the cursor are read, and then the rest. -/
theorem lexemes_append (h : Written mode tokens) (hapart : Apart tokens rest) (offset : Nat) :
    lexemes ⟨offset, mode, tokens.flatMap Token.source ++ rest⟩ =
      (lexemesAt offset tokens ++ ·) <$> (behind ⟨offset, mode, rest⟩ tokens rest).lexemes := by
  induction h generalizing offset with
  | nil => exact (id_map _).symm
  | @cons mode next token tokens htakes hends hwritten ih =>
    have hnext := next?_token htakes offset (hapart.digit_ahead hwritten hends)
    rw [List.flatMap_cons, List.append_assoc, lexemes_of_next? hnext, Lexeme.ofToken_stop,
      ih hapart.tail, behind_cons htakes rest]
    rcases (behind _ tokens rest).lexemes with e | found <;> rfl

/-- Where reading stops at an error, tokens lie behind, and the next one cannot be read. -/
theorem exists_stop {cursor : Cursor} {e : LexError} (h : cursor.lexemes = .error e) :
    ∃ tokens rest after, Written cursor.mode tokens ∧ Apart tokens rest ∧
      cursor.rest = tokens.flatMap Token.source ++ rest ∧
      (cursor.behind tokens rest).Fails e after := by
  induction cursor using lexemes.induct with
  | case1 cursor hnext =>
    rw [lexemes] at h
    split at h <;> simp_all
  | case2 cursor e' after hnext =>
    rw [lexemes_of_error hnext] at h
    obtain rfl := Except.error.inj h
    exact ⟨[], cursor.rest, after, .nil, by simp [Apart], rfl, fails_of_next? hnext⟩
  | case3 cursor lexeme after hnext ih =>
    rw [lexemes_of_next? hnext] at h
    obtain ⟨tokens, rest, stop, hwritten, hapart, hrest, hfails⟩ := ih (map_eq_error_iff.1 h)
    obtain ⟨token, next, later, htakes, hends, htoken, hemit⟩ := exists_token_of_next? hnext
    obtain ⟨-, rfl⟩ := Prod.mk.inj hemit
    obtain rfl : later = tokens.flatMap Token.source ++ rest := hrest
    refine ⟨token :: tokens, rest, stop, .cons htakes ?_ hwritten, hapart.cons hends, ?_, ?_⟩
    · -- a number that comes next would begin with a digit
      intro hnumber
      exact hwritten.digit_ahead_iff.1 fun c hc =>
        hends hnumber c (List.mem_head?_append_of_mem_head? hc)
    · rw [htoken, List.flatMap_cons, List.append_assoc]
    · rwa [behind_cons htakes]

/-- Where a token cannot be read, the text is not at its end. -/
theorem Fails.rest_ne_nil {cursor after : Cursor} {e : LexError} (h : cursor.Fails e after) :
    cursor.rest ≠ [] := by
  cases h with
  | refused _ hrest => simp [hrest]
  | unclosed _ _ hrest => simp [hrest]

end Cursor

/-! ## Texts that go on -/

/-- At the error a delimiter opens what goes on to the end of the text. Before it lie tokens, and
with the closing delimiter behind it the whole text is made of these and of the one that is closed
there. -/
def FinishedBy (text : String) (e : LexError) (opening : Char) (closing : String)
    (token : String → Token) : Prop :=
  ∃ before found body, text.toList = before ++ opening :: body ∧ e.offset = byteLength before ∧
    lexemes (String.ofList before) = .ok found ∧
    lexemes (text ++ closing) = .ok (found ++ [.ofToken (token (String.ofList body)) e.offset])

variable {text : String} {e : LexError}

theorem FinishedBy.exists_found {opening : Char} {closing : String} {token : String → Token}
    (h : FinishedBy text e opening closing token) :
    ∃ found, lexemes (text ++ closing) = .ok found := by
  obtain ⟨before, found, body, -, -, -, hread⟩ := h
  exact ⟨_, hread⟩

/-- A body that was never closed is a token once it is closed. -/
theorem Delimiters.OpenedBy.lexemes_closed {d : Delimiters} {opening : Char} {body : List Char}
    (hopened : d.OpenedBy opening) (hbody : ∀ c ∈ body, d.continues c = true) (offset : Nat) :
    Cursor.lexemes ⟨offset, .blocks, opening :: (body ++ [d.closing])⟩ =
      .ok [.ofToken (d.token (String.ofList body)) offset] := by
  have hveto : d.veto d.closing = none := by cases hopened <;> rfl
  have hbody' : ∀ c ∈ (String.ofList body).toList, d.continues c = true := by
    rwa [String.toList_ofList]
  have hread := Delimiters.read_closed hveto offset hbody' []
  rw [String.toList_ofList, ← Cursor.nextBlock_opened hopened] at hread
  have hnext : Cursor.next? ⟨offset, .blocks, opening :: (body ++ [d.closing])⟩ =
      some (Cursor.emit offset (d.token (String.ofList body)) .blocks []) := congrArg some hread
  rw [Cursor.lexemes_of_next? hnext, Cursor.lexemes_nil]
  rfl

/-- A text that is not made of tokens keeps its error whatever comes behind it, or it lacks the
closing delimiter of what it ends with. -/
theorem stays_or_finishedBy (h : lexemes text = .error e) :
    (e.fault.isUnclosed = false ∧ ∀ more, lexemes (text ++ more) = .error e) ∨
      (e.fault = .unterminatedLiteral ∧ FinishedBy text e '<' ">" .literal) ∨
      (e.fault = .unterminatedClass ∧ FinishedBy text e '[' "]" .flags) := by
  obtain ⟨tokens, rest, after, hwritten, hapart, htext, hfails⟩ := Cursor.exists_stop h
  -- the tokens before the error are read whatever comes behind the text
  have hmore : ∀ more : String, lexemes (text ++ more) =
      (lexemesAt 0 tokens ++ ·) <$>
        ((Cursor.start text.toList).behind tokens (rest ++ more.toList)).lexemes := by
    intro more
    have hlonger := Cursor.lexemes_append hwritten
      (hapart.append hfails.rest_ne_nil more.toList) 0
    rw [← List.append_assoc, ← htext] at hlonger
    rw [lexemes, String.toList_append]
    exact hlonger
  cases hfails with
  | @refused fault passed tail c hrest hclosed hc hstays =>
    refine .inl ⟨hclosed, fun more => ?_⟩
    obtain rfl : rest = passed ++ c :: tail := hrest
    have hstop := Cursor.lexemes_of_error (hstays (tail ++ more.toList))
    rw [hmore, List.append_assoc, List.cons_append]
    exact congrArg ((lexemesAt 0 tokens ++ ·) <$> ·) hstop
  | @unclosed d opening body hopened hmode hrest hbody =>
    obtain rfl : rest = opening :: body := hrest
    have hfinished : FinishedBy text
        ⟨d.unterminated, ((Cursor.start text.toList).behind tokens (opening :: body)).offset⟩
        opening (String.ofList [d.closing]) d.token := by
      refine ⟨_, lexemesAt 0 tokens, body, htext, Nat.zero_add _, ?_, ?_⟩
      · rw [lexemes, String.toList_ofList]
        exact Cursor.lexemes_written hwritten 0
      · have hclosed := hopened.lexemes_closed hbody
          ((Cursor.start text.toList).behind tokens (opening :: body)).offset
        rw [← hmode] at hclosed
        rw [hmore, String.toList_ofList, List.cons_append]
        exact congrArg ((lexemesAt 0 tokens ++ ·) <$> ·) hclosed
    right
    cases hopened with
    | angles => exact .inl ⟨rfl, hfinished⟩
    | brackets => exact .inr ⟨rfl, hfinished⟩

/-- **What more text can repair.** A text that is not made of tokens is the beginning of one that
is exactly if what it lacks is the closing delimiter of a literal or of a character class. Then
this delimiter is all that is missing, and what lies before the opening one is made of tokens. With
any other error the text keeps this very error, whatever comes behind it. -/
theorem unfinished_iff (h : lexemes text = .error e) :
    ((∃ more found, lexemes (text ++ more) = .ok found) ↔
      e.fault = .unterminatedLiteral ∨ e.fault = .unterminatedClass) ∧
    (e.fault = .unterminatedLiteral → FinishedBy text e '<' ">" .literal) ∧
    (e.fault = .unterminatedClass → FinishedBy text e '[' "]" .flags) ∧
    (e.fault ≠ .unterminatedLiteral → e.fault ≠ .unterminatedClass →
      ∀ more, lexemes (text ++ more) = .error e) := by
  rcases stays_or_finishedBy h with ⟨hclosed, hstays⟩ | ⟨hfault, hfinished⟩ | ⟨hfault, hfinished⟩
  · have hliteral : e.fault ≠ .unterminatedLiteral := by
      intro hfault
      simp [hfault, LexFault.isUnclosed] at hclosed
    have hclass : e.fault ≠ .unterminatedClass := by
      intro hfault
      simp [hfault, LexFault.isUnclosed] at hclosed
    refine ⟨⟨?_, ?_⟩, fun hfault => absurd hfault hliteral, fun hfault => absurd hfault hclass,
      fun _ _ => hstays⟩
    · rintro ⟨more, found, hfound⟩
      rw [hstays more] at hfound
      cases hfound
    · rintro (hfault | hfault)
      · exact absurd hfault hliteral
      · exact absurd hfault hclass
  · refine ⟨⟨fun _ => .inl hfault, fun _ => ⟨_, hfinished.exists_found⟩⟩, fun _ => hfinished,
      fun hclass => ?_, fun hliteral => absurd hfault hliteral⟩
    rw [hfault] at hclass
    cases hclass
  · refine ⟨⟨fun _ => .inr hfault, fun _ => ⟨_, hfinished.exists_found⟩⟩, fun hliteral => ?_,
      fun _ => hfinished, fun _ hclass => absurd hfault hclass⟩
    rw [hfault] at hliteral
    cases hliteral

/-- A character class that is opened behind a literal, at the fifth byte, can be closed. -/
theorem unfinished_iff_accented :
    lexemes "<é>[é" = .error ⟨.unterminatedClass, 4⟩ ∧
      (∃ more found, lexemes ("<é>[é" ++ more) = .ok found) ∧
      FinishedBy "<é>[é" ⟨.unterminatedClass, 4⟩ '[' "]" .flags := by
  have herror : lexemes "<é>[é" = .error ⟨.unterminatedClass, 4⟩ := by
    rw [lexemes, Cursor.lexemes_of_next? rfl, Cursor.lexemes_of_error rfl]
    rfl
  obtain ⟨hiff, -, hclass, -⟩ := unfinished_iff herror
  exact ⟨herror, hiff.2 (.inr rfl), hclass rfl⟩

end Moniker.Pattern
