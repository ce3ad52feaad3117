import Moniker.Proofs.Pattern.Refusal
import Moniker.Proofs.Pattern.Unfinished

/-!
# Faults that stay

Lexemes are taken in from left to right, so a fault that is found at one of them does not depend on
what stands behind it. It stays when the text goes on. Only two things have to be seen to: the last
token may become longer if it is a number, and what comes behind may not be made of tokens.

* `written_concat_iff` — which token may stand behind some that stand in a row;
* `Written.exists_grown` — a text that goes on begins with the same tokens, the last one grown;
* `byteLength_le_of_lexemes` — so it is refused behind these, if it is not made of tokens;
* `StopsAt.append` — otherwise reading it stops where it stopped before;
* `final_of_error` — which faults stay, whatever comes behind.
-/

namespace Moniker.Pattern

open Text (byteLength)

/-! ## Tokens of a text that goes on -/

variable {mode : Mode} {tokens : List Token} {token : Token}

/-- Which token may stand behind some that stand in a row. -/
theorem written_concat_iff :
    Written mode (tokens ++ [token]) ↔
      Written mode tokens ∧ token.Allowed ∧
        (token.inCount = true ↔ tokens.foldl Mode.after mode = .quantifier) ∧
        (token.isNumber = true → ∀ last ∈ tokens.getLast?, last.isNumber = false) := by
  induction tokens generalizing mode with
  | nil => simp [written_cons_iff, Written.nil]
  | cons first tokens ih =>
    rw [List.cons_append, written_cons_iff, ih, written_cons_iff, List.foldl_cons]
    cases tokens with
    | nil =>
      -- that two numbers do not meet is said from both sides
      have hswap : (first.isNumber = true → token.isNumber = false) ↔
          (token.isNumber = true → first.isNumber = false) := by
        cases first.isNumber <;> cases token.isNumber <;> simp
      simp [Written.nil, hswap, and_assoc, and_comm, and_left_comm]
    | cons second tokens =>
      simp only [List.cons_append, List.head?_cons, List.getLast?_cons_cons, and_assoc]

/-- The first of tokens that stand in a row stand in a row. -/
theorem Written.of_append {later : List Token} (h : Written mode (tokens ++ later)) :
    Written mode tokens := by
  induction later using List.reverseRecOn with
  | nil => rwa [List.append_nil] at h
  | append_singleton later last ih =>
    rw [← List.append_assoc] at h
    exact ih (written_concat_iff.1 h).1

/-- A text that goes on begins with the same tokens, but for digits that the last one gets. -/
theorem Written.exists_grown (h : Written mode tokens) (more : List Char) :
    ∃ grown rest, Written mode grown ∧ Apart grown rest ∧
      tokens.flatMap Token.source ++ more = grown.flatMap Token.source ++ rest ∧
      byteLength (tokens.flatMap Token.source) ≤ byteLength (grown.flatMap Token.source) := by
  by_cases hlast : Apart tokens more
  · exact ⟨tokens, more, h, hlast, rfl, Nat.le_refl _⟩
  -- otherwise the last token is a number
  · rcases List.eq_nil_or_concat tokens with rfl | ⟨front, last, rfl⟩
    · exact absurd (by simp [Apart]) hlast
    rw [List.concat_eq_append] at h hlast ⊢
    cases last with
    | number digits =>
      obtain ⟨hfront, ⟨hne, hdigits⟩, hcount, hends⟩ := written_concat_iff.1 h
      refine ⟨front ++ [.number (String.ofList (digits.toList ++ more.takeWhile Char.isDigit))],
        more.dropWhile Char.isDigit, ?_, ?_, ?_, ?_⟩
      · refine written_concat_iff.2 ⟨hfront, ⟨?_, ?_⟩, hcount, hends⟩
        · simp [hne]
        · intro c hc
          rw [String.toList_ofList, List.mem_append] at hc
          exact hc.elim (hdigits c) List.mem_takeWhile_imp
      · have hhead := List.head?_dropWhile_not Char.isDigit more
        intro _ _ _ c hc
        rw [Option.mem_def] at hc
        rw [hc] at hhead
        exact hhead
      · simp [Token.source, List.takeWhile_append_dropWhile]
      · simp [Token.source, Text.byteLength_append]
    | _ => exact absurd (by simp [Apart, Token.isNumber]) hlast

/-- An error is found at the cursor or behind it. -/
theorem Cursor.offset_le_of_lexemes {cursor : Cursor} {e : LexError}
    (h : cursor.lexemes = .error e) : cursor.offset ≤ e.offset := by
  obtain ⟨tokens, rest, after, -, -, -, hfails⟩ := exists_stop h
  have hbehind : cursor.offset ≤ (cursor.behind tokens rest).offset := Nat.le_add_right _ _
  obtain ⟨passed, -, hpassed, hoffset | hoffset⟩ := hfails.exists_passed <;> omega

variable {text more : String}

/-- A text that is made of tokens, and is not any longer when it goes on, is refused behind its
end. -/
theorem byteLength_le_of_lexemes {found : List Lexeme} {e : LexError}
    (h : lexemes text = .ok found) (herror : lexemes (text ++ more) = .error e) :
    byteLength text.toList ≤ e.offset := by
  obtain ⟨tokens, hwritten, htext, -⟩ := lexemes_eq_ok_iff.1 h
  obtain ⟨grown, rest, hgrown, hapart, hmore, hle⟩ := hwritten.exists_grown more.toList
  have hread := Cursor.lexemes_append hgrown hapart 0
  rw [← hmore, htext, ← String.toList_append] at hread
  rw [lexemes, Cursor.start, hread] at herror
  have hoffset := Cursor.offset_le_of_lexemes (map_eq_error_iff.1 herror)
  rw [htext] at hle
  rw [Cursor.behind] at hoffset
  dsimp only at hoffset
  omega

/-! ## Reading a text that goes on -/

variable {fault : Fault} {before later all : List Lexeme} {found : Lexeme} {a : Assembly}

theorem length_lexemesAt (offset : Nat) (tokens : List Token) :
    (lexemesAt offset tokens).length = tokens.length := by
  rw [← List.length_map Lexeme.token, map_token_lexemesAt]

/-- What stands in front of lexemes written one behind the other is written so too. -/
theorem lexemesAt_map_of_append {offset : Nat} {front : List Lexeme}
    (h : lexemesAt offset ((front ++ later).map Lexeme.token) = front ++ later) :
    lexemesAt offset (front.map Lexeme.token) = front := by
  rw [List.map_append, lexemesAt_append] at h
  exact (List.append_inj h (by rw [length_lexemesAt, List.length_map])).1

namespace StopsAt

theorem ofText?_eq (h : StopsAt text fault before found later a) : ofText? text = .error fault :=
  ofText?_eq_error_iff.2 (.inr (.inl ⟨before, found, later, a, h⟩))

/-- Reading stops at the same lexeme when the text goes on, if this is no number, which might be
the last one and go on as well. -/
theorem append (h : StopsAt text fault before found later a)
    (hnumber : found.token.isNumber = false) (hall : lexemes (text ++ more) = .ok all) :
    ∃ later', StopsAt (text ++ more) fault before found later' a := by
  obtain ⟨hwritten, htext, hplaces⟩ := lexemes_eq_ok_iff_written.1 h.lexemes_eq
  rw [List.append_cons] at hwritten htext hplaces
  rw [List.map_append] at hwritten
  have hapart : Apart ((before ++ [found]).map Lexeme.token)
      (later.flatMap (·.token.source) ++ more.toList) := by
    intro last hlast hdigit
    rw [List.map_append, List.map_singleton, List.getLast?_concat] at hlast
    obtain rfl := Option.some.inj hlast
    rw [hnumber] at hdigit
    cases hdigit
  -- the lexemes up to the refused one are read in front of any text
  have hread := Cursor.lexemes_append hwritten.of_append hapart 0
  rw [lexemesAt_map_of_append hplaces, List.flatMap_map, ← List.append_assoc,
    ← List.flatMap_append, htext, ← String.toList_append] at hread
  rw [lexemes, Cursor.start, hread] at hall
  obtain ⟨later', -, rfl⟩ := map_eq_ok_iff.1 hall
  refine ⟨later', ?_, h.run_eq, h.step_eq⟩
  rw [lexemes, Cursor.start, hread, hall, ← List.append_cons]

end StopsAt

/-- **Faults that stay.** An empty or second group and a token that is not expected are found from
left to right. Such a fault of a text is that of every longer text, with its place and its wording,
as far as the longer text is made of tokens. If it is not, what is wrong with it stands behind all
of the shorter one. -/
theorem final_of_error (h : ofText? text = .error fault) (hmidway : fault.kind.isMidway = true)
    (more : String) :
    (∀ all, lexemes (text ++ more) = .ok all → ofText? (text ++ more) = .error fault) ∧
    ∀ e, lexemes (text ++ more) = .error e →
      ofText? (text ++ more) = .error (.lexical e) ∧ byteLength text.toList ≤ e.offset := by
  obtain ⟨before, found, later, a, hstops⟩ := exists_stopsAt h hmidway
  refine ⟨?_, ?_⟩
  · intro all hall
    obtain ⟨later', hlonger⟩ := hstops.append (hstops.isNumber_of_isMidway hmidway) hall
    exact hlonger.ofText?_eq
  · intro e herror
    refine ⟨ofText?_eq_error_iff.2 (.inl ⟨e, herror, rfl⟩), ?_⟩
    exact byteLength_le_of_lexemes hstops.lexemes_eq herror

/-- The second comma of a count stays what is wrong, also when the number behind it goes on and a
group is closed that was never opened. A space behind the number is reported in its place. -/
theorem final_of_error_grown :
    ofText? "[1000](1,2,3" = .error (.expectedParen ⟨.comma, ⟨10, 11⟩⟩) ∧
      ofText? ("[1000](1,2,3" ++ "4)\x7d") = .error (.expectedParen ⟨.comma, ⟨10, 11⟩⟩) ∧
      ofText? ("[1000](1,2,3" ++ " )") = .error (.lexical ⟨.unexpected ' ', 12⟩) := by
  have herror : ofText? "[1000](1,2,3" = .error (.expectedParen ⟨.comma, ⟨10, 11⟩⟩) := by
    have hread : lexemes "[1000](1,2,3" = .ok (lexemesAt 0 [.flags "1000", .openParen,
      .number "1", .comma, .number "2", .comma, .number "3"]) := by decide +kernel
    rw [ofText?, hread]
    rfl
  have hread : lexemes ("[1000](1,2,3" ++ "4)\x7d") = .ok (lexemesAt 0 [.flags "1000", .openParen,
    .number "1", .comma, .number "2", .comma, .number "34", .closeParen, .closeBrace]) := by
      decide +kernel
  have hspace : lexemes ("[1000](1,2,3" ++ " )") = .error ⟨.unexpected ' ', 12⟩ := by
    decide +kernel
  refine ⟨herror, (final_of_error herror rfl _).1 _ hread, ?_⟩
  exact ((final_of_error herror rfl _).2 _ hspace).1

end Moniker.Pattern
