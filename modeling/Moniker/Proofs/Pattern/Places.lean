import Mathlib.Data.List.Induction
import Moniker.Proofs.Pattern.Lexemes
import Moniker.Proofs.Text.Tiling

/-!
# Which tokens a text is made of

The lexemes of a text are told here by what can be seen of them afterwards, without a cursor and
without modes: written one behind the other their tokens are the text, their stretches stand side
by side, and a token of a repeat count stands exactly where a parenthesis is open.

* `Unclosed` — after some tokens a parenthesis is open;
* `InPlace` — all tokens stand where they may;
* `written_iff_inPlace` — those are the tokens that may stand in a row;
* `lexemes_iff_inPlace` — the lexemes of a text are exactly the ones of this kind.
-/

namespace Moniker.Pattern

open Text (Span Tile byteLength)

/-! ## Places -/

/-- Whether a token belongs to a repeat count that has been opened before. -/
def Token.inCount : Token → Bool
  | closeParen | comma | number _ => true
  | _ => false

/-- What stands between the delimiters does not end there too early, and digits are digits. -/
def Token.Allowed : Token → Prop
  | literal text => ∀ c ∈ text.toList, c ∉ ['<', '>', '{', '}']
  | flags text => ∀ c ∈ text.toList, c ∉ ['[', ']']
  | number digits => digits.toList ≠ [] ∧ ∀ c ∈ digits.toList, c.isDigit = true
  | _ => True

/-- After the tokens a parenthesis is open: none has been closed since it was opened. Whether it
is closed later does not matter. -/
def Unclosed (tokens : List Token) : Prop :=
  ∃ before since, tokens = before ++ .openParen :: since ∧ .closeParen ∉ since

/-- The tokens stand where they may. -/
structure InPlace (tokens : List Token) : Prop where
  /-- the tokens of a repeat count stand where a parenthesis is open, and no others do -/
  inCount_iff : ∀ before token after, tokens = before ++ token :: after →
    (token.inCount = true ↔ Unclosed before)
  /-- two runs of digits never meet -/
  apart : ∀ before token next after, tokens = before ++ token :: next :: after →
    ¬ (token.isNumber = true ∧ next.isNumber = true)

/-! ## Modes -/

/-- The kind of place behind a token. -/
def Mode.after (mode : Mode) : Token → Mode
  | .openParen => .quantifier
  | .closeParen => .blocks
  | _ => mode

/-- A token may stand at a place if it is allowed and the place is of its kind. -/
theorem Mode.takes_iff {mode next : Mode} {token : Token} :
    mode.Takes token next ↔
      token.Allowed ∧ (token.inCount = true ↔ mode = .quantifier) ∧ mode.after token = next := by
  constructor
  · intro h
    cases h with
    | openBrace | closeBrace | openParen => exact ⟨trivial, by simp [Token.inCount], rfl⟩
    | literal h | flags h => exact ⟨h, by simp [Token.inCount], rfl⟩
    | comma | closeParen => exact ⟨trivial, by simp [Token.inCount], rfl⟩
    | number hne h => exact ⟨⟨hne, h⟩, by simp [Token.inCount], rfl⟩
  · rintro ⟨hallowed, hplace, rfl⟩
    cases mode <;> cases token <;> simp [Token.inCount] at hplace
    case blocks.openBrace => exact .openBrace
    case blocks.closeBrace => exact .closeBrace
    case blocks.openParen => exact .openParen
    case blocks.literal => exact .literal hallowed
    case blocks.flags => exact .flags hallowed
    case quantifier.closeParen => exact .closeParen
    case quantifier.comma => exact .comma
    case quantifier.number => exact .number hallowed.1 hallowed.2

/-- One token more opens a parenthesis, or leaves open the one that was. -/
theorem unclosed_concat {tokens : List Token} {token : Token} :
    Unclosed (tokens ++ [token]) ↔
      token = .openParen ∨ token ≠ .closeParen ∧ Unclosed tokens := by
  constructor
  · rintro ⟨before, since, htokens, hsince⟩
    rcases List.eq_nil_or_concat since with rfl | ⟨since, last, rfl⟩
    · exact .inl (List.singleton_inj.1 (List.append_inj' htokens rfl).2)
    · rw [List.concat_eq_append] at htokens hsince
      rw [← List.cons_append, ← List.append_assoc] at htokens
      obtain ⟨rfl, hlast⟩ := List.append_inj' htokens rfl
      obtain rfl := List.singleton_inj.1 hlast
      rw [List.mem_append, List.mem_singleton, not_or] at hsince
      exact .inr ⟨Ne.symm hsince.2, before, since, rfl, hsince.1⟩
  · rintro (rfl | ⟨hclose, before, since, rfl, hsince⟩)
    · exact ⟨tokens, [], rfl, List.not_mem_nil⟩
    · refine ⟨before, since ++ [token], by simp, ?_⟩
      simpa [hsince] using Ne.symm hclose

/-- From the beginning on, the place behind some tokens is inside a count if a parenthesis is open
there. -/
theorem foldl_after_eq_iff {tokens : List Token} :
    tokens.foldl Mode.after .blocks = .quantifier ↔ Unclosed tokens := by
  induction tokens using List.reverseRecOn with
  | nil => simp [Unclosed]
  | append_singleton tokens token ih =>
    rw [List.foldl_concat, unclosed_concat, ← ih]
    cases token <;> simp [Mode.after]

/-! ## Tokens in a row -/

/-- What holds of every place of a list holds of the first and of every later one. -/
theorem forall_places_cons {α : Type} {P : List α → α → List α → Prop} {a : α} {as : List α} :
    (∀ before x after, a :: as = before ++ x :: after → P before x after) ↔
      P [] a as ∧ ∀ before x after, as = before ++ x :: after → P (a :: before) x after := by
  constructor
  · intro h
    refine ⟨h [] a as rfl, fun before x after has => h (a :: before) x after ?_⟩
    rw [has, List.cons_append]
  · rintro ⟨hfirst, hlater⟩ (_ | ⟨b, before⟩) x after has
    · obtain ⟨rfl, rfl⟩ := List.cons.inj has
      exact hfirst
    · obtain ⟨rfl, hrest⟩ := List.cons.inj has
      exact hlater before x after hrest

theorem written_cons_iff {mode : Mode} {token : Token} {tokens : List Token} :
    Written mode (token :: tokens) ↔
      token.Allowed ∧ (token.inCount = true ↔ mode = .quantifier) ∧
        (token.isNumber = true → ∀ later ∈ tokens.head?, later.isNumber = false) ∧
        Written (mode.after token) tokens := by
  constructor
  · rintro (_ | ⟨htakes, hends, hwritten⟩)
    obtain ⟨hallowed, hplace, rfl⟩ := Mode.takes_iff.1 htakes
    exact ⟨hallowed, hplace, hends, hwritten⟩
  · rintro ⟨hallowed, hplace, hends, hwritten⟩
    exact .cons (Mode.takes_iff.2 ⟨hallowed, hplace, rfl⟩) hends hwritten

/-- Which tokens may stand in a row, told place by place. -/
theorem written_iff {mode : Mode} {tokens : List Token} :
    Written mode tokens ↔ ∀ before token after, tokens = before ++ token :: after →
      token.Allowed ∧ (token.inCount = true ↔ before.foldl Mode.after mode = .quantifier) ∧
        (token.isNumber = true → ∀ later ∈ after.head?, later.isNumber = false) := by
  induction tokens generalizing mode with
  | nil => simp [Written.nil]
  | cons token tokens ih =>
    rw [written_cons_iff, forall_places_cons, ih]
    simp only [List.foldl_cons, List.foldl_nil, and_assoc]

/-- The tokens that may stand in a row from the beginning on are those that are allowed and stand
where they may. -/
theorem written_iff_inPlace {tokens : List Token} :
    Written .blocks tokens ↔ (∀ token ∈ tokens, token.Allowed) ∧ InPlace tokens := by
  rw [written_iff]
  simp only [foldl_after_eq_iff]
  constructor
  · intro h
    refine ⟨fun token hmem => ?_, fun before token after htokens => ?_,
      fun before token next after htokens => ?_⟩
    · obtain ⟨before, after, htokens⟩ := List.append_of_mem hmem
      exact (h before token after htokens).1
    · exact (h before token after htokens).2.1
    · rintro ⟨htoken, hnext⟩
      simp [(h before token (next :: after) htokens).2.2 htoken next rfl] at hnext
  · rintro ⟨hallowed, hplace, hapart⟩ before token after htokens
    refine ⟨hallowed token (by simp [htokens]), hplace before token after htokens, ?_⟩
    intro htoken later hlater
    obtain ⟨rest, rfl⟩ := List.head?_eq_some_iff.1 hlater
    exact Bool.eq_false_iff.2 fun hnext => hapart before token later rest htokens ⟨htoken, hnext⟩

/-! ## Stretches -/

/-- Lexemes are written one behind the other if their stretches are side by side and each is as
long as its token. -/
theorem eq_lexemesAt_iff {offset : Nat} {found : List Lexeme} :
    lexemesAt offset (found.map Lexeme.token) = found ↔
      Tile offset (found.map Lexeme.span)
          (offset + byteLength (found.flatMap (·.token.source))) ∧
        ∀ lexeme ∈ found,
          lexeme.span.stop = lexeme.span.start + byteLength lexeme.token.source := by
  induction found generalizing offset with
  | nil => simp [lexemesAt]
  | cons lexeme found ih =>
    obtain ⟨token, start, stop⟩ := lexeme
    simp only [List.map_cons, lexemesAt, List.cons.injEq, Lexeme.ofToken, Lexeme.mk.injEq,
      Span.mk.injEq, true_and, Text.tile_cons, List.flatMap_cons, Text.byteLength_append,
      List.forall_mem_cons]
    constructor
    · rintro ⟨⟨rfl, rfl⟩, hfound⟩
      obtain ⟨htile, hlength⟩ := ih.1 hfound
      refine ⟨⟨rfl, Nat.le_add_right _ _, ?_⟩, rfl, hlength⟩
      rwa [← Nat.add_assoc]
    · rintro ⟨⟨rfl, -, htile⟩, rfl, hlength⟩
      rw [← Nat.add_assoc] at htile
      exact ⟨⟨rfl, rfl⟩, ih.2 ⟨htile, hlength⟩⟩

/-- The lexemes of a text, told without naming their tokens apart. -/
theorem lexemes_eq_ok_iff_written {text : String} {found : List Lexeme} :
    lexemes text = .ok found ↔
      Written .blocks (found.map Lexeme.token) ∧
        found.flatMap (·.token.source) = text.toList ∧
        lexemesAt 0 (found.map Lexeme.token) = found := by
  have hsource : (found.map Lexeme.token).flatMap Token.source =
      found.flatMap (·.token.source) := List.flatMap_map ..
  rw [lexemes_eq_ok_iff, ← hsource]
  constructor
  · rintro ⟨tokens, hwritten, htext, rfl⟩
    rw [map_token_lexemesAt]
    exact ⟨hwritten, htext, rfl⟩
  · rintro ⟨hwritten, htext, hfound⟩
    exact ⟨_, hwritten, htext, hfound⟩

/-- **Reading undoes writing.** The lexemes of a text are exactly those whose tokens, written one
behind the other, are the text, whose stretches stand side by side from its beginning to its end,
each as long as its token, and whose tokens are allowed and stand where they may. -/
theorem lexemes_iff_inPlace (text : String) (found : List Lexeme) :
    lexemes text = .ok found ↔
      found.flatMap (·.token.source) = text.toList ∧
      Tile 0 (found.map Lexeme.span) (byteLength text.toList) ∧
      (∀ lexeme ∈ found,
        lexeme.span.stop = lexeme.span.start + byteLength lexeme.token.source) ∧
      (∀ lexeme ∈ found, lexeme.token.Allowed) ∧
      InPlace (found.map Lexeme.token) := by
  rw [lexemes_eq_ok_iff_written, written_iff_inPlace, eq_lexemesAt_iff, Nat.zero_add,
    List.forall_mem_map]
  constructor
  · rintro ⟨⟨hallowed, hplace⟩, htext, htile, hlength⟩
    exact ⟨htext, htext ▸ htile, hlength, hallowed, hplace⟩
  · rintro ⟨htext, htile, hlength, hallowed, hplace⟩
    exact ⟨⟨hallowed, hplace⟩, htext, htext ▸ htile, hlength⟩

end Moniker.Pattern
