import Moniker.Proofs.Pattern.Parsing

/-!
# Derivations of composed texts

What stands inside of braces, or in front of another text, may be any text at all, so its braces
may pair with those around it. Still there is only one way to derive such a text, which shows at
its ends.

* `Written.exists_append` — tokens are read in the same way whatever text follows them, unless this
  goes on with digits;
* `Level.exists_head?`, `Level.exists_getLast?` — a text begins and ends with delimiters;
* `Level.text_eq_braced_iff` — a text in braces is derived as a group;
* `Level.text_eq_counted_iff` — and with a count behind it as a group with that count, because any
  other way would need two groups at one level;
* `Level.text_eq_append_iff` — a text that goes on behind a row is derived as a longer row.
-/

namespace Moniker

namespace Pattern

/-! ## Tokens of a longer text -/

/-- Tokens are read in the same way whatever follows, if it does not go on with their digits. -/
theorem Written.exists_append {mode : Mode} {tokens all : List Token} {rest : List Char}
    (h : Written mode tokens) (hrest : Apart tokens rest)
    (hall : Written mode all)
    (htext : all.flatMap Token.source = tokens.flatMap Token.source ++ rest) :
    ∃ later, all = tokens ++ later ∧ later.flatMap Token.source = rest := by
  induction h generalizing all with
  | nil => exact ⟨all, rfl, htext⟩
  | @cons mode next token tokens htakes hends hwritten ih =>
    obtain ⟨c, cs, hsource, -⟩ := htakes.exists_source
    cases hall with
    | nil => simp [hsource] at htext
    | @cons _ next' token' all htakes' hends' hwritten' =>
      rw [List.flatMap_cons, List.flatMap_cons, List.append_assoc] at htext
      have hread := Cursor.next?_token htakes 0 (hrest.digit_ahead hwritten hends)
      have hread' := Cursor.next?_token htakes' 0
        fun hnumber => hwritten'.digit_ahead_iff.2 (hends' hnumber)
      rw [htext, hread] at hread'
      obtain ⟨hlexeme, hafter⟩ := Prod.mk.inj (Option.some.inj hread')
      obtain rfl : token = token' := congrArg Lexeme.token (Except.ok.inj hlexeme)
      obtain ⟨-, rfl, hlater⟩ := Cursor.mk.inj hafter
      obtain ⟨later, rfl, hsource⟩ := ih hrest.tail hwritten' hlater.symm
      exact ⟨later, rfl, hsource⟩

end Pattern

namespace Grammar

open Pattern (Token Written)
open Text (byteLength)

/-! ## Rows -/

theorem rowText_append (members later : List Member) :
    rowText (members ++ later) = rowText members ++ rowText later := by
  induction members with
  | nil => rfl
  | cons member members ih => rw [List.cons_append, rowText, rowText, ih, List.append_assoc]

theorem rowTokens_append (members later : List Member) :
    rowTokens (members ++ later) = rowTokens members ++ rowTokens later := by
  induction members with
  | nil => rfl
  | cons member members ih => rw [List.cons_append, rowTokens, rowTokens, ih, List.append_assoc]

theorem rowAt_append (offset : Nat) (members later : List Member) :
    rowAt offset (members ++ later) =
      rowAt offset members ++ rowAt (offset + byteLength (rowText members)) later := by
  induction members generalizing offset with
  | nil => rfl
  | cons member members ih =>
    rw [List.cons_append, rowAt, rowAt, ih, rowText, Text.byteLength_append, ← Nat.add_assoc,
      List.cons_append]

theorem rowProper_append {members later : List Member} :
    RowProper (members ++ later) ↔ RowProper members ∧ RowProper later := by
  induction members with
  | nil => exact (and_iff_right trivial).symm
  | cons member members ih => rw [List.cons_append, RowProper, RowProper, ih, and_assoc]

/-! ## The ends of a text -/

variable {p rest : List Char} {first : Member} {others : List Member} {level : Level}

theorem getLast?_delimited (opening closing : Char) (body : List Char) :
    (opening :: (body ++ [closing])).getLast? = some closing :=
  List.getLast?_concat (l := opening :: body)

theorem Block.head?_text (block : Block) :
    block.text.head? = some (if block.isGroup then '{' else '[') := by
  cases block <;> rfl

theorem Block.getLast?_text (block : Block) :
    block.text.getLast? = some (if block.isGroup then '}' else ']') := by
  cases block with
  | charClass flags => exact getLast?_delimited '[' ']' _
  | group body => exact getLast?_delimited '{' '}' _

/-- The only parenthesis that a count opens is its first character. -/
theorem Count.exists_text (count : Count) :
    ∃ inner, count.text = '(' :: (inner ++ [')']) ∧ '(' ∉ inner := by
  have hdigits : ∀ n : Number, '(' ∉ n.digits.toList := fun n hmem =>
    absurd (n.isDigit '(' hmem) (by decide)
  cases count with
  | exactly n => exact ⟨n.digits.toList, rfl, hdigits n⟩
  | between min max =>
    refine ⟨min.digits.toList ++ ',' :: max.digits.toList, ?_, ?_⟩
    · simp [text]
    · simp [hdigits]

theorem Count.getLast?_text (count : Count) : count.text.getLast? = some ')' := by
  obtain ⟨inner, htext, -⟩ := count.exists_text
  rw [htext, getLast?_delimited]

/-- No member ends with a brace, for a group in a row has a count. -/
theorem Member.getLast?_text (member : Member) :
    member.text.getLast? = some '>' ∨ member.text.getLast? = some ')' := by
  cases member with
  | literal literal => exact .inl (getLast?_delimited '<' '>' _)
  | counted block count =>
    right
    rw [Member.text, List.getLast?_append, count.getLast?_text, Option.some_or]

/-- A member that begins with a brace is a group. -/
theorem Member.isGroup_of_head? {member : Member} (h : member.text.head? = some '{') :
    member.isGroup = true := by
  cases member with
  | literal literal => simp [Member.text] at h
  | counted block count =>
    rw [Member.text, List.head?_append, block.head?_text, Option.some_or, Option.some_inj] at h
    by_contra hblock
    rw [Member.isGroup] at hblock
    simp [hblock] at h

theorem Member.text_ne_nil (member : Member) : member.text ≠ [] := by
  intro hnil
  rcases member.getLast?_text with hend | hend <;> simp [hnil] at hend

theorem Count.text_inj {count count' : Count} (h : count.text = count'.text) : count = count' := by
  have htokens : count.tokens ++ [] = count'.tokens ++ [] := by
    refine (count.written .nil).unique (count'.written .nil) ?_
    rw [List.append_nil, List.append_nil, count.source_tokens, count'.source_tokens, h]
  exact (Count.unique htokens).1

/-- A list is split in one way at the last place of an element. -/
theorem append_cons_inj_of_notMem {α : Type} {x y later later' : List α} {a : α}
    (h : x ++ a :: later = y ++ a :: later') (hlater : a ∉ later) (hlater' : a ∉ later') :
    x = y ∧ later = later' := by
  obtain ⟨gap, rfl, hgap⟩ | ⟨gap, rfl, hgap⟩ := List.append_eq_append_iff.1 h
  all_goals
    cases gap with
    | nil => exact ⟨by rw [List.append_nil], by simpa [eq_comm] using hgap⟩
    | cons b gap => simp_all

/-- A count at the end of a text is known by where its parenthesis opens. -/
theorem Count.append_text_inj {x y : List Char} {count count' : Count}
    (h : x ++ count.text = y ++ count'.text) : x = y ∧ count = count' := by
  obtain ⟨inner, htext, hinner⟩ := count.exists_text
  obtain ⟨inner', htext', hinner'⟩ := count'.exists_text
  rw [htext, htext'] at h
  obtain ⟨rfl, hend⟩ := append_cons_inj_of_notMem h (by simpa using hinner) (by simpa using hinner')
  exact ⟨rfl, Count.text_inj (by rw [htext, htext', hend])⟩

/-- A member behind which a count ends is a block with this count. -/
theorem Member.exists_block_of_text {x y : List Char} {member : Member} {count : Count}
    (h : x ++ member.text = y ++ count.text) :
    ∃ block, member = .counted block count ∧ x ++ block.text = y := by
  cases member with
  | literal literal =>
    have hlast := congrArg List.getLast? h
    rw [List.getLast?_append, List.getLast?_append, count.getLast?_text, Member.text,
      getLast?_delimited] at hlast
    simp at hlast
  | counted block count' =>
    rw [Member.text, ← List.append_assoc] at h
    obtain ⟨hblock, rfl⟩ := Count.append_text_inj h
    exact ⟨block, rfl, hblock⟩

/-- A row has a last member. -/
theorem Level.exists_last (first : Member) (others : List Member) :
    ∃ init last, first :: others = init ++ [last] ∧
      (Level.row first others).text = rowText init ++ last.text ∧
      (Level.row first others).tokens = rowTokens init ++ last.tokens := by
  obtain hnil | ⟨init, last, hrow⟩ := List.eq_nil_or_concat' (first :: others)
  · exact absurd hnil (List.cons_ne_nil _ _)
  · refine ⟨init, last, hrow, ?_, ?_⟩
    · rw [Level.text, ← rowText, hrow, rowText_append, rowText, rowText, List.append_nil]
    · rw [Level.tokens, ← rowTokens, hrow, rowTokens_append, rowTokens, rowTokens, List.append_nil]

/-- A text begins with an opening delimiter. -/
theorem Member.exists_head? (member : Member) :
    ∃ c ∈ ['{', '[', '<'], member.text.head? = some c := by
  cases member with
  | literal literal => exact ⟨'<', by simp, rfl⟩
  | counted block count =>
    refine ⟨_, ?_, by rw [Member.text, List.head?_append, block.head?_text, Option.some_or]⟩
    split <;> simp

theorem Level.exists_head? (level : Level) : ∃ c ∈ ['{', '[', '<'], level.text.head? = some c := by
  cases level with
  | bare block =>
    refine ⟨_, ?_, block.head?_text⟩
    split <;> simp
  | row first others =>
    obtain ⟨c, hc, hhead⟩ := first.exists_head?
    exact ⟨c, hc, by rw [Level.text, List.head?_append, hhead, Option.some_or]⟩

/-- It ends with a closing one. -/
theorem Level.exists_getLast? (level : Level) :
    ∃ c ∈ ['}', ']', '>', ')'], level.text.getLast? = some c := by
  cases level with
  | bare block =>
    refine ⟨_, ?_, block.getLast?_text⟩
    split <;> simp
  | row first others =>
    obtain ⟨init, last, -, htext, -⟩ := Level.exists_last first others
    rw [htext, List.getLast?_append]
    rcases last.getLast?_text with hlast | hlast
    · exact ⟨'>', by simp, by rw [hlast, Option.some_or]⟩
    · exact ⟨')', by simp, by rw [hlast, Option.some_or]⟩

/-! ## Braces -/

/-- A text in braces is derived as a group without a count. -/
theorem Level.text_eq_braced_iff :
    level.text = '{' :: (p ++ ['}']) ↔ ∃ body, level = .bare (.group body) ∧ body.text = p := by
  constructor
  · intro h
    match level with
    | .bare (.charClass flags) => simp [Level.text, Block.text] at h
    | .bare (.group body) => exact ⟨body, rfl, by simpa [Level.text, Block.text] using h⟩
    | .row first others =>
      obtain ⟨init, last, -, htext, -⟩ := Level.exists_last first others
      have hlast := congrArg List.getLast? (htext.symm.trans h)
      rw [List.getLast?_append, getLast?_delimited] at hlast
      rcases last.getLast?_text with hend | hend <;> simp [hend] at hlast
  · rintro ⟨body, rfl, rfl⟩
    rfl

/-- Members before a block that fill a pair of braces with it are two groups at one level, unless
there are none. -/
theorem eq_nil_of_text_eq_braced {init : List Member} {block : Block} {count : Count}
    (hgroups : (init ++ [Member.counted block count]).countP Member.isGroup ≤ 1)
    (h : rowText init ++ block.text = '{' :: (p ++ ['}'])) :
    init = [] ∧ ∃ body, block = .group body ∧ body.text = p := by
  have hblock : block.isGroup = true := by
    have hlast := congrArg List.getLast? h
    rw [List.getLast?_append, block.getLast?_text, getLast?_delimited, Option.some_or,
      Option.some_inj] at hlast
    by_contra hblock
    simp [hblock] at hlast
  obtain ⟨body, rfl⟩ : ∃ body, block = .group body := by
    cases block with
    | charClass flags => cases hblock
    | group body => exact ⟨body, rfl⟩
  cases init with
  | nil => exact ⟨rfl, body, rfl, by simpa [rowText, Block.text] using h⟩
  | cons member init =>
    have hmember : member.isGroup = true := by
      apply Member.isGroup_of_head?
      have hhead := congrArg List.head? h
      rwa [rowText, List.append_assoc, List.head?_append_of_ne_nil _ member.text_ne_nil] at hhead
    have hlast : Member.isGroup (.counted (.group body) count) = true := rfl
    rw [List.cons_append, List.countP_cons_of_pos hmember, List.countP_append,
      List.countP_cons_of_pos hlast] at hgroups
    omega

/-- A text in braces with a count behind it is derived as a group with this count. -/
theorem Level.text_eq_counted_iff {count : Count} (hproper : level.Proper) :
    level.text = '{' :: (p ++ '}' :: count.text) ↔
      ∃ body, level = .row (.counted (.group body) count) [] ∧ body.text = p := by
  have hsplit : '{' :: (p ++ '}' :: count.text) = '{' :: (p ++ ['}']) ++ count.text := by simp
  rw [hsplit]
  constructor
  · intro h
    cases level with
    | bare block =>
      have hlast := congrArg List.getLast? h
      rw [Level.text, block.getLast?_text, List.getLast?_append, count.getLast?_text] at hlast
      split at hlast <;> simp at hlast
    | row first others =>
      obtain ⟨init, last, hrow, htext, -⟩ := Level.exists_last first others
      obtain ⟨block, rfl, hblock⟩ := Member.exists_block_of_text (htext.symm.trans h)
      obtain ⟨rfl, body, rfl, hbody⟩ := eq_nil_of_text_eq_braced (hrow ▸ hproper.1) hblock
      obtain ⟨rfl, rfl⟩ := List.cons.inj hrow
      exact ⟨body, rfl, hbody⟩
  · rintro ⟨body, rfl, rfl⟩
    simp [Level.text, Member.text, Block.text, rowText]

/-! ## Longer rows -/

/-- Tokens that go on behind those of members are those of more members. -/
theorem exists_more_of_rowTokens {all members : List Member} {later : List Token}
    (h : rowTokens all = rowTokens members ++ later) :
    ∃ more, all = members ++ more ∧ rowTokens more = later := by
  induction members generalizing all with
  | nil => exact ⟨all, rfl, h⟩
  | cons member members ih =>
    rw [rowTokens, List.append_assoc] at h
    cases all with
    | nil =>
      refine absurd ?_ (not_ends_member member (rowTokens members ++ later))
      rw [← h]
      simp [rowTokens, Ends]
    | cons member' all =>
      obtain ⟨rfl, hall⟩ := Member.unique member' member h
      obtain ⟨more, rfl, hmore⟩ := ih hall
      exact ⟨more, rfl, hmore⟩

/-- The same for whole levels. One block without a count is no beginning of a row. -/
theorem Level.exists_more_of_tokens {later : List Token}
    (h : level.tokens = (Level.row first others).tokens ++ later) :
    ∃ more, level = .row first (others ++ more) ∧ rowTokens more = later := by
  cases level with
  | bare block =>
    rw [Level.tokens, Level.tokens, List.append_assoc, ← List.append_nil block.tokens] at h
    cases first with
    | literal literal => exact absurd h (block_ne_literal block literal _ _)
    | counted block' count' =>
      rw [Member.tokens, List.append_assoc] at h
      have hrest := (Block.unique block block' h).2
      refine absurd ?_ (not_ends_count count' (rowTokens others ++ later))
      rw [← hrest]
      simp [Ends]
  | row first' others' =>
    have htokens : rowTokens (first' :: others') = rowTokens (first :: others) ++ later := h
    obtain ⟨more, hrow, hmore⟩ := exists_more_of_rowTokens htokens
    obtain ⟨rfl, rfl⟩ := List.cons.inj hrow
    exact ⟨more, rfl, hmore⟩

/-- A row does not end with a number, which could go on in the text that follows. -/
theorem Level.isNumber_getLast? :
    ∀ token ∈ (Level.row first others).tokens.getLast?, token.isNumber = false := by
  intro token htoken
  obtain ⟨init, last, -, -, htokens⟩ := Level.exists_last first others
  rw [htokens, List.getLast?_append] at htoken
  cases last with
  | literal literal =>
    obtain rfl := Option.some.inj htoken
    rfl
  | counted block count =>
    have hcount : count.tokens.getLast? = some .closeParen := by cases count <;> rfl
    rw [Member.tokens, List.getLast?_append, hcount, Option.some_or, Option.some_or] at htoken
    obtain rfl := Option.some.inj htoken
    rfl

/-- A text that goes on behind a row is derived as a longer row. -/
theorem Level.text_eq_append_iff :
    level.text = (Level.row first others).text ++ rest ↔
      ∃ more, level = .row first (others ++ more) ∧ rowText more = rest := by
  constructor
  · intro h
    have hlast : Pattern.Apart (Level.row first others).tokens rest := by
      intro token htoken hnumber
      simp [Level.isNumber_getLast? token htoken] at hnumber
    have hrow := (Level.row first others).written .nil
    have hlevel := level.written .nil
    rw [List.append_nil] at hrow hlevel
    rw [← Level.source_tokens, ← Level.source_tokens] at h
    obtain ⟨later, hlater, hrest⟩ := hrow.exists_append hlast hlevel h
    obtain ⟨more, rfl, rfl⟩ := Level.exists_more_of_tokens hlater
    exact ⟨more, rfl, by rw [← source_rowTokens, hrest]⟩
  · rintro ⟨more, rfl, rfl⟩
    rw [Level.text, Level.text, rowText_append, List.append_assoc]

/-- The groups of a row that goes on behind another one may not be in both of them. -/
theorem Level.proper_append_iff {first' : Member} {others' : List Member} :
    (Level.row first (others ++ first' :: others')).Proper ↔
      (Level.row first others).Proper ∧ (Level.row first' others').Proper ∧
        ¬((first :: others).any Member.isGroup = true ∧
          (first' :: others').any Member.isGroup = true) := by
  have hany : ∀ members : List Member,
      members.any Member.isGroup = true ↔ 0 < members.countP Member.isGroup := by simp
  rw [Level.Proper, Level.Proper, Level.Proper, rowProper_append, RowProper, hany, hany,
    ← List.cons_append, List.countP_append]
  constructor
  · rintro ⟨hgroups, hfirst, hothers, hfirst', hothers'⟩
    exact ⟨⟨by omega, hfirst, hothers⟩, ⟨by omega, hfirst', hothers'⟩, by omega⟩
  · rintro ⟨⟨hgroups, hfirst, hothers⟩, ⟨hgroups', hfirst', hothers'⟩, hboth⟩
    exact ⟨by omega, hfirst, hothers, hfirst', hothers'⟩

/-- Where a member stands does not matter for whether it is a group. -/
theorem any_isGroup_rowAt (offset : Nat) (members : List Member) :
    (rowAt offset members).any Pattern.Piece.isGroup = members.any Member.isGroup := by
  induction members generalizing offset with
  | nil => rfl
  | cons member members ih =>
    have hmember : (member.at offset).isGroup = member.isGroup := by
      rcases member with literal | ⟨flags | body, count⟩ <;> rfl
    rw [rowAt, List.any_cons, List.any_cons, hmember, ih]

end Grammar

end Moniker
