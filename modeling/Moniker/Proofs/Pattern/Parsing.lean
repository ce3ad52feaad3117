import Moniker.Proofs.Pattern.Assembled

/-!
# Which texts are patterns

The texts that say a pattern are those with a derivation. `Assembled` has shown that a
derivation is enough. Here it is shown to be needed: while lexemes are taken in, everything
gathered so far comes from parts of a derivation.

* `Item.Spells` — the tokens that an item comes from;
* `Assembly.Gathered` — the tokens that all of an assembly comes from, kept by every step and so
  by every run;
* `ofText?_iff_derivation` — a text says a pattern exactly if it has a derivation, which is the
  only one and says what the pattern is.
-/

namespace Moniker.Pattern

open Text (Span)
open Grammar (Number Count Member Derivation RowProper rowTokens)

/-! ## Finished levels -/

/-- Whether an item is a group. -/
def Item.isGroup : Item → Bool
  | .block b => b.isGroup
  | .literal .. | .quantifier _ => false

/-- The item comes from these tokens, which are those of a part of a derivation. -/
inductive Item.Spells : Item → List Token → Prop where
  | literal {span : Span} {text : String} (lit : Grammar.Literal) :
    Spells (.literal span text) [.literal lit.text]
  | block {block : Block} (derived : Grammar.Block) (hproper : derived.Proper)
    (hgroup : block.isGroup = derived.isGroup) : Spells (.block block) derived.tokens
  | quantifier {quantifier : Quantifier} (count : Count) :
    Spells (.quantifier quantifier) count.tokens

/-- The items come from these tokens, one after the other. -/
inductive SpellsAll : List Item → List Token → Prop where
  | nil : SpellsAll [] []
  | cons {item : Item} {items : List Item} {tokens later : List Token}
    (hitem : item.Spells tokens) (hitems : SpellsAll items later) :
    SpellsAll (item :: items) (tokens ++ later)

theorem SpellsAll.concat {items : List Item} {item : Item} {tokens later : List Token}
    (h : SpellsAll items tokens) (hitem : item.Spells later) :
    SpellsAll (items ++ [item]) (tokens ++ later) := by
  induction h with
  | nil =>
    have hone := SpellsAll.cons hitem .nil
    rwa [List.append_nil] at hone
  | cons hfirst _ ih =>
    rw [List.append_assoc]
    exact .cons hfirst ih

/-- Where blocks and counts can be joined, the tokens are those of members. -/
theorem SpellsAll.exists_members {odd : Fault} {items : List Item} {tokens : List Token}
    {pieces : List Piece} (h : SpellsAll items tokens) (hpair : pair odd items = .ok pieces) :
    ∃ members : List Member, members.length = pieces.length ∧ rowTokens members = tokens ∧
      RowProper members ∧ members.countP Member.isGroup = items.countP Item.isGroup := by
  induction items using pair.induct generalizing tokens pieces with
  | case1 =>
    cases h
    obtain rfl := Except.ok.inj hpair
    exact ⟨[], rfl, rfl, trivial, rfl⟩
  | case2 span text items ih =>
    obtain ⟨later, hlater, rfl⟩ := map_eq_ok_iff.1 hpair
    rcases h with _ | ⟨⟨lit⟩, hitems⟩
    obtain ⟨members, hlength, rfl, hproper, hgroups⟩ := ih hitems hlater
    refine ⟨.literal lit :: members, congrArg Nat.succ hlength, rfl, ⟨trivial, hproper⟩, ?_⟩
    simpa [List.countP_cons, Member.isGroup, Item.isGroup] using hgroups
  | case3 block quantifier items ih =>
    obtain ⟨later, hlater, rfl⟩ := map_eq_ok_iff.1 hpair
    rcases h with _ | ⟨⟨⟩ | ⟨derived, hblock, hgroup⟩, _ | ⟨⟨⟩ | ⟨⟩ | ⟨count⟩, hitems⟩⟩
    obtain ⟨members, hlength, rfl, hproper, hgroups⟩ := ih hitems hlater
    refine ⟨.counted derived count :: members, congrArg Nat.succ hlength,
      List.append_assoc .., ⟨hblock, hproper⟩, ?_⟩
    rw [List.countP_cons, List.countP_cons, List.countP_cons, hgroups, Member.isGroup, ← hgroup]
    rfl
  -- in all other cases something does not go together, and there are no pieces
  | case4 => simp [pair] at hpair
  | case5 => simp [pair] at hpair
  | case6 => simp [pair] at hpair
  | case7 => simp [pair] at hpair

/-- A level that has a shape comes from the tokens of a level of a derivation. -/
theorem SpellsAll.exists_level {empty : Span → Fault} {span : Span} {items : List Item}
    {tokens : List Token} {p : Pattern} (h : SpellsAll items tokens)
    (hgroups : items.countP Item.isGroup ≤ 1) (hshape : shape empty span items = .ok p) :
    ∃ level : Grammar.Level, level.Proper ∧ level.tokens = tokens := by
  unfold shape at hshape
  split at hshape
  · rcases h with _ | ⟨⟨⟩ | ⟨derived, hproper, -⟩, ⟨⟩⟩
    exact ⟨.bare derived, hproper, (List.append_nil _).symm⟩
  · simp at hshape
  · split at hshape
    · simp at hshape
    · obtain ⟨pieces, hpair, hshape⟩ := bind_eq_ok_iff.1 hshape
      obtain ⟨members, hlength, htokens, hproper, hcount⟩ := h.exists_members hpair
      cases members with
      | nil =>
        obtain rfl := List.length_eq_zero_iff.1 hlength.symm
        simp at hshape
      | cons first others =>
        exact ⟨.row first others, ⟨hcount ▸ hgroups, hproper⟩, htokens⟩

/-! ## Levels being filled -/

/-- The items of the level come from these tokens, and it knows of its groups. -/
structure Level.Holds (level : Level) (tokens : List Token) : Prop where
  spells : SpellsAll level.items.reverse tokens
  groups : level.items.countP Item.isGroup = level.groups

namespace Level.Holds

theorem empty : Level.empty.Holds [] := ⟨.nil, rfl⟩

theorem push {level : Level} {item : Item} {tokens later : List Token} (h : level.Holds tokens)
    (hitem : item.Spells later) (hgroup : item.isGroup = false) :
    (level.push item).Holds (tokens ++ later) where
  spells := by
    rw [Level.push, List.reverse_cons]
    exact h.spells.concat hitem
  groups := by
    rw [Level.push, List.countP_cons_of_neg (by simp [hgroup])]
    exact h.groups

/-- A second group is refused, so that there is only the one. -/
theorem pushGroup {level after : Level} {span : Span} {body : Pattern} {tokens : List Token}
    {derived : Grammar.Level} (h : level.Holds tokens) (hproper : derived.Proper)
    (hpush : level.pushGroup span body = .ok after) :
    after.Holds (tokens ++ (Grammar.Block.group derived).tokens) := by
  unfold Level.pushGroup at hpush
  split at hpush
  · simp at hpush
  · next hnone =>
    obtain rfl := Except.ok.inj hpush
    have hzero : level.items.countP Item.isGroup = 0 := by rw [h.groups, Level.groups, hnone]
    constructor
    · rw [List.reverse_cons]
      exact h.spells.concat (.block (.group derived) hproper rfl)
    · rw [List.countP_cons_of_pos (by rfl), hzero]
      rfl

/-- A finished level comes from the tokens of a level of a derivation. -/
theorem exists_level {level : Level} {empty : Span → Fault} {span : Span} {tokens : List Token}
    {p : Pattern} (h : level.Holds tokens) (hshape : level.shape empty span = .ok p) :
    ∃ derived : Grammar.Level, derived.Proper ∧ derived.tokens = tokens := by
  refine h.spells.exists_level ?_ hshape
  rw [List.countP_reverse, h.groups, Level.groups]
  split <;> omega

end Level.Holds

/-! ## Assemblies -/

/-- The tokens that have been taken in of a count. -/
inductive Progress.Counting : Progress → List Token → Prop where
  | outside : Counting .outside []
  | opened {paren : Span} : Counting (.opened paren) [.openParen]
  | least {paren : Span} {min : UInt32} (n : Number) :
    Counting (.least paren min) [.openParen, .number n.digits]
  | separated {paren : Span} {min : UInt32} (n : Number) :
    Counting (.separated paren min) [.openParen, .number n.digits, .comma]
  | most {paren : Span} {min max : UInt32} (n m : Number) :
    Counting (.most paren min max) [.openParen, .number n.digits, .comma, .number m.digits]

/-- The tokens before the innermost group that is open. -/
inductive Opened : List (Span × Level) → List Token → Prop where
  | nil : Opened [] []
  | cons {brace : Span} {level : Level} {enclosing : List (Span × Level)}
    {before own : List Token} (h : Opened enclosing before) (hlevel : level.Holds own) :
    Opened ((brace, level) :: enclosing) (before ++ own ++ [.openBrace])

namespace Assembly

/-- All that has been taken in: what stands before the innermost open group, what stands in it,
and what there is of a count. -/
def Gathered (a : Assembly) (tokens : List Token) : Prop :=
  ∃ before own counting, Opened a.enclosing before ∧ a.level.Holds own ∧
    a.progress.Counting counting ∧ tokens = before ++ own ++ counting

theorem gathered_start : start.Gathered [] :=
  ⟨[], [], [], .nil, .empty, .outside, rfl⟩

/-- Where a number is taken in, there is one. -/
theorem exists_number {a after : Assembly} {found : Lexeme} {next : UInt32 → Progress}
    {mode mode' : Mode} (htakes : mode.Takes found.token mode')
    (htake : a.takeNumber found next = .ok after) :
    ∃ n : Number, found.token = .number n.digits ∧
      ∃ value, after = { a with progress := next value } := by
  unfold takeNumber at htake
  split at htake
  · next digits htoken =>
    rw [htoken] at htakes
    obtain - | - | - | - | - | - | ⟨hne, hdigits⟩ := htakes
    split at htake
    · next value hvalue =>
      have hsmall : Nat.ofDigitChars 10 digits.toList 0 < UInt32.size := by
        rw [Grammar.count?_eq_some_iff.1 hvalue]
        exact value.toNat_lt
      exact ⟨⟨digits, hne, hdigits, hsmall⟩, htoken, value, (Except.ok.inj htake).symm⟩
    · simp at htake
  · simp at htake

/-- The end of a group makes a block of all that stands in it. -/
theorem gathered_closeGroup {a after : Assembly} {brace : Span} {before own : List Token}
    (hopened : Opened a.enclosing before) (hlevel : a.level.Holds own)
    (hclose : a.closeGroup brace = .ok after) :
    after.Gathered (before ++ own ++ [.closeBrace]) := by
  unfold closeGroup at hclose
  split at hclose
  · simp at hclose
  · next opening outer enclosing henclosing =>
    obtain ⟨body, hbody, hclose⟩ := bind_eq_ok_iff.1 hclose
    obtain ⟨level, hpush, hclose⟩ := bind_eq_ok_iff.1 hclose
    obtain rfl := Except.ok.inj hclose
    rw [henclosing] at hopened
    obtain - | @⟨_, _, _, outside, outerOwn, houtside, houter⟩ := hopened
    -- what stands in the group is a level, and with its braces a block of the level around it
    obtain ⟨derived, hproper, rfl⟩ := hlevel.exists_level hbody
    refine ⟨outside, _, [], houtside, houter.pushGroup hproper hpush, .outside, ?_⟩
    simp [Grammar.Block.tokens]

/-- Between counts, a token is an item of its own, or it opens or closes something. -/
theorem gathered_stepOutside {a after : Assembly} {found : Lexeme} {before own : List Token}
    {mode mode' : Mode} (htakes : mode.Takes found.token mode')
    (hopened : Opened a.enclosing before) (hlevel : a.level.Holds own)
    (hstep : a.stepOutside found = .ok after) :
    after.Gathered (before ++ own ++ [found.token]) := by
  obtain ⟨token, span⟩ := found
  cases htakes with
  | openBrace =>
    obtain rfl := Except.ok.inj hstep
    refine ⟨_, _, _, .cons hopened hlevel, .empty, .outside, ?_⟩
    rw [List.append_nil, List.append_nil]
  | closeBrace => exact gathered_closeGroup hopened hlevel hstep
  | @literal text htext =>
    obtain rfl := Except.ok.inj hstep
    refine ⟨_, _, _, hopened, hlevel.push (.literal ⟨text, htext⟩) rfl, .outside, ?_⟩
    rw [List.append_nil, List.append_assoc]
  | @flags text htext =>
    obtain rfl := Except.ok.inj hstep
    have hblock : (Item.block (.charClass span text)).Spells [.flags text] :=
      .block (.charClass ⟨text, htext⟩) trivial rfl
    refine ⟨_, _, _, hopened, hlevel.push hblock rfl, .outside, ?_⟩
    rw [List.append_nil, List.append_assoc]
  | openParen =>
    obtain rfl := Except.ok.inj hstep
    exact ⟨_, _, _, hopened, hlevel, .opened, rfl⟩
  | comma | number | closeParen => cases hstep

/-- The end of a count makes an item of it. -/
theorem gathered_count {a : Assembly} {quantifier : Quantifier} {before own : List Token}
    (count : Count) (hopened : Opened a.enclosing before) (hlevel : a.level.Holds own) :
    (a.push (.quantifier quantifier)).Gathered (before ++ own ++ count.tokens) := by
  have hitem : (Item.quantifier quantifier).Spells count.tokens := .quantifier count
  refine ⟨_, _, _, hopened, hlevel.push hitem rfl, .outside, ?_⟩
  rw [List.append_nil, List.append_assoc]

/-- A step keeps what has been gathered, and gathers its token. -/
theorem Gathered.step {a after : Assembly} {found : Lexeme} {tokens : List Token}
    {mode mode' : Mode} (h : a.Gathered tokens) (htakes : mode.Takes found.token mode')
    (hstep : a.step found = .ok after) : after.Gathered (tokens ++ [found.token]) := by
  obtain ⟨before, own, counting, hopened, hlevel, hprogress, rfl⟩ := h
  unfold Assembly.step at hstep
  split at hstep
  · -- outside of a count
    next houtside =>
    rw [houtside] at hprogress
    cases hprogress
    rw [List.append_nil]
    exact gathered_stepOutside htakes hopened hlevel hstep
  · -- the first number comes next
    next hat =>
    rw [hat] at hprogress
    cases hprogress
    obtain ⟨n, htoken, value, rfl⟩ := exists_number htakes hstep
    refine ⟨_, _, _, hopened, hlevel, .least n, ?_⟩
    rw [htoken, List.append_assoc]
    rfl
  · -- a comma comes next, or the end of a count of one number
    next hat =>
    rw [hat] at hprogress
    obtain - | - | ⟨n⟩ := hprogress
    split at hstep
    · next htoken =>
      obtain rfl := Except.ok.inj hstep
      refine ⟨_, _, _, hopened, hlevel, .separated n, ?_⟩
      rw [htoken, List.append_assoc]
      rfl
    · next htoken =>
      obtain rfl := Except.ok.inj hstep
      rw [htoken, List.append_assoc]
      exact gathered_count (.exactly n) hopened hlevel
    · simp at hstep
  · -- the second number comes next
    next hat =>
    rw [hat] at hprogress
    obtain - | - | - | ⟨n⟩ := hprogress
    obtain ⟨m, htoken, value, rfl⟩ := exists_number htakes hstep
    refine ⟨_, _, _, hopened, hlevel, .most n m, ?_⟩
    rw [htoken, List.append_assoc]
    rfl
  · -- the end of a count of two numbers comes next
    next hat =>
    rw [hat] at hprogress
    obtain - | - | - | - | ⟨n, m⟩ := hprogress
    split at hstep
    · next htoken =>
      obtain rfl := Except.ok.inj hstep
      rw [htoken, List.append_assoc]
      exact gathered_count (.between n m) hopened hlevel
    · simp at hstep

/-- A run gathers all its tokens. -/
theorem Gathered.run {a after : Assembly} {found : List Lexeme} {tokens : List Token}
    (h : a.Gathered tokens)
    (htakes : ∀ lexeme ∈ found, ∃ mode mode' : Mode, mode.Takes lexeme.token mode')
    (hrun : a.run found = .ok after) : after.Gathered (tokens ++ found.map Lexeme.token) := by
  induction found generalizing a tokens with
  | nil =>
    obtain rfl := Except.ok.inj hrun
    rwa [List.map_nil, List.append_nil]
  | cons first later ih =>
    obtain ⟨next, hstep, hrun⟩ := bind_eq_ok_iff.1 hrun
    obtain ⟨mode, mode', hfirst⟩ := htakes first List.mem_cons_self
    have hlater := ih (h.step hfirst hstep)
      (fun lexeme hlexeme => htakes lexeme (List.mem_cons_of_mem first hlexeme)) hrun
    rwa [List.append_assoc] at hlater

/-- Where the end of the text finds a pattern, all that was gathered is one level. -/
theorem Gathered.exists_level {a : Assembly} {size : Nat} {tokens : List Token} {p : Pattern}
    (h : a.Gathered tokens) (hfinish : a.finish size = .ok p) :
    ∃ level : Grammar.Level, level.Proper ∧ level.tokens = tokens := by
  obtain ⟨before, own, counting, hopened, hlevel, hprogress, rfl⟩ := h
  unfold finish at hfinish
  split at hfinish <;> try simp at hfinish
  next houtside =>
    split at hfinish
    · simp at hfinish
    · next henclosing =>
      rw [henclosing] at hopened
      rw [houtside] at hprogress
      cases hopened
      cases hprogress
      rw [List.append_nil]
      exact hlevel.exists_level hfinish

end Assembly

/-! ## Patterns -/

/-- A text that says a pattern has a derivation. -/
theorem exists_derivation {text : String} {p : Pattern} (h : ofText? text = .ok p) :
    ∃ d : Derivation, d.text = text.toList := by
  obtain ⟨found, hfound, h⟩ := bind_eq_ok_iff.1 h
  obtain ⟨a, hrun, hfinish⟩ := bind_eq_ok_iff.1 h
  obtain ⟨tokens, hwritten, htext, rfl⟩ := lexemes_eq_ok_iff.1 (mapError_eq_ok_iff.1 hfound)
  have hgathered := Assembly.gathered_start.run (fun lexeme hlexeme =>
    hwritten.exists_takes (map_token_lexemesAt 0 tokens ▸ List.mem_map_of_mem hlexeme)) hrun
  rw [map_token_lexemesAt, List.nil_append] at hgathered
  obtain ⟨level, hproper, rfl⟩ := hgathered.exists_level hfinish
  exact ⟨⟨level, hproper⟩, level.source_tokens.symm.trans htext⟩

/-- The patterns that texts say are those of levels with these texts. -/
theorem ofText?_eq_ok_iff {text : String} {p : Pattern} :
    ofText? text = .ok p ↔
      ∃ level : Grammar.Level, level.Proper ∧ level.text = text.toList ∧ p = level.at 0 := by
  constructor
  · intro h
    obtain ⟨d, htext⟩ := exists_derivation h
    rw [d.ofText?_eq htext] at h
    exact ⟨d.level, d.proper, htext, (Except.ok.inj h).symm⟩
  · rintro ⟨level, hproper, htext, rfl⟩
    exact Derivation.ofText?_eq ⟨level, hproper⟩ htext

/-- **The patterns are those of the grammar.** A text says a pattern exactly if it has a
derivation; the derivation is the only one; and the pattern is, but for the places of its parts,
what the derivation stands for. -/
theorem ofText?_iff_derivation (text : String) :
    ((∃ p, ofText? text = .ok p) ↔ ∃ d : Derivation, d.text = text.toList) ∧
      (∀ p (d : Derivation), ofText? text = .ok p → d.text = text.toList → p.ast = d.ast) ∧
      ∀ d d' : Derivation, d.text = text.toList → d'.text = text.toList → d = d' := by
  refine ⟨⟨?_, ?_⟩, ?_, ?_⟩
  · rintro ⟨p, hp⟩
    exact exists_derivation hp
  · rintro ⟨d, hd⟩
    exact ⟨d.pattern, d.ofText?_eq hd⟩
  · intro p d hp hd
    rw [d.ofText?_eq hd] at hp
    obtain rfl := Except.ok.inj hp
    exact d.level.ast_at 0
  · intro d d' hd hd'
    exact Derivation.unique (hd.trans hd'.symm)

/-- Seven lower-case letters, with zeros in front of the seven, and an `x`. -/
def padded : Derivation where
  level := .row
    (.counted (.charClass ⟨"0100", by simp⟩)
      (.exactly ⟨"007", by simp, by simp, by simp [Nat.ofDigitChars, UInt32.size]⟩))
    [.literal ⟨"x", by simp⟩]
  proper := ⟨by decide, trivial, trivial, trivial⟩

theorem ofText?_iff_derivation_padded :
    ∃ p, ofText? "[0100](007)<x>" = .ok p ∧
      p.ast = .sequence [⟨.charClass "0100", 7, none, false⟩, .once "x"] := by
  obtain ⟨haccepts, hast, -⟩ := ofText?_iff_derivation "[0100](007)<x>"
  have htext : padded.text = "[0100](007)<x>".toList := by decide
  obtain ⟨p, hp⟩ := haccepts.2 ⟨padded, htext⟩
  exact ⟨p, hp, hast p padded hp htext⟩

end Moniker.Pattern
