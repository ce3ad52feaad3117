import Moniker.Proofs.Pattern.Grammar

/-!
# Derivations and their texts

The tokens of a derivation write its text, may stand in a row, and come from no other
derivation. The last is seen token by token: the first tokens tell which rule was used, and
what is left over is the rest of the tokens. Only the end of a level shows by what follows it,
which is the end of the text or the brace of a group.

* `Level.source_tokens`, `Level.written` — the tokens write the text;
* `Level.ast_at` — the pattern of a derivation is what the derivation stands for;
* `Derivation.unique` — a text has at most one derivation.
-/

namespace Moniker.Grammar

open Pattern (Token Mode Written)

/-! ## The tokens write the text -/

theorem Count.source_tokens (count : Count) : count.tokens.flatMap Token.source = count.text := by
  cases count <;> simp [tokens, text, Token.source]

mutual

theorem Block.source_tokens : (block : Block) → block.tokens.flatMap Token.source = block.text
  | .charClass flags => by simp [Block.tokens, Block.text, Token.source]
  | .group body => by simp [Block.tokens, Block.text, Token.source, Level.source_tokens body]

theorem Member.source_tokens :
    (member : Member) → member.tokens.flatMap Token.source = member.text
  | .literal literal => by simp [Member.tokens, Member.text, Token.source]
  | .counted block count => by
    rw [Member.tokens, List.flatMap_append, Block.source_tokens block, count.source_tokens,
      Member.text]

/-- The tokens of a level write its text. -/
theorem Level.source_tokens : (level : Level) → level.tokens.flatMap Token.source = level.text
  | .bare block => by rw [Level.tokens, Block.source_tokens block, Level.text]
  | .row first others => by
    rw [Level.tokens, List.flatMap_append, Member.source_tokens first, source_rowTokens others,
      Level.text]

theorem source_rowTokens :
    (members : List Member) → (rowTokens members).flatMap Token.source = rowText members
  | [] => rfl
  | member :: members => by
    rw [rowTokens, List.flatMap_append, Member.source_tokens member, source_rowTokens members,
      rowText]

end

theorem Count.written (count : Count) {rest : List Token} (h : Written .blocks rest) :
    Written .blocks (count.tokens ++ rest) := by
  have hclose : Written .quantifier (.closeParen :: rest) :=
    .cons .closeParen (by simp [Token.isNumber]) h
  have hnumber : ∀ (n : Number) {t : Token} {tokens : List Token}, t.isNumber = false →
      Written .quantifier (t :: tokens) →
      Written .quantifier (.number n.digits :: t :: tokens) := by
    intro n t tokens ht htokens
    exact .cons (.number n.nonempty n.isDigit) (by simp [ht]) htokens
  cases count with
  | exactly n => exact .cons .openParen (by simp [Token.isNumber]) (hnumber n rfl hclose)
  | between min max =>
    refine .cons .openParen (by simp [Token.isNumber]) (hnumber min rfl ?_)
    exact .cons .comma (by simp [Token.isNumber]) (hnumber max rfl hclose)

mutual

theorem Block.written {rest : List Token} (h : Written .blocks rest) :
    (block : Block) → Written .blocks (block.tokens ++ rest)
  | .charClass flags => .cons (.flags flags.allowed) (by simp [Token.isNumber]) h
  | .group body => by
    rw [Block.tokens, List.cons_append, List.append_assoc]
    refine .cons .openBrace (by simp [Token.isNumber]) (Level.written ?_ body)
    exact .cons .closeBrace (by simp [Token.isNumber]) h

theorem Member.written {rest : List Token} (h : Written .blocks rest) :
    (member : Member) → Written .blocks (member.tokens ++ rest)
  | .literal literal => .cons (.literal literal.allowed) (by simp [Token.isNumber]) h
  | .counted block count => by
    rw [Member.tokens, List.append_assoc]
    exact Block.written (count.written h) block

/-- The tokens of a level may stand in a row, before any that may stand between blocks. -/
theorem Level.written {rest : List Token} (h : Written .blocks rest) :
    (level : Level) → Written .blocks (level.tokens ++ rest)
  | .bare block => Block.written h block
  | .row first others => by
    rw [Level.tokens, List.append_assoc]
    exact Member.written (written_rowTokens h others) first

theorem written_rowTokens {rest : List Token} (h : Written .blocks rest) :
    (members : List Member) → Written .blocks (rowTokens members ++ rest)
  | [] => h
  | member :: members => by
    rw [rowTokens, List.append_assoc]
    exact Member.written (written_rowTokens h members) member

end

/-! ## What a derivation stands for -/

mutual

theorem Block.ast_at (offset : Nat) : (block : Block) → (block.at offset).ast = block.ast
  | .charClass flags => rfl
  | .group body => by rw [Block.at, Pattern.Block.ast, Level.ast_at _ body, Block.ast]

theorem Member.ast_at (offset : Nat) : (member : Member) → (member.at offset).ast = member.ast
  | .literal literal => rfl
  | .counted block count => by
    rw [Member.at, Pattern.Piece.ast, Block.ast_at _ block, Member.ast]
    rfl

/-- The places of the parts are all that the pattern of a level adds to what it stands for. -/
theorem Level.ast_at (offset : Nat) : (level : Level) → (level.at offset).ast = level.ast
  | .bare block => by rw [Level.at, Pattern.ast, Block.ast_at _ block, Level.ast]
  | .row first others => by
    rw [Level.at, Pattern.ast, Member.ast_at _ first, ast_rowAt _ others, Level.ast]

theorem ast_rowAt (offset : Nat) :
    (members : List Member) → Pattern.rowAst (rowAt offset members) = rowAst members
  | [] => rfl
  | member :: members => by
    rw [rowAt, Pattern.rowAst, Member.ast_at _ member, ast_rowAt _ members, rowAst]

end

/-! ## Unique derivations -/

theorem Count.unique {count count' : Count} {rest rest' : List Token}
    (h : count.tokens ++ rest = count'.tokens ++ rest') : count = count' ∧ rest = rest' := by
  cases count <;> cases count' <;>
    simp_all [tokens, Number.ext_iff]

/-- What may follow a whole level: nothing, or the brace that closes its group. -/
def Ends (rest : List Token) : Prop := ∀ token ∈ rest.head?, token = .closeBrace

theorem not_ends_count (count : Count) (rest : List Token) : ¬ Ends (count.tokens ++ rest) := by
  cases count <;> simp [Count.tokens, Ends]

theorem not_ends_block (block : Block) (rest : List Token) : ¬ Ends (block.tokens ++ rest) := by
  cases block <;> simp [Block.tokens, Ends]

theorem not_ends_member (member : Member) (rest : List Token) :
    ¬ Ends (member.tokens ++ rest) := by
  cases member with
  | literal literal => simp [Member.tokens, Ends]
  | counted block count =>
    rw [Member.tokens, List.append_assoc]
    exact not_ends_block block _

/-- A block does not begin like a literal. -/
theorem block_ne_literal (block : Block) (literal : Literal) (rest rest' : List Token) :
    block.tokens ++ rest ≠ (Member.literal literal).tokens ++ rest' := by
  cases block <;> simp [Block.tokens, Member.tokens]

mutual

/-- A block shows by its tokens where it ends. -/
theorem Block.unique {rest rest' : List Token} :
    (block block' : Block) → block.tokens ++ rest = block'.tokens ++ rest' →
      block = block' ∧ rest = rest'
  | .charClass flags, .charClass flags', h => by
    obtain ⟨htext, hrest⟩ : flags.text = flags'.text ∧ rest = rest' := by
      simpa [Block.tokens] using h
    exact ⟨congrArg Block.charClass (Flags.ext htext), hrest⟩
  | .charClass flags, .group body', h => by simp [Block.tokens] at h
  | .group body, .charClass flags', h => by simp [Block.tokens] at h
  | .group body, .group body', h => by
    simp only [Block.tokens, List.cons_append, List.append_assoc, List.cons.injEq, true_and] at h
    obtain ⟨rfl, hrest⟩ := Level.unique body body' (by simp [Ends]) (by simp [Ends]) h
    exact ⟨rfl, (List.cons.inj hrest).2⟩

/-- A member shows by its tokens where it ends. -/
theorem Member.unique {rest rest' : List Token} :
    (member member' : Member) → member.tokens ++ rest = member'.tokens ++ rest' →
      member = member' ∧ rest = rest'
  | .literal literal, .literal literal', h => by
    obtain ⟨htext, hrest⟩ : literal.text = literal'.text ∧ rest = rest' := by
      simpa [Member.tokens] using h
    exact ⟨congrArg Member.literal (Literal.ext htext), hrest⟩
  | .literal literal, .counted block' count', h => by
    rw [Member.tokens.eq_def (.counted block' count'), List.append_assoc] at h
    exact absurd h.symm (block_ne_literal block' literal _ _)
  | .counted block count, .literal literal', h => by
    rw [Member.tokens.eq_def (.counted block count), List.append_assoc] at h
    exact absurd h (block_ne_literal block literal' _ _)
  | .counted block count, .counted block' count', h => by
    simp only [Member.tokens, List.append_assoc] at h
    obtain ⟨rfl, hcount⟩ := Block.unique block block' h
    obtain ⟨rfl, hrest⟩ := Count.unique hcount
    exact ⟨rfl, hrest⟩

/-- A level shows by its tokens and by what may follow it where it ends. -/
theorem Level.unique {rest rest' : List Token} :
    (level level' : Level) → Ends rest → Ends rest' →
      level.tokens ++ rest = level'.tokens ++ rest' → level = level' ∧ rest = rest'
  | .bare block, .bare block', _, _, h => by
    obtain ⟨rfl, hrest⟩ := Block.unique block block' h
    exact ⟨rfl, hrest⟩
  | .bare block, .row (.literal literal') others', _, _, h => by
    rw [Level.tokens, Level.tokens, List.append_assoc] at h
    exact absurd h (block_ne_literal block literal' _ _)
  -- if the one level has a count after the same block, the other does not end there
  | .bare block, .row (.counted block' count') others', hends, _, h => by
    simp only [Level.tokens, Member.tokens, List.append_assoc] at h
    obtain ⟨rfl, rfl⟩ := Block.unique block block' h
    exact absurd hends (not_ends_count count' _)
  | .row (.literal literal) others, .bare block', _, _, h => by
    rw [Level.tokens, Level.tokens, List.append_assoc] at h
    exact absurd h.symm (block_ne_literal block' literal _ _)
  | .row (.counted block count) others, .bare block', _, hends', h => by
    simp only [Level.tokens, Member.tokens, List.append_assoc] at h
    obtain ⟨rfl, rfl⟩ := Block.unique block block' h
    exact absurd hends' (not_ends_count count _)
  | .row first others, .row first' others', hends, hends', h => by
    simp only [Level.tokens, List.append_assoc] at h
    obtain ⟨rfl, hothers⟩ := Member.unique first first' h
    obtain ⟨rfl, hrest⟩ := rowTokens_unique others others' hends hends' hothers
    exact ⟨rfl, hrest⟩

/-- A row shows by what may follow it where it ends. -/
theorem rowTokens_unique {rest rest' : List Token} :
    (members members' : List Member) → Ends rest → Ends rest' →
      rowTokens members ++ rest = rowTokens members' ++ rest' →
      members = members' ∧ rest = rest'
  | [], [], _, _, h => ⟨rfl, h⟩
  | [], member' :: members', hends, _, h => by
    rw [rowTokens, rowTokens, List.nil_append, List.append_assoc] at h
    subst h
    exact absurd hends (not_ends_member member' _)
  | member :: members, [], _, hends', h => by
    rw [rowTokens, rowTokens, List.nil_append, List.append_assoc] at h
    subst h
    exact absurd hends' (not_ends_member member _)
  | member :: members, member' :: members', hends, hends', h => by
    simp only [rowTokens, List.append_assoc] at h
    obtain ⟨rfl, hmembers⟩ := Member.unique member member' h
    obtain ⟨rfl, hrest⟩ := rowTokens_unique members members' hends hends' hmembers
    exact ⟨rfl, hrest⟩

end

/-- A text has at most one derivation. -/
theorem Derivation.unique {d d' : Derivation} (h : d.text = d'.text) : d = d' := by
  have htokens : d.level.tokens ++ [] = d'.level.tokens ++ [] := by
    refine (d.level.written .nil).unique (d'.level.written .nil) ?_
    rw [List.append_nil, List.append_nil, Level.source_tokens, Level.source_tokens]
    exact h
  have hnil : Ends [] := by simp [Ends]
  exact Derivation.ext (Level.unique d.level d'.level hnil hnil htokens).1

end Moniker.Grammar
