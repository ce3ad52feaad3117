import Moniker.Proofs.Pattern.Derivation

/-!
# What is derived is assembled

The lexemes of a derivation are taken in one after the other. A level of the derivation fills a
level of the assembly, `Level.run`; the filled level has the shape that the derivation says,
`Level.shape_filled`; and so every text with a derivation says a pattern, namely the one that
the derivation stands for, `Derivation.ofText?_eq`.
-/

namespace Moniker

open Text (Span byteLength)
open Pattern (Token Item Quantifier Assembly Fault lexemesAt)

namespace Grammar

/-- What is read is the number that the digits write, if it is small enough. -/
theorem count?_eq_some_iff {digits : String} {value : UInt32} :
    Pattern.count? digits = some value ↔ Nat.ofDigitChars 10 digits.toList 0 = value.toNat := by
  have hdecimal : Pattern.decimal digits.toList = Nat.ofDigitChars 10 digits.toList 0 :=
    Nat.ofDigitChars_eq_foldl.symm
  simp only [Pattern.count?, hdecimal]
  split
  · next hsmall =>
    rw [Option.some.injEq, ← UInt32.toNat_inj, UInt32.toNat_ofNatLT]
  · next hlarge =>
    refine ⟨nofun, fun h => absurd ?_ hlarge⟩
    rw [h]
    exact value.toNat_lt

theorem count?_digits (n : Number) : Pattern.count? n.digits = some n.value :=
  count?_eq_some_iff.2 UInt32.toNat_ofNatLT.symm

/-! ## The items of a level -/

/-- The items that a member adds to its level when it stands at `offset`. -/
def Member.itemsAt (offset : Nat) : Member → List Item
  | .literal lit =>
    [.literal ⟨offset, offset + byteLength (Member.literal lit).text⟩ lit.text]
  | .counted block count =>
    [.block (block.at offset), .quantifier (count.at (offset + byteLength block.text))]

/-- The items of members that stand side by side from `offset` on. -/
def rowItemsAt (offset : Nat) : List Member → List Item
  | [] => []
  | member :: members =>
    member.itemsAt offset ++ rowItemsAt (offset + byteLength member.text) members

/-- Joining blocks and counts gives back the members. -/
theorem pair_rowItemsAt (odd : Fault) (offset : Nat) (members : List Member) :
    Pattern.pair odd (rowItemsAt offset members) = .ok (rowAt offset members) := by
  induction members generalizing offset with
  | nil => rfl
  | cons member members ih =>
    cases member <;>
      simp only [rowItemsAt, Member.itemsAt, List.cons_append, List.nil_append, Pattern.pair, ih,
        rowAt, Member.at, Except.map_ok]

/-- Members bring as many counts as blocks. -/
theorem weight_rowItemsAt (offset : Nat) (members : List Member) :
    Pattern.weight (rowItemsAt offset members) = 2 * members.length := by
  induction members generalizing offset with
  | nil => rfl
  | cons member members ih =>
    cases member <;>
      simp only [rowItemsAt, Member.itemsAt, List.cons_append, List.nil_append, Pattern.weight,
        Item.weight, ih, List.length_cons] <;> omega

/-- The shape of a level whose blocks and counts can be joined. -/
theorem shape_eq_row {empty : Span → Fault} {span : Span} {items : List Item}
    {first : Pattern.Piece} {others : List Pattern.Piece} (heven : Pattern.weight items % 2 = 0)
    (hpair : ∀ odd, Pattern.pair odd items = .ok (first :: others)) :
    Pattern.shape empty span items = .ok (.row first others) := by
  unfold Pattern.shape
  split
  · simp [Pattern.weight, Item.weight] at heven
  · simp [Pattern.weight, Item.weight] at heven
  · rw [if_neg (by omega), hpair]
    rfl

end Grammar

/-! ## Filling a level -/

open Grammar (Member rowItemsAt)

namespace Pattern.Level

/-- The level with a block of a derivation more, which stands at `offset`. -/
def addBlock (level : Level) (offset : Nat) (block : Grammar.Block) : Level :=
  ⟨.block (block.at offset) :: level.items, if block.isGroup then some offset else level.group?⟩

/-- The level with a member of a derivation more, which stands at `offset`. -/
def addMember (level : Level) (offset : Nat) : Member → Level
  | .literal lit =>
    level.push (.literal ⟨offset, offset + byteLength (Member.literal lit).text⟩ lit.text)
  | .counted block count =>
    (level.addBlock offset block).push (.quantifier (count.at (offset + byteLength block.text)))

/-- The level with members of a derivation more, which stand side by side from `offset` on. -/
def addRow (level : Level) (offset : Nat) : List Member → Level
  | [] => level
  | member :: members =>
    (level.addMember offset member).addRow (offset + byteLength member.text) members

/-- How many groups the level knows of. -/
def groups (level : Level) : Nat :=
  match level.group? with
  | none => 0
  | some _ => 1

theorem items_addMember (level : Level) (offset : Nat) (member : Member) :
    (level.addMember offset member).items = (member.itemsAt offset).reverse ++ level.items := by
  cases member <;> rfl

theorem items_addRow (level : Level) (offset : Nat) (members : List Member) :
    (level.addRow offset members).items = (rowItemsAt offset members).reverse ++ level.items := by
  induction members generalizing level offset with
  | nil => rfl
  | cons member members ih =>
    rw [addRow, ih, items_addMember, rowItemsAt, List.reverse_append, List.append_assoc]

/-- A member adds a group if it is one. -/
theorem groups_addMember {level : Level} {member : Member}
    (h : level.groups + [member].countP Member.isGroup ≤ 1) (offset : Nat) :
    (level.addMember offset member).groups =
      level.groups + [member].countP Member.isGroup := by
  cases member with
  | literal lit => rfl
  | counted block count =>
    cases block with
    | charClass flags => rfl
    | group body =>
      have hone : [Member.counted (.group body) count].countP Member.isGroup = 1 := rfl
      have hzero : level.groups = 0 := by omega
      rw [hone, hzero]
      rfl

/-- If there is room for the groups of a row, there is room for those of its first member, and
then for those of the others. -/
theorem groups_cons {level : Level} {member : Member} {members : List Member}
    (h : level.groups + (member :: members).countP Member.isGroup ≤ 1) (offset : Nat) :
    level.groups + [member].countP Member.isGroup ≤ 1 ∧
      (level.addMember offset member).groups + members.countP Member.isGroup ≤ 1 := by
  rw [← List.singleton_append, List.countP_append] at h
  have hone : level.groups + [member].countP Member.isGroup ≤ 1 := by omega
  refine ⟨hone, ?_⟩
  rw [groups_addMember hone]
  omega

/-- A level that knows of no group takes one. -/
theorem group?_eq_none {level : Level} (h : level.groups = 0) : level.group? = none := by
  unfold groups at h
  split at h
  · assumption
  · simp at h

end Pattern.Level

namespace Grammar

open Pattern.Level (addBlock addMember addRow groups)

/-- The level of an assembly that a level of a derivation fills. -/
def Level.filled (offset : Nat) : Level → Pattern.Level
  | .bare block => addBlock .empty offset block
  | .row first others => addRow .empty offset (first :: others)

/-- The shape of a filled level is what filled it. -/
theorem Level.shape_filled (level : Level) (offset : Nat) (empty : Span → Fault) (span : Span) :
    (level.filled offset).shape empty span = .ok (level.at offset) := by
  cases level with
  | bare block => rfl
  | row first others =>
    have hitems : (filled offset (.row first others)).items.reverse =
        rowItemsAt offset (first :: others) := by
      rw [filled, Pattern.Level.items_addRow, List.reverse_append, List.reverse_reverse]
      rfl
    rw [Pattern.Level.shape, hitems]
    refine shape_eq_row ?_ (fun odd => pair_rowItemsAt odd offset (first :: others))
    rw [weight_rowItemsAt]
    omega

/-! ## Taking in the lexemes -/

/-- The place of a count is where its tokens are. -/
theorem Count.at_eq (count : Count) (offset : Nat) :
    count.at offset =
      ⟨⟨offset, offset + byteLength (count.tokens.flatMap Token.source)⟩, count.min,
        count.max?⟩ := by
  rw [count.source_tokens]
  rfl

/-- The lexemes of a count become one item. -/
theorem Count.run (count : Count) (offset : Nat) (level : Pattern.Level)
    (enclosing : List (Span × Pattern.Level)) :
    Assembly.run ⟨.outside, level, enclosing⟩ (lexemesAt offset count.tokens) =
      .ok ⟨.outside, level.push (.quantifier (count.at offset)), enclosing⟩ := by
  rw [count.at_eq]
  cases count with
  | exactly n =>
    simp only [tokens, lexemesAt, Assembly.run_cons, Assembly.step, Assembly.stepOutside,
      Assembly.takeNumber, Pattern.Lexeme.ofToken_token, count?_digits, Except.bind,
      List.flatMap_cons, List.flatMap_nil, List.append_nil, Text.byteLength_append,
      ← Nat.add_assoc]
    rw [Pattern.Lexeme.join_ofToken .closeParen (Nat.le_add_right ..)]
    · rfl
    · exact Nat.le_add_right ..
  | between min max =>
    simp only [tokens, lexemesAt, Assembly.run_cons, Assembly.step, Assembly.stepOutside,
      Assembly.takeNumber, Pattern.Lexeme.ofToken_token, count?_digits, Except.bind,
      List.flatMap_cons, List.flatMap_nil, List.append_nil, Text.byteLength_append,
      ← Nat.add_assoc]
    rw [Pattern.Lexeme.join_ofToken .closeParen (Nat.le_add_right ..)]
    · rfl
    · simp only [Pattern.Lexeme.ofToken_stop]
      omega

/-- The brace that closes a group makes a block of the level that the body has filled. -/
theorem step_closeBrace (body : Level) (offset : Nat) {level : Pattern.Level}
    (hgroup : level.group? = none) (enclosing : List (Span × Pattern.Level)) :
    Assembly.step ⟨.outside, body.filled (offset + 1), (⟨offset, offset + 1⟩, level) :: enclosing⟩
        (.ofToken .closeBrace (offset + 1 + byteLength body.text)) =
      .ok ⟨.outside, level.addBlock offset (.group body), enclosing⟩ := by
  have hstop : offset + 1 + byteLength body.text + 1 =
      offset + byteLength (Block.group body).text := by
    rw [Block.text, Text.byteLength_cons, Text.byteLength_append]
    show _ = offset + (1 + (byteLength body.text + 1))
    omega
  have hjoin : (⟨offset, offset + 1⟩ : Span).join
      (Pattern.Lexeme.ofToken .closeBrace (offset + 1 + byteLength body.text)).span =
      ⟨offset, offset + byteLength (Block.group body).text⟩ := by
    rw [← hstop]
    exact Pattern.Lexeme.join_ofToken .closeBrace (Nat.le_add_right ..) (Nat.le_add_right ..)
  simp only [Assembly.step, Assembly.stepOutside, Pattern.Lexeme.ofToken_token,
    Assembly.closeGroup, Level.shape_filled, addBlock, Block.at, hjoin]
  simp only [Pattern.Level.pushGroup, hgroup, bind, Except.bind]
  rfl

mutual

/-- The lexemes of a block become one item. -/
theorem Block.run (offset : Nat) (level : Pattern.Level) (enclosing : List (Span × Pattern.Level)) :
    (block : Block) → block.Proper → (block.isGroup = true → level.group? = none) →
      Assembly.run ⟨.outside, level, enclosing⟩ (lexemesAt offset block.tokens) =
        .ok ⟨.outside, level.addBlock offset block, enclosing⟩
  | .charClass flags, _, _ => rfl
  | .group body, hproper, hgroup => by
    -- the body fills a level of its own, around which the level of the block waits
    have hbody := Level.run (offset + 1) ((⟨offset, offset + 1⟩, level) :: enclosing) body hproper
    rw [Block.tokens, lexemesAt, Assembly.run_cons]
    show Assembly.run ⟨.outside, .empty, (⟨offset, offset + 1⟩, level) :: enclosing⟩
      (lexemesAt (offset + 1) (body.tokens ++ [.closeBrace])) = _
    rw [Pattern.lexemesAt_append, Assembly.run_append, hbody, Level.source_tokens]
    show (Assembly.step _ _).bind _ = _
    rw [step_closeBrace body offset (hgroup rfl)]
    rfl

/-- The lexemes of a member become its items. -/
theorem Member.run (offset : Nat) (level : Pattern.Level)
    (enclosing : List (Span × Pattern.Level)) :
    (member : Member) → member.Proper → level.groups + [member].countP Member.isGroup ≤ 1 →
      Assembly.run ⟨.outside, level, enclosing⟩ (lexemesAt offset member.tokens) =
        .ok ⟨.outside, level.addMember offset member, enclosing⟩
  | .literal lit, _, _ => rfl
  | .counted block count, hproper, hgroups => by
    have hgroup : block.isGroup = true → level.group? = none := by
      intro hblock
      rw [List.countP_singleton, Member.isGroup, hblock, if_pos rfl] at hgroups
      exact Pattern.Level.group?_eq_none (by omega)
    rw [Member.tokens, Pattern.lexemesAt_append, Assembly.run_append,
      Block.run offset level enclosing block hproper hgroup, Block.source_tokens]
    exact count.run (offset + byteLength block.text) (level.addBlock offset block) enclosing

/-- The lexemes of a level fill a level. -/
theorem Level.run (offset : Nat) (enclosing : List (Span × Pattern.Level)) :
    (level : Level) → level.Proper →
      Assembly.run ⟨.outside, .empty, enclosing⟩ (lexemesAt offset level.tokens) =
        .ok ⟨.outside, level.filled offset, enclosing⟩
  | .bare block, hproper => Block.run offset .empty enclosing block hproper (fun _ => rfl)
  | .row first others, ⟨hgroups, hfirst, hothers⟩ => by
    have hroom : Pattern.Level.empty.groups + (first :: others).countP Member.isGroup ≤ 1 :=
      (Nat.zero_add _).trans_le hgroups
    obtain ⟨hone, hrest⟩ := Pattern.Level.groups_cons hroom offset
    rw [Level.tokens, Pattern.lexemesAt_append, Assembly.run_append,
      Member.run offset .empty enclosing first hfirst hone, Member.source_tokens]
    exact run_rowTokens _ _ enclosing others hothers hrest

/-- The lexemes of members become their items. -/
theorem run_rowTokens (offset : Nat) (level : Pattern.Level)
    (enclosing : List (Span × Pattern.Level)) :
    (members : List Member) → RowProper members →
      level.groups + members.countP Member.isGroup ≤ 1 →
      Assembly.run ⟨.outside, level, enclosing⟩ (lexemesAt offset (rowTokens members)) =
        .ok ⟨.outside, level.addRow offset members, enclosing⟩
  | [], _, _ => rfl
  | member :: members, ⟨hmember, hmembers⟩, hgroups => by
    obtain ⟨hone, hrest⟩ := Pattern.Level.groups_cons hgroups offset
    rw [rowTokens, Pattern.lexemesAt_append, Assembly.run_append,
      Member.run offset level enclosing member hmember hone, Member.source_tokens]
    exact run_rowTokens _ _ enclosing members hmembers hrest

end

/-- A text with a derivation says the pattern that the derivation stands for. -/
theorem Derivation.ofText?_eq (d : Derivation) {text : String} (h : d.text = text.toList) :
    Pattern.ofText? text = .ok d.pattern := by
  have hwritten := d.level.written .nil
  rw [List.append_nil] at hwritten
  have hlexemes : Pattern.lexemes text = .ok (lexemesAt 0 d.level.tokens) :=
    Pattern.lexemes_eq_ok_iff.2
      ⟨d.level.tokens, hwritten, (Level.source_tokens d.level).trans h, rfl⟩
  have hrun := Level.run 0 [] d.level d.proper
  rw [Pattern.ofText?, hlexemes]
  show (Assembly.run ⟨.outside, .empty, []⟩ (lexemesAt 0 d.level.tokens)).bind _ = _
  rw [hrun]
  exact Level.shape_filled d.level 0 _ _

end Grammar

end Moniker
