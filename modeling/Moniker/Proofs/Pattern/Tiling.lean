import Moniker.Proofs.Pattern.Parsing
import Moniker.Proofs.Text.Tiling

/-!
# The places of a pattern's parts

A pattern carries the bytes that each of its parts takes in the text. Here these are held against
the text.

* `Pattern.spans` — the stretches of the blocks and counts at one level, in order;
* `Pattern.Placed` — under each stretch stands the part that it belongs to, and those in a group
  fill what lies between its braces;
* `Pattern.leaves` — the stretches of everything that has no parts of its own, at all levels;
* `Pattern.tiles_of_ofText?` — the stretches of a pattern text's pattern are right, and fill the
  text.
-/

namespace Moniker

open Text (Span Tile StandsAt byteLength)

namespace Pattern

/-! ## Placed parts -/

/-- The digits write the number. -/
structure IsDecimal (digits : List Char) (n : UInt32) : Prop where
  nonempty : digits ≠ []
  isDigit : ∀ c ∈ digits, c.isDigit = true
  value : Nat.ofDigitChars 10 digits 0 = n.toNat

/-- Under the count stand its numbers in parentheses; the second one only if it has one. -/
inductive Quantifier.Placed (text : List Char) (q : Quantifier) : Prop where
  | exactly {digits : List Char} (hnone : q.max? = none) (hmin : IsDecimal digits q.min)
    (h : q.span.Shows text ('(' :: (digits ++ [')'])))
  | between {digits digits' : List Char} {max : UInt32} (hsome : q.max? = some max)
    (hmin : IsDecimal digits q.min) (hmax : IsDecimal digits' max)
    (h : q.span.Shows text ('(' :: (digits ++ ',' :: (digits' ++ [')']))))

/-- The stretches of a piece: its block and its count. -/
def Piece.spans (piece : Piece) : List Span := [piece.blockSpan, piece.count.span]

/-- The stretches at the top level of a pattern, in order. -/
def spans : Pattern → List Span
  | .bare block => [block.span]
  | .row first others => (first :: others).flatMap Piece.spans

mutual

/-- The block stands where it says, and what is in it too. -/
def Block.Placed (text : List Char) : Block → Prop
  | .charClass span flags => span.Shows text ('[' :: (flags.toList ++ [']']))
  | .group span body =>
    (∃ inner, span.Shows text ('{' :: (inner ++ ['}']))) ∧
      Tile (span.start + 1) body.spans (span.stop - 1) ∧ body.Placed text

/-- The piece stands where it says. The count of a literal takes no bytes, at its end. -/
def Piece.Placed (text : List Char) : Piece → Prop
  | .literal span written =>
    span.Shows text ('<' :: (written.toList ++ ['>'])) ∧
      (Piece.literal span written).count.span = ⟨span.stop, span.stop⟩
  | .repeated block quantifier => block.Placed text ∧ quantifier.Placed text

/-- All parts of the pattern stand where they say. -/
def Placed (text : List Char) : Pattern → Prop
  | .bare block => block.Placed text
  | .row first others => first.Placed text ∧ RowPlaced text others

/-- All pieces of a row stand where they say. -/
def RowPlaced (text : List Char) : List Piece → Prop
  | [] => True
  | piece :: pieces => piece.Placed text ∧ RowPlaced text pieces

end

/-! ## All bytes -/

mutual

/-- The stretches in a block that have no parts: classes, literals, counts and braces. -/
def Block.leaves : Block → List Span
  | .charClass span _ => [span]
  | .group span body =>
    ⟨span.start, span.start + 1⟩ :: (body.leaves ++ [⟨span.stop - 1, span.stop⟩])

/-- The stretches in a piece that have no parts. -/
def Piece.leaves : Piece → List Span
  | .literal span _ => [span]
  | .repeated block quantifier => block.leaves ++ [quantifier.span]

/-- The stretches in a pattern that have no parts. -/
def leaves : Pattern → List Span
  | .bare block => block.leaves
  | .row first others => first.leaves ++ rowLeaves others

/-- The stretches in a row that have no parts. -/
def rowLeaves : List Piece → List Span
  | [] => []
  | piece :: pieces => piece.leaves ++ rowLeaves pieces

end

end Pattern

/-! ## Derivations -/

namespace Grammar

theorem Number.isDecimal (n : Number) : Pattern.IsDecimal n.digits.toList n.value :=
  ⟨n.nonempty, n.isDigit, UInt32.toNat_ofNatLT.symm⟩

theorem Count.placed_at {text : List Char} {offset : Nat} (count : Count)
    (h : StandsAt text offset count.text) : (count.at offset).Placed text := by
  cases count with
  | exactly n => exact .exactly rfl n.isDecimal h.shows
  | between min max => exact .between rfl min.isDecimal max.isDecimal h.shows

theorem Block.span_at (offset : Nat) (block : Block) :
    (block.at offset).span = ⟨offset, offset + byteLength block.text⟩ := by
  cases block <;> rfl

/-- The block and the count of a member fill its text. -/
theorem Member.tile_at (offset : Nat) (member : Member) :
    Tile offset (member.at offset).spans (offset + byteLength member.text) := by
  cases member with
  | literal text =>
    simp [Member.at, Pattern.Piece.spans, Pattern.Piece.blockSpan, Pattern.Piece.count,
      Pattern.Quantifier.implicitAt]
  | counted block count =>
    simp only [Member.at, Pattern.Piece.spans, Pattern.Piece.blockSpan, Pattern.Piece.count,
      Block.span_at, Count.at, Member.text, Text.byteLength_append, Text.tile_cons,
      Text.tile_nil]
    exact ⟨trivial, Nat.le_add_right _ _, trivial, Nat.le_add_right _ _, Nat.add_assoc ..⟩

theorem tile_rowAt (offset : Nat) (members : List Member) :
    Tile offset ((rowAt offset members).flatMap Pattern.Piece.spans)
      (offset + byteLength (rowText members)) := by
  induction members generalizing offset with
  | nil => rfl
  | cons member members ih =>
    rw [rowAt, List.flatMap_cons, rowText, Text.byteLength_append, ← Nat.add_assoc]
    exact Text.tile_append.2 ⟨_, member.tile_at offset, ih _⟩

/-- The blocks and counts of a level fill its text. -/
theorem Level.tile_at (offset : Nat) (level : Level) :
    Tile offset (level.at offset).spans (offset + byteLength level.text) := by
  cases level with
  | bare block => simp [Level.at, Pattern.spans, Block.span_at, Level.text]
  | row first others => exact tile_rowAt offset (first :: others)

mutual

theorem Block.placed_at {text : List Char} {offset : Nat} :
    (block : Block) → StandsAt text offset block.text → (block.at offset).Placed text
  | .charClass flags, h => h.shows
  | .group body, h => by
    have hsplit : (Block.group body).text = ['{'] ++ (body.text ++ ['}']) := rfl
    have hinner : StandsAt text (offset + 1) body.text := (hsplit ▸ h).right.left
    rw [Block.text] at h
    have hstop : offset + byteLength ('{' :: (body.text ++ ['}'])) - 1 =
        offset + 1 + byteLength body.text := by
      have hbrace : '{'.utf8Size = 1 ∧ '}'.utf8Size = 1 := ⟨rfl, rfl⟩
      simp only [Text.byteLength_cons, Text.byteLength_append, Text.byteLength_nil, hbrace]
      omega
    refine ⟨⟨body.text, h.shows⟩, ?_, Level.placed_at body hinner⟩
    exact hstop ▸ body.tile_at (offset + 1)

theorem Member.placed_at {text : List Char} {offset : Nat} :
    (member : Member) → StandsAt text offset member.text → (member.at offset).Placed text
  | .literal _, h => ⟨h.shows, rfl⟩
  | .counted block count, h => ⟨Block.placed_at block h.left, count.placed_at h.right⟩

/-- Where the text of a level stands, all parts of its pattern stand where they say. -/
theorem Level.placed_at {text : List Char} {offset : Nat} :
    (level : Level) → StandsAt text offset level.text → (level.at offset).Placed text
  | .bare block, h => Block.placed_at block h
  | .row first others, h => ⟨Member.placed_at first h.left, placed_rowAt others h.right⟩

theorem placed_rowAt {text : List Char} {offset : Nat} :
    (members : List Member) → StandsAt text offset (rowText members) →
      Pattern.RowPlaced text (rowAt offset members)
  | [], _ => trivial
  | member :: members, h => ⟨Member.placed_at member h.left, placed_rowAt members h.right⟩

end

end Grammar

namespace Pattern

variable {text : List Char}

/-! ## Nothing left out, nothing taken twice -/

mutual

/-- The parts of a block that have no parts fill it. -/
theorem Block.tile_leaves :
    (block : Block) → block.Placed text → Tile block.span.start block.leaves block.span.stop
  | .charClass span flags, h => by
    have hle : span.start ≤ span.stop := h.2 ▸ Nat.le_add_right _ _
    exact ⟨rfl, hle, rfl⟩
  | .group span body, ⟨_, htile, hbody⟩ => by
    have hleaves := tile_leaves body hbody htile
    -- each brace takes one byte, and the body lies between them
    have hclosing : Tile (span.stop - 1) [⟨span.stop - 1, span.stop⟩] span.stop :=
      ⟨rfl, Nat.sub_le _ _, rfl⟩
    exact ⟨rfl, Nat.le_succ _, Text.tile_append.2 ⟨_, hleaves, hclosing⟩⟩

theorem Piece.tile_leaves {start stop : Nat} :
    (piece : Piece) → piece.Placed text → Tile start piece.spans stop →
      Tile start piece.leaves stop
  | .literal _ _, _, ⟨hstart, hle, _, _, hstop⟩ => ⟨hstart, hle, hstop⟩
  | .repeated block _, ⟨hblock, _⟩, ⟨hstart, _, hcount⟩ =>
    Text.tile_append.2 ⟨_, hstart ▸ Block.tile_leaves block hblock, hcount⟩

/-- The parts of a pattern that have no parts fill the same bytes as those at its top level. -/
theorem tile_leaves {start stop : Nat} :
    (p : Pattern) → p.Placed text → Tile start p.spans stop → Tile start p.leaves stop
  | .bare block, h, htile => by
    obtain ⟨rfl, -, rfl⟩ := htile
    exact Block.tile_leaves block h
  | .row first others, ⟨hfirst, hothers⟩, htile => by
    rw [spans, List.flatMap_cons] at htile
    obtain ⟨mid, htile, hlater⟩ := Text.tile_append.1 htile
    exact Text.tile_append.2 ⟨mid, Piece.tile_leaves first hfirst htile,
      tile_rowLeaves others hothers hlater⟩

theorem tile_rowLeaves {start stop : Nat} :
    (pieces : List Piece) → RowPlaced text pieces → Tile start (pieces.flatMap Piece.spans) stop →
      Tile start (rowLeaves pieces) stop
  | [], _, htile => htile
  | piece :: pieces, ⟨hpiece, hpieces⟩, htile => by
    rw [List.flatMap_cons] at htile
    obtain ⟨mid, htile, hlater⟩ := Text.tile_append.1 htile
    exact Text.tile_append.2 ⟨mid, Piece.tile_leaves piece hpiece htile,
      tile_rowLeaves pieces hpieces hlater⟩

end

/-! ## Pattern texts -/

/-- All parts of the pattern that a text says stand where they say. -/
theorem placed_of_ofText? {text : String} {p : Pattern} (h : ofText? text = .ok p) :
    p.Placed text.toList := by
  obtain ⟨level, -, htext, rfl⟩ := ofText?_eq_ok_iff.1 h
  exact level.placed_at (htext ▸ StandsAt.whole level.text)

/-- The blocks and counts at the top level fill the text. -/
theorem tile_of_ofText? {text : String} {p : Pattern} (h : ofText? text = .ok p) :
    Tile 0 p.spans (byteLength text.toList) := by
  obtain ⟨level, -, htext, rfl⟩ := ofText?_eq_ok_iff.1 h
  have htile := level.tile_at 0
  rwa [htext, Nat.zero_add] at htile

/-- **The places of a pattern's parts.** In the pattern that a text says, the blocks and counts at
the top level stand side by side from the beginning of the text to its end, those in a group from
behind its opening brace to its closing one, and under each of them stands what it says. So every
byte of the text belongs to exactly one class, literal, count or brace. -/
theorem tiles_of_ofText? {text : String} {p : Pattern} (h : ofText? text = .ok p) :
    Tile 0 p.spans (byteLength text.toList) ∧ p.Placed text.toList ∧
      ∀ byte, p.leaves.countP (·.holds byte) =
        if byte < byteLength text.toList then 1 else 0 := by
  refine ⟨tile_of_ofText? h, placed_of_ofText? h, fun byte => ?_⟩
  rw [(tile_leaves _ (placed_of_ofText? h) (tile_of_ofText? h)).countP_holds byte]
  simp only [Nat.zero_le, true_and]

theorem tiles_of_ofText?_accented :
    ∃ p, ofText? "<é→>\x7b[0100](02,3)<x>\x7d(0)" = .ok p ∧ Tile 0 p.spans 27 ∧
      p.Placed "<é→>\x7b[0100](02,3)<x>\x7d(0)".toList := by
  have hok : (ofText? "<é→>\x7b[0100](02,3)<x>\x7d(0)").isOk = true := by decide +kernel
  have hlength : byteLength "<é→>\x7b[0100](02,3)<x>\x7d(0)".toList = 27 := by decide +kernel
  obtain ⟨p, hp⟩ := isOk_iff.1 hok
  obtain ⟨htile, hplaced, -⟩ := tiles_of_ofText? hp
  exact ⟨p, hp, hlength ▸ htile, hplaced⟩

end Pattern

end Moniker
