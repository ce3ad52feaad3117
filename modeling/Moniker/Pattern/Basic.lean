import Moniker.Range
import Moniker.Text.Span

/-!
# Naming patterns as written

A `Pattern` is what a pattern text says, before the flags of its classes are looked at:

* a `Block` is a class `[flags]` or a group `{...}` with a pattern of its own inside;
* a `Piece` is a literal `<text>`, which is never counted, or a block with a repeat count;
* a `Pattern` is one block without a count, or one or more pieces in a row.

That a literal has no written count, that a block in a row has one, and that a row is not
empty, is therefore part of the types. All parts carry the bytes that they take in the
pattern text.
-/

namespace Moniker

open Text (Span)

namespace Pattern

/-- A repeat count: `(min)` or `(min,max)`. -/
structure Quantifier where
  /-- from the opening to the closing parenthesis, if it is written -/
  span : Span
  min : UInt32
  /-- the second number, if one is written -/
  max? : Option UInt32
deriving DecidableEq, Repr

/-- The range that a count stands for: `(n)` is short for `(n,n)`. -/
def Quantifier.range (q : Quantifier) : Range := ⟨q.min, q.max?.getD q.min⟩

/-- The count that is not written: once. It takes no bytes. -/
def Quantifier.implicitAt (offset : Nat) : Quantifier := ⟨⟨offset, offset⟩, 1, none⟩

end Pattern

open Pattern (Quantifier)

mutual

/-- Something that a repeat count can follow. -/
inductive Pattern.Block where
  /-- `[flags]`, the flags as written -/
  | charClass (span : Span) (flags : String)
  /-- `{body}` -/
  | group (span : Span) (body : Pattern)

/-- A member of a row. -/
inductive Pattern.Piece where
  /-- `<text>` -/
  | literal (span : Span) (text : String)
  /-- a block and its repeat count -/
  | repeated (block : Pattern.Block) (quantifier : Quantifier)

/-- A pattern, or the body of a group. -/
inductive Pattern where
  /-- one block without a repeat count -/
  | bare (block : Pattern.Block)
  /-- one or more pieces in a row -/
  | row (first : Pattern.Piece) (others : List Pattern.Piece)

end

namespace Pattern

/-- The bytes of a block, delimiters included. -/
def Block.span : Block → Span
  | .charClass span _ | .group span _ => span

/-- The bytes of a piece without those of its count. -/
def Piece.blockSpan : Piece → Span
  | .literal span _ => span
  | .repeated block _ => block.span

/-- The count of a piece. That of a literal is not written, and stands at its end. -/
def Piece.count : Piece → Quantifier
  | .literal span _ => .implicitAt span.stop
  | .repeated _ quantifier => quantifier

/-- Whether a block is a group. -/
def Block.isGroup : Block → Bool
  | .charClass .. => false
  | .group .. => true

/-- Whether a piece is a group with its repeat count. -/
def Piece.isGroup : Piece → Bool
  | .literal .. => false
  | .repeated block _ => block.isGroup

end Pattern

end Moniker
