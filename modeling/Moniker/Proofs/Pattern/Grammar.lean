import Moniker.Proofs.Pattern.Lexemes
import Moniker.Pattern.Parser

/-!
# The grammar of patterns

A derivation is a tree that says how a text comes about by the grammar

    Level ::= Block | Member+       with at most one group among the members
    Member ::= Literal | Block Count
    Block ::= '[' flags ']' | '{' Level '}'
    Literal ::= '<' text '>'
    Count ::= '(' Number ')' | '(' Number ',' Number ')'

in which nothing is skipped. What may stand between delimiters and which numbers there are is
part of the types `Flags`, `Literal` and `Number`. From a derivation follow

* `Level.text` — the text that it derives, and `Level.tokens` the tokens of this text;
* `Level.at` — the pattern that it stands for, with the bytes that all parts take;
* `Level.ast` — the same without the bytes.

A `Derivation` has no two groups at any of its levels.
-/

namespace Moniker

/-! ## Patterns without positions -/

mutual

/-- A block as it stands in a pattern, without its place. -/
inductive Ast.Block where
  | literal (text : String)
  | charClass (flags : String)
  | group (body : Ast)

/-- A block with its count. The count of a literal is implicit. -/
inductive Ast.Counted where
  | mk (block : Ast.Block) (min : UInt32) (max? : Option UInt32) (implicit : Bool)

/-- A pattern without the places of its parts. -/
inductive Ast where
  /-- a lone block without a count -/
  | bare (block : Ast.Block)
  /-- a lone block with its count -/
  | single (counted : Ast.Counted)
  /-- two or more of them in order -/
  | sequence (counted : List Ast.Counted)

end

/-- One or more blocks with their counts. -/
def Ast.ofRow (first : Ast.Counted) : List Ast.Counted → Ast
  | [] => .single first
  | second :: others => .sequence (first :: second :: others)

/-- A literal stands once, without a count saying so. -/
def Ast.Counted.once (text : String) : Ast.Counted := ⟨.literal text, 1, none, true⟩

namespace Pattern

mutual

/-- The block without the places of its parts. -/
def Block.ast : Block → Ast.Block
  | .charClass _ flags => .charClass flags
  | .group _ body => .group body.ast

/-- The piece without the places of its parts. -/
def Piece.ast : Piece → Ast.Counted
  | piece@(.literal _ text) => ⟨.literal text, piece.count.min, piece.count.max?, true⟩
  | piece@(.repeated block _) => ⟨block.ast, piece.count.min, piece.count.max?, false⟩

/-- The pattern without the places of its parts. -/
def ast : Pattern → Ast
  | .bare block => .bare block.ast
  | .row first others => .ofRow first.ast (rowAst others)

/-- The pieces of a row without the places of their parts. -/
def rowAst : List Piece → List Ast.Counted
  | [] => []
  | piece :: pieces => piece.ast :: rowAst pieces

end

end Pattern

namespace Grammar

open Pattern (Token Mode Written Quantifier)
open Text (Span byteLength)

/-! ## Derivations -/

/-- Digits that write a number of at most 32 bits. There may be zeros in front. -/
@[ext]
structure Number where
  digits : String
  nonempty : digits.toList ≠ []
  isDigit : ∀ c ∈ digits.toList, c.isDigit = true
  small : Nat.ofDigitChars 10 digits.toList 0 < UInt32.size

/-- What stands between the brackets of a class. -/
@[ext]
structure Flags where
  text : String
  allowed : ∀ c ∈ text.toList, c ∉ ['[', ']']

/-- What stands between the angle brackets of a literal. -/
@[ext]
structure Literal where
  text : String
  allowed : ∀ c ∈ text.toList, c ∉ ['<', '>', '{', '}']

/-- A written repeat count. -/
inductive Count where
  | exactly (n : Number)
  | between (min max : Number)

mutual

/-- What a count can follow. -/
inductive Block where
  | charClass (flags : Flags)
  | group (body : Level)

/-- One of several things side by side. -/
inductive Member where
  | literal (text : Literal)
  | counted (block : Block) (count : Count)

/-- All that stands at one level: a block without a count, or one or more members. -/
inductive Level where
  | bare (block : Block)
  | row (first : Member) (others : List Member)

end

/-- Whether a block is a group. -/
def Block.isGroup : Block → Bool
  | .charClass _ => false
  | .group _ => true

/-- Whether a member is a group with its count. -/
def Member.isGroup : Member → Bool
  | .literal _ => false
  | .counted block _ => block.isGroup

mutual

/-- In the block no level has two groups. -/
def Block.Proper : Block → Prop
  | .charClass _ => True
  | .group body => body.Proper

/-- In the member no level has two groups. -/
def Member.Proper : Member → Prop
  | .literal _ => True
  | .counted block _ => block.Proper

/-- Neither this level nor one inside of it has two groups. -/
def Level.Proper : Level → Prop
  | .bare block => block.Proper
  | .row first others =>
    (first :: others).countP Member.isGroup ≤ 1 ∧ first.Proper ∧ RowProper others

/-- In the members no level has two groups; side by side there may be several. -/
def RowProper : List Member → Prop
  | [] => True
  | member :: members => member.Proper ∧ RowProper members

end

/-- A derivation of a pattern. -/
@[ext]
structure Derivation where
  level : Level
  proper : level.Proper

/-! ## Texts and tokens -/

/-- The number that the digits write. -/
def Number.value (n : Number) : UInt32 :=
  UInt32.ofNatLT (Nat.ofDigitChars 10 n.digits.toList 0) n.small

/-- The text of a count. -/
def Count.text : Count → List Char
  | .exactly n => '(' :: (n.digits.toList ++ [')'])
  | .between min max => '(' :: (min.digits.toList ++ ',' :: (max.digits.toList ++ [')']))

mutual

/-- The text of a block. -/
def Block.text : Block → List Char
  | .charClass flags => '[' :: (flags.text.toList ++ [']'])
  | .group body => '{' :: (body.text ++ ['}'])

/-- The text of a member. -/
def Member.text : Member → List Char
  | .literal literal => '<' :: (literal.text.toList ++ ['>'])
  | .counted block count => block.text ++ count.text

/-- The text of a level. -/
def Level.text : Level → List Char
  | .bare block => block.text
  | .row first others => first.text ++ rowText others

/-- The text of members side by side. -/
def rowText : List Member → List Char
  | [] => []
  | member :: members => member.text ++ rowText members

end

/-- The text that is derived. -/
def Derivation.text (d : Derivation) : List Char := d.level.text

/-- The tokens of a count. -/
def Count.tokens : Count → List Token
  | .exactly n => [.openParen, .number n.digits, .closeParen]
  | .between min max =>
    [.openParen, .number min.digits, .comma, .number max.digits, .closeParen]

mutual

/-- The tokens of a block. -/
def Block.tokens : Block → List Token
  | .charClass flags => [.flags flags.text]
  | .group body => .openBrace :: (body.tokens ++ [.closeBrace])

/-- The tokens of a member. -/
def Member.tokens : Member → List Token
  | .literal literal => [.literal literal.text]
  | .counted block count => block.tokens ++ count.tokens

/-- The tokens of a level. -/
def Level.tokens : Level → List Token
  | .bare block => block.tokens
  | .row first others => first.tokens ++ rowTokens others

/-- The tokens of members side by side. -/
def rowTokens : List Member → List Token
  | [] => []
  | member :: members => member.tokens ++ rowTokens members

end

/-! ## Patterns -/

/-- The first number of a count. -/
def Count.min : Count → UInt32
  | .exactly n => n.value
  | .between min _ => min.value

/-- The second number of a count, if one is written. -/
def Count.max? : Count → Option UInt32
  | .exactly _ => none
  | .between _ max => some max.value

/-- The count as it stands at `offset`. -/
def Count.at (offset : Nat) (count : Count) : Quantifier :=
  ⟨⟨offset, offset + byteLength count.text⟩, count.min, count.max?⟩

mutual

/-- The block as it stands at `offset`. -/
def Block.at (offset : Nat) : Block → Pattern.Block
  | .charClass flags =>
    .charClass ⟨offset, offset + byteLength (Block.charClass flags).text⟩ flags.text
  | .group body =>
    .group ⟨offset, offset + byteLength (Block.group body).text⟩ (body.at (offset + 1))

/-- The member as it stands at `offset`. -/
def Member.at (offset : Nat) : Member → Pattern.Piece
  | .literal literal =>
    .literal ⟨offset, offset + byteLength (Member.literal literal).text⟩ literal.text
  | .counted block count =>
    .repeated (block.at offset) (count.at (offset + byteLength block.text))

/-- The level as it stands at `offset`. -/
def Level.at (offset : Nat) : Level → Pattern
  | .bare block => .bare (block.at offset)
  | .row first others =>
    .row (first.at offset) (rowAt (offset + byteLength first.text) others)

/-- The members as they stand side by side from `offset` on. -/
def rowAt (offset : Nat) : List Member → List Pattern.Piece
  | [] => []
  | member :: members => member.at offset :: rowAt (offset + byteLength member.text) members

end

mutual

/-- What the block stands for. -/
def Block.ast : Block → Ast.Block
  | .charClass flags => .charClass flags.text
  | .group body => .group body.ast

/-- What the member stands for. -/
def Member.ast : Member → Ast.Counted
  | .literal literal => .once literal.text
  | .counted block count => ⟨block.ast, count.min, count.max?, false⟩

/-- What the level stands for. -/
def Level.ast : Level → Ast
  | .bare block => .bare block.ast
  | .row first others => .ofRow first.ast (rowAst others)

/-- What the members side by side stand for. -/
def rowAst : List Member → List Ast.Counted
  | [] => []
  | member :: members => member.ast :: rowAst members

end

/-- The pattern that a derivation stands for, with the places of its parts. -/
def Derivation.pattern (d : Derivation) : Pattern := d.level.at 0

/-- The pattern that a derivation stands for. -/
def Derivation.ast (d : Derivation) : Ast := d.level.ast

end Grammar

end Moniker
