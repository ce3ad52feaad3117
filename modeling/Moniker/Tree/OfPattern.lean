import Moniker.Pattern.Parser
import Moniker.Tree.Basic

/-!
# From patterns to trees

A pattern becomes a tree once the flags of its classes have been read.

* `Tree.ofPattern?` — the tree of a pattern, or the first class, in the order of the text,
  whose flags are wrong;
* `Tree.compile` — the tree of a pattern text, or what is wrong with the text.

Braces that add nothing leave no node behind: a whole pattern in braces means what stands
between them, and a group around a lone block without a count passes its own range on to
that block. Ranges are kept as written, inverted ones too.
-/

namespace Moniker

open Pattern (Block Piece)

/-- A class whose flags are wrong. -/
structure ClassError where
  /-- the byte where the class begins -/
  offset : Nat
  /-- what stands between its brackets -/
  flags : String
  fault : CharClass.FlagsFault
deriving DecidableEq, Repr

/-- Why a text has no tree. -/
inductive CompileError where
  /-- the text is not a pattern -/
  | malformed (pattern : String) (fault : Pattern.Fault)
  /-- the text is a pattern, but the flags of a class in it are wrong -/
  | badClass (pattern : String) (error : ClassError)
deriving DecidableEq, Repr

/-- The wording of an error. -/
def CompileError.message : CompileError → String
  | malformed pattern fault =>
    "malformed pattern " ++ Text.quote pattern ++ ": " ++ fault.message
  | badClass pattern error =>
    "malformed pattern " ++ Text.quote pattern ++
      s!": invalid character class [{error.flags}] at byte {error.offset}: " ++ error.fault.reason

namespace Tree

/-- The class that the flags at `offset` choose. -/
def classOf? (offset : Nat) (flags : String) : Except ClassError CharClass :=
  (CharClass.ofFlags? flags.toList).mapError (⟨offset, flags, ·⟩)

/-- The node of a group with one or more children. -/
def Node.ofRow (range : Range) (first : Node) : List Node → Node
  | [] => .single range first
  | second :: others => .group range (first :: second :: others)

/-- The tree with one or more nodes at its top. -/
def ofRow (first : Node) : List Node → Tree
  | [] => .node first
  | second :: others => .list (first :: second :: others)

mutual

/-- The node of a block that is repeated as often as `range` says. -/
def nodeOfBlock? (range : Range) : Block → Except ClassError Node
  | .charClass span flags => .chars range <$> classOf? span.start flags
  | .group _ body => nodeOfBody? range body

/-- The node of a group with the given body that is repeated as often as `range` says. -/
def nodeOfBody? (range : Range) : Pattern → Except ClassError Node
  | .bare block => nodeOfBlock? range block
  | .row first others => do
    let child ← nodeOfPiece? first
    let children ← nodesOfPieces? others
    .ok (Node.ofRow range child children)

/-- The node of a piece. -/
def nodeOfPiece? : Piece → Except ClassError Node
  | piece@(.literal _ text) => .ok (.literal piece.count.range text)
  | piece@(.repeated block _) => nodeOfBlock? piece.count.range block

/-- The nodes of pieces in a row. -/
def nodesOfPieces? : List Piece → Except ClassError (List Node)
  | [] => .ok []
  | piece :: pieces => do
    let node ← nodeOfPiece? piece
    let nodes ← nodesOfPieces? pieces
    .ok (node :: nodes)

end

/-- The tree of a pattern. -/
def ofPattern? : Pattern → Except ClassError Tree
  | .bare (.group _ body) => ofPattern? body
  | .bare (.charClass span flags) => .node <$> nodeOfBlock? .once (.charClass span flags)
  | .row first others => do
    let node ← nodeOfPiece? first
    let nodes ← nodesOfPieces? others
    .ok (ofRow node nodes)

/-- The tree of a pattern text. -/
def compile (text : String) : Except CompileError Tree := do
  let pattern ← (Pattern.ofText? text).mapError (.malformed text)
  (ofPattern? pattern).mapError (.badClass text)

end Tree

end Moniker
