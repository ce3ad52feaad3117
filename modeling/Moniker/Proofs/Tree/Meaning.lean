import Moniker.Proofs.Tree.Language
import Moniker.Proofs.Tree.OfPattern

/-!
# A pattern and its tree mean the same

A pattern as written has a language of its own, part by part: a class its characters, a literal
its text, a group what its body has, a counted block as many words as its count allows. Making a
tree of the pattern drops braces and joins counts, and keeps this language.

* `Pattern.language` — the language of a pattern as written;
* `Tree.language_ofPattern` — the tree of a pattern has the language of the pattern;
* `Tree.generated_iff_written` — the names made up for a pattern text are the words of the
  pattern that it says.
-/

namespace Moniker

open Draw (Words)

namespace Pattern

mutual

/-- The words of a block. -/
def Block.language : Block → Language Char
  | .charClass _ flags =>
    {w | ∃ p c, ('1', p) ∈ flags.toList.zip Pool.all ∧ p.covers c = true ∧ w = [c]}
  | .group _ body => body.language

/-- The words of a member of a row. -/
def Piece.language : Piece → Language Char
  | .literal _ text => {text.toList}
  | .repeated block quantifier =>
    {w | ∃ n, quantifier.min.toNat ≤ n ∧ n ≤ (quantifier.max?.getD quantifier.min).toNat ∧
      w ∈ block.language ^ n}

/-- The words of a pattern. -/
def language : Pattern → Language Char
  | .bare block => block.language
  | .row first others => first.language * rowLanguage others

/-- The words of pieces in a row. -/
def rowLanguage : List Piece → Language Char
  | [] => 1
  | piece :: pieces => piece.language * rowLanguage pieces

end

theorem Piece.language_repeated (block : Block) (quantifier : Quantifier) :
    (Piece.repeated block quantifier).language = quantifier.range.counted block.language := by
  ext w
  rw [Range.mem_counted]
  simp only [Range.Contains, Quantifier.range, and_assoc]
  rfl

end Pattern

/-! ## Classes -/

namespace CharClass

/-- The pools that are chosen are those whose flag is set. -/
theorem mem_chosen {flags : List Char} {p : Pool} :
    p ∈ chosen flags ↔ ('1', p) ∈ flags.zip Pool.all := by
  simp [chosen]

/-- What flags have to be to choose a class, and which class they choose. -/
theorem ofFlags?_eq_ok {flags : List Char} {cls : CharClass} :
    ofFlags? flags = .ok cls ↔
      flags.length = Pool.all.length ∧ (∀ flag ∈ flags, flag = '0' ∨ flag = '1') ∧
        cls.pools = Pool.all.filter (· ∈ chosen flags) := by
  have hflags : (flags.any fun flag => flag ≠ '0' ∧ flag ≠ '1') = false ↔
      ∀ flag ∈ flags, flag = '0' ∨ flag = '1' := by
    simp [or_iff_not_imp_left]
  rw [← ofPools?_eq_some_iff, ← hflags, ofFlags?]
  split
  · next hlen => simp [hlen]
  · next hlen =>
    rw [ne_eq, not_not] at hlen
    split
    · next hany => simp only [hany, Bool.true_eq_false, reduceCtorEq, false_and, and_false]
    · next hany =>
      rw [Bool.not_eq_true] at hany
      simp only [hlen, hany, true_and]
      cases ofPools? (chosen flags) <;> simp

/-- The language of a class is that of its flags. -/
theorem language_of_ofFlags? {span : Text.Span} {flags : String} {cls : CharClass}
    (h : ofFlags? flags.toList = .ok cls) :
    cls.language = (Pattern.Block.charClass span flags).language := by
  obtain ⟨-, -, hpools⟩ := ofFlags?_eq_ok.1 h
  ext w
  rw [mem_language]
  simp only [mem_alphabet, hpools, List.mem_filter, Pool.mem_all, true_and, decide_eq_true_eq,
    mem_chosen]
  constructor
  · rintro ⟨c, ⟨p, hp, hc⟩, rfl⟩
    exact ⟨p, c, hp, hc, rfl⟩
  · rintro ⟨p, c, hp, hc, rfl⟩
    exact ⟨c, ⟨p, hp, hc⟩, rfl⟩

end CharClass

namespace Tree

open Pattern (Block Piece)

/-! ## Nodes -/

/-- A row of nodes, as often as a range says. -/
theorem Node.language_ofRow (range : Range) (first : Node) (others : List Node) :
    (Node.ofRow range first others).language =
      range.counted (first.language * Node.rowLanguage others) := by
  cases others with
  | nil => rw [Node.ofRow, Node.language_single, Node.rowLanguage_nil, mul_one]
  | cons second others => rfl

theorem language_ofRow (first : Node) (others : List Node) :
    (ofRow first others).language = first.language * Node.rowLanguage others := by
  cases others with
  | nil => rfl
  | cons second others => rfl

mutual

/-- The node of a block has the words of the block, as often as the range says. -/
theorem language_nodeOfBlock {range : Range} {node : Node} :
    (block : Block) → nodeOfBlock? range block = .ok node →
      node.language = range.counted block.language
  | .charClass span flags, h => by
    obtain ⟨cls, hcls, rfl⟩ := map_eq_ok_iff.1 h
    rw [Node.language_chars, CharClass.language_of_ofFlags? (classOf?_eq_ok.1 hcls)]
  | .group _ body, h => language_nodeOfBody body h

/-- The node of a group has the words of its body, as often as the range says. -/
theorem language_nodeOfBody {range : Range} {node : Node} :
    (body : Pattern) → nodeOfBody? range body = .ok node →
      node.language = range.counted body.language
  | .bare block, h => language_nodeOfBlock block h
  | .row first others, h => by
    obtain ⟨child, children, hchild, hchildren, rfl⟩ := nodeOfBody?_row_iff.1 h
    rw [Node.language_ofRow, language_nodeOfPiece first hchild,
      language_nodesOfPieces others hchildren, Pattern.language]

theorem language_nodeOfPiece {node : Node} :
    (piece : Piece) → nodeOfPiece? piece = .ok node → node.language = piece.language
  | .literal _ text, h => by
    obtain rfl := Except.ok.inj h
    rfl
  | .repeated block quantifier, h => by
    rw [Piece.language_repeated]
    exact language_nodeOfBlock block h

theorem language_nodesOfPieces {nodes : List Node} :
    (pieces : List Piece) → nodesOfPieces? pieces = .ok nodes →
      Node.rowLanguage nodes = Pattern.rowLanguage pieces
  | [], h => by
    obtain rfl := Except.ok.inj h
    rfl
  | piece :: pieces, h => by
    obtain ⟨node, nodes, hnode, hnodes, rfl⟩ := nodesOfPieces?_cons_iff.1 h
    rw [Node.rowLanguage_cons, language_nodeOfPiece piece hnode,
      language_nodesOfPieces pieces hnodes, Pattern.rowLanguage]

end

/-! ## Trees -/

/-- The tree of a pattern has the language of the pattern. -/
theorem language_ofPattern {t : Tree} :
    (p : Pattern) → ofPattern? p = .ok t → t.language = p.language
  | .bare (.group _ body), h => language_ofPattern body h
  | .bare (.charClass span flags), h => by
    obtain ⟨node, hnode, rfl⟩ := map_eq_ok_iff.1 h
    rw [language, nodes_node, Node.rowLanguage_cons, Node.rowLanguage_nil, mul_one,
      language_nodeOfBlock _ hnode, Range.counted_once, Pattern.language]
  | .row first others, h => by
    obtain ⟨node, nodes, hnode, hnodes, rfl⟩ := ofPattern?_row_iff.1 h
    rw [language_ofRow, language_nodeOfPiece first hnode, language_nodesOfPieces others hnodes,
      Pattern.language]

/-- **Making a tree keeps the meaning.** A text that has a tree says a pattern, and the names
that some sequence of random words makes of the tree are the words of that pattern. Nothing is
asked of the ranges: an inverted one has no words on either side. -/
theorem generated_iff_written {text : String} {t : Tree} (h : compile text = .ok t) :
    ∃ p, Pattern.ofText? text = .ok p ∧ ∀ name : String,
      (∃ words : Words, (t.generate.run words).1 = .value name) ↔ name.toList ∈ p.language := by
  obtain ⟨p, hp, ht⟩ := bind_eq_ok_iff.1 h
  refine ⟨p, mapError_eq_ok_iff.1 hp, fun name => ?_⟩
  rw [← mem_language_iff, language_ofPattern p (mapError_eq_ok_iff.1 ht)]

/-- Of the three pairs of braces in the text below one is left. -/
def braced : Tree :=
  .list [.single ⟨0, 1⟩ (.chars ⟨2, 2⟩ (.ofPool .digit)), .literal .once "_"]

theorem generated_iff_written_braced :
    compile "\x7b\x7b\x7b[0010]\x7d(2)\x7d(0,1)<_>\x7d" = .ok braced ∧
      ∃ p, Pattern.ofText? "\x7b\x7b\x7b[0010]\x7d(2)\x7d(0,1)<_>\x7d" = .ok p ∧
        ∀ name : String, (∃ words : Words, (braced.generate.run words).1 = .value name) ↔
          name.toList ∈ p.language := by
  have hcompile : compile "\x7b\x7b\x7b[0010]\x7d(2)\x7d(0,1)<_>\x7d" = .ok braced := by
    decide +kernel
  exact ⟨hcompile, generated_iff_written hcompile⟩

end Tree

end Moniker
