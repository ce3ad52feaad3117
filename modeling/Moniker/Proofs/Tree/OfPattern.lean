import Moniker.Proofs.Pattern.Parsing
import Moniker.Tree.OfPattern

/-!
# How a tree comes of a pattern

Each part of a pattern leaves its node if all parts of it do. These equivalences take the making of
a tree apart, and put it together again.

* `Tree.nodesOfPieces?_cons_iff`, `Tree.nodesOfPieces?_append_iff` — the nodes of pieces in a row;
* `Tree.nodeOfBody?_row_iff`, `Tree.ofPattern?_row_iff` — what becomes of a row in a group, and of
  one that is a whole pattern;
* `Tree.compile_eq_ok_iff` — the tree of a text is that of a level with this text.
-/

namespace Moniker.Tree

open Pattern (Piece)

theorem classOf?_eq_ok {offset : Nat} {flags : String} {cls : CharClass} :
    classOf? offset flags = .ok cls ↔ CharClass.ofFlags? flags.toList = .ok cls :=
  mapError_eq_ok_iff

/-! ## Rows -/

section

variable {first piece : Piece} {others pieces later : List Piece} {nodes : List Node} {t : Tree}

theorem nodesOfPieces?_cons_iff :
    nodesOfPieces? (piece :: pieces) = .ok nodes ↔
      ∃ node after, nodeOfPiece? piece = .ok node ∧ nodesOfPieces? pieces = .ok after ∧
        nodes = node :: after := by
  simp only [nodesOfPieces?, bind_eq_ok_iff, Except.ok.injEq, exists_and_left, eq_comm (b := nodes)]

/-- The nodes of pieces in a row are those of the first ones and those of the others. -/
theorem nodesOfPieces?_append_iff :
    nodesOfPieces? (pieces ++ later) = .ok nodes ↔
      ∃ before after, nodesOfPieces? pieces = .ok before ∧ nodesOfPieces? later = .ok after ∧
        nodes = before ++ after := by
  induction pieces generalizing nodes with
  | nil => simp [nodesOfPieces?]
  | cons piece pieces ih =>
    rw [List.cons_append, nodesOfPieces?_cons_iff]
    constructor
    · rintro ⟨node, nodes, hnode, hnodes, rfl⟩
      obtain ⟨before, after, hbefore, hafter, rfl⟩ := ih.1 hnodes
      exact ⟨node :: before, after, nodesOfPieces?_cons_iff.2 ⟨node, before, hnode, hbefore, rfl⟩,
        hafter, rfl⟩
    · rintro ⟨before, after, hbefore, hafter, rfl⟩
      obtain ⟨node, nodes, hnode, hnodes, rfl⟩ := nodesOfPieces?_cons_iff.1 hbefore
      exact ⟨node, nodes ++ after, hnode, ih.2 ⟨nodes, after, hnodes, hafter, rfl⟩, rfl⟩

theorem nodeOfBody?_row_iff {range : Range} {n : Node} :
    nodeOfBody? range (.row first others) = .ok n ↔
      ∃ node nodes, nodeOfPiece? first = .ok node ∧ nodesOfPieces? others = .ok nodes ∧
        n = Node.ofRow range node nodes := by
  simp only [nodeOfBody?, bind_eq_ok_iff, Except.ok.injEq, exists_and_left, eq_comm (b := n)]

theorem ofPattern?_row_iff :
    ofPattern? (.row first others) = .ok t ↔
      ∃ node nodes, nodeOfPiece? first = .ok node ∧ nodesOfPieces? others = .ok nodes ∧
        t = ofRow node nodes := by
  simp only [ofPattern?, bind_eq_ok_iff, Except.ok.injEq, exists_and_left, eq_comm (b := t)]

end

theorem nodes_ofRow (node : Node) (nodes : List Node) :
    (ofRow node nodes).nodes = node :: nodes := by
  cases nodes <;> rfl

/-! ## Texts -/

variable {text : String} {t : Tree}

/-- The tree of a text is that of its level. -/
theorem compile_of_level {level : Grammar.Level} (hproper : level.Proper)
    (htext : level.text = text.toList) :
    compile text = .ok t ↔ ofPattern? (level.at 0) = .ok t := by
  rw [compile, Pattern.ofText?_eq_ok_iff.2 ⟨level, hproper, htext, rfl⟩]
  exact mapError_eq_ok_iff

/-- A text has a tree if there is a level with this text that has one. -/
theorem compile_eq_ok_iff :
    compile text = .ok t ↔
      ∃ level : Grammar.Level, level.Proper ∧ level.text = text.toList ∧
        ofPattern? (level.at 0) = .ok t := by
  constructor
  · intro h
    obtain ⟨pattern, hpattern, htree⟩ := bind_eq_ok_iff.1 h
    rw [mapError_eq_ok_iff] at hpattern htree
    obtain ⟨level, hproper, htext, rfl⟩ := Pattern.ofText?_eq_ok_iff.1 hpattern
    exact ⟨level, hproper, htext, htree⟩
  · rintro ⟨level, hproper, htext, htree⟩
    exact (compile_of_level hproper htext).2 htree

end Moniker.Tree
