import Moniker.Proofs.Tree.Expression
import Moniker.Proofs.Tree.OfPattern

/-!
# Trees that come from patterns

Not every tree is that of a pattern. A pattern writes no count after a literal, no group around
nothing, and at most one group at a level; and what it adds in braces that hold one thing only
leaves a node with one child, or none at all. This module says which trees remain and that no
pattern has another one.

* `Tree.WellFormed` — every node is as a pattern can write it, and so is the row at the top;
* `Tree.wellFormed_of_compile` — the tree of a pattern text is well-formed.

Why it holds shows in the derivation of the text: its literals hold no reserved character, and
none of its levels has two groups. A group may leave a node that is no group, but a class never
leaves one, so groups do not become more.
-/

namespace Moniker

namespace Tree

/-! ## Well-formed trees -/

/-- Whether a node is a group, of several children or of one. -/
def Node.isGroup : Node → Bool
  | .literal .. | .chars .. => false
  | .group .. | .single .. => true

/-- What nodes side by side have to be like: several, and at most one of them a group. -/
structure Node.Siblings (nodes : List Node) : Prop where
  several : 2 ≤ nodes.length
  oneGroup : nodes.countP Node.isGroup ≤ 1

/-- What a node has to be like, apart from the nodes below it. The alphabet of a class is always
that of its pools. -/
def Node.Regular : Node → Prop
  | .literal range text => range = .once ∧ ∀ c ∈ text.toList, c ∉ ['<', '>', '{', '}']
  | .chars _ cls =>
    cls.pools ≠ [] ∧ cls.pools.Pairwise fun p q => Pool.all.idxOf p < Pool.all.idxOf q
  | .group _ children => Siblings children
  | .single .. => True

/-- The trees that patterns have. -/
structure WellFormed (t : Tree) : Prop where
  regular : ∀ n ∈ t.preorder, n.Regular
  siblings : ∀ nodes, t = .list nodes → Node.Siblings nodes

/-- Everywhere in the node, nodes are as they have to be. -/
def Node.RegularBelow (n : Node) : Prop := ∀ m ∈ n.preorder, m.Regular

namespace Node

theorem regularBelow_literal {range : Range} {text : String} :
    (literal range text).RegularBelow ↔ (literal range text).Regular := by
  simp [RegularBelow]

theorem regularBelow_chars (range : Range) (cls : CharClass) :
    (chars range cls).RegularBelow := by
  intro m hm
  obtain rfl : m = chars range cls := by simpa using hm
  exact ⟨cls.nonempty, List.Pairwise.sublist cls.inOrder (by decide)⟩

theorem forall_preorderAll {nodes : List Node} :
    (∀ m ∈ preorderAll nodes, m.Regular) ↔ ∀ n ∈ nodes, n.RegularBelow := by
  rw [preorderAll_eq_flatMap, List.forall_mem_flatMap]
  rfl

theorem regularBelow_group {range : Range} {children : List Node} :
    (group range children).RegularBelow ↔
      Siblings children ∧ ∀ child ∈ children, child.RegularBelow := by
  rw [RegularBelow, preorder_group, List.forall_mem_cons, forall_preorderAll]
  rfl

theorem regularBelow_single {range : Range} {child : Node} :
    (single range child).RegularBelow ↔ child.RegularBelow := by
  rw [RegularBelow, preorder_single, List.forall_mem_cons]
  exact and_iff_right trivial

end Node

/-- A tree is well-formed if everything in it is and the row at its top, if there is one, is. -/
theorem wellFormed_iff {t : Tree} :
    t.WellFormed ↔
      (∀ n ∈ t.nodes, n.RegularBelow) ∧ ∀ nodes, t = .list nodes → Node.Siblings nodes := by
  rw [← Node.forall_preorderAll]
  exact ⟨fun h => ⟨h.regular, h.siblings⟩, fun h => ⟨h.1, h.2⟩⟩

/-! ## Rows -/

/-- Several nodes become a group, one becomes the child of a node. -/
theorem Node.regularBelow_ofRow {range : Range} {first : Node} {others : List Node}
    (hregular : ∀ n ∈ first :: others, n.RegularBelow)
    (hgroups : (first :: others).countP Node.isGroup ≤ 1) :
    (Node.ofRow range first others).RegularBelow := by
  cases others with
  | nil => exact regularBelow_single.2 (hregular first List.mem_cons_self)
  | cons second others =>
    refine regularBelow_group.2 ⟨⟨?_, hgroups⟩, hregular⟩
    simp

theorem wellFormed_ofRow {first : Node} {others : List Node}
    (hregular : ∀ n ∈ first :: others, n.RegularBelow)
    (hgroups : (first :: others).countP Node.isGroup ≤ 1) : (ofRow first others).WellFormed := by
  cases others with
  | nil => exact wellFormed_iff.2 ⟨hregular, nofun⟩
  | cons second others =>
    refine wellFormed_iff.2 ⟨hregular, ?_⟩
    rintro _ ⟨rfl⟩
    exact ⟨by simp, hgroups⟩

/-! ## Trees of derivations -/

open Grammar (Block Member RowProper rowAt)

/-- Only a group leaves a node that is a group. -/
theorem isGroup_of_nodeOfBlock {range : Range} {offset : Nat} {block : Block} {n : Node}
    (h : nodeOfBlock? range (block.at offset) = .ok n) (hn : n.isGroup = true) :
    block.isGroup = true := by
  cases block with
  | group body => rfl
  | charClass flags =>
    obtain ⟨cls, -, rfl⟩ := map_eq_ok_iff.1 h
    simp [Node.isGroup] at hn

theorem isGroup_of_nodeOfPiece {offset : Nat} {member : Member} {n : Node}
    (h : nodeOfPiece? (member.at offset) = .ok n) (hn : n.isGroup = true) :
    member.isGroup = true := by
  cases member with
  | literal text =>
    obtain rfl := Except.ok.inj h
    simp [Node.isGroup] at hn
  | counted block count => exact isGroup_of_nodeOfBlock h hn

/-- There are no more groups among the nodes of members than among the members. -/
theorem countP_nodesOfPieces {offset : Nat} {members : List Member} {nodes : List Node}
    (h : nodesOfPieces? (rowAt offset members) = .ok nodes) :
    nodes.countP Node.isGroup ≤ members.countP Member.isGroup := by
  induction members generalizing offset nodes with
  | nil =>
    obtain rfl := Except.ok.inj h
    exact le_rfl
  | cons member members ih =>
    obtain ⟨node, later, hnode, hlater, rfl⟩ := nodesOfPieces?_cons_iff.1 h
    have hrest := ih hlater
    rw [List.countP_cons, List.countP_cons]
    by_cases hn : node.isGroup = true
    · rw [if_pos hn, if_pos (isGroup_of_nodeOfPiece hnode hn)]
      omega
    · rw [if_neg hn]
      omega

/-- Where no two members are groups, no two nodes are. -/
theorem oneGroup_row {offset : Nat} {first : Member} {others : List Member} {child : Node}
    {children : List Node} (h : (first :: others).countP Member.isGroup ≤ 1)
    (hchild : nodeOfPiece? (first.at offset) = .ok child)
    (hchildren : nodesOfPieces? (rowAt (offset + Text.byteLength first.text) others) =
      .ok children) : (child :: children).countP Node.isGroup ≤ 1 := by
  have hrow : nodesOfPieces? (rowAt offset (first :: others)) = .ok (child :: children) :=
    nodesOfPieces?_cons_iff.2 ⟨child, children, hchild, hchildren, rfl⟩
  exact (countP_nodesOfPieces hrow).trans h

mutual

/-- The node of a block of a derivation is as it has to be. -/
theorem regularBelow_nodeOfBlock {range : Range} {offset : Nat} {n : Node} :
    (block : Block) → block.Proper → nodeOfBlock? range (block.at offset) = .ok n →
      n.RegularBelow
  | .charClass flags, _, h => by
    obtain ⟨cls, -, rfl⟩ := map_eq_ok_iff.1 h
    exact Node.regularBelow_chars range cls
  | .group body, hproper, h => regularBelow_nodeOfBody body hproper h

/-- The node of a group of a derivation is as it has to be. -/
theorem regularBelow_nodeOfBody {range : Range} {offset : Nat} {n : Node} :
    (body : Grammar.Level) → body.Proper → nodeOfBody? range (body.at offset) = .ok n →
      n.RegularBelow
  | .bare block, hproper, h => regularBelow_nodeOfBlock block hproper h
  | .row first others, ⟨hgroups, hfirst, hothers⟩, h => by
    obtain ⟨child, children, hchild, hchildren, rfl⟩ := nodeOfBody?_row_iff.1 h
    have hchildRegular := regularBelow_nodeOfPiece first hfirst hchild
    have hchildrenRegular := regularBelow_nodesOfPieces others hothers hchildren
    exact Node.regularBelow_ofRow (List.forall_mem_cons.2 ⟨hchildRegular, hchildrenRegular⟩)
      (oneGroup_row hgroups hchild hchildren)

theorem regularBelow_nodeOfPiece {offset : Nat} {n : Node} :
    (member : Member) → member.Proper → nodeOfPiece? (member.at offset) = .ok n → n.RegularBelow
  | .literal text, _, h => by
    obtain rfl := Except.ok.inj h
    exact Node.regularBelow_literal.2 ⟨rfl, text.allowed⟩
  | .counted block count, hproper, h => regularBelow_nodeOfBlock block hproper h

theorem regularBelow_nodesOfPieces {offset : Nat} {nodes : List Node} :
    (members : List Member) → RowProper members →
      nodesOfPieces? (rowAt offset members) = .ok nodes → ∀ n ∈ nodes, n.RegularBelow
  | [], _, h => by
    obtain rfl := Except.ok.inj h
    exact List.forall_mem_nil _
  | member :: members, ⟨hmember, hmembers⟩, h => by
    obtain ⟨node, later, hnode, hlater, rfl⟩ := nodesOfPieces?_cons_iff.1 h
    have hnodeRegular := regularBelow_nodeOfPiece member hmember hnode
    have hlaterRegular := regularBelow_nodesOfPieces members hmembers hlater
    exact List.forall_mem_cons.2 ⟨hnodeRegular, hlaterRegular⟩

end

/-- The tree of a derivation is well-formed. -/
theorem wellFormed_ofPattern {offset : Nat} {t : Tree} :
    (level : Grammar.Level) → level.Proper → ofPattern? (level.at offset) = .ok t → t.WellFormed
  | .bare (.group body), hproper, h => wellFormed_ofPattern body hproper h
  | .bare (.charClass flags), _, h => by
    obtain ⟨node, hnode, rfl⟩ := map_eq_ok_iff.1 h
    obtain ⟨cls, -, rfl⟩ := map_eq_ok_iff.1 hnode
    refine wellFormed_iff.2 ⟨?_, nofun⟩
    exact List.forall_mem_singleton.2 (Node.regularBelow_chars .once cls)
  | .row first others, ⟨hgroups, hfirst, hothers⟩, h => by
    obtain ⟨node, nodes, hnode, hnodes, rfl⟩ := ofPattern?_row_iff.1 h
    have hnodeRegular := regularBelow_nodeOfPiece first hfirst hnode
    have hnodesRegular := regularBelow_nodesOfPieces others hothers hnodes
    exact wellFormed_ofRow (List.forall_mem_cons.2 ⟨hnodeRegular, hnodesRegular⟩)
      (oneGroup_row hgroups hnode hnodes)

/-- The tree of a pattern text is well-formed. -/
theorem wellFormed_of_compile {text : String} {t : Tree} (h : compile text = .ok t) :
    t.WellFormed := by
  obtain ⟨level, hproper, -, ht⟩ := compile_eq_ok_iff.1 h
  exact wellFormed_ofPattern level hproper ht

end Tree

end Moniker
