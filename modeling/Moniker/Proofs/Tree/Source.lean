import Moniker.Proofs.Tree.Meaning
import Moniker.Proofs.Tree.WellFormed
import Moniker.Regex.Basic

/-!
# The text of a tree

A well-formed tree can be written as a pattern again, and the pattern has that tree. Texts that
have the same tree, because of leading zeros, short counts or braces that add nothing, are
thereby brought to one form.

* `Tree.source` — the text of a tree: both numbers of every count are written;
* `Node.DerivedBy` — a member of a derivation that is written like the node and leaves it;
* `Tree.compile_source` — a well-formed tree is the tree of its text;
* `Tree.wellFormed_iff_compiles` — the trees that patterns have are the well-formed ones, and
  their texts tell them apart.
-/

namespace Moniker

open Regex (decimal)

/-! ## Writing a tree -/

/-- The count of a range, with both of its numbers. -/
def Range.source (r : Range) : List Char :=
  '(' :: (decimal r.min ++ ',' :: (decimal r.max ++ [')']))

/-- The flags of a class. -/
def CharClass.flags (cls : CharClass) : List Char :=
  Pool.all.map fun p => if p ∈ cls.pools then '1' else '0'

namespace Tree

mutual

/-- The text of a node. -/
def Node.source : Node → List Char
  | .literal _ text => '<' :: (text.toList ++ ['>'])
  | .chars range cls => '[' :: (cls.flags ++ ']' :: range.source)
  | .group range children => '{' :: (Node.rowSource children ++ '}' :: range.source)
  | .single range child => '{' :: (child.source ++ '}' :: range.source)

/-- The text of nodes side by side. -/
def Node.rowSource : List Node → List Char
  | [] => []
  | n :: nodes => n.source ++ Node.rowSource nodes

end

/-- The text of a tree. -/
def source (t : Tree) : String := String.ofList (Node.rowSource t.nodes)

end Tree

/-! ## Classes and counts -/

namespace CharClass

/-- The pools of a class are those that it holds, in order. -/
theorem pools_eq_filter (cls : CharClass) : cls.pools = Pool.all.filter (· ∈ cls.pools) := by
  have hself : cls.pools.filter (· ∈ cls.pools) = cls.pools := by simp
  have hsub : cls.pools.Sublist (Pool.all.filter (· ∈ cls.pools)) := by
    have hfilter := cls.inOrder.filter (· ∈ cls.pools)
    rwa [hself] at hfilter
  refine hsub.eq_of_length_le ?_
  have hnodup : (Pool.all.filter (· ∈ cls.pools)).Nodup := List.Nodup.filter _ (by decide)
  exact (hnodup.subperm fun p hp => by simpa using (List.mem_filter.1 hp).2).length_le

theorem mem_chosen_flags {cls : CharClass} {p : Pool} :
    p ∈ chosen cls.flags ↔ p ∈ cls.pools := by
  rw [mem_chosen, flags, ← List.map_prod_right_eq_zip]
  simp [Pool.mem_all]

/-- The flags of a class choose it. -/
theorem ofFlags?_flags (cls : CharClass) : ofFlags? cls.flags = .ok cls := by
  refine ofFlags?_eq_ok.2 ⟨by simp [flags], ?_, ?_⟩
  · intro flag hflag
    obtain ⟨p, -, rfl⟩ := List.mem_map.1 hflag
    by_cases hp : p ∈ cls.pools <;> simp [hp]
  · simpa only [mem_chosen_flags] using cls.pools_eq_filter

/-- No bracket is a flag. -/
theorem flags_allowed (cls : CharClass) : ∀ c ∈ cls.flags, c ∉ ['[', ']'] := by
  intro c hc
  rcases (ofFlags?_eq_ok.1 cls.ofFlags?_flags).2.1 c hc with rfl | rfl <;> decide

end CharClass

namespace Grammar

/-- The digits of a number of 32 bits. -/
def Number.ofUInt32 (n : UInt32) : Number where
  digits := String.ofList (decimal n)
  nonempty := by
    rw [String.toList_ofList]
    exact Nat.toDigits_ne_nil
  isDigit c hc :=
    Nat.isDigit_of_mem_toDigits (by decide) (by decide) (String.toList_ofList ▸ hc)
  small := by
    rw [String.toList_ofList, decimal, Nat.ofDigitChars_ten_toDigits]
    exact n.toNat_lt

theorem Number.value_ofUInt32 (n : UInt32) : (Number.ofUInt32 n).value = n := by
  rw [← UInt32.toNat_inj, value, UInt32.toNat_ofNatLT, ofUInt32, String.toList_ofList, decimal,
    Nat.ofDigitChars_ten_toDigits]

/-- The count of a range, with both of its numbers. -/
def Count.ofRange (r : Range) : Count := .between (.ofUInt32 r.min) (.ofUInt32 r.max)

theorem Count.text_ofRange (r : Range) : (Count.ofRange r).text = r.source := by
  simp [ofRange, text, Number.ofUInt32, Range.source]

theorem Count.range_ofRange (r : Range) (offset : Nat) :
    ((Count.ofRange r).at offset).range = r := by
  simp [Count.at, ofRange, min, max?, Number.value_ofUInt32, Pattern.Quantifier.range]

end Grammar

/-! ## Deriving a node -/

namespace Tree

open Grammar (Member Count Derivation RowProper rowAt rowText)

/-- The member is written like the node, and where it stands it leaves the node. -/
structure Node.DerivedBy (n : Node) (member : Member) : Prop where
  proper : member.Proper
  text : member.text = n.source
  isGroup : member.isGroup = n.isGroup
  node : ∀ offset, nodeOfPiece? (member.at offset) = .ok n

namespace Node

/-- The same of nodes and members side by side. -/
theorem row_of_derivedBy {nodes : List Node} {members : List Member}
    (h : List.Forall₂ DerivedBy nodes members) :
    RowProper members ∧ rowText members = rowSource nodes ∧
      members.countP Member.isGroup = nodes.countP Node.isGroup ∧
      ∀ offset, nodesOfPieces? (rowAt offset members) = .ok nodes := by
  induction h with
  | nil => exact ⟨trivial, rfl, rfl, fun _ => rfl⟩
  | @cons n member nodes members hn _ ih =>
    obtain ⟨hproper, htext, hgroups, hnodes⟩ := ih
    refine ⟨⟨hn.proper, hproper⟩, ?_, ?_, fun offset => ?_⟩
    · rw [rowText, rowSource, hn.text, htext]
    · rw [List.countP_cons, List.countP_cons, hn.isGroup, hgroups]
    · exact nodesOfPieces?_cons_iff.2 ⟨n, nodes, hn.node offset, hnodes _, rfl⟩

theorem derivedBy_chars (range : Range) (cls : CharClass) :
    (chars range cls).DerivedBy
      (.counted (.charClass ⟨String.ofList cls.flags, by simpa using cls.flags_allowed⟩)
        (.ofRange range)) where
  proper := trivial
  text := by
    simp [Member.text, Grammar.Block.text, Count.text_ofRange, source]
  isGroup := rfl
  node offset := by
    have hcls : ∀ offset, classOf? offset (String.ofList cls.flags) = .ok cls := by
      intro offset
      rw [classOf?_eq_ok, String.toList_ofList]
      exact cls.ofFlags?_flags
    rw [Member.at, nodeOfPiece?, Pattern.Piece.count, Count.range_ofRange]
    exact map_eq_ok_iff.2 ⟨cls, hcls _, rfl⟩

/-- A row in braces, with the count of a range, is written like a group and leaves it. -/
theorem derivedBy_ofRow (range : Range) {first : Node} {others : List Node} {member : Member}
    {members : List Member} (hfirst : first.DerivedBy member)
    (hothers : List.Forall₂ DerivedBy others members)
    (hgroups : (first :: others).countP Node.isGroup ≤ 1) :
    (Node.ofRow range first others).DerivedBy
      (.counted (.group (.row member members)) (.ofRange range)) := by
  obtain ⟨hproper, htext, hcount, hnodes⟩ := row_of_derivedBy (.cons hfirst hothers)
  refine ⟨⟨hcount ▸ hgroups, hproper⟩, ?_, ?_, fun offset => ?_⟩
  · cases others <;>
      simp_all [Member.text, Grammar.Block.text, Grammar.Level.text, Count.text_ofRange, Node.ofRow,
        source, rowSource, rowText]
  · cases others <;> rfl
  · rw [Member.at, nodeOfPiece?, Pattern.Piece.count, Count.range_ofRange]
    obtain ⟨child, children, hchild, hchildren, hrow⟩ :=
      nodesOfPieces?_cons_iff.1 (hnodes (offset + 1))
    obtain ⟨rfl, rfl⟩ := List.cons.inj hrow
    exact nodeOfBody?_row_iff.2 ⟨first, others, hchild, hchildren, rfl⟩

/-- What is as it has to be can be written. -/
theorem exists_derivedBy {n : Node} (h : n.RegularBelow) : ∃ member, n.DerivedBy member := by
  induction n with
  | literal range text =>
    obtain ⟨rfl, hallowed⟩ := regularBelow_literal.1 h
    exact ⟨.literal ⟨text, hallowed⟩, trivial, rfl, rfl, fun _ => rfl⟩
  | chars range cls => exact ⟨_, derivedBy_chars range cls⟩
  | group range children ih =>
    obtain ⟨hsiblings, hchildren⟩ := regularBelow_group.1 h
    obtain ⟨members, hmembers⟩ := exists_forall₂ fun n hn => ih n hn (hchildren n hn)
    obtain ⟨hlength, hgroups⟩ := hsiblings
    -- a group of one child or none would be written, and read, as something else
    match children, members, hmembers with
    | first :: second :: others, member :: _, .cons hfirst hothers =>
      exact ⟨_, derivedBy_ofRow range hfirst hothers hgroups⟩
    | [_], _, _ | [], _, _ => simp at hlength
  | single range child ih =>
    obtain ⟨member, hmember⟩ := ih (regularBelow_single.1 h)
    have hgroups : [child].countP Node.isGroup ≤ 1 := List.countP_le_length
    exact ⟨_, derivedBy_ofRow range hmember .nil hgroups⟩

end Node

/-! ## Reading a tree back -/

/-- A tree of one or more nodes in a row that can be written is the tree of what is written. -/
theorem compile_source_ofRow (first : Node) (others : List Node)
    (h : ∀ n ∈ first :: others, n.RegularBelow)
    (hgroups : (first :: others).countP Node.isGroup ≤ 1) :
    compile (ofRow first others).source = .ok (ofRow first others) := by
  obtain ⟨hfirst, hothers⟩ := List.forall_mem_cons.1 h
  obtain ⟨member, hmember⟩ := Node.exists_derivedBy hfirst
  obtain ⟨members, hmembers⟩ := exists_forall₂ fun n hn => Node.exists_derivedBy (hothers n hn)
  obtain ⟨hproper, htext, hcount, hnodes⟩ := Node.row_of_derivedBy (.cons hmember hmembers)
  have hproper : (Grammar.Level.row member members).Proper := ⟨hcount ▸ hgroups, hproper⟩
  have hsource : (Grammar.Level.row member members).text = (ofRow first others).source.toList := by
    rw [source, nodes_ofRow, String.toList_ofList, ← htext]
    rfl
  obtain ⟨node, nodes, hnode, hnodes, hrow⟩ := nodesOfPieces?_cons_iff.1 (hnodes 0)
  obtain ⟨rfl, rfl⟩ := List.cons.inj hrow
  rw [compile_of_level hproper hsource]
  exact ofPattern?_row_iff.2 ⟨first, others, hnode, hnodes, rfl⟩

/-- A well-formed tree is the tree of its text. -/
theorem compile_source {t : Tree} (h : t.WellFormed) : compile t.source = .ok t := by
  obtain ⟨hregular, hsiblings⟩ := wellFormed_iff.1 h
  match t with
  | .node n =>
    exact compile_source_ofRow n [] hregular List.countP_le_length
  | .list (first :: second :: others) =>
    have hgroups := (hsiblings _ rfl).oneGroup
    exact compile_source_ofRow first (second :: others) hregular hgroups
  | .list [_] | .list [] =>
    obtain ⟨hlength, -⟩ := hsiblings _ rfl
    simp at hlength

/-- **The trees of patterns.** A tree is that of some pattern exactly if it is well-formed, and
then its own text is such a pattern. Two patterns have the same tree exactly if their trees have
the same text, and to write the tree of a text that was written for a tree changes nothing. -/
theorem wellFormed_iff_compiles :
    (∀ t : Tree, (∃ text, compile text = .ok t) ↔ t.WellFormed) ∧
      (∀ t : Tree, t.WellFormed → compile t.source = .ok t) ∧
      (∀ (p q : String) (t u : Tree), compile p = .ok t → compile q = .ok u →
        (compile p = compile q ↔ t.source = u.source)) ∧
      ∀ (p : String) (t : Tree), compile p = .ok t →
        source <$> compile t.source = .ok t.source := by
  refine ⟨fun t => ⟨?_, fun h => ⟨_, compile_source h⟩⟩, fun t => compile_source, ?_, ?_⟩
  · rintro ⟨text, h⟩
    exact wellFormed_of_compile h
  · intro p q t u hp hq
    rw [hp, hq, Except.ok.injEq]
    refine ⟨congrArg source, fun h => ?_⟩
    -- the texts are read back as the trees that they were written for
    have ht := compile_source (wellFormed_of_compile hp)
    rw [h, compile_source (wellFormed_of_compile hq)] at ht
    exact (Except.ok.inj ht).symm
  · intro p t hp
    rw [compile_source (wellFormed_of_compile hp)]
    rfl

/-- The tree with three pairs of braces around parts of its first text is written with one, and
with both numbers of each count. -/
theorem wellFormed_iff_compiles_braced :
    let p := "\x7b\x7b\x7b[0010]\x7d(2)\x7d(0,1)<_>\x7d"
    let q := "\x7b[0010](02)\x7d(00,1)<_>"
    compile p = .ok braced ∧ compile q = .ok braced ∧ braced.WellFormed ∧
      braced.source = "\x7b[0010](2,2)\x7d(0,1)<_>" ∧ compile braced.source = .ok braced ∧
      compile p = compile q ∧ source <$> compile braced.source = .ok braced.source := by
  intro p q
  obtain ⟨hiff, hsource, hsame, hagain⟩ := wellFormed_iff_compiles
  have hp : compile p = .ok braced := by decide +kernel
  have hq : compile q = .ok braced := by decide +kernel
  have hbraced : braced.WellFormed := (hiff braced).1 ⟨p, hp⟩
  refine ⟨hp, hq, hbraced, ?_, hsource braced hbraced, ?_, hagain p _ hp⟩
  · decide +kernel
  · exact (hsame p q _ _ hp hq).2 rfl

end Tree

end Moniker
