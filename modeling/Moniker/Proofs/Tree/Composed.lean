import Moniker.Proofs.Pattern.Composed
import Moniker.Proofs.Tree.Language
import Moniker.Proofs.Tree.OfPattern

/-!
# Trees of composed texts

How the tree of a text comes about from the trees of its parts.

* `Tree.compile_braces_iff` — braces around any text, and a second pair of braces before a count,
  change nothing: neither whether there is a tree nor which one;
* `Tree.compile_append_iff` — behind a row, a text adds its own nodes, or there is no tree.

The parts stand at other places in the text than they do alone. The places are in the pattern of
a text, but its tree has nothing of them (`Tree.nodesOfPieces?_at` and those beside it).
-/

namespace Moniker.Tree

open Pattern (Piece)
open Grammar (Block Member Count rowAt)

/-! ## Nodes and places -/

mutual

theorem nodeOfBlock?_at {range : Range} {offset : Nat} {node : Node} (offset' : Nat) :
    (block : Block) → nodeOfBlock? range (block.at offset) = .ok node →
      nodeOfBlock? range (block.at offset') = .ok node
  | .charClass flags, h => by
    obtain ⟨cls, hcls, rfl⟩ := map_eq_ok_iff.1 h
    exact map_eq_ok_iff.2 ⟨cls, mapError_eq_ok_iff.2 (mapError_eq_ok_iff.1 hcls), rfl⟩
  | .group body, h => nodeOfBody?_at (offset' + 1) body h

theorem nodeOfBody?_at {range : Range} {offset : Nat} {n : Node} (offset' : Nat) :
    (body : Grammar.Level) → nodeOfBody? range (body.at offset) = .ok n →
      nodeOfBody? range (body.at offset') = .ok n
  | .bare block, h => nodeOfBlock?_at offset' block h
  | .row first others, h => by
    obtain ⟨node, nodes, hnode, hnodes, rfl⟩ := nodeOfBody?_row_iff.1 h
    exact nodeOfBody?_row_iff.2 ⟨node, nodes, nodeOfPiece?_at _ first hnode,
      nodesOfPieces?_at _ others hnodes, rfl⟩

theorem nodeOfPiece?_at {offset : Nat} {node : Node} (offset' : Nat) :
    (member : Member) → nodeOfPiece? (member.at offset) = .ok node →
      nodeOfPiece? (member.at offset') = .ok node
  | .literal _, h => h
  | .counted block _, h => nodeOfBlock?_at offset' block h

/-- The nodes of members side by side are the same wherever these stand. -/
theorem nodesOfPieces?_at {offset : Nat} {nodes : List Node} (offset' : Nat) :
    (members : List Member) → nodesOfPieces? (rowAt offset members) = .ok nodes →
      nodesOfPieces? (rowAt offset' members) = .ok nodes
  | [], h => h
  | member :: members, h => by
    obtain ⟨node, after, hnode, hafter, rfl⟩ := nodesOfPieces?_cons_iff.1 h
    exact nodesOfPieces?_cons_iff.2 ⟨node, after, nodeOfPiece?_at offset' member hnode,
      nodesOfPieces?_at _ members hafter, rfl⟩

end

/-- The tree of a level is the same wherever it stands. -/
theorem ofPattern?_at {offset : Nat} {t : Tree} (offset' : Nat) :
    (level : Grammar.Level) → ofPattern? (level.at offset) = .ok t →
      ofPattern? (level.at offset') = .ok t
  | .bare (.group body), h => ofPattern?_at (offset' + 1) body h
  | .bare (.charClass flags), h => by
    obtain ⟨node, hnode, rfl⟩ := map_eq_ok_iff.1 h
    exact map_eq_ok_iff.2 ⟨node, nodeOfBlock?_at offset' (.charClass flags) hnode, rfl⟩
  | .row first others, h => by
    obtain ⟨node, nodes, hnode, hnodes, rfl⟩ := ofPattern?_row_iff.1 h
    exact ofPattern?_row_iff.2 ⟨node, nodes, nodeOfPiece?_at _ first hnode,
      nodesOfPieces?_at _ others hnodes, rfl⟩

/-- The nodes of members side by side are those of the first ones and those of the others. -/
theorem nodesOfPieces?_rowAt_append_iff {offset : Nat} {members later : List Member}
    {nodes : List Node} :
    nodesOfPieces? (rowAt offset (members ++ later)) = .ok nodes ↔
      ∃ before after, nodesOfPieces? (rowAt offset members) = .ok before ∧
        nodesOfPieces? (rowAt 0 later) = .ok after ∧ nodes = before ++ after := by
  rw [Grammar.rowAt_append, nodesOfPieces?_append_iff]
  constructor
  · rintro ⟨before, after, hbefore, hafter, rfl⟩
    exact ⟨before, after, hbefore, nodesOfPieces?_at 0 later hafter, rfl⟩
  · rintro ⟨before, after, hbefore, hafter, rfl⟩
    exact ⟨before, after, hbefore, nodesOfPieces?_at _ later hafter, rfl⟩

/-- Two rows, neither of them empty, are several nodes together. -/
theorem ofRow_append (node node' : Node) (nodes nodes' : List Node) :
    ofRow node (nodes ++ node' :: nodes') =
      .list ((ofRow node nodes).nodes ++ (ofRow node' nodes').nodes) := by
  rw [nodes_ofRow, nodes_ofRow]
  cases nodes <;> rfl

/-! ## Braces -/

/-- A text in braces has the tree that it has alone. -/
theorem compile_braced_iff (p : String) {t : Tree} :
    compile ("\x7b" ++ p ++ "\x7d") = .ok t ↔ compile p = .ok t := by
  have htext : ("\x7b" ++ p ++ "\x7d").toList = '{' :: (p.toList ++ ['}']) := by simp
  rw [compile_eq_ok_iff, compile_eq_ok_iff, htext]
  constructor
  · rintro ⟨level, hproper, h, htree⟩
    obtain ⟨body, rfl, hbody⟩ := Grammar.Level.text_eq_braced_iff.1 h
    exact ⟨body, hproper, hbody, ofPattern?_at 0 body htree⟩
  · rintro ⟨body, hproper, hbody, htree⟩
    exact ⟨.bare (.group body), hproper,
      Grammar.Level.text_eq_braced_iff.2 ⟨body, rfl, hbody⟩, ofPattern?_at 1 body htree⟩

/-- The tree of a text in braces with a count is the one node that the text leaves. -/
theorem compile_counted_iff (p : String) (count : Count) {t : Tree} (offset : Nat) :
    compile ("\x7b" ++ p ++ "\x7d" ++ String.ofList count.text) = .ok t ↔
      ∃ body : Grammar.Level, body.Proper ∧ body.text = p.toList ∧
        ∃ node, nodeOfBody? (count.at 0).range (body.at offset) = .ok node ∧ t = .node node := by
  have htext : ("\x7b" ++ p ++ "\x7d" ++ String.ofList count.text).toList =
      '{' :: (p.toList ++ '}' :: count.text) := by simp
  rw [compile_eq_ok_iff, htext]
  constructor
  · rintro ⟨level, hproper, h, htree⟩
    obtain ⟨body, rfl, hbody⟩ := (Grammar.Level.text_eq_counted_iff hproper).1 h
    obtain ⟨node, nodes, hnode, hnodes, rfl⟩ := ofPattern?_row_iff.1 htree
    obtain rfl := Except.ok.inj hnodes
    exact ⟨body, hproper.2.1, hbody, node, nodeOfBody?_at offset body hnode, rfl⟩
  · rintro ⟨body, hproper, hbody, node, hnode, rfl⟩
    have hlevel : (Grammar.Level.row (.counted (.group body) count) []).Proper :=
      ⟨List.countP_le_length, hproper, trivial⟩
    refine ⟨_, hlevel, (Grammar.Level.text_eq_counted_iff hlevel).2 ⟨body, rfl, hbody⟩, ?_⟩
    exact ofPattern?_row_iff.2 ⟨node, [], nodeOfBody?_at 1 body hnode, rfl, rfl⟩

/-- **Braces alone change nothing.** Whatever a text is, it has a tree exactly if it has one in
braces, and with a count behind it, it has a tree in one pair of braces exactly if it has one in
two; and the trees are the same. The text may hold braces that pair with those around it. -/
theorem compile_braces_iff (p : String) :
    (∀ t, compile ("\x7b" ++ p ++ "\x7d") = .ok t ↔ compile p = .ok t) ∧
      ∀ (count : Count) (t : Tree),
        compile ("\x7b\x7b" ++ p ++ "\x7d\x7d" ++ String.ofList count.text) = .ok t ↔
          compile ("\x7b" ++ p ++ "\x7d" ++ String.ofList count.text) = .ok t := by
  refine ⟨fun t => compile_braced_iff p, fun count t => ?_⟩
  have htext : "\x7b\x7b" ++ p ++ "\x7d\x7d" ++ String.ofList count.text =
      "\x7b" ++ ("\x7b" ++ p ++ "\x7d") ++ "\x7d" ++ String.ofList count.text := by
    simp [← String.toList_inj]
  have hbraced : ("\x7b" ++ p ++ "\x7d").toList = '{' :: (p.toList ++ ['}']) := by simp
  rw [htext, compile_counted_iff _ count 0, compile_counted_iff p count 1, hbraced]
  constructor
  · rintro ⟨level, hproper, h, hnode⟩
    obtain ⟨body, rfl, hbody⟩ := Grammar.Level.text_eq_braced_iff.1 h
    exact ⟨body, hproper, hbody, hnode⟩
  · rintro ⟨body, hproper, hbody, hnode⟩
    exact ⟨.bare (.group body), hproper,
      Grammar.Level.text_eq_braced_iff.2 ⟨body, rfl, hbody⟩, hnode⟩

/-- Braces that would pair with those around them do not help. -/
example : (compile "<a>\x7d\x7b<b>").isOk = false ∧
    (compile "\x7b<a>\x7d\x7b<b>\x7d").isOk = false := by
  decide +kernel

/-! ## Rows -/

/-- The level of a text that says a row is a row. -/
theorem exists_row_of_ofText? {text : String} {first : Piece} {others : List Piece}
    (h : Pattern.ofText? text = .ok (.row first others)) :
    ∃ (member : Member) (members : List Member), (Grammar.Level.row member members).Proper ∧
      (Grammar.Level.row member members).text = text.toList ∧
      first :: others = rowAt 0 (member :: members) := by
  obtain ⟨level, hproper, htext, hat⟩ := Pattern.ofText?_eq_ok_iff.1 h
  cases level with
  | bare block => cases hat
  | row member members =>
    cases hat
    exact ⟨member, members, hproper, htext, rfl⟩

/-- **A text behind a row adds its own nodes.** Behind a text that is a row of literals and counted
blocks, another text that is not empty has to be such a row itself; no group may be at the top of
both; and then the tree is that of all the nodes in order. -/
theorem compile_append_iff {p q : String} {first : Piece} {others : List Piece} {t : Tree}
    (hp : Pattern.ofText? p = .ok (.row first others)) (ht : compile p = .ok t) (hq : q ≠ "")
    (u : Tree) :
    compile (p ++ q) = .ok u ↔
      ∃ first' others' t', Pattern.ofText? q = .ok (.row first' others') ∧ compile q = .ok t' ∧
        ¬((first :: others).any Piece.isGroup = true ∧
          (first' :: others').any Piece.isGroup = true) ∧
        u = .list (t.nodes ++ t'.nodes) := by
  obtain ⟨member, members, hproper, htext, hrow⟩ := exists_row_of_ofText? hp
  obtain ⟨node, nodes, hnode, hnodes, rfl⟩ :=
    ofPattern?_row_iff.1 ((compile_of_level hproper htext).1 ht)
  rw [hrow, Grammar.any_isGroup_rowAt]
  constructor
  · intro hu
    obtain ⟨level, hwhole, h, hu⟩ := compile_eq_ok_iff.1 hu
    rw [String.toList_append, ← htext, Grammar.Level.text_eq_append_iff] at h
    obtain ⟨more, rfl, hmore⟩ := h
    cases more with
    | nil => exact absurd (String.toList_eq_nil_iff.1 hmore.symm) hq
    | cons member' members' =>
      obtain ⟨-, hproper', hgroups⟩ := Grammar.Level.proper_append_iff.1 hwhole
      obtain ⟨_, all, hfirst, hall, rfl⟩ := ofPattern?_row_iff.1 hu
      obtain rfl := Except.ok.inj (hnode.symm.trans hfirst)
      obtain ⟨before, after, hbefore, hafter, rfl⟩ := nodesOfPieces?_rowAt_append_iff.1 hall
      obtain rfl := Except.ok.inj (hnodes.symm.trans hbefore)
      obtain ⟨node', nodes', hnode', hnodes', rfl⟩ := nodesOfPieces?_cons_iff.1 hafter
      have hpattern := Pattern.ofText?_eq_ok_iff.2 ⟨_, hproper', hmore, rfl⟩
      have htree := ofPattern?_row_iff.2 ⟨node', nodes', hnode', hnodes', rfl⟩
      rw [← Grammar.any_isGroup_rowAt 0 (member' :: members')] at hgroups
      exact ⟨_, _, _, hpattern, (compile_of_level hproper' hmore).2 htree, hgroups,
        ofRow_append ..⟩
  · rintro ⟨first', others', t', hq', ht', hgroups, rfl⟩
    obtain ⟨member', members', hproper', htext', hrow'⟩ := exists_row_of_ofText? hq'
    obtain ⟨node', nodes', hnode', hnodes', rfl⟩ :=
      ofPattern?_row_iff.1 ((compile_of_level hproper' htext').1 ht')
    rw [hrow', Grammar.any_isGroup_rowAt] at hgroups
    have hwhole := Grammar.Level.proper_append_iff.2 ⟨hproper, hproper', hgroups⟩
    have htexts : (Grammar.Level.row member (members ++ member' :: members')).text =
        (p ++ q).toList := by
      rw [String.toList_append, ← htext, ← htext']
      exact Grammar.Level.text_eq_append_iff.2 ⟨_, rfl, rfl⟩
    have hlater : nodesOfPieces? (rowAt 0 (member' :: members')) = .ok (node' :: nodes') :=
      nodesOfPieces?_cons_iff.2 ⟨node', nodes', hnode', hnodes', rfl⟩
    have hall := nodesOfPieces?_rowAt_append_iff.2 ⟨nodes, _, hnodes, hlater, rfl⟩
    rw [compile_of_level hwhole htexts, ← ofRow_append]
    exact ofPattern?_row_iff.2 ⟨node, _, hnode, hall, rfl⟩

/-- At most two digits, in braces. -/
def digits : Grammar.Level :=
  .row (.counted (.group (.bare (.charClass ⟨"0010", by simp⟩)))
    (.between ⟨"0", by simp, by simp, by simp [Nat.ofDigitChars, UInt32.size]⟩
      ⟨"2", by simp, by simp, by simp [Nat.ofDigitChars, UInt32.size]⟩)) []

/-- A literal may follow them, but not the same group once more. -/
theorem compile_append_iff_digits :
    compile ("\x7b[0010]\x7d(0,2)" ++ "<_>") =
        .ok (.list [.chars ⟨0, 2⟩ (.ofPool .digit), .literal .once "_"]) ∧
      ∀ u, compile ("\x7b[0010]\x7d(0,2)" ++ "\x7b[0010]\x7d(0,2)") ≠ .ok u := by
  have hproper : digits.Proper := ⟨by decide, trivial, trivial⟩
  have hp : Pattern.ofText? "\x7b[0010]\x7d(0,2)" = .ok (digits.at 0) :=
    Pattern.ofText?_eq_ok_iff.2 ⟨digits, hproper, by decide, rfl⟩
  have ht : compile "\x7b[0010]\x7d(0,2)" = .ok (.node (.chars ⟨0, 2⟩ (.ofPool .digit))) := by
    decide +kernel
  constructor
  · have hq : Pattern.ofText? "<_>" = .ok (.row (.literal ⟨0, 3⟩ "_") []) :=
      Pattern.ofText?_eq_ok_iff.2 ⟨.row (.literal ⟨"_", by simp⟩) [], ⟨by decide, trivial, trivial⟩,
        by decide, rfl⟩
    exact (compile_append_iff hp ht (by decide) _).2
      ⟨_, _, .node (.literal .once "_"), hq, by decide +kernel, by decide, rfl⟩
  · intro u hu
    obtain ⟨first, others, t, hq, -, hgroups, -⟩ := (compile_append_iff hp ht (by decide) u).1 hu
    cases hp.symm.trans hq
    exact hgroups ⟨rfl, rfl⟩

end Moniker.Tree
