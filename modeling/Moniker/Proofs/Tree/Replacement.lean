import Mathlib.Logic.Relation
import Moniker.Proofs.Tree.Language
import Moniker.Tree.Matcher

/-!
# Replacing part of a tree

Some nodes in a row may be taken out of a tree and others put in their place. If the new ones do
what the old ones did, so does the whole tree, whatever stands around them and however often they
are repeated.

* `Tree.Replaced` — two rows of nodes that are the same but for such a change, at any depth;
* `Tree.Compatible` — a relation between rows that such a change carries outwards;
* `Tree.Unrolled`, `Tree.generate_of_unrolled` — a fixed count is as many nodes in a row;
* `Tree.Restyled`, `Tree.indistinguishable_of_changes` — the range of a literal, groups of one child
  and rows of one node at the top can be written in two ways that nothing tells apart.
-/

namespace Moniker.Tree

open Draw (FiniteSource)

/-! ## One change at any depth -/

/-- The second row is the first with nodes replaced at one place: in the row itself, or among those
that some node of it holds, at any depth. The relation `R` says what they may be replaced by. -/
inductive Replaced (R : List Node → List Node → Prop) : List Node → List Node → Prop
  /-- the whole row is replaced -/
  | here {old new : List Node} (h : R old new) : Replaced R old new
  /-- nodes within the row are -/
  | row {old new : List Node} (before after : List Node) (h : Replaced R old new) :
      Replaced R (before ++ old ++ after) (before ++ new ++ after)
  /-- children of a group are -/
  | group {old new : List Node} (range : Range) (h : Replaced R old new) :
      Replaced R [.group range old] [.group range new]
  /-- the one child of a node is -/
  | single {old new : Node} (range : Range) (h : Replaced R [old] [new]) :
      Replaced R [.single range old] [.single range new]

/-- What holds of two rows also holds of two longer rows around them, and of two nodes that hold
them. -/
structure Compatible (P : List Node → List Node → Prop) : Prop where
  row : ∀ {old new : List Node} (before after : List Node),
    P old new → P (before ++ old ++ after) (before ++ new ++ after)
  group : ∀ {old new : List Node} (range : Range),
    P old new → P [.group range old] [.group range new]
  single : ∀ {old new : Node} (range : Range),
    P [old] [new] → P [.single range old] [.single range new]

namespace Compatible

variable {P Q R : List Node → List Node → Prop}

/-- What holds of the nodes that are replaced holds of the rows. -/
theorem of_replaced (hP : Compatible P) (hR : ∀ old new, R old new → P old new)
    {old new : List Node} (h : Replaced R old new) : P old new := by
  induction h with
  | here h => exact hR _ _ h
  | row before after _ ih => exact hP.row before after ih
  | group range _ ih => exact hP.group range ih
  | single range _ ih => exact hP.single range ih

theorem and (hP : Compatible P) (hQ : Compatible Q) :
    Compatible fun old new => P old new ∧ Q old new where
  row before after h := ⟨hP.row before after h.1, hQ.row before after h.2⟩
  group range h := ⟨hP.group range h.1, hQ.group range h.2⟩
  single range h := ⟨hP.single range h.1, hQ.single range h.2⟩

end Compatible

/-! ## What a row does -/

namespace Node

theorem extendAll_append (nodes later : List Node) (written : String) :
    extendAll (nodes ++ later) written = (extendAll nodes written).bind (extendAll later) := by
  induction nodes generalizing written with
  | nil => rfl
  | cons n nodes ih =>
    rw [List.cons_append, extendAll_cons, extendAll_cons, Draw.bind_assoc]
    exact congrArg _ (funext ih)

/-- A row of one node does what the node does. -/
theorem extendAll_singleton (n : Node) : extendAll [n] = n.extend :=
  funext fun written => Draw.bind_done (n.extend written)

theorem extendAll_compatible : Compatible fun old new => extendAll old = extendAll new where
  row before after h := by
    funext written
    simp only [extendAll_append, h]
  group range h := by
    funext written
    simp only [extendAll_singleton, extend_group, h]
  single range h := by
    rw [extendAll_singleton, extendAll_singleton] at h
    funext written
    simp only [extendAll_singleton, extend_single, h]

theorem regexes?_eq_mapM (nodes : List Node) : regexes? nodes = nodes.mapM regex? := by
  induction nodes with
  | nil => rfl
  | cons n nodes ih =>
    rw [List.mapM_cons, ← ih]
    rfl

theorem regexes?_singleton (n : Node) : regexes? [n] = ([·]) <$> n.regex? := by
  cases h : n.regex? <;> simp [regexes?, h, bind, Except.bind, Functor.map, Except.map]

theorem regex?_group_eq (range : Range) (children : List Node) :
    (group range children).regex? =
      regexes? children >>= fun parts => countedAs? range (.group parts) := rfl

theorem regex?_single_eq (range : Range) (child : Node) :
    (single range child).regex? = (group range [child]).regex? := by
  rw [regex?_group_eq, regexes?_singleton, regex?]
  cases child.regex? <;> rfl

theorem regexes?_compatible : Compatible fun old new => regexes? old = regexes? new where
  row before after h := by
    simp only [regexes?_eq_mapM] at h
    simp only [regexes?_eq_mapM, List.mapM_append, h]
  group range h := by
    simp only [regexes?_singleton, regex?_group_eq, h]
  single range h := by
    simp only [regexes?_singleton, regex?_single_eq, regex?_group_eq] at h ⊢
    simp only [h]

/-- The ranges of all nodes of a row, with a gap for each literal. -/
def ranges (nodes : List Node) : List (Option Range) := (preorderAll nodes).map range?

theorem ranges_append (nodes later : List Node) :
    ranges (nodes ++ later) = ranges nodes ++ ranges later := by
  simp only [ranges, preorderAll_eq_flatMap, List.flatMap_append, List.map_append]

theorem ranges_group (range : Range) (children : List Node) :
    ranges [group range children] = some range :: ranges children := by
  simp [ranges, range?]

theorem ranges_single (range : Range) (child : Node) :
    ranges [single range child] = some range :: ranges [child] := by
  simp [ranges, range?]

theorem ranges_compatible : Compatible fun old new => ranges old = ranges new where
  row before after h := by simp only [ranges_append, h]
  group range h := by simp only [ranges_group, h]
  single range h := by simp only [ranges_single, h]

end Node

/-! ## Fixed counts -/

namespace Node

/-- The same with another range. -/
def withRange (range : Range) : Node → Node
  | literal _ text => literal range text
  | chars _ cls => chars range cls
  | group _ children => group range children
  | single _ child => single range child

/-- What is written at each repetition. -/
def extendOnce : Node → String → Draw Range String
  | literal _ text, written => .done (written ++ text)
  | chars _ cls, written => cls.draw.map written.push
  | group _ children, written => extendAll children written
  | single _ child, written => child.extend written

variable {n : Node} {k : UInt32}

/-- A node that has a count writes as often as is picked. -/
theorem extend_eq_iterate {range : Range} (h : n.range? = some range) (written : String) :
    n.extend written = range.draw.bind fun i => Draw.iterate i n.extendOnce written := by
  cases n with
  | literal r text => exact absurd h nofun
  | chars r cls => exact Option.some.inj h ▸ rfl
  | group r children => exact Option.some.inj h ▸ rfl
  | single r child => exact Option.some.inj h ▸ rfl

/-- Nothing is picked for a fixed count. -/
theorem extend_fixed (h : n.range? = some (.fixed k)) (written : String) :
    n.extend written = Draw.iterate k.toNat n.extendOnce written := by
  have hdraw : (Range.fixed k).draw = .done k.toNat := by
    simp [Range.draw, Range.fixed, Range.inverted, Range.isFixed]
  rw [extend_eq_iterate h, hdraw, Draw.done_bind]

theorem range?_withRange (range : Range) :
    (n.withRange range).range? = n.range?.map fun _ => range := by
  cases n <;> rfl

theorem extendOnce_withRange (range : Range) : (n.withRange range).extendOnce = n.extendOnce := by
  cases n <;> rfl

/-- A node with a count of one writes what it would at each repetition. -/
theorem extend_once (h : n.range? = some (.fixed k)) :
    (n.withRange .once).extend = n.extendOnce := by
  have honce : (n.withRange .once).range? = some (.fixed 1) := by
    rw [range?_withRange, h]
    rfl
  funext written
  rw [extend_fixed honce, extendOnce_withRange]
  exact (Draw.iterate_succ 0 _ _).trans (Draw.bind_done _)

/-- Copies in a row write one after the other. -/
theorem extendAll_replicate (i : Nat) (n : Node) (written : String) :
    extendAll (List.replicate i n) written = Draw.iterate i n.extend written := by
  induction i generalizing written with
  | zero => rfl
  | succ i ih =>
    rw [List.replicate_succ, extendAll_cons, Draw.iterate_succ]
    exact congrArg _ (funext ih)

end Node

/-- A node that has a fixed count, and as many copies of it in a row that have a count of one. -/
inductive Unrolled : List Node → List Node → Prop
  | intro {n : Node} {k : UInt32} (h : n.range? = some (.fixed k)) :
      Unrolled [n] (List.replicate k.toNat (n.withRange .once))

theorem Unrolled.extendAll_eq {old new : List Node} (h : Unrolled old new) :
    Node.extendAll old = Node.extendAll new := by
  obtain ⟨h⟩ := h
  funext written
  rw [Node.extendAll_singleton, Node.extend_fixed h, Node.extendAll_replicate, Node.extend_once h]

variable {t t' : Tree}

/-- **A fixed count is plain repetition.** If a node that is no literal has a fixed count, zero
included, and stands in the row at the top of a tree or in that of a group at any depth, as many
copies of it with a count of one may stand there instead. The tree is then the same computation: it
makes up the same names, or fails in the same way, and takes the same words from any source. -/
theorem generate_of_unrolled (h : Replaced Unrolled t.nodes t'.nodes) :
    t'.generate = t.generate ∧
      ∀ {σ : Type} [FiniteSource σ] (s : σ), t'.generate.run s = t.generate.run s := by
  have hnodes : Node.extendAll t.nodes = Node.extendAll t'.nodes := by
    apply Node.extendAll_compatible.of_replaced _ h
    intro old new hunrolled
    exact hunrolled.extendAll_eq
  have hgenerate : t'.generate = t.generate := by
    rw [generate, generate, hnodes]
  refine ⟨hgenerate, ?_⟩
  intro σ _ s
  rw [hgenerate]

/-- A class with a fixed count, inside of two groups that are repeated, and a group that is never
there although its count is fixed as well. -/
def fixedCounts : Tree :=
  .list [.single ⟨0, 3⟩ (.group ⟨1, 2⟩ [.literal .once "-", .chars (.fixed 2) (.ofPool .digit)]),
    .group (.fixed 0) [.chars ⟨2, 1⟩ (.ofPool .lower)]]

/-- The count of the class is written out. -/
def digitsApart : Tree :=
  .list [.single ⟨0, 3⟩ (.group ⟨1, 2⟩ [.literal .once "-", .chars .once (.ofPool .digit),
    .chars .once (.ofPool .digit)]), .group (.fixed 0) [.chars ⟨2, 1⟩ (.ofPool .lower)]]

/-- The group is left out. -/
def groupGone : Tree :=
  .list [.single ⟨0, 3⟩ (.group ⟨1, 2⟩ [.literal .once "-", .chars (.fixed 2) (.ofPool .digit)])]

/-- Nothing is left of a group with a count of zero, and nothing is lost with it. -/
theorem generate_of_unrolled_nested :
    Replaced Unrolled fixedCounts.nodes digitsApart.nodes ∧
      Replaced Unrolled fixedCounts.nodes groupGone.nodes ∧
      ∀ words : Draw.Words,
        digitsApart.generate.run words = fixedCounts.generate.run words ∧
        groupGone.generate.run words = fixedCounts.generate.run words := by
  have hclass : Unrolled [.chars (.fixed 2) (.ofPool .digit)]
      [.chars .once (.ofPool .digit), .chars .once (.ofPool .digit)] := .intro (k := 2) rfl
  have hdigits : Replaced Unrolled fixedCounts.nodes digitsApart.nodes := by
    refine .row [] [.group (.fixed 0) [.chars ⟨2, 1⟩ (.ofPool .lower)]] (.single ⟨0, 3⟩ ?_)
    exact .group ⟨1, 2⟩ (.row [.literal .once "-"] [] (.here hclass))
  have hempty : Unrolled [.group (.fixed 0) [.chars ⟨2, 1⟩ (.ofPool .lower)]] [] :=
    .intro (k := 0) rfl
  have hgone : Replaced Unrolled fixedCounts.nodes groupGone.nodes :=
    .row [.single ⟨0, 3⟩ (.group ⟨1, 2⟩ [.literal .once "-", .chars (.fixed 2) (.ofPool .digit)])]
      [] (.here hempty)
  refine ⟨hdigits, hgone, fun words => ⟨?_, ?_⟩⟩
  · exact (generate_of_unrolled hdigits).2 words
  · exact (generate_of_unrolled hgone).2 words

/-! ## Two ways to write a tree -/

/-- Two ways to write the same nodes: the range of a literal may be any, and a group of one child
may be written as the child with a range around it. -/
inductive Restyled : List Node → List Node → Prop
  | literal (range range' : Range) (text : String) :
      Restyled [.literal range text] [.literal range' text]
  | single (range : Range) (child : Node) : Restyled [.single range child] [.group range [child]]

/-- One change in the way a tree is written: somewhere in it, or at its root, where a single node
may be written as a row of one. -/
inductive Changed : Tree → Tree → Prop
  | node {old new : Node} (h : Replaced Restyled [old] [new]) : Changed (.node old) (.node new)
  | list {old new : List Node} (h : Replaced Restyled old new) : Changed (.list old) (.list new)
  | root (n : Node) : Changed (.node n) (.list [n])

/-- Rows that nothing tells apart. -/
def Alike (old new : List Node) : Prop :=
  Node.extendAll old = Node.extendAll new ∧ Node.regexes? old = Node.regexes? new ∧
    Node.ranges old = Node.ranges new

theorem alike_compatible : Compatible Alike :=
  Node.extendAll_compatible.and (Node.regexes?_compatible.and Node.ranges_compatible)

theorem Restyled.alike {old new : List Node} (h : Restyled old new) : Alike old new := by
  cases h with
  | literal range range' text => exact ⟨rfl, rfl, rfl⟩
  | single range child =>
    refine ⟨?_, ?_, ?_⟩
    · funext written
      simp only [Node.extendAll_singleton, Node.extend_single, Node.extend_group]
    · simp only [Node.regexes?_singleton, Node.regex?_single_eq]
    · rw [Node.ranges_single, Node.ranges_group]

theorem Changed.alike (h : Changed t t') : Alike t.nodes t'.nodes := by
  cases h with
  | node h => exact alike_compatible.of_replaced (fun _ _ => Restyled.alike) h
  | list h => exact alike_compatible.of_replaced (fun _ _ => Restyled.alike) h
  | root n => exact ⟨rfl, rfl, rfl⟩

/-- Any number of changes, made or undone. -/
theorem alike_of_eqvGen (h : Relation.EqvGen Changed t t') : Alike t.nodes t'.nodes := by
  induction h with
  | rel _ _ h => exact h.alike
  | refl _ => exact ⟨rfl, rfl, rfl⟩
  | symm _ _ _ ih => exact ⟨ih.1.symm, ih.2.1.symm, ih.2.2.symm⟩
  | trans _ _ _ _ _ ih ih' =>
    exact ⟨ih.1.trans ih'.1, ih.2.1.trans ih'.2.1, ih.2.2.trans ih'.2.2⟩

/-- The check sees nothing of the nodes but their ranges. -/
theorem check_eq_find? (t : Tree) :
    t.check = match ((Node.ranges t.nodes).filterMap id).find? Range.inverted with
      | some range => .error range
      | none => .ok () := by
  rw [Node.ranges, List.filterMap_map]
  rfl

theorem nodeCount_eq_length (t : Tree) : t.nodeCount = (Node.ranges t.nodes).length :=
  List.length_map .. |>.symm

/-- **Two ways to write a tree are indistinguishable.** Trees that differ by any number of changes,
at any depth, in the ranges of literals, in groups of one child, which may be written as that child
with a range around it, and in a row of one node at the top, which may be written as the node, make
up the same names, or fail in the same way, with the same words of any source. They have the same
expression, or the same range keeps it from being written, they are checked alike, and they have as
many nodes. -/
theorem indistinguishable_of_changes (h : Relation.EqvGen Changed t t') :
    t.generate = t'.generate ∧
      (∀ {σ : Type} [FiniteSource σ] (s : σ), t.generate.run s = t'.generate.run s) ∧
      t.expression? = t'.expression? ∧ t.check = t'.check ∧ t.nodeCount = t'.nodeCount := by
  obtain ⟨hnames, hregexes, hranges⟩ := alike_of_eqvGen h
  have hgenerate : t.generate = t'.generate := by
    rw [generate, generate, hnames]
  refine ⟨hgenerate, ?_, ?_, ?_, ?_⟩
  · intro σ _ s
    rw [hgenerate]
  · rw [expression?, expression?, hregexes]
  · rw [check_eq_find?, check_eq_find?, hranges]
  · rw [nodeCount_eq_length, nodeCount_eq_length, hranges]

/-- A node with one child, which is a group of one child that cannot be there. -/
def oneInOne : Tree := .node (.single ⟨2, 5⟩ (.group ⟨3, 1⟩ [.literal ⟨0, 7⟩ "a."]))

/-- The same written the other way at every place. -/
def oneInOneAgain : Tree := .list [.group ⟨2, 5⟩ [.single ⟨3, 1⟩ (.literal ⟨9, 8⟩ "a.")]]

/-- Four changes lead from one tree to the other, and both fail their check in the same way. -/
theorem indistinguishable_of_changes_everywhere :
    Relation.EqvGen Changed oneInOne oneInOneAgain ∧
      (∀ words : Draw.Words, oneInOne.generate.run words = oneInOneAgain.generate.run words) ∧
      oneInOne.expression? = oneInOneAgain.expression? ∧
      oneInOneAgain.check = .error ⟨3, 1⟩ ∧ oneInOneAgain.nodeCount = 3 := by
  have hliteral : Relation.EqvGen Changed oneInOne
      (.node (.single ⟨2, 5⟩ (.group ⟨3, 1⟩ [.literal ⟨9, 8⟩ "a."]))) :=
    .rel _ _ (.node (.single _ (.group _ (.here (.literal _ _ _)))))
  have hinner : Relation.EqvGen Changed
      (.node (.single ⟨2, 5⟩ (.single ⟨3, 1⟩ (.literal ⟨9, 8⟩ "a."))))
      (.node (.single ⟨2, 5⟩ (.group ⟨3, 1⟩ [.literal ⟨9, 8⟩ "a."]))) :=
    .rel _ _ (.node (.single _ (.here (.single _ _))))
  have houter : Relation.EqvGen Changed
      (.node (.single ⟨2, 5⟩ (.single ⟨3, 1⟩ (.literal ⟨9, 8⟩ "a."))))
      (.node (.group ⟨2, 5⟩ [.single ⟨3, 1⟩ (.literal ⟨9, 8⟩ "a.")])) :=
    .rel _ _ (.node (.here (.single _ _)))
  have hroot : Relation.EqvGen Changed
      (.node (.group ⟨2, 5⟩ [.single ⟨3, 1⟩ (.literal ⟨9, 8⟩ "a.")])) oneInOneAgain :=
    .rel _ _ (.root _)
  have h : Relation.EqvGen Changed oneInOne oneInOneAgain :=
    .trans _ _ _ hliteral (.trans _ _ _ (.symm _ _ hinner) (.trans _ _ _ houter hroot))
  obtain ⟨-, hrun, hexpression, hcheck, hcount⟩ := indistinguishable_of_changes h
  exact ⟨h, hrun, hexpression, hcheck.symm, hcount.symm⟩

end Moniker.Tree
