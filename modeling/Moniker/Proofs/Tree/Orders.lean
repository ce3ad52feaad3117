import Moniker.Proofs.Tree.Failure

/-!
# Which inverted range is reported

A tree is looked through for inverted ranges in two ways. The check goes through all nodes, each
before those below it, and keeps the first range that is wrong. The expression is written from the
inside to the outside, and writing stops at the first range that is wrong. The two look at the same
ranges, but in different orders.

* `Tree.FirstInverted` — the first range that is wrong in a row of nodes;
* `Node.visit` — the way through a node and those below it, parents first, that goes on whatever
  it finds;
* `Tree.postorder` — every node at every depth, a node behind what it holds;
* `Tree.reports_agree` — both ways fail for the same trees, and each with the first range in its
  own order.
-/

namespace Moniker.Tree

variable {e : Range}

/-! ## The first of a row -/

/-- The range of the node if it is wrong. That of a literal is not looked at. -/
def Node.wrong? (n : Node) : Option Range := n.range?.filter Range.inverted

theorem Node.wrong?_eq_some_iff {n : Node} :
    n.wrong? = some e ↔ n.Inverted ∧ n.range? = some e := by
  rw [wrong?, Option.filter_eq_some_iff, Range.inverted_iff]
  refine ⟨?_, ?_⟩
  · rintro ⟨hr, hlt⟩
    exact ⟨⟨e, hr, hlt⟩, hr⟩
  · rintro ⟨⟨r, hr, hlt⟩, he⟩
    obtain rfl := Option.some.inj (hr.symm.trans he)
    exact ⟨hr, hlt⟩

theorem Node.wrong?_eq_none_iff {n : Node} : n.wrong? = none ↔ ¬ n.Inverted := by
  rw [Option.eq_none_iff_forall_ne_some]
  refine ⟨?_, ?_⟩
  · rintro h ⟨r, hr, hlt⟩
    exact h r (wrong?_eq_some_iff.2 ⟨⟨r, hr, hlt⟩, hr⟩)
  · intro h r hr
    exact h (wrong?_eq_some_iff.1 hr).1

theorem firstInverted?_eq_findSome? (nodes : List Node) :
    firstInverted? nodes = nodes.findSome? Node.wrong? := by
  induction nodes with
  | nil => rfl
  | cons n nodes ih =>
    rw [List.findSome?_cons, ← ih, Node.wrong?]
    rcases hr : n.range? with _ | range
    · rw [firstInverted?, List.filterMap_cons_none hr]
      rfl
    · rw [firstInverted?_cons hr]
      rcases hinv : range.inverted with _ | _ <;> simp [Option.filter, hinv]

/-- The first inverted node of the row has this range. -/
def FirstInverted (nodes : List Node) (e : Range) : Prop :=
  ∃ before m after, nodes = before ++ m :: after ∧ (∀ x ∈ before, ¬ x.Inverted) ∧ m.Inverted ∧
    m.range? = some e

theorem firstInverted?_eq_some_iff {nodes : List Node} :
    firstInverted? nodes = some e ↔ FirstInverted nodes e := by
  simp only [firstInverted?_eq_findSome?, List.findSome?_eq_some_iff, FirstInverted,
    Node.wrong?_eq_some_iff, Node.wrong?_eq_none_iff]
  refine ⟨?_, ?_⟩
  · rintro ⟨before, m, after, hnodes, hm, hbefore⟩
    exact ⟨before, m, after, hnodes, hbefore, hm⟩
  · rintro ⟨before, m, after, hnodes, hbefore, hm⟩
    exact ⟨before, m, after, hnodes, hm, hbefore⟩

/-- Some range of the row is wrong if an inverted node is in it. -/
theorem exists_firstInverted?_iff {nodes : List Node} :
    (∃ e, firstInverted? nodes = some e) ↔ ∃ m ∈ nodes, m.Inverted := by
  rw [← Option.ne_none_iff_exists', ne_eq, firstInverted?_eq_none]
  push Not
  rfl

/-! ## Parents first -/

namespace Node

section

variable {σ : Type} (look : σ → Node → σ)

mutual

/-- Look at a node and then at all nodes below it. -/
def visit (s : σ) : Node → σ
  | n@(literal ..) => look s n
  | n@(chars ..) => look s n
  | n@(group _ children) => visitAll (look s n) children
  | n@(single _ child) => child.visit (look s n)

/-- Look at all nodes of a run, in order. -/
def visitAll (s : σ) : List Node → σ
  | [] => s
  | n :: nodes => visitAll (n.visit s) nodes

end

theorem visitAll_eq_foldl {nodes : List Node} {s : σ}
    (h : ∀ n ∈ nodes, ∀ s, n.visit look s = n.preorder.foldl look s) :
    visitAll look s nodes = (preorderAll nodes).foldl look s := by
  induction nodes generalizing s with
  | nil => rfl
  | cons n nodes ih =>
    obtain ⟨hn, hnodes⟩ := List.forall_mem_cons.1 h
    rw [visitAll, preorderAll_cons, List.foldl_append, hn, ih hnodes]

/-- The nodes are looked at in their order. -/
theorem visit_eq_foldl (n : Node) (s : σ) : n.visit look s = n.preorder.foldl look s := by
  induction n generalizing s with
  | literal range text => rfl
  | chars range cls => rfl
  | group range children ih =>
    rw [visit, preorder_group, List.foldl_cons]
    exact visitAll_eq_foldl look ih
  | single range child ih =>
    rw [visit, preorder_single, List.foldl_cons]
    exact ih _

end

/-- Keep the first range that was wrong. -/
def keepFirst (first? : Option Range) (n : Node) : Option Range := first?.or n.wrong?

/-- What is kept in the end is what was kept before, or else the first range that is wrong. -/
theorem foldl_keepFirst (nodes : List Node) (first? : Option Range) :
    nodes.foldl keepFirst first? = first?.or (firstInverted? nodes) := by
  rw [firstInverted?_eq_findSome?]
  induction nodes generalizing first? with
  | nil => exact Option.or_none.symm
  | cons n nodes ih =>
    rw [List.foldl_cons, ih, keepFirst, Option.or_assoc, List.findSome?_cons]
    cases n.wrong? <;> rfl

end Node

/-- The range that is kept on the way through the whole tree. -/
def visited? (t : Tree) : Option Range := Node.visitAll Node.keepFirst none t.nodes

/-- It is the first one that is wrong. -/
theorem visited?_eq (t : Tree) : t.visited? = firstInverted? t.preorder := by
  rw [visited?, Node.visitAll_eq_foldl _ fun n _ s => n.visit_eq_foldl _ s, Node.foldl_keepFirst]
  exact Option.none_or

/-! ## Children first -/

namespace Node

mutual

/-- A node and all nodes below it, each behind those below it. -/
def postorder : Node → List Node
  | n@(literal ..) => [n]
  | n@(chars ..) => [n]
  | n@(group _ children) => postorderAll children ++ [n]
  | n@(single _ child) => child.postorder ++ [n]

/-- All nodes of a run, in order. -/
def postorderAll : List Node → List Node
  | [] => []
  | n :: nodes => n.postorder ++ postorderAll nodes

end

theorem postorderAll_perm {nodes : List Node} (h : ∀ n ∈ nodes, n.postorder.Perm n.preorder) :
    (postorderAll nodes).Perm (preorderAll nodes) := by
  induction nodes with
  | nil => exact .refl _
  | cons n nodes ih =>
    obtain ⟨hn, hnodes⟩ := List.forall_mem_cons.1 h
    exact hn.append (ih hnodes)

/-- The nodes are the same in both orders. -/
theorem postorder_perm (n : Node) : n.postorder.Perm n.preorder := by
  induction n with
  | literal range text => exact .refl _
  | chars range cls => exact .refl _
  | group range children ih =>
    rw [postorder, preorder_group]
    exact (List.perm_append_singleton _ _).trans ((postorderAll_perm ih).cons _)
  | single range child ih =>
    rw [postorder, preorder_single]
    exact (List.perm_append_singleton _ _).trans (ih.cons _)

theorem countedAs?_eq_error_iff {n : Node} {range : Range} {body : Regex}
    (hr : n.range? = some range) :
    countedAs? range body = .error e ↔ firstInverted? [n] = some e := by
  rw [firstInverted?_cons hr, countedAs?_eq]
  cases range.inverted <;> simp [firstInverted?]

theorem regexes?_eq_error_iff {nodes : List Node}
    (h : ∀ n ∈ nodes, ∀ e, n.regex? = .error e ↔ firstInverted? n.postorder = some e) :
    regexes? nodes = .error e ↔ firstInverted? (postorderAll nodes) = some e := by
  induction nodes generalizing e with
  | nil => simp [regexes?, postorderAll, firstInverted?]
  | cons n nodes ih =>
    obtain ⟨hn, hnodes⟩ := List.forall_mem_cons.1 h
    rw [regexes?, postorderAll, firstInverted?_append]
    apply bind_eq_error_iff_or hn
    intro part _ e
    rw [← ih hnodes, bind_eq_error_iff]
    simp

/-- Writing the expression of a node stops at the first range that is wrong, children first. -/
theorem regex?_eq_error_iff {n : Node} :
    n.regex? = .error e ↔ firstInverted? n.postorder = some e := by
  induction n generalizing e with
  | literal range text => simp [regex?, postorder, firstInverted?, range?]
  | chars range cls => exact countedAs?_eq_error_iff rfl
  | group range children ih =>
    rw [regex?, postorder, firstInverted?_append]
    apply bind_eq_error_iff_or
    · intro e
      exact regexes?_eq_error_iff fun child hchild e => ih child hchild
    · intro parts _ e
      exact countedAs?_eq_error_iff rfl
  | single range child ih =>
    rw [regex?, postorder, firstInverted?_append]
    apply bind_eq_error_iff_or
    · intro e
      exact ih
    · intro part _ e
      exact countedAs?_eq_error_iff rfl

end Node

/-- Every node of a tree, a node behind those below it. -/
def postorder (t : Tree) : List Node := Node.postorderAll t.nodes

variable {t : Tree}

theorem postorder_perm (t : Tree) : t.postorder.Perm t.preorder :=
  Node.postorderAll_perm fun n _ => n.postorder_perm

theorem expression?_eq_error_iff :
    t.expression? = .error e ↔ firstInverted? t.postorder = some e := by
  rw [expression?, map_eq_error_iff]
  exact Node.regexes?_eq_error_iff fun n _ e => Node.regex?_eq_error_iff

/-! ## Two reports -/

/-- The node itself or a node below it, whatever ranges there are around it. -/
theorem Node.below_iff_mem_preorder {n m : Node} :
    n.Below (fun _ => True) m ↔ m ∈ n.preorder := by
  refine ⟨Below.mem_preorder, ?_⟩
  intro hm
  induction n with
  | literal range text =>
    obtain rfl := List.mem_singleton.1 hm
    exact .refl _
  | chars range cls =>
    obtain rfl := List.mem_singleton.1 hm
    exact .refl _
  | group range children ih =>
    rw [preorder_group, preorderAll_eq_flatMap, List.mem_cons, List.mem_flatMap] at hm
    rcases hm with rfl | ⟨child, hchild, hm⟩
    · exact .refl _
    · exact .group trivial hchild (ih child hchild hm)
  | single range child ih =>
    rcases List.mem_cons.1 hm with rfl | hm
    · exact .refl _
    · exact .single trivial (ih hm)

/-- The nodes of a tree are those at its top and all below them. -/
theorem mem_preorder_iff {m : Node} :
    m ∈ t.preorder ↔ ∃ n ∈ t.nodes, n.Below (fun _ => True) m := by
  simp only [preorder, Node.preorderAll_eq_flatMap, List.mem_flatMap, Node.below_iff_mem_preorder]

theorem exists_firstInverted?_postorder_iff :
    (∃ e, firstInverted? t.postorder = some e) ↔ ∃ m ∈ t.preorder, m.Inverted := by
  rw [exists_firstInverted?_iff]
  simp only [t.postorder_perm.mem_iff]

/-- If every inverted node of a row has this range, it is the first one. -/
theorem firstInverted?_of_alike {nodes : List Node} (hexists : ∃ m ∈ nodes, m.Inverted)
    (halike : ∀ m ∈ nodes, m.Inverted → m.range? = some e) : firstInverted? nodes = some e := by
  obtain ⟨first, hfirst⟩ := exists_firstInverted?_iff.2 hexists
  obtain ⟨before, m, after, rfl, -, hm, hr⟩ := firstInverted?_eq_some_iff.1 hfirst
  rw [hfirst, ← hr, halike m (by simp) hm]

/-- **Both ways through a tree fail for the same trees.** Writing its expression fails if and only
if its check does, and that is if any node at any depth that is no literal has an inverted range,
whatever the ranges around it. The check goes through all nodes and keeps the first range that is
wrong, parents first; writing reports the first one children first. So the two reports are the same
if only one range is inverted, however often it occurs. -/
theorem reports_agree (t : Tree) :
    ((∃ e, t.expression? = .error e) ↔ ∃ e, t.check = .error e) ∧
    ((∃ e, t.check = .error e) ↔
      ∃ m : Node, m.Inverted ∧ ∃ n ∈ t.nodes, n.Below (fun _ => True) m) ∧
    t.check = (match t.visited? with
      | some range => .error range
      | none => .ok ()) ∧
    (∀ e, t.check = .error e ↔ FirstInverted t.preorder e) ∧
    (∀ e, t.expression? = .error e ↔ FirstInverted t.postorder e) ∧
    ∀ r, (∃ m ∈ t.preorder, m.Inverted) →
      (∀ m ∈ t.preorder, m.Inverted → m.range? = some r) →
      t.check = .error r ∧ t.expression? = .error r := by
  have hcheck : (∃ e, t.check = .error e) ↔ ∃ m ∈ t.preorder, m.Inverted := by
    simp only [check_eq_error_iff, exists_firstInverted?_iff]
  have hexpression : (∃ e, t.expression? = .error e) ↔ ∃ m ∈ t.preorder, m.Inverted := by
    simp only [expression?_eq_error_iff, exists_firstInverted?_postorder_iff]
  refine ⟨hexpression.trans hcheck.symm, ?_, ?_, ?_, ?_, ?_⟩
  · rw [hcheck]
    simp only [mem_preorder_iff, and_comm]
  · rw [visited?_eq]
    rfl
  · intro e
    rw [check_eq_error_iff, firstInverted?_eq_some_iff]
  · intro e
    rw [expression?_eq_error_iff, firstInverted?_eq_some_iff]
  · intro r hexists halike
    rw [check_eq_error_iff, expression?_eq_error_iff]
    refine ⟨firstInverted?_of_alike hexists halike, ?_⟩
    apply firstInverted?_of_alike
    · simpa only [t.postorder_perm.mem_iff] using hexists
    · intro m hm
      exact halike m (t.postorder_perm.mem_iff.1 hm)

/-- A group that is never there, with an inverted range inside of one that is inverted too. -/
def nested : Tree :=
  .node (.group ⟨0, 0⟩ [.literal ⟨9, 8⟩ "x", .single ⟨5, 2⟩ (.chars ⟨3, 1⟩ (.ofPool .lower))])

/-- The same with the outer one of the two put right. -/
def lone : Tree :=
  .node (.group ⟨0, 0⟩ [.literal ⟨9, 8⟩ "x", .single ⟨2, 5⟩ (.chars ⟨3, 1⟩ (.ofPool .lower))])

/-- The two reports differ, until only one range is inverted. That of the literal does not count. -/
theorem reports_agree_nested :
    nested.check = .error ⟨5, 2⟩ ∧ nested.expression? = .error ⟨3, 1⟩ ∧
      lone.check = .error ⟨3, 1⟩ ∧ lone.expression? = .error ⟨3, 1⟩ := by
  obtain ⟨-, -, -, hpre, hpost, -⟩ := reports_agree nested
  obtain ⟨-, -, -, -, -, halike⟩ := reports_agree lone
  refine ⟨(hpre _).2 ?_, (hpost _).2 ?_, halike ⟨3, 1⟩ ?_ ?_⟩
  · exact firstInverted?_eq_some_iff.1 rfl
  · exact firstInverted?_eq_some_iff.1 rfl
  · exact exists_firstInverted?_iff.1 ⟨⟨3, 1⟩, rfl⟩
  · simp [lone, preorder, Node.Inverted, Node.range?]

end Moniker.Tree
