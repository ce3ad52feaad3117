import Moniker.Proofs.Except
import Moniker.Tree.Matcher

/-!
# When a tree has an expression

What has been written when the expression of a node succeeds, one lemma for each kind of node,
and when it does succeed.

* `Tree.check_eq_ok_iff` — a tree passes its check if no range in it, those of literals left
  out, is inverted;
* `Tree.exists_expression` — the expression of such a tree can be written;
* `Tree.matcher?_eq_ok_iff`, `Tree.matcher?_eq_error_iff` — names can be checked with it if the
  engine takes its text.
-/

namespace Moniker.Tree

/-! ## Inversion -/

theorem countedAs?_eq_ok {range : Range} {body regex : Regex} :
    countedAs? range body = .ok regex ↔
      range.inverted = false ∧ regex = if range = .once then body else .repeated body range := by
  rw [countedAs?_eq]
  cases range.inverted <;> simp [eq_comm]

namespace Node

theorem regex?_group {range : Range} {children : List Node} {regex : Regex} :
    (group range children).regex? = .ok regex ↔
      ∃ parts, regexes? children = .ok parts ∧ countedAs? range (.group parts) = .ok regex := by
  rw [regex?, bind_eq_ok_iff]

theorem regex?_single {range : Range} {child : Node} {regex : Regex} :
    (single range child).regex? = .ok regex ↔
      ∃ part, child.regex? = .ok part ∧ countedAs? range (.group [part]) = .ok regex := by
  rw [regex?, bind_eq_ok_iff]

theorem regexes?_cons {n : Node} {nodes : List Node} {parts : List Regex} :
    regexes? (n :: nodes) = .ok parts ↔
      ∃ part, n.regex? = .ok part ∧ ∃ others, regexes? nodes = .ok others ∧
        parts = part :: others := by
  simp only [regexes?, bind_eq_ok_iff, Except.ok.injEq, @eq_comm _ parts]

end Node

theorem expression?_eq_ok {t : Tree} {e : Expression} :
    t.expression? = .ok e ↔ ∃ parts, Node.regexes? t.nodes = .ok parts ∧ e = ⟨parts⟩ := by
  simp only [expression?, map_eq_ok_iff, @eq_comm _ e]

/-! ## Nodes of nodes -/

/-- What is below a child is below the group. -/
theorem Node.mem_preorder_group {range : Range} {children : List Node} {child m : Node}
    (hchild : child ∈ children) (hm : m ∈ child.preorder) :
    m ∈ (Node.group range children).preorder := by
  rw [preorder_group, preorderAll_eq_flatMap]
  exact List.mem_cons_of_mem _ (List.mem_flatMap_of_mem hchild hm)

/-- What is below a node of the tree is one of its nodes. -/
theorem mem_preorder_of_mem {t : Tree} {n m : Node} (hn : n ∈ t.nodes) (hm : m ∈ n.preorder) :
    m ∈ t.preorder := by
  rw [preorder, Node.preorderAll_eq_flatMap]
  exact List.mem_flatMap_of_mem hn hm

/-! ## Success -/

/-- A tree passes its check if none of its ranges is inverted. -/
theorem check_eq_ok_iff {t : Tree} :
    t.check = .ok () ↔ ∀ n ∈ t.preorder, ∀ r, n.range? = some r → r.inverted = false := by
  have hnone : t.check = .ok () ↔ t.inverted? = none := by
    rw [check]
    cases t.inverted? <;> simp
  rw [hnone, inverted?, List.find?_eq_none]
  simp only [List.mem_filterMap, forall_exists_index, and_imp, Bool.not_eq_true]
  exact ⟨fun h n hn r hr => h r n hn hr, fun h r n hn hr => h n hn r hr⟩

theorem exists_countedAs? {range : Range} (h : range.inverted = false) (body : Regex) :
    ∃ regex, countedAs? range body = .ok regex :=
  ⟨_, countedAs?_eq_ok.2 ⟨h, rfl⟩⟩

namespace Node

theorem exists_regexes? {nodes : List Node} (h : ∀ n ∈ nodes, ∃ regex, n.regex? = .ok regex) :
    ∃ parts, regexes? nodes = .ok parts := by
  induction nodes with
  | nil => exact ⟨[], rfl⟩
  | cons n nodes ih =>
    obtain ⟨part, hpart⟩ := h n List.mem_cons_self
    obtain ⟨parts, hparts⟩ := ih fun m hm => h m (List.mem_cons_of_mem n hm)
    exact ⟨part :: parts, regexes?_cons.2 ⟨part, hpart, parts, hparts, rfl⟩⟩

theorem exists_regex? {n : Node}
    (h : ∀ m ∈ n.preorder, ∀ r, m.range? = some r → r.inverted = false) :
    ∃ regex, n.regex? = .ok regex := by
  induction n with
  | literal range text => exact ⟨_, rfl⟩
  | chars range cls => exact exists_countedAs? (h _ List.mem_cons_self range rfl) _
  | group range children ih =>
    obtain ⟨parts, hparts⟩ : ∃ parts, regexes? children = .ok parts := by
      refine exists_regexes? fun child hchild => ih child hchild fun m hm => h m ?_
      exact mem_preorder_group hchild hm
    obtain ⟨regex, hregex⟩ :=
      exists_countedAs? (h _ List.mem_cons_self range rfl) (.group parts)
    exact ⟨regex, regex?_group.2 ⟨parts, hparts, hregex⟩⟩
  | single range child ih =>
    obtain ⟨part, hpart⟩ := ih fun m hm => h m (List.mem_cons_of_mem _ hm)
    obtain ⟨regex, hregex⟩ :=
      exists_countedAs? (h _ List.mem_cons_self range rfl) (.group [part])
    exact ⟨regex, regex?_single.2 ⟨part, hpart, hregex⟩⟩

end Node

/-- A tree that passes its check has an expression. -/
theorem exists_expression {t : Tree} (h : t.check = .ok ()) : ∃ e, t.expression? = .ok e := by
  rw [check_eq_ok_iff] at h
  obtain ⟨parts, hparts⟩ : ∃ parts, Node.regexes? t.nodes = .ok parts :=
    Node.exists_regexes? fun n hn =>
      Node.exists_regex? fun m hm => h m (mem_preorder_of_mem hn hm)
  exact ⟨⟨parts⟩, expression?_eq_ok.2 ⟨parts, hparts, rfl⟩⟩

/-! ## Matchers -/

variable {engine : Regex.Engine} {t : Tree}

/-- There is something to check names with if the engine takes the text of the expression. -/
theorem matcher?_eq_ok_iff {m : Matcher} :
    t.matcher? engine = .ok m ↔ ∃ e, t.expression? = .ok e ∧
      ∃ accepts, engine.compile? e.text = .ok accepts ∧ m = ⟨e.text, accepts⟩ := by
  simp only [matcher?, bind_eq_ok_iff, mapError_eq_ok_iff, Except.ok.injEq, @eq_comm _ m]

/-- There is nothing if no expression can be written, or if the engine refuses its text. -/
theorem matcher?_eq_error_iff {err : MatcherError} :
    t.matcher? engine = .error err ↔
      (∃ range, t.expression? = .error range ∧ err = .inverted range) ∨
        ∃ e reason, t.expression? = .ok e ∧ engine.compile? e.text = .error reason ∧
          err = .refused reason := by
  simp only [matcher?, bind_eq_error_iff, mapError_eq_ok_iff, mapError_eq_error_iff, reduceCtorEq,
    and_false, exists_false, or_false, exists_and_left]

end Moniker.Tree
