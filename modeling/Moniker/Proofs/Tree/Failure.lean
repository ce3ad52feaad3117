import Moniker.Proofs.Tree.Expression
import Moniker.Proofs.Tree.Language

/-!
# When naming fails

Naming fails where a count would be picked from an inverted range. Whether it comes to that
depends on the counts picked further out, so of the nodes with inverted ranges two kinds are
told apart, by the ranges of what is around them:

* `Tree.Exposed` — everything around the node may happen once or more;
* `Tree.Forced` — everything around the node must happen once or more.

The headline is `Tree.failure_iff`: naming can fail if a node is exposed, cannot succeed if a
node is forced, and fails with the range that the check of the tree finds if no group can be
left out. A tree that passes its check never fails.
-/

namespace Moniker

open Draw

namespace Tree

/-! ## Exposed and forced nodes -/

/-- The node is no literal, and its range is inverted. -/
def Node.Inverted (m : Node) : Prop := ∃ r, m.range? = some r ∧ r.max < r.min

/-- `m` is the node itself or stands below it, and everything around `m` up to the node has a
range with `p`. -/
inductive Node.Below (p : Range → Prop) : (n m : Node) → Prop
  | refl (n : Node) : Below p n n
  | group {range : Range} {children : List Node} {child m : Node} (hrange : p range)
    (hchild : child ∈ children) (h : Below p child m) : Below p (.group range children) m
  | single {range : Range} {child m : Node} (hrange : p range) (h : Below p child m) :
    Below p (.single range child) m

/-- Something may be repeated once or more. -/
def MayHappen (r : Range) : Prop := r.min ≤ r.max ∧ 1 ≤ r.max

/-- Something must be repeated once or more. -/
def MustHappen (r : Range) : Prop := r.min ≤ r.max ∧ 1 ≤ r.min

/-- An inverted node that naming can come to. -/
def Exposed (t : Tree) (m : Node) : Prop := m.Inverted ∧ ∃ n ∈ t.nodes, n.Below MayHappen m

/-- An inverted node that naming cannot get past. -/
def Forced (t : Tree) (m : Node) : Prop := m.Inverted ∧ ∃ n ∈ t.nodes, n.Below MustHappen m

end Tree

namespace Range

variable {r : Range}

theorem inverted_eq_false : r.inverted = false ↔ r.min ≤ r.max := by
  rw [← Bool.not_eq_true, inverted_iff, UInt32.not_lt]

/-- Something may happen if a count other than zero lies in its range. -/
theorem mayHappen_iff : Tree.MayHappen r ↔ ∃ n, r.Contains (n + 1) := by
  simp only [Tree.MayHappen, Contains, UInt32.le_iff_toNat_le]
  constructor
  · rintro ⟨hle, hpos⟩
    refine ⟨r.max.toNat - 1, ?_⟩
    simp only [UInt32.toNat_one] at hpos
    omega
  · rintro ⟨n, hmin, hmax⟩
    simp only [UInt32.toNat_one]
    omega

/-- Something must happen if a count lies in its range, but not zero. -/
theorem mustHappen_iff : Tree.MustHappen r ↔ r.inverted = false ∧ ¬ r.Contains 0 := by
  simp only [Tree.MustHappen, inverted_eq_false, Contains, UInt32.le_iff_toNat_le,
    UInt32.toNat_one]
  omega

end Range

namespace Tree

/-- What stands below a node is one of its nodes. -/
theorem Node.Below.mem_preorder {p : Range → Prop} {n m : Node} (h : n.Below p m) :
    m ∈ n.preorder := by
  induction h with
  | refl n => cases n <;> exact List.mem_cons_self
  | group hrange hchild h ih => exact mem_preorder_group hchild ih
  | single hrange h ih => exact List.mem_cons_of_mem _ ih

theorem Node.not_inverted_iff {n : Node} {r : Range} (hr : n.range? = some r) :
    ¬ n.Inverted ↔ r.inverted = false := by
  rw [← Bool.not_eq_true, Range.inverted_iff, Inverted]
  simp [hr]

section

variable {p : Range → Prop} {range : Range} {m : Node}

theorem Node.below_literal {text : String} :
    (Node.literal range text).Below p m ↔ m = .literal range text := by
  constructor
  · rintro ⟨⟩
    rfl
  · rintro rfl
    exact .refl _

theorem Node.below_chars {cls : CharClass} :
    (Node.chars range cls).Below p m ↔ m = .chars range cls := by
  constructor
  · rintro ⟨⟩
    rfl
  · rintro rfl
    exact .refl _

theorem Node.below_group {children : List Node} :
    (Node.group range children).Below p m ↔
      m = .group range children ∨ p range ∧ ∃ child ∈ children, child.Below p m := by
  constructor
  · intro h
    cases h with
    | refl => exact .inl rfl
    | group hrange hchild h => exact .inr ⟨hrange, _, hchild, h⟩
  · rintro (rfl | ⟨hrange, child, hchild, h⟩)
    · exact .refl _
    · exact .group hrange hchild h

theorem Node.below_single {child : Node} :
    (Node.single range child).Below p m ↔
      m = .single range child ∨ p range ∧ child.Below p m := by
  constructor
  · intro h
    cases h with
    | refl => exact .inl rfl
    | single hrange h => exact .inr ⟨hrange, h⟩
  · rintro (rfl | ⟨hrange, h⟩)
    · exact .refl _
    · exact .single hrange h

end

/-! ## Which failures there are -/

/-- If repeating a step fails, then the step does, and there is at least one. -/
theorem leads_error_of_iterate {α : Type} {f : α → Draw Range α} {n : Nat} {a : α} {e : Range}
    (h : (Draw.iterate n f a).Leads (.error e)) : 0 < n ∧ ∃ b, (f b).Leads (.error e) := by
  induction n generalizing a with
  | zero => simp at h
  | succ n ih =>
    rw [iterate_succ, leads_bind_error] at h
    rcases h with h | ⟨b, -, h⟩
    · exact ⟨Nat.succ_pos n, a, h⟩
    · exact ⟨Nat.succ_pos n, (ih h).2⟩

/-- What is done as often as a range says fails if the range is inverted, or if what is done
fails and may happen. -/
theorem leads_error_of_counted {α : Type} {f : α → Draw Range α} {r e : Range} {a : α}
    (h : (r.draw.bind fun n => Draw.iterate n f a).Leads (.error e)) :
    (r.max < r.min ∧ e = r) ∨ (MayHappen r ∧ ∃ b, (f b).Leads (.error e)) := by
  rw [leads_bind_error] at h
  rcases h with h | ⟨n, hn, h⟩
  · rw [Range.draw_leads_error, Range.inverted_iff] at h
    exact .inl h
  · obtain ⟨hpos, hb⟩ := leads_error_of_iterate h
    obtain ⟨n, rfl⟩ := Nat.exists_eq_succ_of_ne_zero hpos.ne'
    exact .inr ⟨Range.mayHappen_iff.2 ⟨n, Range.draw_leads_ok.1 hn⟩, hb⟩

namespace Node

theorem leads_error_of_extendAll {nodes : List Node} {a : String} {e : Range}
    (h : (extendAll nodes a).Leads (.error e)) :
    ∃ n ∈ nodes, ∃ b, (n.extend b).Leads (.error e) := by
  induction nodes generalizing a with
  | nil => simp at h
  | cons n nodes ih =>
    rw [extendAll_cons, leads_bind_error] at h
    rcases h with h | ⟨b, -, h⟩
    · exact ⟨n, List.mem_cons_self, a, h⟩
    · obtain ⟨m, hm, hb⟩ := ih h
      exact ⟨m, List.mem_cons_of_mem n hm, hb⟩

/-- A failure names the range of an inverted node that naming can come to. -/
theorem below_of_leads_error {n : Node} {a : String} {e : Range}
    (h : (n.extend a).Leads (.error e)) :
    ∃ m : Node, m.Inverted ∧ n.Below MayHappen m ∧ m.range = e := by
  induction n generalizing a with
  | literal range text => simp at h
  | chars range cls =>
    rcases leads_error_of_counted h with ⟨hlt, rfl⟩ | ⟨-, b, hb⟩
    · exact ⟨_, ⟨e, rfl, hlt⟩, .refl _, rfl⟩
    · simp at hb
  | group range children ih =>
    rcases leads_error_of_counted h with ⟨hlt, rfl⟩ | ⟨hrange, b, hb⟩
    · exact ⟨_, ⟨e, rfl, hlt⟩, .refl _, rfl⟩
    · obtain ⟨child, hchild, c, hc⟩ := leads_error_of_extendAll hb
      obtain ⟨m, hm, hbelow, hr⟩ := ih child hchild hc
      exact ⟨m, hm, .group hrange hchild hbelow, hr⟩
  | single range child ih =>
    rcases leads_error_of_counted h with ⟨hlt, rfl⟩ | ⟨hrange, b, hb⟩
    · exact ⟨_, ⟨e, rfl, hlt⟩, .refl _, rfl⟩
    · obtain ⟨m, hm, hbelow, hr⟩ := ih hb
      exact ⟨m, hm, .single hrange hbelow, hr⟩

end Node

/-! ## Failures that can be brought about -/

/-- What may happen and can fail makes its repetition fail. -/
theorem exists_leads_error_counted {f : String → Draw Range String} {r : Range}
    (hr : MayHappen r) (hf : ∀ a, ∃ e, (f a).Leads (.error e)) (a : String) :
    ∃ e, (r.draw.bind fun n => Draw.iterate n f a).Leads (.error e) := by
  obtain ⟨n, hn⟩ := Range.mayHappen_iff.1 hr
  obtain ⟨e, he⟩ := hf a
  refine ⟨e, leads_bind_error.2 (.inr ⟨n + 1, Range.draw_leads_ok.2 hn, ?_⟩)⟩
  rw [iterate_succ, leads_bind_error]
  exact .inl he

namespace Node

/-- A row with a member that can fail can fail: what comes before that member fails itself or
leads on to it. -/
theorem exists_leads_error_extendAll {nodes : List Node} {n : Node} (hn : n ∈ nodes)
    (hfail : ∀ a, ∃ e, (n.extend a).Leads (.error e)) (a : String) :
    ∃ e, (extendAll nodes a).Leads (.error e) := by
  induction nodes generalizing a with
  | nil => exact absurd hn List.not_mem_nil
  | cons first nodes ih =>
    rcases List.mem_cons.1 hn with rfl | hn
    · obtain ⟨e, he⟩ := hfail a
      exact ⟨e, leads_bind_error.2 (.inl he)⟩
    · -- the first node comes to some end, be it a failure of its own
      obtain ⟨end', hend⟩ := (first.feasible_extend a).exists_leads
      rcases end' with e | b
      · exact ⟨e, leads_bind_error.2 (.inl hend)⟩
      · obtain ⟨e, he⟩ := ih hn b
        exact ⟨e, leads_bind_error.2 (.inr ⟨b, hend, he⟩)⟩

/-- An inverted node fails with its own range. -/
theorem leads_error_of_inverted {n : Node} {r : Range} (hr : n.range? = some r)
    (hlt : r.max < r.min) (a : String) : (n.extend a).Leads (.error r) := by
  cases n with
  | literal range text => simp [range?] at hr
  | chars range | group range | single range =>
    obtain rfl : range = r := Option.some.inj hr
    exact leads_bind_error.2 (.inl (Range.draw_leads_error.2 ⟨range.inverted_iff.2 hlt, rfl⟩))

theorem exists_leads_error {n m : Node} (h : n.Below MayHappen m) (hm : m.Inverted) (a : String) :
    ∃ e, (n.extend a).Leads (.error e) := by
  induction h generalizing a with
  | refl n =>
    obtain ⟨r, hr, hlt⟩ := hm
    exact ⟨r, leads_error_of_inverted hr hlt a⟩
  | group hrange hchild h ih =>
    exact exists_leads_error_counted hrange (exists_leads_error_extendAll hchild (ih hm)) a
  | single hrange h ih => exact exists_leads_error_counted hrange (ih hm) a

end Node

/-! ## Nodes without words

A name can be made up if the language of the tree has a word. It has none if a node is forced:
then the words of that node, of which there are none, are part of every word. -/

/-- A counted language has a word if its range holds a count, and that count is zero or there is
a word to repeat. -/
theorem exists_mem_counted_iff {l : Language Char} {r : Range} :
    (∃ w, w ∈ r.counted l) ↔ r.inverted = false ∧ (MustHappen r → ∃ w, w ∈ l) := by
  simp only [Range.mem_counted, Range.mustHappen_iff]
  constructor
  · rintro ⟨w, n, hn, hw⟩
    refine ⟨Range.inverted_eq_false.2 (UInt32.le_iff_toNat_le.2 (hn.1.trans hn.2)), ?_⟩
    rintro ⟨-, hzero⟩
    cases n with
    | zero => exact absurd hn hzero
    | succ n =>
      rw [pow_succ', Language.mem_mul] at hw
      obtain ⟨v, hv, -⟩ := hw
      exact ⟨v, hv⟩
  · rintro ⟨hinv, hmust⟩
    -- with a count of zero no word of `l` is needed
    by_cases hzero : r.Contains 0
    · exact ⟨[], 0, hzero, rfl⟩
    · obtain ⟨w, hw⟩ := hmust ⟨hinv, hzero⟩
      refine ⟨(List.replicate r.min.toNat w).flatten, _, Range.contains_min hinv, ?_⟩
      exact Language.mem_pow.2 ⟨_, rfl, List.length_replicate, fun v hv =>
        List.eq_of_mem_replicate hv ▸ hw⟩

namespace Node

theorem exists_mem_rowLanguage_iff {nodes : List Node} :
    (∃ w, w ∈ rowLanguage nodes) ↔ ∀ n ∈ nodes, ∃ w, w ∈ n.language := by
  induction nodes with
  | nil => simp
  | cons n nodes ih =>
    rw [List.forall_mem_cons, ← ih, rowLanguage_cons]
    constructor
    · rintro ⟨_, v, hv, w, hw, rfl⟩
      exact ⟨⟨v, hv⟩, w, hw⟩
    · rintro ⟨⟨v, hv⟩, w, hw⟩
      exact ⟨v ++ w, Language.append_mem_mul hv hw⟩

/-- A node has a word unless a node is forced there. -/
theorem exists_mem_language_iff {n : Node} :
    (∃ w, w ∈ n.language) ↔ ∀ m : Node, m.Inverted → ¬ n.Below MustHappen m := by
  induction n with
  | literal range text =>
    refine ⟨fun _ m hm hbelow => ?_, fun _ => ⟨text.toList, rfl⟩⟩
    rw [below_literal.1 hbelow] at hm
    obtain ⟨r, hr, -⟩ := hm
    simp [range?] at hr
  | chars range cls =>
    have hword : ∃ w, w ∈ cls.language :=
      ⟨_, _, List.head_mem cls.alphabet_ne_nil, rfl⟩
    rw [language_chars, exists_mem_counted_iff, ← not_inverted_iff (n := chars range cls) rfl]
    simp only [hword, implies_true, and_true, below_chars]
    exact ⟨fun h m hm hbelow => h (hbelow ▸ hm), fun h hm => h _ hm rfl⟩
  | group range children ih =>
    rw [language_group, exists_mem_counted_iff, exists_mem_rowLanguage_iff,
      ← not_inverted_iff (n := group range children) rfl]
    simp only [below_group]
    constructor
    · rintro ⟨hself, hrow⟩ m hm (rfl | ⟨hrange, child, hchild, hbelow⟩)
      · exact hself hm
      · exact (ih child hchild).1 (hrow hrange child hchild) m hm hbelow
    · intro h
      refine ⟨fun hself => h _ hself (.inl rfl), fun hrange child hchild => ?_⟩
      exact (ih child hchild).2 fun m hm hbelow => h m hm (.inr ⟨hrange, child, hchild, hbelow⟩)
  | single range child ih =>
    rw [language_single, exists_mem_counted_iff, ← not_inverted_iff (n := single range child) rfl]
    simp only [below_single]
    constructor
    · rintro ⟨hself, hchild⟩ m hm (rfl | ⟨hrange, hbelow⟩)
      · exact hself hm
      · exact ih.1 (hchild hrange) m hm hbelow
    · intro h
      refine ⟨fun hself => h _ hself (.inl rfl), fun hrange => ?_⟩
      exact ih.2 fun m hm hbelow => h m hm (.inr ⟨hrange, hbelow⟩)

end Node

/-- A tree has a word unless a node is forced. -/
theorem exists_mem_language_iff {t : Tree} : (∃ w, w ∈ t.language) ↔ ¬ ∃ m, t.Forced m := by
  simp only [language, Node.exists_mem_rowLanguage_iff, Node.exists_mem_language_iff, Forced,
    not_exists, not_and]
  exact ⟨fun h m hm n hn => h n hn m hm, fun h n hn m hm => h m hm n hn⟩

/-! ## The first inverted range

If no group can be left out, naming goes through the nodes in the order in which the check does,
so both meet the same inverted range first. -/

/-- No group among the nodes can be left out. -/
def NoneLeftOut (nodes : List Node) : Prop :=
  (∀ range children, Node.group range children ∈ nodes → range.min ≠ 0) ∧
    ∀ range child, Node.single range child ∈ nodes → range.min ≠ 0

theorem NoneLeftOut.mono {nodes others : List Node} (h : NoneLeftOut nodes)
    (hsub : ∀ n ∈ others, n ∈ nodes) : NoneLeftOut others :=
  ⟨fun range children hn => h.1 range children (hsub _ hn),
    fun range child hn => h.2 range child (hsub _ hn)⟩

/-- The first inverted range, those of literals left out. -/
def firstInverted? (nodes : List Node) : Option Range :=
  (nodes.filterMap Node.range?).find? Range.inverted

theorem firstInverted?_append (nodes later : List Node) :
    firstInverted? (nodes ++ later) = (firstInverted? nodes).or (firstInverted? later) := by
  rw [firstInverted?, List.filterMap_append, List.find?_append]
  rfl

theorem firstInverted?_cons {n : Node} {r : Range} (hr : n.range? = some r) (nodes : List Node) :
    firstInverted? (n :: nodes) = if r.inverted then some r else firstInverted? nodes := by
  rw [firstInverted?, List.filterMap_cons_some hr, List.find?_cons]
  rcases r.inverted with _ | _ <;> rfl

theorem firstInverted?_eq_none {nodes : List Node} :
    firstInverted? nodes = none ↔ ∀ m ∈ nodes, ¬ m.Inverted := by
  simp only [firstInverted?, List.find?_eq_none, List.mem_filterMap, Range.inverted_iff,
    Node.Inverted]
  constructor
  · rintro h m hm ⟨r, hr, hlt⟩
    exact h r ⟨m, hm, hr⟩ hlt
  · rintro h r ⟨m, hm, hr⟩ hlt
    exact h m hm ⟨r, hr, hlt⟩

/-- If a computation can only fail, and with `e`, then so does whatever goes on from it. -/
theorem eq_error_of_bind {α β : Type} {m : Draw Range α} {f : α → Draw Range β} {e : Range}
    (hm : ∀ x, m.Leads x → x = .error e) {x : Except Range β} (hx : (m.bind f).Leads x) :
    x = .error e := by
  cases x with
  | ok b =>
    obtain ⟨a, ha, -⟩ := leads_bind_ok.1 hx
    exact absurd (hm _ ha) (by simp)
  | error e' =>
    rcases leads_bind_error.1 hx with h | ⟨a, ha, -⟩
    · rw [Except.error.inj (hm _ h)]
    · exact absurd (hm _ ha) (by simp)

/-- An inverted range is the only thing that comes of it. -/
theorem eq_error_of_inverted {α : Type} {r : Range} (h : r.inverted = true)
    {f : Nat → Draw Range α} {x : Except Range α} (hx : (r.draw.bind f).Leads x) :
    x = .error r := by
  rw [Range.draw, if_pos h] at hx
  exact hx

/-- What can only fail, with `e`, fails so if it is repeated and cannot be left out. -/
theorem eq_error_of_counted {f : String → Draw Range String} {r e : Range} (hmin : r.min ≠ 0)
    (hinv : r.inverted = false) (hf : ∀ a x, (f a).Leads x → x = .error e) {a : String}
    {x : Except Range String} (hx : (r.draw.bind fun n => Draw.iterate n f a).Leads x) :
    x = .error e := by
  have hiter : ∀ n, r.draw.Leads (.ok n) → (Draw.iterate n f a).Leads x → x = .error e := by
    intro n hn hx
    have hpos : r.min.toNat ≠ 0 := fun h => hmin (UInt32.toNat_inj.1 h)
    obtain ⟨n, rfl⟩ := Nat.exists_eq_succ_of_ne_zero
      (Nat.ne_of_gt (Nat.lt_of_lt_of_le (Nat.pos_of_ne_zero hpos) (Range.draw_leads_ok.1 hn).1))
    rw [iterate_succ] at hx
    exact eq_error_of_bind (hf a) hx
  cases x with
  | ok b =>
    obtain ⟨n, hn, hx⟩ := leads_bind_ok.1 hx
    exact hiter n hn hx
  | error e' =>
    rcases leads_bind_error.1 hx with h | ⟨n, hn, hx⟩
    · rw [Range.draw_leads_error, hinv] at h
      exact absurd h.1 Bool.false_ne_true
    · exact hiter n hn hx

namespace Node

theorem eq_error_of_extendAll {nodes : List Node} {e : Range}
    (h : ∀ n ∈ nodes, ∀ r, firstInverted? n.preorder = some r →
      ∀ a x, (n.extend a).Leads x → x = .error r)
    (he : firstInverted? (preorderAll nodes) = some e) (a : String) (x : Except Range String)
    (hx : (extendAll nodes a).Leads x) : x = .error e := by
  induction nodes generalizing a x with
  | nil => simp [firstInverted?] at he
  | cons n nodes ih =>
    rw [preorderAll_cons, firstInverted?_append] at he
    rw [extendAll_cons] at hx
    rcases hn : firstInverted? n.preorder with _ | r
    · -- nothing is wrong with the first node, so it leads on to the others
      rw [hn, Option.none_or] at he
      have hok : ∀ r, ¬ (n.extend a).Leads (.error r) := by
        intro r hr
        obtain ⟨m, hm, hbelow, -⟩ := below_of_leads_error hr
        exact firstInverted?_eq_none.1 hn m hbelow.mem_preorder hm
      have hrest := ih (fun m hm => h m (List.mem_cons_of_mem n hm)) he
      cases x with
      | ok b =>
        obtain ⟨mid, -, hx⟩ := leads_bind_ok.1 hx
        exact hrest mid _ hx
      | error e' =>
        rcases leads_bind_error.1 hx with hx | ⟨mid, -, hx⟩
        · exact absurd hx (hok e')
        · exact hrest mid _ hx
    · obtain rfl : r = e := by simpa [hn] using he
      exact eq_error_of_bind (h n List.mem_cons_self r hn a) hx

/-- A node of which nothing can be left out and that holds an inverted range always fails, and
with the first of them. -/
theorem eq_error_of_firstInverted {n : Node} (hnone : NoneLeftOut n.preorder) {e : Range}
    (he : firstInverted? n.preorder = some e) (a : String) (x : Except Range String)
    (hx : (n.extend a).Leads x) : x = .error e := by
  induction n generalizing e a x with
  | literal range text => simp [firstInverted?, range?] at he
  | chars range cls =>
    rw [preorder_chars, firstInverted?_cons rfl] at he
    rcases hinv : range.inverted with _ | _
    · simp [hinv, firstInverted?] at he
    · obtain rfl : range = e := by simpa [hinv] using he
      exact eq_error_of_inverted hinv hx
  | group range children ih =>
    rw [preorder_group, firstInverted?_cons rfl] at he
    rcases hinv : range.inverted with _ | _
    · rw [hinv, if_neg Bool.false_ne_true] at he
      refine eq_error_of_counted (hnone.1 _ _ List.mem_cons_self) hinv
        (eq_error_of_extendAll (fun child hchild r hr => ?_) he) hx
      refine ih child hchild (hnone.mono fun m hm => ?_) hr
      exact mem_preorder_group hchild hm
    · obtain rfl : range = e := by simpa [hinv] using he
      exact eq_error_of_inverted hinv hx
  | single range child ih =>
    rw [preorder_single, firstInverted?_cons rfl] at he
    rcases hinv : range.inverted with _ | _
    · rw [hinv, if_neg Bool.false_ne_true] at he
      have hsub : NoneLeftOut child.preorder :=
        hnone.mono fun m hm => List.mem_cons_of_mem _ hm
      exact eq_error_of_counted (hnone.2 _ _ List.mem_cons_self) hinv (ih hsub he) hx
    · obtain rfl : range = e := by simpa [hinv] using he
      exact eq_error_of_inverted hinv hx

end Node

/-! ## Trees -/

variable {t : Tree}

theorem check_eq_error_iff {e : Range} :
    t.check = .error e ↔ firstInverted? t.preorder = some e := by
  rw [check, show firstInverted? t.preorder = t.inverted? from rfl]
  cases t.inverted? <;> simp

theorem exposed_of_leads_error {e : Range} (h : t.generate.Leads (.error e)) :
    ∃ m, t.Exposed m ∧ m.range = e := by
  obtain ⟨n, hn, a, ha⟩ := Node.leads_error_of_extendAll h
  obtain ⟨m, hm, hbelow, hr⟩ := Node.below_of_leads_error ha
  exact ⟨m, ⟨hm, n, hn, hbelow⟩, hr⟩

theorem Exposed.exists_leads_error {m : Node} (h : t.Exposed m) :
    ∃ e, t.generate.Leads (.error e) := by
  obtain ⟨hm, n, hn, hbelow⟩ := h
  exact Node.exists_leads_error_extendAll hn (Node.exists_leads_error hbelow hm) ""

/-- An exposed node is one of the nodes that the check looks at. -/
theorem Exposed.check_ne_ok {m : Node} (h : t.Exposed m) : t.check ≠ .ok () := by
  obtain ⟨⟨r, hr, hlt⟩, n, hn, hbelow⟩ := h
  intro hcheck
  have hmem : m ∈ t.preorder := mem_preorder_of_mem hn hbelow.mem_preorder
  have hinv := check_eq_ok_iff.1 hcheck m hmem r hr
  rw [r.inverted_iff.2 hlt] at hinv
  exact Bool.false_ne_true hinv.symm

/-- If a node is forced, every end is a failure. -/
theorem Forced.exists_error {m : Node} (h : t.Forced m) {x : Except Range String}
    (hx : t.generate.Leads x) : ∃ e, x = .error e := by
  cases x with
  | ok name =>
    have hwrites := Node.writes_extendAll (fun n (_ : n ∈ t.nodes) => n.writes_extend)
    obtain ⟨w, hw, -⟩ := (hwrites _ _).1 hx
    exact absurd ⟨m, h⟩ (exists_mem_language_iff.1 ⟨w, hw⟩)
  | error e => exact ⟨e, rfl⟩

/-- If nothing can be left out, every end is the failure that the check reports. -/
theorem eq_error_of_check (hnone : NoneLeftOut t.preorder) {e : Range} (he : t.check = .error e)
    {x : Except Range String} (hx : t.generate.Leads x) : x = .error e := by
  refine Node.eq_error_of_extendAll (fun n hn r hr => ?_) (check_eq_error_iff.1 he) "" x hx
  refine Node.eq_error_of_firstInverted (hnone.mono fun m hm => ?_) hr
  exact mem_preorder_of_mem hn hm

/-- **When naming fails.** Some words make it fail if and only if a node is exposed; all words,
if there are enough of them, make it fail if and only if a node is forced. Whatever the source,
a failure names the range of an exposed node, and if no group can be left out it is the one that
the check reports. A tree that passes its check never fails. An endless source is one of these
as soon as the words that may be taken are limited, to any number. -/
theorem failure_iff (t : Tree) :
    ((∃ words : Words, ∃ e, (t.generate.run words).1 = .failed e) ↔ ∃ m, t.Exposed m) ∧
    ((∀ words : Words, (t.generate.run words).1 ≠ .exhausted →
      ∃ e, (t.generate.run words).1 = .failed e) ↔ ∃ m, t.Forced m) ∧
    ∀ {σ : Type} [FiniteSource σ] (s : σ),
      (∀ e, (t.generate.run s).1 = .failed e → ∃ m, t.Exposed m ∧ m.range = e) ∧
      ((∃ m, t.Forced m) → (t.generate.run s).1 ≠ .exhausted →
        ∃ e, (t.generate.run s).1 = .failed e) ∧
      (NoneLeftOut t.preorder → (∃ m ∈ t.preorder, m.Inverted) → ∃ e, t.check = .error e ∧
        ((t.generate.run s).1 ≠ .exhausted → (t.generate.run s).1 = .failed e)) ∧
      (t.check = .ok () → ∀ e, (t.generate.run s).1 ≠ .failed e) := by
  have hforced : ∀ {σ : Type} [FiniteSource σ] (s : σ), (∃ m, t.Forced m) →
      (t.generate.run s).1 ≠ .exhausted → ∃ e, (t.generate.run s).1 = .failed e := by
    rintro σ _ s ⟨m, hm⟩ hout
    obtain hexh | ⟨x, hx, hrun⟩ := t.generate.run_cases s
    · exact absurd hexh hout
    · obtain ⟨e, rfl⟩ := hm.exists_error hx
      exact ⟨e, hrun⟩
  refine ⟨?_, ⟨?_, fun hm words => hforced words hm⟩, fun s => ⟨?_, hforced s, ?_, ?_⟩⟩
  · constructor
    · rintro ⟨words, e, h⟩
      obtain ⟨m, hm, -⟩ := exposed_of_leads_error (leads_of_run_failed h)
      exact ⟨m, hm⟩
    · rintro ⟨m, hm⟩
      obtain ⟨e, he⟩ := hm.exists_leads_error
      obtain ⟨words, h⟩ := (exists_words_iff t.feasible_generate).2 he
      exact ⟨words, e, h⟩
  · -- if no node is forced there is a name, and the words that lead to it do not fail
    intro hall
    by_contra hno
    obtain ⟨w, hw⟩ := exists_mem_language_iff.2 hno
    rw [← String.toList_ofList (l := w), mem_language_iff] at hw
    obtain ⟨words, h⟩ := hw
    obtain ⟨e, he⟩ := hall words (by simp [h])
    simp [h] at he
  · intro e h
    exact exposed_of_leads_error (leads_of_run_failed h)
  · rintro hnone ⟨m, hm, hinv⟩
    obtain ⟨e, he⟩ := Option.ne_none_iff_exists'.1
      fun hn => firstInverted?_eq_none.1 hn m hm hinv
    refine ⟨e, check_eq_error_iff.2 he, fun hout => ?_⟩
    obtain hexh | ⟨x, hx, hrun⟩ := t.generate.run_cases s
    · exact absurd hexh hout
    · rw [eq_error_of_check hnone (check_eq_error_iff.2 he) hx] at hrun
      exact hrun
  · intro hcheck e h
    obtain ⟨m, hm, -⟩ := exposed_of_leads_error (leads_of_run_failed h)
    exact hm.check_ne_ok hcheck

/-- A tree with an inverted range inside a group that must happen, behind a class that need not. -/
def doomed : Tree :=
  .list [.chars ⟨0, 2⟩ (.ofPool .digit),
    .group ⟨1, 4⟩ [.literal ⟨9, 0⟩ "x", .chars ⟨3, 1⟩ (.ofPool .underscore)]]

/-- The literal has an inverted range as well, which is not looked at. -/
theorem failure_iff_doomed :
    NoneLeftOut doomed.preorder ∧ doomed.check = .error ⟨3, 1⟩ ∧
      ∀ words : Words, (doomed.generate.run words).1 ≠ .exhausted →
        (doomed.generate.run words).1 = .failed ⟨3, 1⟩ := by
  have hnone : NoneLeftOut doomed.preorder := by
    simp [NoneLeftOut, doomed, preorder]
  have hcheck : doomed.check = .error ⟨3, 1⟩ := rfl
  refine ⟨hnone, hcheck, fun words hout => ?_⟩
  obtain ⟨-, -, hsource⟩ := failure_iff doomed
  obtain ⟨-, -, hfirst, -⟩ := hsource words
  have hinv : ∃ m ∈ doomed.preorder, m.Inverted :=
    ⟨.chars ⟨3, 1⟩ (.ofPool .underscore), by simp [doomed, preorder],
      ⟨3, 1⟩, rfl, by decide⟩
  obtain ⟨e, he, hrun⟩ := hfirst hnone hinv
  rw [hrun hout, Except.error.inj (hcheck.symm.trans he)]

end Tree

end Moniker
