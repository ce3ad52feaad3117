import Moniker.Proofs.Command.Selection
import Moniker.Proofs.Policy.Rules
import Moniker.Proofs.Text.Lines

/-!
# Where policies come from

A policy that is selected from a set was written down as a rule, either in a rule file or among
the built-in ones. So its name has the form of a name, and its pattern stands on one line.

* `Policy.OfRule` — what that says of a policy;
* `PolicySet.ofRule_of_ofSource?`, `PolicySet.ofRule_defaults` — all policies of a set are such;
* `Options.Selects.ofRule`, `Options.Selects.sound` — and so are those that are selected, unless
  a pattern is given; sound they are in any case.
-/

namespace Moniker

/-! ## Names -/

namespace IsName

variable {cs : List Char} (h : IsName cs)
include h

theorem forall_mem : ∀ c ∈ cs, IsLetter c ∨ IsDigit c ∨ c = '_' ∨ c = '-' := by
  obtain ⟨first, later, rfl, hfirst, hlater⟩ := h
  refine List.forall_mem_cons.2 ⟨?_, hlater⟩
  rcases hfirst with hletter | hunderscore
  · exact .inl hletter
  · exact .inr (.inr (.inl hunderscore))

theorem colon_notMem : ':' ∉ cs := fun hmem =>
  absurd (h.forall_mem _ hmem) (by unfold IsLetter IsDigit; decide)

theorem newline_notMem : '\n' ∉ cs := fun hmem =>
  absurd (h.forall_mem _ hmem) (by unfold IsLetter IsDigit; decide)

end IsName

/-! ## Rules on one line -/

/-- A rule line is a line, so it has no line feed in it. -/
theorem newline_notMem_of_mem_ruleLines {source : String} {r : RuleLine}
    (h : r ∈ ruleLines source) : '\n' ∉ r.text := by
  rw [ruleLines_eq, rulesFrom] at h
  obtain ⟨⟨line, number⟩, hline, hr⟩ := List.mem_filterMap.1 h
  have hnewline := Text.newline_notMem_of_mem_lines (List.fst_mem_of_mem_zipIdx hline)
  simp only [ruleLine?] at hr
  split at hr
  · simp at hr
  · rw [← Option.some.inj hr]
    exact fun hmem => hnewline ((Text.trim_sublist line).mem hmem)

theorem RuleLine.pattern_sublist (r : RuleLine) : r.pattern.toList.Sublist r.text := by
  rw [pattern, String.toList_ofList]
  exact (Text.trim_sublist _).trans ((List.tail_sublist _).trans (List.dropWhile_sublist _))

namespace Policy

/-- The policy was written down as a rule. -/
structure OfRule (p : Policy) : Prop where
  name : IsName p.name.toList
  oneLine : '\n' ∉ p.pattern.toList
  sound : p.Sound

theorem ofRule_of_ofPattern? {name pattern : String} {p : Policy}
    (h : ofPattern? name pattern = .ok p) (hname : IsName name.toList)
    (hline : '\n' ∉ pattern.toList) : p.OfRule := by
  have hsound := sound_of_ofPattern? h
  obtain ⟨tree, -, -, rfl⟩ := ofPattern?_eq_ok_iff.1 h
  exact ⟨hname, hline, hsound⟩

theorem ofRule_of_gives {source : String} {r : RuleLine} {p : Policy} (hr : r ∈ ruleLines source)
    (h : r.Gives p) : p.OfRule := by
  obtain ⟨haccept, q, hq, rfl⟩ := h
  have hline : '\n' ∉ r.pattern.toList := fun hmem =>
    newline_notMem_of_mem_ruleLines hr (r.pattern_sublist.mem hmem)
  have hrule := ofRule_of_ofPattern? hq haccept.name hline
  exact ⟨hrule.name, hrule.oneLine, hrule.sound.atLine (some r.number)⟩

end Policy

/-! ## Sets -/

namespace PolicySet

variable {s : PolicySet}

theorem ofRule_defaults : ∀ p ∈ defaults.policies, p.OfRule := by
  have hrules : ∀ rule ∈ builtInRules,
      isRuleName rule.1.toList = true ∧ '\n' ∉ rule.2.toList := by decide +kernel
  intro p hp
  rcases mem_of_mem_insertAll hp with hp | hp
  · obtain ⟨rule, hrule, hp⟩ := mem_builtIn_iff.1 hp
    obtain ⟨hname, hline⟩ := hrules rule hrule
    exact Policy.ofRule_of_ofPattern? hp (isRuleName_iff.1 hname) hline
  · exact absurd hp List.not_mem_nil

theorem ofRule_of_ofSource? {source : String} (h : ofSource? source = .ok s) :
    ∀ p ∈ s.policies, p.OfRule := by
  obtain ⟨ps, -, hgives, rfl⟩ := ofSource?_eq_ok_iff.1 h
  intro p hp
  rcases mem_of_mem_insertAll hp with hp | hp
  · obtain ⟨r, hr, hp⟩ := exists_of_forall₂ hgives.flip hp
    exact Policy.ofRule_of_gives hr hp
  · exact ofRule_defaults p hp

end PolicySet

/-! ## Selected policies -/

namespace Options

variable {files : Files} {o : Options} {ps : List Policy}

theorem ofRule_of_policySet {s : PolicySet} (h : o.policySet files = .ok s) :
    ∀ p ∈ s.policies, p.OfRule := by
  rw [policySet] at h
  split at h
  · obtain ⟨source, -, h⟩ := bind_eq_ok_iff.1 h
    exact PolicySet.ofRule_of_ofSource? (mapError_eq_ok_iff.1 h)
  · obtain rfl := Except.ok.inj h
    exact PolicySet.ofRule_defaults

/-- Without a pattern the selected policies are those of rules. -/
theorem Selects.ofRule (h : o.Selects files ps) (hpattern : o.pattern? = none) :
    ∀ p ∈ ps, p.OfRule := by
  intro p hp
  cases h with
  | pattern htext => simp [hpattern] at htext
  | all _ hs => exact ofRule_of_policySet hs p hp
  | named _ hs _ hps =>
    obtain ⟨rule, -, hget⟩ := exists_of_forall₂ hps.flip hp
    exact ofRule_of_policySet hs p (PolicySet.get?_eq_some_iff.1 hget).1

/-- If rules are named, the selected policies are what the set holds under their names. -/
theorem Selects.exists_forall₂ (h : o.Selects files ps) (hpattern : o.pattern? = none)
    (hrules : o.rules ≠ []) : ∃ s, o.policySet files = .ok s ∧
      List.Forall₂ (fun rule p => s.get? rule = some p) o.rules ps := by
  cases h with
  | pattern htext => simp [hpattern] at htext
  | all _ _ hnone => exact absurd hnone hrules
  | named _ hs _ hps => exact ⟨_, hs, hps⟩

/-- All selected policies are sound. -/
theorem Selects.sound (h : o.Selects files ps) : ∀ p ∈ ps, p.Sound := by
  intro p hp
  cases hpattern : o.pattern? with
  | none => exact (h.ofRule hpattern p hp).sound
  | some text =>
    cases h with
    | pattern _ hq =>
      rw [List.mem_singleton.1 hp]
      exact Policy.sound_of_ofPattern? hq
    | all hnone => simp [hpattern] at hnone
    | named hnone => simp [hpattern] at hnone

end Options

end Moniker
