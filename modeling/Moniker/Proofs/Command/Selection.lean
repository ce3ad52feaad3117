import Moniker.Command.Answer
import Moniker.Proofs.Except

/-!
# Which policies are selected

* `Options.Selects` — the policies that the options of a command line ask for: that of the
  pattern given there, all of a set, or those of the rules that are named, one for each mention;
* `Options.Refuses` — what stands in the way of that;
* `Options.select_eq_ok_iff`, `Options.select_eq_error_iff` — the selection of the program comes
  to exactly that.
-/

namespace Moniker

namespace Options

/-- The policies that the options ask for, in order. -/
inductive Selects (files : Files) (o : Options) : List Policy → Prop where
  /-- that of the pattern -/
  | pattern {text : String} {p : Policy} (hpattern : o.pattern? = some text)
      (hp : Policy.ofPattern? "pattern" text = .ok p) : Selects files o [p]
  /-- all of the set -/
  | all {s : PolicySet} (hpattern : o.pattern? = none) (hs : o.policySet files = .ok s)
      (hrules : o.rules = []) : Selects files o s.policies
  /-- those of the rules, each as often as its name is given -/
  | named {s : PolicySet} {ps : List Policy} (hpattern : o.pattern? = none)
      (hs : o.policySet files = .ok s) (hrules : o.rules ≠ [])
      (hps : List.Forall₂ (fun rule p => s.get? rule = some p) o.rules ps) : Selects files o ps

/-- Why no policies can be selected. -/
inductive Refuses (files : Files) (o : Options) : Error → Prop where
  /-- the pattern makes no policy -/
  | pattern {text : String} {e : PolicyError} (hpattern : o.pattern? = some text)
      (he : Policy.ofPattern? "pattern" text = .error e) : Refuses files o (.policy e)
  /-- there is no set to select from -/
  | noSet {e : Error} (hpattern : o.pattern? = none) (he : o.policySet files = .error e) :
      Refuses files o e
  /-- this is the first of the rules that the set does not have -/
  | unknown {s : PolicySet} {before after : List String} {rule : String}
      (hpattern : o.pattern? = none) (hs : o.policySet files = .ok s)
      (hrules : o.rules = before ++ rule :: after)
      (hbefore : ∀ r ∈ before, ∃ p, s.get? r = some p) (hrule : s.get? rule = none) :
      Refuses files o (.unknownRule rule)

end Options

namespace PolicySet

variable {s : PolicySet} {name : String}

theorem get_eq_ok_iff {p : Policy} : s.get name = .ok p ↔ s.get? name = some p := by
  rw [get]
  split <;> simp [*]

theorem get_eq_error_iff {e : Error} :
    s.get name = .error e ↔ s.get? name = none ∧ e = .unknownRule name := by
  rw [get]
  split <;> simp [*, eq_comm]

end PolicySet

namespace Options

variable {files : Files} {o : Options}

/-- The choice from a set. -/
theorem choose_eq_ok_iff {s : PolicySet} {ps : List Policy} :
    o.choose s = .ok ps ↔ (o.rules = [] ∧ ps = s.policies) ∨
      (o.rules ≠ [] ∧ List.Forall₂ (fun rule p => s.get? rule = some p) o.rules ps) := by
  rw [choose]
  by_cases hrules : o.rules = []
  · simp [hrules, eq_comm]
  · simp [hrules, mapM_eq_ok_iff, PolicySet.get_eq_ok_iff]

/-- There is none if the set lacks a rule, and the first of those that it lacks is told. -/
theorem choose_eq_error_iff {s : PolicySet} {e : Error} :
    o.choose s = .error e ↔ ∃ before rule after, o.rules = before ++ rule :: after ∧
      (∀ r ∈ before, ∃ p, s.get? r = some p) ∧ s.get? rule = none ∧ e = .unknownRule rule := by
  rw [choose]
  by_cases hrules : o.rules = []
  · simp [hrules]
  · simp [hrules, mapM_eq_error_iff, PolicySet.get_eq_ok_iff, PolicySet.get_eq_error_iff]

/-- Policies are selected if the options ask for them. -/
theorem select_eq_ok_iff {ps : List Policy} : o.select files = .ok ps ↔ o.Selects files ps := by
  rw [select]
  cases hpattern : o.pattern? with
  | some text =>
    simp only [bind_eq_ok_iff, mapError_eq_ok_iff, Except.ok.injEq]
    constructor
    · rintro ⟨p, hp, rfl⟩
      exact .pattern hpattern hp
    · rintro (⟨htext, hp⟩ | ⟨hnone, -, -⟩ | ⟨hnone, -, -, -⟩)
      · obtain rfl := Option.some.inj (hpattern.symm.trans htext)
        exact ⟨_, hp, rfl⟩
      · simp [hpattern] at hnone
      · simp [hpattern] at hnone
  | none =>
    simp only [bind_eq_ok_iff, choose_eq_ok_iff]
    constructor
    · rintro ⟨s, hs, ⟨hrules, rfl⟩ | ⟨hrules, hps⟩⟩
      · exact .all hpattern hs hrules
      · exact .named hpattern hs hrules hps
    · rintro (⟨htext, -⟩ | ⟨-, hs, hrules⟩ | ⟨-, hs, hrules, hps⟩)
      · simp [hpattern] at htext
      · exact ⟨_, hs, .inl ⟨hrules, rfl⟩⟩
      · exact ⟨_, hs, .inr ⟨hrules, hps⟩⟩

/-- The selection fails with what stands in its way. -/
theorem select_eq_error_iff {e : Error} : o.select files = .error e ↔ o.Refuses files e := by
  rw [select]
  cases hpattern : o.pattern? with
  | some text =>
    simp only [bind_eq_error_iff, mapError_eq_error_iff]
    constructor
    · rintro (⟨e', he, rfl⟩ | ⟨p, -, hp⟩)
      · exact .pattern hpattern he
      · simp at hp
    · rintro (⟨htext, he⟩ | ⟨hnone, -⟩ | ⟨hnone, -, -, -, -⟩)
      · obtain rfl := Option.some.inj (hpattern.symm.trans htext)
        exact .inl ⟨_, he, rfl⟩
      · simp [hpattern] at hnone
      · simp [hpattern] at hnone
  | none =>
    simp only [bind_eq_error_iff, choose_eq_error_iff]
    constructor
    · rintro (he | ⟨s, hs, before, rule, after, hrules, hbefore, hrule, rfl⟩)
      · exact .noSet hpattern he
      · exact .unknown hpattern hs hrules hbefore hrule
    · rintro (⟨htext, -⟩ | ⟨-, he⟩ | ⟨-, hs, hrules, hbefore, hrule⟩)
      · simp [hpattern] at htext
      · exact .inl he
      · exact .inr ⟨_, hs, _, _, _, hrules, hbefore, hrule, rfl⟩

end Options

end Moniker
