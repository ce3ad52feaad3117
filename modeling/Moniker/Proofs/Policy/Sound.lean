import Moniker.Policy.Basic
import Moniker.Proofs.Tree.Failure

/-!
# Policies that make names

A policy made of a pattern has the tree of the pattern, and this tree has passed its check.
Therefore such a policy never fails to make up a name, except for want of random words, and
there is an expression to check names with.

* `Policy.Sound` — the tree is that of the pattern, and passes its check;
* `Policy.ofPattern?_eq_ok_iff` — which policy is made of a pattern, and when;
* `Policy.Sound.ne_failed`, `Policy.Sound.exists_expression` — what a sound policy can do.
-/

namespace Moniker

namespace Policy

/-- A policy means what its pattern says, and none of its ranges is inverted. -/
structure Sound (p : Policy) : Prop where
  compiles : Tree.compile p.pattern = .ok p.tree
  checked : p.tree.check = .ok ()

/-- A pattern makes a policy if it has a tree that passes its check. -/
theorem ofPattern?_eq_ok_iff {name pattern : String} {p : Policy} :
    ofPattern? name pattern = .ok p ↔
      ∃ tree, Tree.compile pattern = .ok tree ∧ tree.check = .ok () ∧
        p = ⟨name, pattern, tree, none⟩ := by
  rw [ofPattern?, bind_eq_ok_iff]
  refine exists_congr fun tree => ?_
  rw [mapError_eq_ok_iff, bind_eq_ok_iff]
  refine and_congr_right fun _ => ?_
  constructor
  · rintro ⟨_, hcheck, h⟩
    exact ⟨mapError_eq_ok_iff.1 hcheck, (Except.ok.inj h).symm⟩
  · rintro ⟨hcheck, rfl⟩
    exact ⟨(), mapError_eq_ok_iff.2 hcheck, rfl⟩

/-- The policy of a pattern bears the name that it was given. -/
theorem name_of_ofPattern? {name pattern : String} {p : Policy}
    (h : ofPattern? name pattern = .ok p) : p.name = name := by
  obtain ⟨tree, -, -, rfl⟩ := ofPattern?_eq_ok_iff.1 h
  rfl

/-- It comes from no rule file. -/
theorem line?_of_ofPattern? {name pattern : String} {p : Policy}
    (h : ofPattern? name pattern = .ok p) : p.line? = none := by
  obtain ⟨tree, -, -, rfl⟩ := ofPattern?_eq_ok_iff.1 h
  rfl

theorem sound_of_ofPattern? {name pattern : String} {p : Policy}
    (h : ofPattern? name pattern = .ok p) : p.Sound := by
  obtain ⟨tree, hcompile, hcheck, rfl⟩ := ofPattern?_eq_ok_iff.1 h
  exact ⟨hcompile, hcheck⟩

namespace Sound

variable {p : Policy} (h : p.Sound)
include h

/-- To note the line of a policy does not change what it means. -/
theorem atLine (line? : Option Nat) : ({ p with line? } : Policy).Sound :=
  ⟨h.compiles, h.checked⟩

/-- A sound policy never meets an inverted range, whatever the source of its words. -/
theorem ne_failed {σ : Type} [Draw.FiniteSource σ] (s : σ) (range : Range) :
    (p.generate.run s).1 ≠ .failed range := by
  intro hfail
  obtain ⟨m, hm, -⟩ := Tree.exposed_of_leads_error (Draw.leads_of_run_failed hfail)
  exact hm.check_ne_ok h.checked

/-- The expression of a sound policy can be written. -/
theorem exists_expression : ∃ e, p.tree.expression? = .ok e := Tree.exists_expression h.checked

/-- If there is nothing to check names with, it is because the engine refuses the expression. -/
theorem exists_refused {engine : Regex.Engine} {e : MatcherError}
    (he : p.matcher? engine = .error e) : ∃ reason, e = .refused reason := by
  rcases Tree.matcher?_eq_error_iff.1 he with ⟨range, hrange, -⟩ | ⟨_, reason, -, -, rfl⟩
  · obtain ⟨expression, hexpression⟩ := h.exists_expression
    simp [hexpression] at hrange
  · exact ⟨reason, rfl⟩

end Sound

end Policy

end Moniker
