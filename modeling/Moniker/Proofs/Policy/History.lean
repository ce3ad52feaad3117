import Moniker.Proofs.Command.Selection
import Moniker.Proofs.Policy.Rules

/-!
# What becomes of a policy set

A policy set is changed by additions and by replacing all of it, and looked into in between. A
`Request` is one such step, `perform` takes it, and `run` takes several, one after the other.

* `perform_sound`, `get?_perform` — what one step preserves, and what it leaves under a name;
* `run_sound`, `get?_run` — the same of several steps;
* `PolicySet.run_invariant` — what holds of every set that is reached in this way.
-/

namespace Moniker

open Draw (FiniteSource)

namespace PolicySet

/-! ## Sets of sound policies -/

/-- All policies of the set are sound. -/
def Sound (s : PolicySet) : Prop := ∀ p ∈ s.policies, p.Sound

variable {s : PolicySet} {name : String}

theorem sound_empty : empty.Sound := nofun

theorem Sound.insert (h : s.Sound) {p : Policy} (hp : p.Sound) : (s.insert p).1.Sound := by
  intro q hq
  rcases mem_insert_iff.1 hq with rfl | ⟨hq, -⟩
  · exact hp
  · exact h q hq

theorem Sound.insertAll (h : s.Sound) {ps : List Policy} (hps : ∀ p ∈ ps, p.Sound) :
    (s.insertAll ps).Sound := by
  intro p hp
  rcases mem_of_mem_insertAll hp with hp | hp
  · exact hps p hp
  · exact h p hp

theorem sound_defaults : defaults.Sound := by
  refine sound_empty.insertAll fun p hp => ?_
  obtain ⟨rule, -, hrule⟩ := mem_builtIn_iff.1 hp
  exact Policy.sound_of_ofPattern? hrule

theorem sound_of_ofSource? {source : String} (h : ofSource? source = .ok s) : s.Sound := by
  obtain ⟨ps, -, hgives, rfl⟩ := ofSource?_eq_ok_iff.1 h
  refine sound_defaults.insertAll fun p hp => ?_
  obtain ⟨r, -, -, q, hq, rfl⟩ := exists_of_forall₂ hgives.flip hp
  exact (Policy.sound_of_ofPattern? hq).atLine (some r.number)

/-- The sets to start from. -/
inductive Start : PolicySet → Prop where
  | empty : Start .empty
  | defaults : Start .defaults
  | source {source : String} {s : PolicySet} (h : ofSource? source = .ok s) : Start s

theorem Start.sound (h : Start s) : s.Sound := by
  cases h with
  | empty => exact sound_empty
  | defaults => exact sound_defaults
  | source h => exact sound_of_ofSource? h

/-! ## Steps -/

/-- A step. Random words come from a source of type `σ`. -/
inductive Request (σ : Type) where
  /-- make a policy of a pattern and add it -/
  | add (name pattern : String)
  /-- go on with the policies of a rule file -/
  | replace (source : String)
  | get (name : String)
  | names
  | policies
  | size
  /-- make up a name with the policy of that name -/
  | generate (name : String) (source : σ)
  /-- what to check names with against the policy of that name -/
  | matcher (name : String) (engine : Regex.Engine)

/-- What a step hands back. -/
inductive Reply where
  /-- the policy that had the same name, if there was one -/
  | added (displaced? : Option Policy)
  | replaced
  | policy (p : Policy)
  | names (names : List String)
  | policies (ps : List Policy)
  | size (n : Nat)
  | generated (name : String)
  | matcher (m : Matcher)

variable {σ : Type} [FiniteSource σ]

/-- Make up a name with a policy. -/
def generateWith (source : σ) (p : Policy) : Except Error Reply :=
  match (p.generate.run source).1 with
  | .value name => .ok (.generated name)
  | .failed range => .error (.policy (.inverted range))
  | .exhausted => .error .exhausted

/-- Take a step: what it hands back, or why it fails, and the set after it. -/
def perform (s : PolicySet) : Request σ → Except Error Reply × PolicySet
  | .add name pattern =>
    match Policy.ofPattern? name pattern with
    | .ok p => (.ok (.added (s.insert p).2), (s.insert p).1)
    | .error e => (.error (.policy e), s)
  | .replace source =>
    match ofSource? source with
    | .ok t => (.ok .replaced, t)
    | .error e => (.error (.source e), s)
  | .get name => (.policy <$> s.get name, s)
  | .names => (.ok (.names s.names), s)
  | .policies => (.ok (.policies s.policies), s)
  | .size => (.ok (.size s.size), s)
  | .generate name source => (s.get name >>= generateWith source, s)
  | .matcher name engine =>
    (s.get name >>= fun p => .matcher <$> (p.matcher? engine).mapError .matcher, s)

/-- Take several steps. -/
def run (s : PolicySet) (requests : List (Request σ)) : PolicySet :=
  requests.foldl (fun s r => (s.perform r).2) s

/-- What a step writes under a name, if it does: a policy, or nothing if it replaces the set by
one without a policy of that name. -/
def Request.written (name : String) : Request σ → Option (Option Policy)
  | .add other pattern =>
    if other = name then (Policy.ofPattern? other pattern).toOption.map some else none
  | .replace source => (ofSource? source).toOption.map (·.get? name)
  | _ => none

/-- A step that fails leaves the set as it is. -/
theorem perform_of_error {r : Request σ} {e : Error} (h : (s.perform r).1 = .error e) :
    (s.perform r).2 = s := by
  cases r with
  | add name pattern =>
    rw [perform] at h ⊢
    split
    · next hp => simp [hp] at h
    · rfl
  | replace source =>
    rw [perform] at h ⊢
    split
    · next ht => simp [ht] at h
    · rfl
  | _ => rfl

/-- An addition hands back the policy that it displaces. -/
theorem perform_add {pattern : String} {p : Policy} (h : Policy.ofPattern? name pattern = .ok p) :
    s.perform (.add name pattern : Request σ) = (.ok (.added (s.get? name)), (s.insert p).1) := by
  rw [perform, h, ← Policy.name_of_ofPattern? h]
  rfl

theorem perform_sound (h : s.Sound) (r : Request σ) : (s.perform r).2.Sound := by
  cases r with
  | add name pattern =>
    rw [perform]
    split
    · next p hp => exact h.insert (Policy.sound_of_ofPattern? hp)
    · exact h
  | replace source =>
    rw [perform]
    split
    · next t ht => exact sound_of_ofSource? ht
    · exact h
  | _ => exact h

/-- After a step there is under a name what it wrote there, or what was there before. -/
theorem get?_perform (r : Request σ) :
    (s.perform r).2.get? name = (r.written name).getD (s.get? name) := by
  cases r with
  | add other pattern =>
    rw [perform, Request.written]
    cases hp : Policy.ofPattern? other pattern with
    | error e => simp [Except.toOption]
    | ok p =>
      simp only [get?_insert, Policy.name_of_ofPattern? hp, Except.toOption]
      split <;> rfl
  | replace source =>
    rw [perform, Request.written]
    cases ofSource? source <;> rfl
  | _ => rfl

/-- What sound policies do not fail for does not come up when one is looked up by its name. -/
theorem isConfiguration_of_use (h : s.Sound) {f : Policy → Except Error Reply}
    (hf : ∀ p e, p.Sound → f p = .error e → e.isConfiguration = false) {e : Error}
    (he : s.get name >>= f = .error e) : e.isConfiguration = false := by
  rcases bind_eq_error_iff.1 he with hget | ⟨p, hp, huse⟩
  · rw [(get_eq_error_iff.1 hget).2]
    rfl
  · obtain ⟨hmem, -⟩ := get?_eq_some_iff.1 (get_eq_ok_iff.1 hp)
    exact hf p e (h p hmem) huse

/-- To make up a name does not fail for an inverted range. -/
theorem isConfiguration_of_generate (h : s.Sound) {source : σ} {e : Error}
    (he : (s.perform (.generate name source)).1 = .error e) : e.isConfiguration = false := by
  refine isConfiguration_of_use h (fun p e hp hgenerate => ?_) he
  rw [generateWith] at hgenerate
  split at hgenerate
  · simp at hgenerate
  · next range hfailed => exact absurd hfailed (hp.ne_failed source range)
  · rw [← Except.error.inj hgenerate]
    rfl

/-- To look for what names are checked with does not fail for an inverted range. -/
theorem isConfiguration_of_matcher (h : s.Sound) {engine : Regex.Engine} {e : Error}
    (he : (s.perform (.matcher name engine : Request σ)).1 = .error e) :
    e.isConfiguration = false := by
  refine isConfiguration_of_use h (fun p e hp hmatcher => ?_) he
  obtain ⟨e', he', rfl⟩ := mapError_eq_error_iff.1 (map_eq_error_iff.1 hmatcher)
  obtain ⟨reason, rfl⟩ := hp.exists_refused he'
  rfl

/-! ## Runs -/

theorem run_cons (r : Request σ) (later : List (Request σ)) :
    s.run (r :: later) = (s.perform r).2.run later := rfl

theorem run_sound (h : s.Sound) (requests : List (Request σ)) : (s.run requests).Sound := by
  induction requests generalizing s with
  | nil => exact h
  | cons r later ih => exact ih (perform_sound h r)

/-- After several steps there is under a name what was last written there. -/
theorem get?_run (requests : List (Request σ)) :
    (s.run requests).get? name =
      (requests.reverse.findSome? (Request.written name)).getD (s.get? name) := by
  induction requests generalizing s with
  | nil => rfl
  | cons r later ih =>
    rw [run_cons, ih, get?_perform, List.reverse_cons, List.findSome?_append]
    cases later.reverse.findSome? (Request.written name) with
    | some written => rfl
    | none => simp

/-- **What holds of every set that is reached.** Its policies are held under their own names, mean
what their patterns say, can always make names and have an expression to check them with; they come
in the order of their names. Under a name is the policy that was last written there, which is also
what an addition hands back, and a step that fails changes nothing. -/
theorem run_invariant {start s : PolicySet} (hstart : Start start) (requests : List (Request σ))
    (hrun : start.run requests = s) :
    (∀ name p, s.get? name = some p → p.name = name ∧
      Tree.compile p.pattern = .ok p.tree ∧ p.tree.check = .ok () ∧
      (∀ (source : σ) range, (p.generate.run source).1 ≠ .failed range) ∧
      ∃ e, p.tree.expression? = .ok e) ∧
    (∀ name (source : σ) engine e, (s.perform (.generate name source)).1 = .error e ∨
      (s.perform (.matcher name engine : Request σ)).1 = .error e → e.isConfiguration = false) ∧
    (s.names.Pairwise (fun a b => nameKey a < nameKey b) ∧ s.policies.map Policy.name = s.names ∧
      s.policies = s.names.filterMap s.get? ∧ s.size = s.names.length) ∧
    (∀ name, s.get? name =
      (requests.reverse.findSome? (Request.written name)).getD (start.get? name)) ∧
    (∀ name pattern p, Policy.ofPattern? name pattern = .ok p →
      s.perform (.add name pattern : Request σ) =
        (.ok (.added (s.get? name)), (s.insert p).1)) ∧
    ∀ (r : Request σ) e, (s.perform r).1 = .error e → (s.perform r).2 = s := by
  subst hrun
  have hsound := run_sound hstart.sound requests
  refine ⟨fun name p hp => ?_, fun name source engine e => ?_,
    ⟨sorted_names _, rfl, policies_eq _, (List.length_map _).symm⟩,
    fun name => get?_run requests, fun name pattern p => perform_add, fun r e => perform_of_error⟩
  · obtain ⟨hmem, hname⟩ := get?_eq_some_iff.1 hp
    have hp := hsound p hmem
    exact ⟨hname, hp.compiles, hp.checked, hp.ne_failed, hp.exists_expression⟩
  · rintro (he | he)
    · exact isConfiguration_of_generate hsound he
    · exact isConfiguration_of_matcher hsound he

/-- Policies added before and after a rule file is read, and steps that fail. -/
def edits : List (Request Draw.Words) :=
  [.add "class" "[0100](2)", .add "bad" "[0100](2,1)", .replace "a = <x>\n\nb = <z>",
    .add "a" "<y>", .replace "a", .get "none"]

/-- A policy added before the rule file was read is gone, and one added after it stays. -/
theorem run_invariant_replaced :
    ∃ s, Start defaults ∧ defaults.run edits = s ∧
      (s.get? "class").map Policy.line? = some none ∧ s.get? "bad" = none ∧
      (s.get? "a").map Policy.pattern = some "<y>" ∧
      (s.get? "b").map Policy.line? = some (some 3) := by
  obtain ⟨-, -, -, hget, -⟩ := run_invariant .defaults edits rfl
  refine ⟨_, .defaults, rfl, ?_, ?_, ?_, ?_⟩
  all_goals
    rw [hget]
    decide +kernel

end PolicySet

end Moniker
