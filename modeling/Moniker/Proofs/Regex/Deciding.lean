import Mathlib.Data.List.Infix
import Moniker.Proofs.Regex.Matches

/-!
# The built-in engine decides

The built-in engine follows the terms of an expression from positions to positions. Here it is shown
that nothing is lost on the way: the positions that are reached are those where something ends that
the terms match.

* `Regex.Follows` — a function on sets of positions follows a relation between what lies ahead;
* `Regex.follows_reach` — what a term reaches follows what it matches;
* `Regex.Engine.builtIn_decides` — so the engine finds the expressions that are there.
-/

namespace Moniker.Regex

variable {name : List Char} {f g : List Nat → List Nat} {R Q : List Char → List Char → Prop}

/-! ## What lies ahead -/

/-- The relation leads from what lies ahead to the end of it. -/
def Forward (R : List Char → List Char → Prop) : Prop := ∀ a b, R a b → b <:+ a

theorem Forward.times (hR : Forward R) (n : Nat) : Forward (Times R n) := by
  induction n with
  | zero =>
    rintro a _ rfl
    exact List.suffix_rfl
  | succ n ih =>
    rintro a b ⟨mid, hmid, hb⟩
    exact (ih mid b hb).trans (hR a mid hmid)

theorem forward_matchesAll {terms : List Term} (h : ∀ term ∈ terms, Forward (term.Matches name)) :
    Forward (MatchesAll name terms) := by
  induction terms with
  | nil =>
    rintro a _ rfl
    exact List.suffix_rfl
  | cons term terms ih =>
    obtain ⟨hterm, hterms⟩ := List.forall_mem_cons.1 h
    rintro a b ⟨mid, hmid, hb⟩
    exact (ih hterms mid b hb).trans (hterm a mid hmid)

/-- What a term leaves is the end of what was there. -/
theorem forward_matches (term : Term) : Forward (term.Matches name) := by
  induction term with
  | char c =>
    rintro _ b rfl
    exact List.suffix_cons c b
  | oneOf ranges =>
    rintro _ b ⟨c, -, rfl⟩
    exact List.suffix_cons c b
  | group terms ih => exact forward_matchesAll ih
  | repeated term min max ih =>
    rintro a b ⟨n, -, -, hb⟩
    exact ih.times n a b hb
  | start =>
    rintro _ _ ⟨rfl, rfl⟩
    exact List.suffix_rfl
  | stop =>
    rintro _ _ ⟨rfl, rfl⟩
    exact List.suffix_rfl

/-- The end of a name lies ahead of some position. -/
theorem exists_drop_eq {a : List Char} (h : a <:+ name) : ∃ i ≤ name.length, name.drop i = a :=
  ⟨_, Nat.sub_le .., (List.suffix_iff_eq_drop.1 h).symm⟩

/-- Something else lies ahead of every position. -/
theorem drop_inj {i k : Nat} (hi : i ≤ name.length) (hk : k ≤ name.length) :
    name.drop i = name.drop k ↔ i = k := by
  constructor
  · intro h
    have hlength := congrArg List.length h
    simp only [List.length_drop] at hlength
    omega
  · rintro rfl
    rfl

/-! ## Sets of positions -/

/-- From the positions of a set, `f` leads to where `R` leads from there. -/
def Follows (name : List Char) (f : List Nat → List Nat) (R : List Char → List Char → Prop) :
    Prop :=
  ∀ s, (∀ i ∈ s, i ≤ name.length) →
    ∀ k, k ∈ f s ↔ k ≤ name.length ∧ ∃ i ∈ s, R (name.drop i) (name.drop k)

namespace Follows

theorem congr (hf : Follows name f R) (h : ∀ a b, R a b ↔ Q a b) : Follows name f Q := by
  obtain rfl : R = Q := funext fun a => funext fun b => propext (h a b)
  exact hf

theorem nothing : Follows name id (· = ·) := by
  intro s hs k
  constructor
  · intro hk
    exact ⟨hs k hk, k, hk, rfl⟩
  · rintro ⟨hle, i, hi, heq⟩
    obtain rfl := (drop_inj (hs i hi) hle).1 heq
    exact hi

/-- To follow one relation and then another is to follow both, one after the other. -/
theorem andThen (hf : Follows name f R) (hg : Follows name g Q) (hR : Forward R) :
    Follows name (fun s => g (f s)) fun a c => ∃ b, R a b ∧ Q b c := by
  intro s hs k
  have hfs : ∀ i ∈ f s, i ≤ name.length := fun i hi => ((hf s hs i).1 hi).1
  rw [hg (f s) hfs k]
  constructor
  · rintro ⟨hk, j, hj, hjk⟩
    obtain ⟨-, i, hi, hij⟩ := (hf s hs j).1 hj
    exact ⟨hk, i, hi, _, hij, hjk⟩
  · rintro ⟨hk, i, hi, b, hib, hbk⟩
    obtain ⟨j, hj, rfl⟩ := exists_drop_eq ((hR _ b hib).trans (List.drop_suffix i name))
    exact ⟨hk, j, (hf s hs j).2 ⟨hj, i, hi, hib⟩, hbk⟩

theorem repeated (hf : Follows name f R) (hR : Forward R) (n : Nat) :
    Follows name (Nat.repeat f n) (Times R n) := by
  induction n with
  | zero => exact nothing
  | succ n ih =>
    have h := hf.andThen ih hR
    simp only [repeat_shift] at h
    exact h

/-- To keep the old positions is to go on or to stay. -/
theorem orStay (hf : Follows name f R) :
    Follows name (fun s => union s (f s)) fun a b => a = b ∨ R a b := by
  intro s hs k
  rw [mem_union, hf s hs, ← id_eq s, nothing s hs]
  simp only [id_eq, exists_or, and_or_left]

/-- A repetition is followed as often as it must be, and then up to as often as it may be. -/
theorem counted (hf : Follows name f R) (hR : Forward R) {min max : Nat} (h : min ≤ max) :
    Follows name
      (fun s => settle (max - min) (fun s => union s (f s)) (settle min f s))
      fun a b => ∃ n, min ≤ n ∧ n ≤ max ∧ Times R n a b := by
  have hstay : Forward fun a b => a = b ∨ R a b := by
    rintro a b (rfl | hab)
    · exact List.suffix_rfl
    · exact hR a b hab
  simp only [settle_eq_repeat]
  refine ((hf.repeated hR min).andThen (hf.orStay.repeated hstay (max - min))
    (hR.times min)).congr fun a c => ?_
  simp only [times_eq_or]
  constructor
  · rintro ⟨b, hb, j, hj, hc⟩
    exact ⟨min + j, by omega, by omega, times_add.2 ⟨b, hb, hc⟩⟩
  · rintro ⟨n, hmin, hmax, hn⟩
    obtain ⟨j, rfl⟩ := Nat.exists_eq_add_of_le hmin
    obtain ⟨b, hb, hc⟩ := times_add.1 hn
    exact ⟨b, hb, j, by omega, hc⟩

/-- To take one more character is to leave what lies behind it. -/
theorem oneMore {p : Char → Bool} (h : ∀ a b, R a b ↔ ∃ c, p c = true ∧ a = c :: b) :
    Follows name (after name.toArray p) R := by
  intro s hs k
  simp only [after, List.mem_filterMap, Option.ite_none_right_eq_some, Option.any_eq_true,
    List.getElem?_toArray, Option.some.injEq, h]
  constructor
  · rintro ⟨i, hi, ⟨c, hc, hp⟩, rfl⟩
    obtain ⟨hlt, rfl⟩ := List.getElem?_eq_some_iff.1 hc
    exact ⟨hlt, i, hi, _, hp, List.drop_eq_getElem_cons hlt⟩
  · rintro ⟨hk, i, hi, c, hp, heq⟩
    have hc : name[i]? = some c := by
      rw [← List.head?_drop, heq, List.head?_cons]
    have hlength := congrArg List.length heq
    simp only [List.length_drop, List.length_cons] at hlength
    exact ⟨i, hi, ⟨c, hc, hp⟩, by omega⟩

end Follows

/-! ## Terms -/

theorem follows_reachAll {terms : List Term}
    (h : ∀ term ∈ terms, Follows name (term.reach name.toArray) (term.Matches name)) :
    Follows name (reachAll name.toArray terms) (MatchesAll name terms) := by
  induction terms with
  | nil => exact Follows.nothing
  | cons term terms ih =>
    obtain ⟨hterm, hterms⟩ := List.forall_mem_cons.1 h
    exact hterm.andThen (ih hterms) (forward_matches term)

/-- What a term reaches follows what it matches. -/
theorem follows_reach (term : Term) :
    Follows name (term.reach name.toArray) (term.Matches name) := by
  induction term with
  | char c => exact Follows.oneMore fun a b => by simp [Term.Matches]
  | oneOf ranges => exact Follows.oneMore fun a b => by simp [Term.Matches]
  | group terms ih => exact follows_reachAll ih
  | repeated term min max ih =>
    by_cases hle : min ≤ max
    · have h := ih.counted (forward_matches term) hle
      intro s hs k
      rw [Term.reach, if_pos hle]
      exact h s hs k
    · intro s hs k
      rw [Term.reach, if_neg hle]
      simp only [List.not_mem_nil, Term.Matches, false_iff]
      rintro ⟨-, i, -, n, hmin, hmax, -⟩
      exact hle (hmin.trans hmax)
  | start =>
    intro s hs k
    have hzero : ∀ {i}, i ≤ name.length → (name.drop i = name ↔ i = 0) := fun hi =>
      drop_inj hi (Nat.zero_le _)
    simp only [Term.reach, List.mem_filter, beq_iff_eq, Term.Matches]
    constructor
    · rintro ⟨hk, rfl⟩
      exact ⟨Nat.zero_le _, 0, hk, rfl, rfl⟩
    · rintro ⟨hk, i, hi, hiname, hkname⟩
      obtain rfl := (hzero (hs i hi)).1 hiname
      obtain rfl := (hzero hk).1 hkname
      exact ⟨hi, rfl⟩
  | stop =>
    intro s hs k
    simp only [Term.reach, List.mem_filter, beq_iff_eq, Term.Matches, List.size_toArray,
      List.drop_eq_nil_iff]
    constructor
    · rintro ⟨hk, rfl⟩
      exact ⟨le_rfl, _, hk, le_rfl, le_rfl⟩
    · rintro ⟨hk, i, hi, hilast, hklast⟩
      obtain rfl := hk.antisymm hklast
      obtain rfl := (hs i hi).antisymm hilast
      exact ⟨hi, rfl⟩

/-- Terms are found if they match something that lies somewhere in the name. -/
theorem accepts_iff {terms : List Term} {name : String} :
    accepts terms name = true ↔ ∃ before ahead after, name.toList = before ++ ahead ∧
      MatchesAll name.toList terms ahead after := by
  have hfollows : Follows name.toList (reachAll name.toList.toArray terms)
      (MatchesAll name.toList terms) := follows_reachAll fun term _ => follows_reach term
  have hall : ∀ i ∈ List.range (name.toList.length + 1), i ≤ name.toList.length := fun _ hi =>
    Nat.le_of_lt_succ (List.mem_range.1 hi)
  rw [accepts, Bool.not_eq_true', ← Bool.not_eq_true, List.isEmpty_iff,
    List.eq_nil_iff_forall_not_mem, not_forall]
  simp only [not_not, List.size_toArray, hfollows _ hall, List.mem_range, Nat.lt_succ_iff]
  constructor
  · rintro ⟨k, -, i, -, hmatches⟩
    exact ⟨_, _, _, (List.take_append_drop i _).symm, hmatches⟩
  · rintro ⟨before, ahead, after, hname, hmatches⟩
    have hahead : ahead <:+ name.toList := ⟨before, hname.symm⟩
    have hafter := (forward_matchesAll fun term _ => forward_matches term) _ _ hmatches
    obtain ⟨i, hi, rfl⟩ := exists_drop_eq hahead
    obtain ⟨k, hk, rfl⟩ := exists_drop_eq (hafter.trans hahead)
    exact ⟨k, hk, i, hi, hmatches⟩

/-- The built-in engine takes a text if it can be read. -/
theorem Engine.builtIn_eq_ok_iff {text : String} {found : String → Bool} :
    builtIn.compile? text = .ok found ↔
      ∃ terms, ofText? text.toList = some terms ∧ accepts terms = found := by
  simp only [builtIn]
  cases ofText? text.toList <;> simp

theorem Engine.builtIn_decides : builtIn.Decides := by
  intro text terms found hterms hfound name
  obtain ⟨_, hterms', rfl⟩ := builtIn_eq_ok_iff.1 hfound
  obtain rfl := Option.some.inj (hterms.symm.trans hterms')
  rw [accepts_iff, TextAccepts]
  simp only [hterms, Option.some.injEq, exists_eq_left']

end Moniker.Regex
