import Moniker.Policy.Source
import Moniker.Proofs.Policy.Lookup
import Moniker.Proofs.Text.Blank

/-!
# Which rule files are accepted

The rules of a file are read off its text here without a reader that goes on from line to line:
a `RuleLine` is what is left of a line that is neither empty nor a comment, with the number of
the line, and says by itself which name and which pattern are written there.

* `ruleLines` — the rule lines of a text;
* `RuleLine.Acceptable` — the line has the form `name = pattern`, and the pattern makes a policy;
* `Policy.ofSource?_eq_ok_iff` — a file has policies if all its rule lines are acceptable and no
  name comes twice; each of the policies is that of its line;
* `PolicySet.ofSource?_iff_rules` — which files are accepted, and what the set then holds.
-/

namespace Moniker

open Text (trim lines)

/-! ## Rule lines -/

/-- A line with a rule. -/
structure RuleLine where
  /-- the number of the line, counted from 1 -/
  number : Nat
  /-- the line without the blanks at its two ends -/
  text : List Char
deriving DecidableEq

namespace RuleLine

/-- What stands before the first `=`, without the blanks around it. -/
def name (r : RuleLine) : String := String.ofList (trim (r.text.takeWhile (· != '=')))

/-- What stands after the first `=`, without the blanks around it. -/
def pattern (r : RuleLine) : String := String.ofList (trim (r.text.dropWhile (· != '=')).tail)

/-- The name and the pattern as written. -/
def written (r : RuleLine) : String × String := (r.name, r.pattern)

end RuleLine

/-- What a line says, unless it is empty or a comment. -/
def ruleLine? (line : List Char) (number : Nat) : Option RuleLine :=
  if trim line = [] ∨ (trim line).head? = some '#' then none else some ⟨number, trim line⟩

/-- The rule lines among several lines, the first of which has the given number. -/
def rulesFrom (number : Nat) (lines : List (List Char)) : List RuleLine :=
  (lines.zipIdx number).filterMap fun (line, number) => ruleLine? line number

/-- The rule lines of a text. -/
def ruleLines (source : String) : List RuleLine := rulesFrom 1 (source.toList.splitOn '\n')

/-- A letter of ASCII. -/
def IsLetter (c : Char) : Prop := ('A' ≤ c ∧ c ≤ 'Z') ∨ ('a' ≤ c ∧ c ≤ 'z')

/-- A digit of ASCII. -/
def IsDigit (c : Char) : Prop := '0' ≤ c ∧ c ≤ '9'

/-- The form of a name: a letter or an underscore, and after it letters, digits, underscores and
hyphens. -/
def IsName (cs : List Char) : Prop :=
  ∃ c later, cs = c :: later ∧ (IsLetter c ∨ c = '_') ∧
    ∀ d ∈ later, IsLetter d ∨ IsDigit d ∨ d = '_' ∨ d = '-'

namespace RuleLine

/-- The line says `name = pattern`, and the pattern is that of a policy. -/
structure Acceptable (r : RuleLine) : Prop where
  equals : '=' ∈ r.text
  name : IsName r.name.toList
  pattern : r.pattern ≠ ""
  policy : ∃ p, Policy.ofPattern? r.name r.pattern = .ok p

/-- The policy is that of the line, and knows its number. -/
def Gives (r : RuleLine) (p : Policy) : Prop :=
  r.Acceptable ∧ ∃ q, Policy.ofPattern? r.name r.pattern = .ok q ∧
    p = { q with line? := some r.number }

theorem acceptable_iff {r : RuleLine} : r.Acceptable ↔ ∃ p, r.Gives p := by
  constructor
  · intro h
    obtain ⟨q, hq⟩ := h.policy
    exact ⟨_, h, q, hq, rfl⟩
  · rintro ⟨p, h, -⟩
    exact h

theorem Gives.name_eq {r : RuleLine} {p : Policy} (h : r.Gives p) : p.name = r.name := by
  obtain ⟨-, q, hq, rfl⟩ := h
  have hname := Policy.name_of_ofPattern? hq
  exact hname

/-- Without an equals sign there is no pattern. -/
theorem mem_text_of_pattern {r : RuleLine} (h : r.pattern ≠ "") : '=' ∈ r.text := by
  by_contra hnone
  have hdrop : r.text.dropWhile (· != '=') = [] := by
    rw [List.dropWhile_eq_nil_iff]
    intro c hc
    exact bne_iff_ne.2 fun heq => hnone (heq ▸ hc)
  exact h (by rw [pattern, hdrop]; rfl)

/-- Whether a line is acceptable shows by its name and its pattern. -/
theorem acceptable_iff_written {r : RuleLine} :
    r.Acceptable ↔ IsName r.written.1.toList ∧ r.written.2 ≠ "" ∧
      ∃ p, Policy.ofPattern? r.written.1 r.written.2 = .ok p :=
  ⟨fun h => ⟨h.name, h.pattern, h.policy⟩,
    fun ⟨hname, hpattern, hpolicy⟩ => ⟨mem_text_of_pattern hpattern, hname, hpattern, hpolicy⟩⟩

end RuleLine

theorem rulesFrom_cons (number : Nat) (line : List Char) (later : List (List Char)) :
    rulesFrom number (line :: later) =
      (ruleLine? line number).toList ++ rulesFrom (number + 1) later := by
  rw [rulesFrom, List.zipIdx_cons, List.filterMap_cons]
  dsimp only
  cases ruleLine? line number <;> rfl

theorem rulesFrom_append (number : Nat) (ls ms : List (List Char)) :
    rulesFrom number (ls ++ ms) = rulesFrom number ls ++ rulesFrom (number + ls.length) ms := by
  rw [rulesFrom, List.zipIdx_append, List.filterMap_append, Nat.add_comm number]
  rfl

/-- Only what is left of the lines without the blanks at their ends matters. -/
theorem rulesFrom_congr {number : Nat} {ls ms : List (List Char)} (h : ls.map trim = ms.map trim) :
    rulesFrom number ls = rulesFrom number ms := by
  induction ls generalizing number ms with
  | nil => rw [List.map_eq_nil_iff.1 h.symm]
  | cons line later ih =>
    obtain ⟨line', later', rfl, hline, hlater⟩ := List.map_eq_cons_iff.1 h.symm
    rw [rulesFrom_cons, rulesFrom_cons, ih hlater.symm, ruleLine?, ruleLine?, hline]

/-- A carriage return before each line feed makes no difference. -/
theorem ruleLines_withReturns (source : String) :
    ruleLines (String.ofList (Text.withReturns source.toList)) = ruleLines source := by
  rw [ruleLines, String.toList_ofList]
  exact rulesFrom_congr (Text.map_trim_splitOn_withReturns source.toList)

/-- What stands after the last line feed of a text is a rule line only if it is a line. -/
theorem ruleLines_eq (source : String) : ruleLines source = rulesFrom 1 (lines source.toList) := by
  rcases Text.splitOn_newline source.toList with h | h
  · rw [ruleLines, h]
  · rw [ruleLines, h, rulesFrom, List.zipIdx_append, List.filterMap_append, ← rulesFrom]
    exact List.append_nil _

/-! ## Reading a line -/

theorem number_of_ruleLine? {line : List Char} {number : Nat} {r : RuleLine}
    (h : ruleLine? line number = some r) : r.number = number := by
  rw [ruleLine?] at h
  split at h
  · simp at h
  · rw [← Option.some.inj h]

theorem isRuleName_iff {cs : List Char} : isRuleName cs = true ↔ IsName cs := by
  have hupper : ∀ c : Char, c.isUpper = true ↔ 'A' ≤ c ∧ c ≤ 'Z' := fun _ => decide_eq_true_iff
  have hlower : ∀ c : Char, c.isLower = true ↔ 'a' ≤ c ∧ c ≤ 'z' := fun _ =>
    Bool.and_eq_true_iff.trans (and_congr decide_eq_true_iff decide_eq_true_iff)
  have hdigit : ∀ c : Char, c.isDigit = true ↔ IsDigit c := fun _ =>
    Bool.and_eq_true_iff.trans (and_congr decide_eq_true_iff decide_eq_true_iff)
  have hletter : ∀ c : Char, c.isAlpha = true ↔ IsLetter c := by
    intro c
    rw [IsLetter, ← hupper, ← hlower, ← Bool.or_eq_true]
    rfl
  cases cs with
  | nil => simp [isRuleName, IsName]
  | cons c later =>
    simp [isRuleName, IsName, Char.isAlphanum, hletter, hdigit, or_assoc]

/-- An empty line or a comment is skipped. -/
theorem ruleOfLine?_of_none {line : List Char} {number : Nat} (h : ruleLine? line number = none) :
    ruleOfLine? line = .ok none := by
  have hskip : trim line = [] ∨ (trim line).head? = some '#' := by
    by_contra hrule
    rw [ruleLine?, if_neg hrule] at h
    simp at h
  unfold ruleOfLine?
  split
  · rfl
  · rfl
  · next hnil hcomment =>
    rcases hskip with hskip | hskip
    · exact absurd hskip hnil
    · obtain ⟨later, hlater⟩ := List.head?_eq_some_iff.1 hskip
      exact absurd hlater (hcomment later)

/-- What is read of a rule line: its name and its pattern, unless one of them has not its form. -/
theorem ruleOfLine?_eq {line : List Char} {number : Nat} {r : RuleLine}
    (h : ruleLine? line number = some r) :
    ruleOfLine? line =
      if '=' ∉ r.text then .error .notARule
      else if r.name = "" then .error .noName
      else if !isRuleName r.name.toList then .error (.badName r.name)
      else if r.pattern = "" then .error .noPattern
      else .ok (some (r.name, r.pattern)) := by
  rw [ruleLine?] at h
  split at h
  · simp at h
  · next hrule =>
    obtain rfl := Option.some.inj h
    have hname : trim ((trim line).takeWhile (· != '=')) =
        Text.trimRight ((trim line).takeWhile (· != '=')) :=
      Text.trim_eq_trimRight (List.takeWhile_prefix _)
    have hpattern : ∀ rest, rest <:+ trim line → trim rest = Text.trimLeft rest :=
      fun _ => Text.trim_eq_trimLeft
    rw [ruleOfLine?]
    generalize trim line = text at hrule hname hpattern ⊢
    split
    · exact absurd (.inl rfl) hrule
    · exact absurd (.inr rfl) hrule
    · simp only [RuleLine.name, RuleLine.pattern, hname, String.toList_ofList,
        String.ofList_eq_empty_iff]
      split
      · next hdrop =>
        have hnone : '=' ∉ text := fun hmem => by
          simpa using List.dropWhile_eq_nil_iff.1 hdrop '=' hmem
        rw [if_pos hnone]
      · next c rest hdrop =>
        have hsuffix : c :: rest <:+ text := hdrop ▸ List.dropWhile_suffix _
        have hsome : '=' ∈ text := by
          have hc : c = '=' := by simpa [hdrop] using List.head?_dropWhile_not (· != '=') text
          exact hsuffix.mem (hc ▸ List.mem_cons_self)
        rw [if_neg (not_not_intro hsome), hdrop, List.tail_cons,
          hpattern rest ((List.suffix_cons c rest).trans hsuffix)]
        simp only [List.isEmpty_iff]

/-- Of a rule line the name and the pattern are read, if they have their forms. -/
theorem ruleOfLine?_eq_ok_iff {line : List Char} {number : Nat} {r : RuleLine}
    (h : ruleLine? line number = some r) {found : Option (String × String)} :
    ruleOfLine? line = .ok found ↔
      IsName r.name.toList ∧ r.pattern ≠ "" ∧ found = some (r.name, r.pattern) := by
  rw [ruleOfLine?_eq h, ← isRuleName_iff]
  split_ifs with hequals hname hform hpattern
  · simp [hname, isRuleName]
  · rw [Bool.not_eq_true'] at hform
    simp [hform]
  · simp [hpattern]
  · rw [Bool.not_eq_true', Bool.not_eq_false] at hform
    simp [hform, hpattern, @eq_comm _ found]
  · have hnone : r.pattern = "" := by
      by_contra hpattern
      exact hequals (RuleLine.mem_text_of_pattern hpattern)
    simp [hnone]

/-! ## Reading lines -/

namespace Policy

/-- A line that is skipped adds no policy. -/
theorem addLine?_of_none {line : List Char} {number : Nat} (h : ruleLine? line number = none)
    (earlier : List Policy) : addLine? earlier line number = .ok earlier := by
  rw [addLine?, ruleOfLine?_of_none h]
  rfl

/-- A rule line adds its policy, if it is acceptable and no earlier policy has its name. -/
theorem addLine?_eq_ok_iff {line : List Char} {number : Nat} {r : RuleLine}
    (h : ruleLine? line number = some r) {earlier ps : List Policy} :
    addLine? earlier line number = .ok ps ↔
      ∃ p, r.Gives p ∧ r.name ∉ earlier.map Policy.name ∧ ps = p :: earlier := by
  have hearlier : earlier.find? (·.name = r.name) = none ↔ r.name ∉ earlier.map Policy.name := by
    simp
  rw [addLine?, bind_eq_ok_iff]
  obtain rfl := number_of_ruleLine? h
  constructor
  · rintro ⟨found, hfound, hstep⟩
    obtain ⟨hname, hpattern, rfl⟩ := (ruleOfLine?_eq_ok_iff h).1 hfound
    dsimp only at hstep
    split at hstep
    · simp at hstep
    · next hnone =>
      obtain ⟨q, hq, hstep⟩ := bind_eq_ok_iff.1 hstep
      rw [mapError_eq_ok_iff] at hq
      refine ⟨_, ⟨?_, q, hq, rfl⟩, hearlier.1 hnone, (Except.ok.inj hstep).symm⟩
      exact RuleLine.acceptable_iff_written.2 ⟨hname, hpattern, q, hq⟩
  · rintro ⟨p, ⟨haccept, q, hq, rfl⟩, hnone, rfl⟩
    refine ⟨_, (ruleOfLine?_eq_ok_iff h).2 ⟨haccept.name, haccept.pattern, rfl⟩, ?_⟩
    dsimp only
    rw [hearlier.2 hnone, hq]
    rfl

/-- Lines add the policies of the rule lines among them, if all are acceptable and no name comes
twice. -/
theorem addLines?_eq_ok_iff {earlier ps : List Policy} {number : Nat} {lines : List (List Char)}
    (hearlier : (earlier.map Policy.name).Nodup) :
    addLines? earlier number lines = .ok ps ↔
      (ps.map Policy.name).Nodup ∧
        ∃ new, List.Forall₂ RuleLine.Gives (rulesFrom number lines) new ∧
          ps = new.reverse ++ earlier := by
  induction lines generalizing earlier number with
  | nil =>
    rw [addLines?, Except.ok.injEq]
    constructor
    · rintro rfl
      exact ⟨hearlier, [], .nil, rfl⟩
    · rintro ⟨-, new, hnew, rfl⟩
      cases hnew
      rfl
  | cons line later ih =>
    rw [addLines?, bind_eq_ok_iff, rulesFrom_cons]
    simp only [mapError_eq_ok_iff]
    cases hline : ruleLine? line number with
    | none =>
      rw [addLine?_of_none hline]
      simp only [Except.ok.injEq, exists_eq_left', ih hearlier]
      rfl
    | some r =>
      simp only [addLine?_eq_ok_iff hline]
      constructor
      · rintro ⟨_, ⟨p, hp, hname, rfl⟩, hlater⟩
        have hcons : ((p :: earlier).map Policy.name).Nodup :=
          List.nodup_cons.2 ⟨hp.name_eq ▸ hname, hearlier⟩
        obtain ⟨hnodup, new, hnew, rfl⟩ := (ih hcons).1 hlater
        refine ⟨hnodup, p :: new, .cons hp hnew, ?_⟩
        rw [List.reverse_cons, List.append_assoc]
        rfl
      · rintro ⟨hnodup, new, hnew, rfl⟩
        obtain - | @⟨_, p, _, new, hp, hnew⟩ := hnew
        have hps : (p :: new).reverse ++ earlier = new.reverse ++ p :: earlier := by
          rw [List.reverse_cons, List.append_assoc, List.singleton_append]
        -- the names up to this line are among those that differ
        have hsub : (p :: earlier).Sublist ((p :: new).reverse ++ earlier) :=
          hps ▸ List.sublist_append_right new.reverse (p :: earlier)
        have hcons : ((p :: earlier).map Policy.name).Nodup := hnodup.sublist (hsub.map _)
        refine ⟨p :: earlier, ⟨p, hp, ?_, rfl⟩, (ih hcons).2 ⟨hnodup, new, hnew, hps⟩⟩
        rw [← hp.name_eq]
        exact (List.nodup_cons.1 hcons).1

/-- A file has policies if its rule lines are acceptable and no name comes twice. Each policy is
that of its line. -/
theorem ofSource?_eq_ok_iff {source : String} {ps : List Policy} :
    ofSource? source = .ok ps ↔
      (ps.map Policy.name).Nodup ∧ List.Forall₂ RuleLine.Gives (ruleLines source) ps := by
  rw [ofSource?, map_eq_ok_iff, ruleLines_eq]
  have hnil : (([] : List Policy).map Policy.name).Nodup := List.nodup_nil
  simp only [addLines?_eq_ok_iff hnil]
  constructor
  · rintro ⟨_, ⟨hnodup, new, hnew, rfl⟩, rfl⟩
    rw [List.append_nil, List.map_reverse, List.nodup_reverse] at hnodup
    rw [List.append_nil, List.reverse_reverse]
    exact ⟨hnodup, hnew⟩
  · rintro ⟨hnodup, hps⟩
    refine ⟨ps.reverse, ⟨?_, ps, hps, (List.append_nil _).symm⟩, List.reverse_reverse ps⟩
    rwa [List.map_reverse, List.nodup_reverse]

theorem names_of_gives {rules : List RuleLine} {ps : List Policy}
    (h : List.Forall₂ RuleLine.Gives rules ps) :
    ps.map Policy.name = rules.map RuleLine.name := by
  induction h with
  | nil => rfl
  | cons hp _ ih => rw [List.map_cons, List.map_cons, hp.name_eq, ih]

end Policy

/-! ## Accepted files -/

namespace PolicySet

variable {source other : String} {s t : PolicySet}

/-- A set comes from a file if it holds the policies of the rule lines over the built-in ones. -/
theorem ofSource?_eq_ok_iff :
    ofSource? source = .ok s ↔ ∃ ps, (ps.map Policy.name).Nodup ∧
      List.Forall₂ RuleLine.Gives (ruleLines source) ps ∧ s = defaults.insertAll ps := by
  simp only [ofSource?, map_eq_ok_iff, Policy.ofSource?_eq_ok_iff, and_assoc, @eq_comm _ s]

/-- A file is accepted if its rule lines are acceptable and no name comes twice. -/
theorem exists_ofSource?_iff :
    (∃ s, ofSource? source = .ok s) ↔
      (∀ r ∈ ruleLines source, r.Acceptable) ∧ ((ruleLines source).map RuleLine.name).Nodup := by
  simp only [ofSource?_eq_ok_iff]
  constructor
  · rintro ⟨s, ps, hnodup, hps, -⟩
    rw [Policy.names_of_gives hps] at hnodup
    refine ⟨fun r hr => ?_, hnodup⟩
    obtain ⟨p, -, hp⟩ := exists_of_forall₂ hps hr
    exact hp.1
  · rintro ⟨haccept, hnodup⟩
    obtain ⟨ps, hps⟩ := exists_forall₂ fun r hr => RuleLine.acceptable_iff.1 (haccept r hr)
    exact ⟨_, ps, Policy.names_of_gives hps ▸ hnodup, hps, rfl⟩

/-- The policy of a rule line is held under the name that stands there. -/
theorem get?_of_ruleLine (h : ofSource? source = .ok s) {r : RuleLine} (hr : r ∈ ruleLines source) :
    ∃ p, Policy.ofPattern? r.name r.pattern = .ok p ∧
      s.get? r.name = some { p with line? := some r.number } := by
  obtain ⟨ps, hnodup, hps, rfl⟩ := ofSource?_eq_ok_iff.1 h
  obtain ⟨q, hq, hgive⟩ := exists_of_forall₂ hps hr
  rw [← hgive.name_eq, get?_insertAll_of_mem hnodup hq]
  obtain ⟨-, p, hp, rfl⟩ := hgive
  exact ⟨p, Policy.name_of_ofPattern? hp ▸ hp, rfl⟩

/-- Under other names are held the built-in policies. -/
theorem get?_of_notMem (h : ofSource? source = .ok s) {name : String}
    (hname : name ∉ (ruleLines source).map RuleLine.name) :
    s.get? name = defaults.get? name := by
  obtain ⟨ps, -, hps, rfl⟩ := ofSource?_eq_ok_iff.1 h
  rw [← Policy.names_of_gives hps] at hname
  exact get?_insertAll_of_notMem hname

section Permuted

variable (hperm : ((ruleLines source).map RuleLine.written).Perm
  ((ruleLines other).map RuleLine.written))
include hperm

theorem names_perm :
    ((ruleLines source).map RuleLine.name).Perm ((ruleLines other).map RuleLine.name) := by
  have hnames := hperm.map Prod.fst
  rwa [List.map_map, List.map_map] at hnames

/-- For every rule line there is one that says the same. -/
theorem exists_ruleLine_of_perm {r : RuleLine} (hr : r ∈ ruleLines source) :
    ∃ r' ∈ ruleLines other, r'.written = r.written :=
  List.mem_map.1 (hperm.mem_iff.1 (List.mem_map_of_mem hr))

theorem accepted_of_perm (h : ∃ s, ofSource? source = .ok s) : ∃ t, ofSource? other = .ok t := by
  rw [exists_ofSource?_iff] at h ⊢
  obtain ⟨haccept, hnodup⟩ := h
  refine ⟨fun r' hr' => ?_, (names_perm hperm).nodup_iff.1 hnodup⟩
  obtain ⟨r, hr, hwritten⟩ := exists_ruleLine_of_perm hperm.symm hr'
  rw [RuleLine.acceptable_iff_written, ← hwritten, ← RuleLine.acceptable_iff_written]
  exact haccept r hr

/-- The policies differ at most in the numbers of their lines. -/
theorem policies_of_perm (hs : ofSource? source = .ok s) (ht : ofSource? other = .ok t) :
    s.policies.map (fun p => (p.name, p.pattern, p.tree)) =
      t.policies.map fun p => (p.name, p.pattern, p.tree) := by
  refine map_policies_eq _ fun name => ?_
  by_cases hname : name ∈ (ruleLines source).map RuleLine.name
  · obtain ⟨r, hr, rfl⟩ := List.mem_map.1 hname
    obtain ⟨r', hr', hwritten⟩ := exists_ruleLine_of_perm hperm hr
    obtain ⟨p, hp, hget⟩ := get?_of_ruleLine hs hr
    obtain ⟨q, hq, hget'⟩ := get?_of_ruleLine ht hr'
    obtain ⟨hname, hpattern⟩ : r'.name = r.name ∧ r'.pattern = r.pattern := Prod.mk.inj hwritten
    rw [hname] at hget' hq
    rw [hpattern, hp] at hq
    rw [hget, hget', Except.ok.inj hq]
    rfl
  · rw [get?_of_notMem hs hname,
      get?_of_notMem ht fun hother => hname ((names_perm hperm).mem_iff.2 hother)]

end Permuted

/-- Which rule files are accepted, and which policies the set then holds: those of the rule lines,
and the built-in ones under names that no rule line has. Neither carriage returns nor, but for the
numbers of lines, the order of the rules makes a difference. -/
theorem ofSource?_iff_rules (source : String) :
    ((∃ s, ofSource? source = .ok s) ↔
      (∀ r ∈ ruleLines source, r.Acceptable) ∧
        ((ruleLines source).map RuleLine.name).Nodup) ∧
    (∀ s, ofSource? source = .ok s →
      (∀ r ∈ ruleLines source, ∃ p, Policy.ofPattern? r.name r.pattern = .ok p ∧
        s.get? r.name = some { p with line? := some r.number }) ∧
      ∀ name ∉ (ruleLines source).map RuleLine.name,
        (∀ pattern, (name, pattern) ∈ builtInRules → ∃ p,
          Policy.ofPattern? name pattern = .ok p ∧ p.line? = none ∧ s.get? name = some p) ∧
        (name ∉ builtInRules.map Prod.fst → s.get? name = none)) ∧
    ruleLines (String.ofList (Text.withReturns source.toList)) = ruleLines source ∧
    ∀ other, ((ruleLines source).map RuleLine.written).Perm
        ((ruleLines other).map RuleLine.written) →
      ((∃ s, ofSource? source = .ok s) ↔ ∃ t, ofSource? other = .ok t) ∧
      ∀ s t, ofSource? source = .ok s → ofSource? other = .ok t →
        s.policies.map (fun p => (p.name, p.pattern, p.tree)) =
          t.policies.map fun p => (p.name, p.pattern, p.tree) := by
  refine ⟨exists_ofSource?_iff, fun s hs => ⟨fun r => get?_of_ruleLine hs, fun name hname => ?_⟩,
    ruleLines_withReturns source, fun other hperm => ⟨?_, fun s t => policies_of_perm hperm⟩⟩
  · rw [get?_of_notMem hs hname]
    refine ⟨fun pattern hrule => ?_, get?_defaults_of_notMem⟩
    obtain ⟨p, hp, hget⟩ := get?_defaults_of_mem hrule
    exact ⟨p, hp, Policy.line?_of_ofPattern? hp, hget⟩
  · exact ⟨accepted_of_perm hperm, accepted_of_perm hperm.symm⟩

/-- Two files with the same rules, of which one is instead of a built-in rule. -/
theorem ofSource?_iff_rules_overlay :
    (∃ s, ofSource? "# a = b\r\n class = [0100](2,4)<=>\r\n\tlayout-2 =<#a>" = .ok s ∧
      (s.get? "class").map Policy.line? = some (some 2) ∧
      (s.get? "field").map Policy.line? = some none ∧ s.get? "a" = none) ∧
    ∃ t, ofSource? "layout-2=<#a>\n\nclass=[0100](2,4)<=>\n" = .ok t := by
  obtain ⟨-, hholds, -, hperm⟩ :=
    ofSource?_iff_rules "# a = b\r\n class = [0100](2,4)<=>\r\n\tlayout-2 =<#a>"
  have hrules : ruleLines "# a = b\r\n class = [0100](2,4)<=>\r\n\tlayout-2 =<#a>" =
      [⟨2, "class = [0100](2,4)<=>".toList⟩, ⟨3, "layout-2 =<#a>".toList⟩] := by decide +kernel
  have haccepted : (ofSource? "# a = b\r\n class = [0100](2,4)<=>\r\n\tlayout-2 =<#a>").isOk :=
    by decide +kernel
  obtain ⟨s, hs⟩ := isOk_iff.1 haccepted
  obtain ⟨hrule, hother⟩ := hholds s hs
  rw [hrules] at hrule hother
  refine ⟨⟨s, hs, ?_, ?_, ?_⟩, ((hperm _ ?_).1).1 ⟨s, hs⟩⟩
  · obtain ⟨p, -, hget⟩ := hrule ⟨2, "class = [0100](2,4)<=>".toList⟩ List.mem_cons_self
    exact congrArg (Option.map Policy.line?) hget
  · obtain ⟨p, -, hline, hget⟩ := (hother "field" (by decide)).1
      "[0100](7,13)\x7b[1000](1)[0100](6,12)\x7d(0,1)" (by decide)
    rw [hget, Option.map_some, hline]
  · exact (hother "a" (by decide)).2 (by decide)
  · rw [hrules]
    exact List.Perm.swap _ _ []

end PolicySet

end Moniker
