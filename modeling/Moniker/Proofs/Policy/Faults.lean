import Moniker.Error
import Moniker.Proofs.Policy.Rules
import Moniker.Proofs.Text.Lines

/-!
# Which line of a rule file is wrong

A rule file that is not accepted has a rule line that may not stand where it stands. The error is
that of the first of them, and of the several things that can be wrong with it, of the one that
is looked for first.

* `RuleLine.Bad` — the line may not stand behind the rule lines before it;
* `RuleLine.Faulty` — what is then said to be wrong with it, which is one thing only;
* `Policy.addLines?_eq_error_iff` — reading lines fails with the line that fails behind those
  before it, whatever comes after;
* `PolicySet.error_iff_first_bad` — the error of a file that is not accepted.
-/

namespace Moniker

open Text (lines endLines)

namespace RuleLine

variable {earlier before : List RuleLine} {r : RuleLine} {fault : SourceFault}

/-- The line may not stand behind the rule lines before it. -/
inductive Bad (earlier : List RuleLine) (r : RuleLine) : Prop where
  | notARule (h : '=' ∉ r.text)
  | noName (h : r.name = "")
  | badName (h : ¬IsName r.name.toList)
  | noPattern (h : r.pattern = "")
  | repeated (h : r.name ∈ earlier.map name)
  | rejected (h : ∃ error, Policy.ofPattern? r.name r.pattern = .error error)

/-- No line is bad behind those before it. -/
def NoneBad (rules : List RuleLine) : Prop :=
  ∀ sooner s later, rules = sooner ++ s :: later → ¬s.Bad sooner

/-- What is wrong with the line behind the rule lines before it. A fault counts only if none of
those above it is there. -/
inductive Faulty (earlier : List RuleLine) (r : RuleLine) : SourceFault → Prop where
  | notARule (hequals : '=' ∉ r.text) : Faulty earlier r .notARule
  | noName (hequals : '=' ∈ r.text) (hname : r.name = "") : Faulty earlier r .noName
  | badName (hequals : '=' ∈ r.text) (hname : r.name ≠ "") (hform : ¬IsName r.name.toList) :
    Faulty earlier r (.badName r.name)
  | noPattern (hequals : '=' ∈ r.text) (hform : IsName r.name.toList) (hpattern : r.pattern = "") :
    Faulty earlier r .noPattern
  | repeated {first : RuleLine} (hform : IsName r.name.toList) (hpattern : r.pattern ≠ "")
    (hfirst : first ∈ earlier) (hname : first.name = r.name) :
    Faulty earlier r (.repeated r.name first.number)
  | rejected {error : PolicyError} (hform : IsName r.name.toList) (hpattern : r.pattern ≠ "")
    (hnew : r.name ∉ earlier.map name)
    (herror : Policy.ofPattern? r.name r.pattern = .error error) :
    Faulty earlier r (.rejected r.name error)

theorem Faulty.bad (h : r.Faulty earlier fault) : r.Bad earlier := by
  cases h with
  | notARule hequals => exact .notARule hequals
  | noName _ hname => exact .noName hname
  | badName _ _ hform => exact .badName hform
  | noPattern _ _ hpattern => exact .noPattern hpattern
  | repeated _ _ hfirst hname => exact .repeated (hname ▸ List.mem_map_of_mem hfirst)
  | rejected _ _ _ herror => exact .rejected ⟨_, herror⟩

/-- An acceptable line with a new name is not bad. -/
theorem Acceptable.not_bad (h : r.Acceptable) (hnew : r.name ∉ earlier.map RuleLine.name) :
    ¬r.Bad earlier := by
  intro hbad
  cases hbad with
  | notARule hequals => exact hequals h.equals
  | noName hname =>
    obtain ⟨c, later, hcons, -⟩ := h.name
    simp [hname] at hcons
  | badName hform => exact hform h.name
  | noPattern hpattern => exact h.pattern hpattern
  | repeated hold => exact hnew hold
  | rejected herror =>
    obtain ⟨error, herror⟩ := herror
    obtain ⟨p, hp⟩ := h.policy
    simp [hp] at herror

theorem noneBad_of_acceptable (haccept : ∀ s ∈ before, s.Acceptable)
    (hnodup : (before.map name).Nodup) : NoneBad before := by
  rintro sooner s later rfl
  have hs : s ∈ sooner ++ s :: later := List.mem_append_right sooner List.mem_cons_self
  rw [List.map_append, List.map_cons] at hnodup
  refine (haccept s hs).not_bad fun hold => ?_
  exact (List.nodup_append.1 hnodup).2.2 _ hold _ List.mem_cons_self rfl

/-- Where no line is bad, no name comes twice. -/
theorem NoneBad.nodup (h : NoneBad before) : (before.map name).Nodup := by
  induction before using List.reverseRecOn with
  | nil => exact List.nodup_nil
  | append_singleton init s ih =>
    have hinit : NoneBad init := fun sooner t later hsplit =>
      h sooner t (later ++ [s]) (by rw [hsplit, List.append_assoc, List.cons_append])
    have hnew : s.name ∉ init.map name := fun hold => h init s [] rfl (.repeated hold)
    rw [List.map_append, List.map_singleton, ← List.concat_eq_append]
    exact (ih hinit).concat hnew

/-- There is at most one first bad line. -/
theorem NoneBad.unique {before' after after' : List RuleLine} {r' : RuleLine}
    (h : NoneBad before) (h' : NoneBad before') (hr : r.Bad before) (hr' : r'.Bad before')
    (hsplit : before ++ r :: after = before' ++ r' :: after') : before = before' ∧ r = r' := by
  obtain ⟨gap, rfl, hgap⟩ | ⟨gap, rfl, hgap⟩ := List.append_eq_append_iff.1 hsplit
  · cases gap with
    | nil => exact ⟨(List.append_nil _).symm, (List.cons.inj hgap).1⟩
    | cons s gap =>
      obtain ⟨rfl, -⟩ := List.cons.inj hgap
      exact absurd hr (h' before r gap rfl)
  · cases gap with
    | nil => exact ⟨List.append_nil _, (List.cons.inj hgap).1.symm⟩
    | cons s gap =>
      obtain ⟨rfl, -⟩ := List.cons.inj hgap
      exact absurd hr' (h before' r' gap rfl)

/-- One thing is said to be wrong with a line. -/
theorem Faulty.unique {fault' : SourceFault} (hnodup : (earlier.map name).Nodup)
    (h : r.Faulty earlier fault) (h' : r.Faulty earlier fault') : fault = fault' := by
  have hequals : r.pattern ≠ "" → '=' ∈ r.text := mem_text_of_pattern
  have hempty : IsName r.name.toList → r.name ≠ "" := by
    rintro ⟨c, later, hcons, -⟩ hname
    simp [hname] at hcons
  -- two different faults contradict each other, for the later one needs that the other is not there
  cases h with
  | repeated hform hpattern hfirst hname =>
    cases h' with
    | repeated _ _ hfirst' hname' =>
      rw [List.inj_on_of_nodup_map hnodup hfirst hfirst' (hname.trans hname'.symm)]
    | rejected _ _ hnew => exact absurd (hname ▸ List.mem_map_of_mem hfirst) hnew
    | _ => exfalso; tauto
  | rejected hform hpattern hnew herror =>
    cases h' with
    | repeated _ _ hfirst hname => exact absurd (hname ▸ List.mem_map_of_mem hfirst) hnew
    | rejected _ _ _ herror' => rw [Except.error.inj (herror.symm.trans herror')]
    | _ => exfalso; tauto
  | _ => cases h' <;> first | rfl | exfalso; tauto

end RuleLine

/-! ## Reading a line that is wrong -/

section

variable {line : List Char} {number : Nat} {r : RuleLine} {fault : SourceFault}

/-- Where no rule can be read, the form of the line is wrong. -/
theorem faulty_of_ruleOfLine? (h : ruleLine? line number = some r)
    (herror : ruleOfLine? line = .error fault) (earlier : List RuleLine) :
    r.Faulty earlier fault := by
  rw [ruleOfLine?_eq h] at herror
  split_ifs at herror with hequals hname hform hpattern
  · obtain rfl := Except.error.inj herror
    exact .noName hequals hname
  · obtain rfl := Except.error.inj herror
    rw [Bool.not_eq_true', ← Bool.not_eq_true, isRuleName_iff] at hform
    exact .badName hequals hname hform
  · obtain rfl := Except.error.inj herror
    rw [Bool.not_eq_true', Bool.not_eq_false, isRuleName_iff] at hform
    exact .noPattern hequals hform hpattern
  · obtain rfl := Except.error.inj herror
    exact .notARule hequals

namespace Policy

/-- Where a rule line does not add a policy, something is wrong with it behind those lines that
added theirs. -/
theorem faulty_of_addLine? (h : ruleLine? line number = some r) {before : List RuleLine}
    {new : List Policy} (hnew : List.Forall₂ RuleLine.Gives before new)
    (herror : addLine? new.reverse line number = .error fault) : r.Faulty before fault := by
  rw [addLine?, bind_eq_error_iff] at herror
  rcases herror with herror | ⟨found, hfound, herror⟩
  · exact faulty_of_ruleOfLine? h herror before
  · obtain ⟨hform, hpattern, rfl⟩ := (ruleOfLine?_eq_ok_iff h).1 hfound
    dsimp only at herror
    split at herror
    · -- a policy has the name already, and knows the line that it comes from
      next p hp =>
      obtain rfl := Except.error.inj herror
      have hmem := List.mem_reverse.1 (List.mem_of_find?_eq_some hp)
      have hname : p.name = r.name := by simpa using List.find?_some hp
      obtain ⟨first, hfirst, hgives⟩ : ∃ first ∈ before, first.Gives p :=
        exists_of_forall₂ hnew.flip hmem
      have hline : p.line?.getD 0 = first.number := by
        obtain ⟨-, q, -, rfl⟩ := hgives
        rfl
      rw [hline]
      exact .repeated hform hpattern hfirst (hgives.name_eq.symm.trans hname)
    · next hnone =>
      rw [bind_eq_error_iff] at herror
      rcases herror with herror | ⟨q, -, herror⟩
      · obtain ⟨error, hpolicy, rfl⟩ := mapError_eq_error_iff.1 herror
        refine .rejected hform hpattern ?_ hpolicy
        rw [← names_of_gives hnew]
        simpa using hnone
      · cases herror

end Policy

end

/-! ## Reading lines -/

namespace Policy

variable {earlier : List Policy} {number : Nat} {ls : List (List Char)} {err : SourceError}

theorem add_length_cons (number : Nat) (line : List Char) (init : List (List Char)) :
    number + (line :: init).length = number + 1 + init.length := by
  rw [List.length_cons, Nat.add_assoc, Nat.add_comm 1]

/-- Lines are read one after the other. -/
theorem addLines?_append (init later : List (List Char)) :
    addLines? earlier number (init ++ later) =
      addLines? earlier number init >>= fun mid => addLines? mid (number + init.length) later := by
  induction init generalizing earlier number with
  | nil => rfl
  | cons line init ih =>
    rw [List.cons_append, addLines?, addLines?]
    cases (addLine? earlier line number).mapError (SourceError.mk number) with
    | error e => rfl
    | ok mid =>
      rw [add_length_cons]
      exact ih

/-- Reading lines fails with the first line that fails behind those before it. -/
theorem addLines?_eq_error_iff :
    addLines? earlier number ls = .error err ↔
      ∃ init line later mid fault, ls = init ++ line :: later ∧
        addLines? earlier number init = .ok mid ∧
        addLine? mid line (number + init.length) = .error fault ∧
        err = ⟨number + init.length, fault⟩ := by
  constructor
  · intro h
    induction ls generalizing earlier number with
    | nil => cases h
    | cons line later ih =>
      rw [addLines?, bind_eq_error_iff] at h
      rcases h with h | ⟨mid, hmid, h⟩
      · obtain ⟨fault, hfault, rfl⟩ := mapError_eq_error_iff.1 h
        exact ⟨[], line, later, earlier, fault, rfl, rfl, hfault, rfl⟩
      · obtain ⟨init, bad, later, last, fault, rfl, hinit, hbad, rfl⟩ := ih h
        refine ⟨line :: init, bad, later, last, fault, rfl, ?_, ?_, ?_⟩
        · exact bind_eq_ok_iff.2 ⟨mid, hmid, hinit⟩
        · rwa [add_length_cons]
        · rw [add_length_cons]
  · rintro ⟨init, line, later, mid, fault, rfl, hinit, hline, rfl⟩
    rw [addLines?_append, hinit]
    refine bind_eq_error_iff.2 (.inr ⟨mid, rfl, bind_eq_error_iff.2 (.inl ?_)⟩)
    exact mapError_eq_error_iff.2 ⟨fault, hline, rfl⟩

end Policy

/-! ## Files that are not accepted -/

namespace PolicySet

variable {source : String} {err : SourceError}

theorem ofSource?_eq_error_iff :
    ofSource? source = .error err ↔ Policy.addLines? [] 1 (lines source.toList) = .error err := by
  rw [ofSource?, map_eq_error_iff, Policy.ofSource?, map_eq_error_iff]

/-- The error of a text is that of every text that begins with the same lines up to that of the
error. -/
theorem error_of_same_lines {other : String} (h : ofSource? source = .error err)
    (hother : (lines other.toList).take err.line = (lines source.toList).take err.line) :
    ofSource? other = .error err := by
  rw [ofSource?_eq_error_iff, Policy.addLines?_eq_error_iff] at h ⊢
  obtain ⟨init, line, later, mid, fault, hlines, hinit, hline, rfl⟩ := h
  refine ⟨init, line, (lines other.toList).drop (1 + init.length), mid, fault, ?_, hinit, hline,
    rfl⟩
  have htake : (lines source.toList).take (1 + init.length) = init ++ [line] := by
    rw [hlines, Nat.add_comm, List.take_length_add_append]
    rfl
  rw [List.append_cons, ← htake, ← hother]
  exact (List.take_append_drop _ _).symm

/-- The text after the line of the error may be any other. -/
theorem error_of_later (h : ofSource? source = .error err) (rest : List Char) :
    ofSource? (String.ofList (endLines ((lines source.toList).take err.line) ++ rest)) =
      .error err := by
  have hlength : err.line ≤ (lines source.toList).length := by
    obtain ⟨init, line, later, mid, fault, hlines, -, -, rfl⟩ :=
      Policy.addLines?_eq_error_iff.1 (ofSource?_eq_error_iff.1 h)
    show 1 + init.length ≤ (lines source.toList).length
    rw [hlines, List.length_append, List.length_cons]
    omega
  have hnewline : ∀ line ∈ (lines source.toList).take err.line, '\n' ∉ line :=
    fun line hline => Text.newline_notMem_of_mem_lines (List.mem_of_mem_take hline)
  refine error_of_same_lines h ?_
  rw [String.toList_ofList, Text.lines_endLines_append hnewline]
  exact List.take_left' (List.length_take_of_le hlength)

/-- The error names the first bad rule line, and what is wrong with it. -/
theorem exists_first_bad (h : ofSource? source = .error err) :
    ∃ before r after, ruleLines source = before ++ r :: after ∧ RuleLine.NoneBad before ∧
      r.Bad before ∧ err.line = r.number ∧ r.Faulty before err.fault := by
  obtain ⟨init, line, later, mid, fault, hlines, hinit, hline, rfl⟩ :=
    Policy.addLines?_eq_error_iff.1 (ofSource?_eq_error_iff.1 h)
  have hnil : (([] : List Policy).map Policy.name).Nodup := List.nodup_nil
  obtain ⟨hnodup, new, hnew, rfl⟩ := (Policy.addLines?_eq_ok_iff hnil).1 hinit
  rw [List.append_nil] at hnodup hline
  rw [List.map_reverse, List.nodup_reverse, Policy.names_of_gives hnew] at hnodup
  cases hr : ruleLine? line (1 + init.length) with
  | none =>
    rw [Policy.addLine?_of_none hr] at hline
    cases hline
  | some r =>
    have hfaulty := Policy.faulty_of_addLine? hr hnew hline
    have haccept : ∀ s ∈ rulesFrom 1 init, s.Acceptable := fun s hs => by
      obtain ⟨p, -, hp⟩ := exists_of_forall₂ hnew hs
      exact hp.1
    refine ⟨rulesFrom 1 init, r, rulesFrom (1 + init.length + 1) later, ?_,
      RuleLine.noneBad_of_acceptable haccept hnodup, hfaulty.bad, (number_of_ruleLine? hr).symm,
      hfaulty⟩
    rw [ruleLines_eq, hlines, rulesFrom_append, rulesFrom_cons, hr]
    rfl

/-- A file with a bad rule line has an error, and it has no other one. -/
theorem error_of_faulty {before after : List RuleLine} {r : RuleLine}
    (hrules : ruleLines source = before ++ r :: after) (hnone : RuleLine.NoneBad before)
    (hline : err.line = r.number) (hfaulty : r.Faulty before err.fault) :
    ofSource? source = .error err := by
  cases hsource : ofSource? source with
  | ok s =>
    obtain ⟨haccept, hnodup⟩ := exists_ofSource?_iff.1 ⟨s, hsource⟩
    exact absurd hfaulty.bad (RuleLine.noneBad_of_acceptable haccept hnodup before r after hrules)
  | error err' =>
    obtain ⟨before', r', after', hrules', hnone', hbad', hline', hfaulty'⟩ :=
      exists_first_bad hsource
    obtain ⟨rfl, rfl⟩ := hnone.unique hnone' hfaulty.bad hbad' (hrules.symm.trans hrules')
    have hfault := hfaulty.unique hnone.nodup hfaulty'
    obtain ⟨line, fault⟩ := err
    obtain ⟨line', fault'⟩ := err'
    cases hfault
    cases hline.trans hline'.symm
    rfl

/-- A pattern that was refused is an error of the grammar or of a range, and only one of them;
nothing else that is wrong with a rule file is. -/
theorem kind_of_source (err : SourceError) :
    (∀ name error, err.fault = .rejected name error →
      (∃ cause, error = .grammar cause ∧ (Error.source err).isGrammar = true ∧
        (Error.source err).isConfiguration = false) ∨
      ∃ range, error = .inverted range ∧ (Error.source err).isGrammar = false ∧
        (Error.source err).isConfiguration = true) ∧
    ((∀ name error, err.fault ≠ .rejected name error) →
      (Error.source err).isGrammar = false ∧ (Error.source err).isConfiguration = false) := by
  obtain ⟨line, fault⟩ := err
  constructor
  · rintro name (cause | range) rfl
    · exact .inl ⟨cause, rfl, rfl, rfl⟩
    · exact .inr ⟨range, rfl, rfl, rfl⟩
  · intro hfault
    cases fault with
    | rejected name error => exact absurd rfl (hfault name error)
    | _ => exact ⟨rfl, rfl⟩

/-- **The error of a rule file names its first bad line.** This is the first rule line that may
not stand behind those before it, and the fault is the first that is looked for in it; where a name
is repeated, the message says on which line it was. Only a pattern that was refused makes it an
error of the grammar or of a range, and then of exactly one of them. Nothing that comes after the
line matters. -/
theorem error_iff_first_bad (source : String) (err : SourceError) :
    (ofSource? source = .error err ↔
      ∃ before r after, ruleLines source = before ++ r :: after ∧ RuleLine.NoneBad before ∧
        r.Bad before ∧ err.line = r.number ∧ r.Faulty before err.fault) ∧
    (∀ name first, err.fault = .repeated name first → err.message = s!"line {err.line}: " ++
      ("rule " ++ Text.quote name ++ s!" is already defined on line {first}")) ∧
    (∀ name error, err.fault = .rejected name error →
      (∃ cause, error = .grammar cause ∧ (Error.source err).isGrammar = true ∧
        (Error.source err).isConfiguration = false) ∨
      ∃ range, error = .inverted range ∧ (Error.source err).isGrammar = false ∧
        (Error.source err).isConfiguration = true) ∧
    ((∀ name error, err.fault ≠ .rejected name error) →
      (Error.source err).isGrammar = false ∧ (Error.source err).isConfiguration = false) ∧
    (ofSource? source = .error err →
      (∀ other : String, (lines other.toList).take err.line = (lines source.toList).take err.line →
        ofSource? other = .error err) ∧
      ∀ rest, ofSource? (String.ofList
        (endLines ((lines source.toList).take err.line) ++ rest)) = .error err) := by
  obtain ⟨hrejected, hother⟩ := kind_of_source err
  refine ⟨⟨exists_first_bad, ?_⟩, ?_, hrejected, hother,
    fun h => ⟨fun other => error_of_same_lines h, error_of_later h⟩⟩
  · rintro ⟨before, r, after, hrules, hnone, -, hline, hfaulty⟩
    exact error_of_faulty hrules hnone hline hfaulty
  · intro name first hfault
    rw [SourceError.message, hfault]
    rfl

/-- The name stands on the second line already, so it is not looked at whether the pattern on the
fourth one would do. Where the name is new, its range is what is wrong. -/
theorem error_iff_first_bad_repeated :
    (ofSource? "# a\nclass = <x>\n\nclass = [0100](9,3)\nb" = .error ⟨4, .repeated "class" 2⟩ ∧
      (∀ rest, ofSource? (String.ofList
        ("# a\nclass = <x>\n\nclass = [0100](9,3)\n".toList ++ rest)) =
          .error ⟨4, .repeated "class" 2⟩) ∧
      (SourceError.mk 4 (.repeated "class" 2)).message =
        "line 4: rule \"class\" is already defined on line 2" ∧
      (Error.source ⟨4, .repeated "class" 2⟩).isConfiguration = false) ∧
    ofSource? "a = [0100](9,3)" = .error ⟨1, .rejected "a" (.inverted ⟨9, 3⟩)⟩ ∧
      (Error.source ⟨1, .rejected "a" (.inverted ⟨9, 3⟩)⟩).isConfiguration = true := by
  constructor
  · have h : ofSource? "# a\nclass = <x>\n\nclass = [0100](9,3)\nb" =
        .error ⟨4, .repeated "class" 2⟩ := by decide +kernel
    obtain ⟨-, hmessage, -, hother, hlater⟩ :=
      error_iff_first_bad "# a\nclass = <x>\n\nclass = [0100](9,3)\nb" ⟨4, .repeated "class" 2⟩
    exact ⟨h, (hlater h).2, (hmessage "class" 2 rfl).trans (by decide +kernel),
      (hother fun _ _ => nofun).2⟩
  · obtain ⟨-, -, hrejected, -⟩ :=
      error_iff_first_bad "a = [0100](9,3)" ⟨1, .rejected "a" (.inverted ⟨9, 3⟩)⟩
    obtain ⟨cause, hcause, -⟩ | ⟨range, -, -, hrange⟩ := hrejected "a" (.inverted ⟨9, 3⟩) rfl
    · cases hcause
    · exact ⟨by decide +kernel, hrange⟩

end PolicySet

end Moniker
