import Moniker.Command.Run
import Moniker.Proofs.Command.Selection
import Moniker.Proofs.Tree.Matching

/-!
# Checking a name

Whether a policy accepts a name is decided by an engine that is handed a regular expression, without
making up names. Here it is told by the names that the policy can make: `Answer.ofCheck` is what a
check has to end with if exactly the policies that can make the name accept it, and
`Run.check_iff_makes` says that the program ends with that, or fails with the first thing that
stands in the way. Of the engine nothing is asked but that it decides the expressions that it takes.
-/

namespace Moniker

open Draw (FiniteSource)
open Regex (Engine)

/-! ## Policies that make a name -/

namespace Policy

/-- Some sequence of random words leads the policy to the name. -/
def Makes (p : Policy) (name : String) : Prop :=
  ∃ words : Draw.Words, (p.generate.run words).1 = .value name

open scoped Classical in
/-- The verdict that is told by the names that the policy makes. -/
noncomputable def trueVerdict (name : String) (p : Policy) : Verdict :=
  ⟨p.name, p.pattern, decide (p.Makes name)⟩

variable {engine : Engine} {p : Policy} {name : String}

@[simp] theorem accepted_trueVerdict : (p.trueVerdict name).accepted = true ↔ p.Makes name := by
  classical exact decide_eq_true_iff

/-- A name is accepted if the policy makes it. -/
theorem accepts_iff_makes (hengine : engine.Decides) {m : Matcher}
    (h : p.matcher? engine = .ok m) : m.accepts name = true ↔ p.Makes name := by
  obtain ⟨e, he, accepts, haccepts, rfl⟩ := Tree.matcher?_eq_ok_iff.1 h
  rw [hengine _ _ accepts (Tree.ofText?_text he) haccepts, Tree.textAccepts_iff he,
    Tree.mem_language_iff]
  rfl

/-- There is a verdict if there is something to check names with. -/
theorem verdict_eq_ok_iff {v : Verdict} :
    p.verdict engine name = .ok v ↔
      ∃ m, p.matcher? engine = .ok m ∧ v = ⟨p.name, p.pattern, m.accepts name⟩ := by
  simp only [verdict, matches?, bind_eq_ok_iff, mapError_eq_ok_iff, map_eq_ok_iff,
    Except.ok.injEq, @eq_comm _ v]
  constructor
  · rintro ⟨_, ⟨m, hm, rfl⟩, h⟩
    exact ⟨m, hm, h⟩
  · rintro ⟨m, hm, h⟩
    exact ⟨_, ⟨m, hm, rfl⟩, h⟩

/-- A verdict is missing if there is nothing to check names with. -/
theorem verdict_eq_error_iff {e : Error} :
    p.verdict engine name = .error e ↔ ∃ e', p.matcher? engine = .error e' ∧ e = .matcher e' := by
  simp only [verdict, matches?, bind_eq_error_iff, mapError_eq_error_iff, map_eq_error_iff,
    reduceCtorEq, and_false, exists_false, or_false]

theorem exists_verdict_iff :
    (∃ v, p.verdict engine name = .ok v) ↔ ∃ m, p.matcher? engine = .ok m := by
  simp only [verdict_eq_ok_iff]
  exact ⟨fun ⟨_, m, hm, _⟩ => ⟨m, hm⟩, fun ⟨m, hm⟩ => ⟨_, m, hm, rfl⟩⟩

/-- A verdict says whether the policy makes the name. -/
theorem verdict_of_matcher (hengine : engine.Decides) {m : Matcher}
    (h : p.matcher? engine = .ok m) (name : String) :
    p.verdict engine name = .ok (p.trueVerdict name) := by
  have haccepts : m.accepts name = (p.trueVerdict name).accepted := by
    rw [Bool.eq_iff_iff, accepts_iff_makes hengine h, accepted_trueVerdict]
  exact verdict_eq_ok_iff.2 ⟨m, h, by rw [haccepts]; rfl⟩

/-- If there are verdicts, they say of each policy whether it makes the name. -/
theorem verdicts_eq_ok_iff (hengine : engine.Decides) {ps : List Policy} {vs : List Verdict} :
    verdicts engine name ps = .ok vs ↔ (∀ p ∈ ps, ∃ m, p.matcher? engine = .ok m) ∧
      vs = ps.map (trueVerdict name) := by
  rw [verdicts, mapM_eq_ok_iff]
  constructor
  · intro h
    induction h with
    | nil => exact ⟨nofun, rfl⟩
    | @cons p v ps vs hv _ ih =>
      obtain ⟨hps, rfl⟩ := ih
      obtain ⟨m, hm⟩ := exists_verdict_iff.1 ⟨v, hv⟩
      rw [verdict_of_matcher hengine hm] at hv
      exact ⟨List.forall_mem_cons.2 ⟨⟨m, hm⟩, hps⟩, by rw [List.map_cons, Except.ok.inj hv]⟩
  · rintro ⟨hps, rfl⟩
    rw [List.forall₂_map_right_iff, List.forall₂_same]
    intro p hp
    obtain ⟨m, hm⟩ := hps p hp
    exact verdict_of_matcher hengine hm name

end Policy

/-! ## What a check ends with -/

section

open scoped Classical

/-- The names of the policies that make `name`, in the order of the policies. -/
noncomputable def makers (name : String) (ps : List Policy) : List String :=
  (ps.filter fun p => p.Makes name).map Policy.name

/-- What a check of `name` ends with: the exit code, and one of the three reports. -/
noncomputable def Answer.ofCheck (name : String) (ps : List Policy) (format : ReportFormat)
    (quiet : Bool) : Answer where
  code := if ∃ p ∈ ps, p.Makes name then 0 else 1
  text := match format with
    | .json => (Json.object [
        ("ok", .bool (∃ p ∈ ps, p.Makes name)),
        ("name", .string name),
        ("accepted_by", .list ((makers name ps).map .string)),
        ("rules", .list (ps.map fun p => .object [("rule", .string p.name),
          ("pattern", .string p.pattern), ("accepted", .bool (p.Makes name))]))]).document
    | .human =>
      if quiet then String.join ((makers name ps).map endLine)
      else if ∃ p ∈ ps, p.Makes name then
        String.join (ps.map fun p =>
          endLine ((if p.Makes name then "ACCEPT " else "reject ") ++ p.name ++ ": " ++ p.pattern))
      else endLine ("NO RULE accepts " ++ Text.quote name)

variable {engine : Engine} {name : String} {ps : List Policy}

theorem makers_eq_nil_iff : makers name ps = [] ↔ ¬ ∃ p ∈ ps, p.Makes name := by
  simp [makers]

theorem acceptedBy_verdicts :
    Verdict.acceptedBy (ps.map (Policy.trueVerdict name)) = makers name ps := by
  rw [Verdict.acceptedBy, List.filter_map, List.map_map]
  rfl

/-- The report on the verdicts is that of the check. -/
theorem report_verdicts (format : ReportFormat) (quiet : Bool) :
    Verdict.report name (ps.map (Policy.trueVerdict name)) format quiet =
      (Answer.ofCheck name ps format quiet).text := by
  have hsome : (!(makers name ps).isEmpty) = decide (∃ p ∈ ps, p.Makes name) := by
    rw [Bool.eq_iff_iff, decide_eq_true_iff, Bool.not_eq_true', ← Bool.not_eq_true,
      List.isEmpty_iff, makers_eq_nil_iff, not_not]
  cases format with
  | json =>
    rw [Verdict.report, Verdict.jsonReport, acceptedBy_verdicts, hsome, List.map_map]
    rfl
  | human =>
    simp only [Verdict.report, Verdict.humanReport, acceptedBy_verdicts, List.isEmpty_iff,
      makers_eq_nil_iff, ite_not, List.map_map, Function.comp_def, Verdict.humanLine,
      Policy.trueVerdict, decide_eq_true_eq, Answer.ofCheck]

/-- What the program ends with if there are verdicts. -/
theorem answer_of_verdicts {vs : List Verdict}
    (h : vs = ps.map (Policy.trueVerdict name)) (format : ReportFormat) (quiet : Bool) :
    (⟨if vs.any Verdict.accepted then 0 else 1, Verdict.report name vs format quiet⟩ : Answer) =
      .ofCheck name ps format quiet := by
  subst h
  have hany : (ps.map (Policy.trueVerdict name)).any Verdict.accepted = true ↔
      ∃ p ∈ ps, p.Makes name := by
    simp
  simp only [report_verdicts, hany]
  rfl

/-- The answer to a check, if there is something to check the name with for every policy. -/
theorem checkAnswer_eq_ok_iff (hengine : engine.Decides) {o : Options} {a : Answer} :
    o.checkAnswer engine name ps = .ok a ↔ (∀ p ∈ ps, ∃ m, p.matcher? engine = .ok m) ∧
      a = .ofCheck name ps o.format o.quiet := by
  rw [Options.checkAnswer, bind_eq_ok_iff]
  constructor
  · rintro ⟨vs, hvs, h⟩
    obtain ⟨hmatchers, hvs⟩ := (Policy.verdicts_eq_ok_iff hengine).1 hvs
    exact ⟨hmatchers, (Except.ok.inj h).symm.trans (answer_of_verdicts hvs o.format o.quiet)⟩
  · rintro ⟨hmatchers, rfl⟩
    exact ⟨_, (Policy.verdicts_eq_ok_iff hengine).2 ⟨hmatchers, rfl⟩,
      congrArg Except.ok (answer_of_verdicts rfl o.format o.quiet)⟩

end

/-- There is none if one of the policies lacks that, and the first of them is told. -/
theorem checkAnswer_eq_error_iff {engine : Engine} {o : Options} {name : String}
    {ps : List Policy} {e : Error} :
    o.checkAnswer engine name ps = .error e ↔ ∃ before p after, ps = before ++ p :: after ∧
      (∀ q ∈ before, ∃ m, q.matcher? engine = .ok m) ∧
      ∃ e', p.matcher? engine = .error e' ∧ e = .matcher e' := by
  rw [Options.checkAnswer, bind_eq_error_iff]
  simp only [reduceCtorEq, and_false, exists_false, or_false]
  rw [Policy.verdicts, mapM_eq_error_iff]
  simp only [Policy.exists_verdict_iff, Policy.verdict_eq_error_iff]

/-! ## Runs -/

namespace Run

variable {σ : Type} [FiniteSource σ] {w : Surroundings σ} {forced? : Option Level}
  {args : List String} {o : Options} {name : String}

theorem ofArgs_of_answer {a : Answer} (hargs : Options.ofArgs? args = .ok o)
    (h : o.answer w = .ok a) :
    ofArgs w forced? args = ⟨a.code, a.text, none, o.log w (forced?.getD o.level)⟩ := by
  rw [ofArgs, hargs]
  simp only [ofOptions, h]

/-- A run without an answer writes nothing but a complaint. -/
theorem ofArgs_of_error {e : Error} (hargs : Options.ofArgs? args = .ok o)
    (h : o.answer w = .error e) :
    ofArgs w forced? args =
      ⟨2, "", some (complaint e), o.log w (forced?.getD o.level)⟩ := by
  rw [ofArgs, hargs]
  simp only [ofOptions, h]

/-- **Checks are exact.** Names are checked by an engine that decides the expressions it takes. If
it takes that of every policy that is selected, the program ends with code 0 if one of them makes
the name and with code 1 if none does, and whatever its form the report tells exactly those that do.
Otherwise the first thing that stands in the way is the error, be it in the selection or that the
engine refuses an expression, and nothing is reported. -/
theorem check_iff_makes (hengine : w.engine.Decides) (hargs : Options.ofArgs? args = .ok o)
    (hcheck : o.check? = some name) (forced? : Option Level) :
    (∀ a, o.answer w = .ok a ↔ ∃ ps, o.Selects w.files ps ∧
      (∀ p ∈ ps, ∃ m, p.matcher? w.engine = .ok m) ∧ a = .ofCheck name ps o.format o.quiet) ∧
    (∀ e, o.answer w = .error e ↔ o.Refuses w.files e ∨
      ∃ before p after, o.Selects w.files (before ++ p :: after) ∧
        (∀ q ∈ before, ∃ m, q.matcher? w.engine = .ok m) ∧
        ∃ e', p.matcher? w.engine = .error e' ∧ e = .matcher e') ∧
    (∀ a, o.answer w = .ok a →
      ofArgs w forced? args = ⟨a.code, a.text, none, o.log w (forced?.getD o.level)⟩) ∧
    ∀ e, o.answer w = .error e →
      ofArgs w forced? args = ⟨2, "", some (complaint e), o.log w (forced?.getD o.level)⟩ := by
  have hanswer : o.answer w = o.select w.files >>= o.checkAnswer w.engine name := by
    simp only [Options.answer, hcheck]
  refine ⟨fun a => ?_, fun e => ?_, fun a => ofArgs_of_answer hargs, fun e => ofArgs_of_error hargs⟩
  · rw [hanswer, bind_eq_ok_iff]
    simp only [Options.select_eq_ok_iff, checkAnswer_eq_ok_iff hengine]
  · rw [hanswer, bind_eq_error_iff, Options.select_eq_error_iff]
    simp only [Options.select_eq_ok_iff, checkAnswer_eq_error_iff]
    refine or_congr_right ⟨?_, ?_⟩
    · rintro ⟨_, hps, before, p, after, rfl, hbefore, hp⟩
      exact ⟨before, p, after, hps, hbefore, hp⟩
    · rintro ⟨before, p, after, hps, hbefore, hp⟩
      exact ⟨_, hps, before, p, after, rfl, hbefore, hp⟩

/-- No files can be read, and the engine is the one that comes with the program. -/
def withoutFiles : Surroundings Draw.Words where
  files _ := .error .notFound
  engine := .builtIn
  stream _ := ⟨[]⟩
  fresh := ⟨[]⟩

/-- A rule that is named twice is told twice. -/
theorem check_iff_makes_twice :
    withoutFiles.engine.Decides ∧
    ∃ o p, Options.ofArgs? ["--rule", "class", "--rule=class", "--check", "AbcdefgHijklmn"] =
        .ok o ∧
      o.check? = some "AbcdefgHijklmn" ∧ p.Makes "AbcdefgHijklmn" ∧
      o.answer withoutFiles = .ok (.ofCheck "AbcdefgHijklmn" [p, p] .human false) := by
  have hclass : (PolicySet.defaults.get? "class").any
      (fun p => p.matches? .builtIn "AbcdefgHijklmn" = .ok true) = true := by decide +kernel
  obtain ⟨p, hp, hmatches⟩ := (Option.any_eq_true _ _).1 hclass
  obtain ⟨m, hm, haccepts⟩ := map_eq_ok_iff.1 (of_decide_eq_true hmatches)
  have hargs : Options.ofArgs? ["--rule", "class", "--rule=class", "--check", "AbcdefgHijklmn"] =
      .ok { Options.default with
        rules := ["class", "class"], check? := some "AbcdefgHijklmn" } := by
    decide +kernel
  have hengine : withoutFiles.engine.Decides := Regex.Engine.builtIn_decides
  obtain ⟨hanswer, -⟩ := check_iff_makes hengine hargs rfl none
  refine ⟨hengine, _, p, hargs, rfl, (Policy.accepts_iff_makes hengine hm).1 haccepts,
    (hanswer _).2 ?_⟩
  have hall : ∀ q ∈ [p, p], ∃ m, q.matcher? withoutFiles.engine = .ok m := by
    simp only [List.mem_cons, List.not_mem_nil, or_false, or_self]
    rintro q rfl
    exact ⟨m, hm⟩
  exact ⟨[p, p], .named rfl rfl (by decide) (.cons hp (.cons hp .nil)), hall, rfl⟩

end Run

end Moniker
