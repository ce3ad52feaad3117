import Moniker.Proofs.Command.Naming
import Moniker.Proofs.Text.Lines
import Moniker.Proofs.Tree.Characters

/-!
# Reports read back

The report for people has neither quotes nor escapes. The names of rules in a set nevertheless can
be read off it: no name has a line feed, since no rule has one, and no rule has a colon in its name.

* `Batch.toList_humanReport` — the report without headings is a line for each name;
* `Batch.cut?_entryLine` — a line that begins with the rule falls into the rule and the name;
* `Options.MakesUp.newline_notMem` — the names that are made up for rules have no line feeds;
* `Options.report_readBack` — so the names and their rules are what the report says line by line.
-/

namespace Moniker

open Draw (FiniteSource Words)
open Text (lines endLines cut?)

/-! ## Reports -/

namespace Batch

variable {bs : List Batch} {e : String × String}

/-- The names in the batches, each with its rule. -/
def entries (bs : List Batch) : List (String × String) :=
  bs.flatMap fun b => b.names.map fun name => (b.rule, name)

/-- The line on a name, with its rule in front of it if `labelled`. -/
def entryLine (labelled : Bool) (e : String × String) : List Char :=
  if labelled then e.1.toList ++ ':' :: ' ' :: e.2.toList else e.2.toList

/-- The lines of a batch without its heading. -/
theorem map_toList_humanLines (labelled : Bool) (b : Batch) :
    (humanLines false labelled b).map String.toList =
      (b.names.map fun name => (b.rule, name)).map (entryLine labelled) := by
  rw [humanLines, if_neg Bool.false_ne_true, List.nil_append, List.map_map, List.map_map]
  refine List.map_congr_left fun name _ => ?_
  cases labelled with
  | false => rfl
  | true => simp [entryLine]

/-- Without headings the report is one line for each name. -/
theorem toList_humanReport {verbosity : Nat} {quiet : Bool}
    (h : quiet = true ∨ verbosity = 0) :
    (humanReport bs verbosity quiet).toList =
      endLines ((entries bs).map (entryLine (!quiet && 1 < bs.length))) := by
  have hshown : (!quiet && 0 < verbosity) = false := by
    rcases h with rfl | rfl <;> simp
  have hlines (labelled : Bool) : ((bs.flatMap (humanLines false labelled)).map String.toList) =
      (entries bs).map (entryLine labelled) := by
    simp only [entries, List.map_flatMap, map_toList_humanLines]
  rw [humanReport, hshown, ← hlines]
  simp [String.toList_join, endLines, endLine, List.flatMap_map]

theorem newline_notMem_entryLine (labelled : Bool) (hrule : IsName e.1.toList)
    (hname : '\n' ∉ e.2.toList) : '\n' ∉ entryLine labelled e := by
  cases labelled with
  | false => exact hname
  | true => simp [entryLine, hrule.newline_notMem, hname]

/-- The rule and the name can be told apart, whatever the name is. -/
theorem cut?_entryLine (hrule : IsName e.1.toList) :
    cut? (entryLine true e) = some (e.1.toList, e.2.toList) :=
  Text.cut?_labelled hrule.colon_notMem

/-- As many names as there should be belong to each of the rules. -/
theorem map_fst_entries {count : Nat} {ps : List Policy} (h : List.Forall₂ (IsOf count) ps bs) :
    (entries bs).map Prod.fst = ps.flatMap fun p => List.replicate count p.name := by
  induction h with
  | nil => rfl
  | @cons p b ps bs hb _ ih =>
    rw [entries, List.flatMap_cons, List.map_append, ← entries, ih, List.flatMap_cons, ← hb.size,
      ← hb.rule, List.map_map]
    exact congrArg (· ++ _) (List.map_const' ..)

end Batch

/-! ## Names of rules -/

namespace Options

variable {σ : Type} [FiniteSource σ] {files : Files} {source : σ} {o : Options}

namespace MakesUp

variable {ps : List Policy} {bs : List Batch} {e : String × String}

/-- The rules have names without colons and line feeds. -/
theorem isName_rule (h : o.MakesUp files source ps bs) (hpattern : o.pattern? = none)
    (he : e ∈ Batch.entries bs) : IsName e.1.toList := by
  obtain ⟨b, hb, he⟩ := List.mem_flatMap.1 he
  obtain ⟨name, -, rfl⟩ := List.mem_map.1 he
  obtain ⟨p, hp, hof⟩ := exists_of_forall₂ h.forall₂.flip hb
  rw [hof.rule]
  exact ((select_eq_ok_iff.1 h.selects).ofRule hpattern p hp).name

/-- The names have no line feeds, since the rules have none. -/
theorem newline_notMem (h : o.MakesUp files source ps bs) (hpattern : o.pattern? = none)
    (he : e ∈ Batch.entries bs) : '\n' ∉ e.2.toList := by
  obtain ⟨b, hb, he⟩ := List.mem_flatMap.1 he
  obtain ⟨name, hname, rfl⟩ := List.mem_map.1 he
  obtain ⟨rest, hrun⟩ := h.successive
  obtain ⟨m, hm, s, hm'⟩ := hrun.exists_run (List.mem_flatMap.2 ⟨b, hb, hname⟩)
  obtain ⟨p, hp, hm⟩ := List.mem_flatMap.1 hm
  obtain rfl := List.eq_of_mem_replicate hm
  have hrule := (select_eq_ok_iff.1 h.selects).ofRule hpattern p hp
  exact Pattern.newline_notMem_of_occurs hrule.oneLine
    (Tree.occurs_of_run hrule.sound.compiles hm')

/-- Without headings the report is one line for each name, and with the rules in front of the names
if there are several and the run is not quiet. -/
theorem toList_report (h : o.MakesUp files source ps bs) (hformat : o.format = .human)
    (hplain : o.quiet = true ∨ o.verbosity = 0) :
    (Batch.report bs o.format o.verbosity o.quiet).toList =
      endLines ((Batch.entries bs).map (Batch.entryLine (!o.quiet && 1 < ps.length))) := by
  rw [hformat, h.forall₂.length_eq]
  exact Batch.toList_humanReport hplain

/-- The lines of the report are those that were written, for there are no line feeds in them. -/
theorem lines_report (h : o.MakesUp files source ps bs) (hpattern : o.pattern? = none)
    (hformat : o.format = .human) (hplain : o.quiet = true ∨ o.verbosity = 0) :
    lines (Batch.report bs o.format o.verbosity o.quiet).toList =
      (Batch.entries bs).map (Batch.entryLine (!o.quiet && 1 < ps.length)) := by
  rw [h.toList_report hformat hplain]
  refine Text.lines_endLines (List.forall_mem_map.2 fun e he => ?_)
  exact Batch.newline_notMem_entryLine _ (h.isName_rule hpattern he) (h.newline_notMem hpattern he)

end MakesUp

/-- **Reports can be read back.** A run that makes up names for rules and reports on them for people
without headings, whatever it finds around it, writes one line for each name and nothing else. If
there are several rules and the run is not quiet, each line cut at its first colon with a space
behind it gives the rule and the name; otherwise each line is the name. So the report tells the
names, as many as there should be for each of the rules in turn. -/
theorem report_readBack {w : Surroundings σ} (hpattern : o.pattern? = none)
    (hcheck : o.check? = none) (hformat : o.format = .human)
    (hplain : o.quiet = true ∨ o.verbosity = 0) {a : Answer} (h : o.answer w = .ok a) :
    ∃ ps bs, o.MakesUp w.files (o.source w) ps bs ∧ a.code = 0 ∧
      (∀ e ∈ Batch.entries bs, '\n' ∉ e.2.toList) ∧
      a.text.toList = endLines (lines a.text.toList) ∧
      (o.quiet = false → 2 ≤ ps.length → (lines a.text.toList).map cut? =
        (Batch.entries bs).map fun e => some (e.1.toList, e.2.toList)) ∧
      (o.quiet = true ∨ ps.length < 2 → lines a.text.toList =
        (Batch.entries bs).map fun e => e.2.toList) ∧
      List.Forall₂ (Batch.IsOf o.count) ps bs ∧
      (Batch.entries bs).map Prod.fst = ps.flatMap fun p => List.replicate o.count p.name := by
  obtain ⟨ps, bs, hmakes, rfl⟩ := (answer_eq_ok_iff hcheck).1 h
  have hlines := hmakes.lines_report hpattern hformat hplain
  refine ⟨ps, bs, hmakes, rfl, fun e => hmakes.newline_notMem hpattern, ?_, ?_, ?_,
    hmakes.forall₂, Batch.map_fst_entries hmakes.forall₂⟩
  · rw [hlines, hmakes.toList_report hformat hplain]
  · intro hquiet hseveral
    have hlabelled : (!o.quiet && 1 < ps.length) = true := by
      simp [hquiet, Nat.lt_of_succ_le hseveral]
    rw [hlines, hlabelled, List.map_map]
    exact List.map_congr_left fun e he => Batch.cut?_entryLine (hmakes.isName_rule hpattern he)
  · intro hbare
    have hlabelled : (!o.quiet && 1 < ps.length) = false := by
      rcases hbare with hquiet | hone
      · simp [hquiet]
      · simp [Nat.le_of_lt_succ hone]
    rw [hlines, hlabelled]
    rfl

/-- A rule file with a rule whose names look as if they had labels, and a single random word. -/
def colonRules : Surroundings Words where
  files _ := .ok "a=[0010](1)<: \r>\nb=<x>"
  engine := .builtIn
  stream _ := ⟨[0]⟩
  fresh := ⟨[0]⟩

/-- One name for each of the rules of that file. -/
def oneName : Options := { default with policy? := some "rules", rules := ["a", "b"] }

/-- The lines are `a: 0: ` with a carriage return at its end, and `b: x`. -/
theorem report_readBack_colon :
    ∃ ps bs, oneName.MakesUp colonRules.files colonRules.fresh ps bs ∧
      (Batch.entries bs).map (fun e => some (e.1.toList, e.2.toList)) =
        [some (['a'], ['0', ':', ' ', '\r']), some (['b'], ['x'])] := by
  have hanswer : (oneName.answer colonRules).toOption = some ⟨0, "a: 0: \r\nb: x\n"⟩ := by
    decide +kernel
  cases h : oneName.answer colonRules with
  | error e => simp [h, Except.toOption] at hanswer
  | ok a =>
    obtain rfl : a = ⟨0, "a: 0: \r\nb: x\n"⟩ := by
      simpa only [h, Except.toOption, Option.some.injEq] using hanswer
    obtain ⟨ps, bs, hmakes, -, -, -, hcut, -⟩ := report_readBack rfl rfl rfl (.inr rfl) h
    have hrules : oneName.rules ≠ [] := by decide
    obtain ⟨s, -, hps⟩ := (select_eq_ok_iff.1 hmakes.selects).exists_forall₂ rfl hrules
    refine ⟨ps, bs, hmakes, ?_⟩
    rw [← hcut rfl hps.length_eq.le]
    decide +kernel

end Options

end Moniker
