import Moniker.Proofs.Regex.Deciding
import Moniker.Proofs.Regex.Printed
import Moniker.Proofs.Tree.Language

/-!
# The expression of a tree matches its names

The text that is written for a tree, read again as a regular expression, accepts a name exactly
if the tree can make it up.

* `Regex.Reads` — a relation between what lies ahead before and after consumes the words of a
  language;
* `Tree.Node.reads_terms` — the terms of a node consume the words of the node;
* `Tree.textAccepts_iff` — the text of the expression accepts the words of the tree;
* `Tree.generated_iff_matched` — the names that random words lead to, those that the text
  accepts and those that the built-in engine accepts are the same.
-/

namespace Moniker

namespace Regex

variable {whole : List Char} {R : List Char → List Char → Prop} {l m : Language Char}

/-! ## Consuming words -/

/-- A word leads from what lies ahead to the same without the word in front. -/
def ahead : Passage (List Char) where
  Leads w a b := a = w ++ b
  leads_nil := by simp
  leads_append {v w a c} := by
    constructor
    · rintro rfl
      exact ⟨w ++ c, List.append_assoc v w c, rfl⟩
    · rintro ⟨_, rfl, rfl⟩
      exact (List.append_assoc v w c).symm

theorem ahead_leads {w a b : List Char} : ahead.Leads w a b ↔ a = w ++ b := Iff.rfl

/-- `R` consumes a word of `l` from what lies ahead, and may consume any. -/
def Reads (R : List Char → List Char → Prop) (l : Language Char) : Prop :=
  ∀ a b, R a b ↔ ahead.Along l a b

/-- The ranges of a class match its characters, one at a time. -/
theorem matches_poolRanges {cls : CharClass} {a b : List Char} :
    (Term.oneOf (poolRanges cls.pools)).Matches whole a b ↔ ∃ c ∈ cls.alphabet, a = c :: b := by
  have hmem : ∀ c, (∃ range ∈ poolRanges cls.pools, range.1 ≤ c ∧ c ≤ range.2) ↔
      c ∈ cls.alphabet := by
    simp [poolRanges, CharClass.mem_alphabet, Pool.covers]
  simp only [Term.Matches, hmem]

namespace Reads

theorem nothing : Reads (MatchesAll whole []) 1 := by
  intro a b
  rw [MatchesAll, Passage.along_one]

theorem cons {term : Term} {terms : List Term} (h : Reads (term.Matches whole) l)
    (hterms : Reads (MatchesAll whole terms) m) :
    Reads (MatchesAll whole (term :: terms)) (l * m) := by
  intro a c
  simp only [MatchesAll, h a, hterms _ c, Passage.along_mul]

theorem singleton {term : Term} (h : Reads (term.Matches whole) l) :
    Reads (MatchesAll whole [term]) l := by
  have hcons : Reads (MatchesAll whole [term]) (l * 1) := h.cons nothing
  rwa [mul_one] at hcons

/-- Terms in a row consume what each of them consumes. -/
theorem matchesAll_append {terms later : List Term} {a c : List Char} :
    MatchesAll whole (terms ++ later) a c ↔
      ∃ b, MatchesAll whole terms a b ∧ MatchesAll whole later b c := by
  induction terms generalizing a with
  | nil => simp [MatchesAll]
  | cons term terms ih =>
    simp only [List.cons_append, MatchesAll, ih]
    constructor
    · rintro ⟨mid, hmid, b, hb, hc⟩
      exact ⟨b, ⟨mid, hmid, hb⟩, hc⟩
    · rintro ⟨b, ⟨mid, hmid, hb⟩, hc⟩
      exact ⟨mid, hmid, b, hb, hc⟩

theorem append {terms later : List Term} (h : Reads (MatchesAll whole terms) l)
    (hlater : Reads (MatchesAll whole later) m) :
    Reads (MatchesAll whole (terms ++ later)) (l * m) := by
  intro a c
  simp only [matchesAll_append, h a, hlater _ c, Passage.along_mul]

/-- The characters of a text consume the text. -/
theorem literal (text : List Char) : Reads (MatchesAll whole (text.map .char)) {text} := by
  induction text with
  | nil => exact nothing
  | cons c text ih =>
    have hc : Reads ((Term.char c).Matches whole) {[c]} := by
      intro a b
      rw [Term.Matches, Passage.along_word, ahead_leads, List.singleton_append]
    rw [word_cons, List.map_cons]
    exact hc.cons ih

/-- The ranges of a class consume a word of one of its characters. -/
theorem oneOf (cls : CharClass) :
    Reads ((Term.oneOf (poolRanges cls.pools)).Matches whole) cls.language := by
  intro a b
  simp only [matches_poolRanges, Passage.Along, CharClass.mem_language, ahead_leads]
  constructor
  · rintro ⟨c, hc, rfl⟩
    exact ⟨[c], ⟨c, hc, rfl⟩, rfl⟩
  · rintro ⟨_, ⟨c, hc, rfl⟩, rfl⟩
    exact ⟨c, hc, rfl⟩

theorem group {terms : List Term} (h : Reads (MatchesAll whole terms) l) :
    Reads ((Term.group terms).Matches whole) l := by
  intro a b
  rw [Term.Matches, h]

/-- A term as often as a range says consumes as many words. -/
theorem counted {term : Term} (h : Reads (term.Matches whole) l) (r : Range) :
    Reads ((r.term term).Matches whole) (r.counted l) := by
  by_cases honce : r = .once
  · rw [Range.term, if_pos honce, honce, Range.counted_once]
    exact h
  · have hR : term.Matches whole = ahead.Along l := funext fun a => funext fun b => propext (h a b)
    intro a b
    simp only [Range.term, if_neg honce, Term.Matches, hR, ← Passage.along_pow,
      Passage.along_counted, Range.Contains, and_assoc]

end Reads

end Regex

namespace Tree

open Regex (Reads Term MatchesAll)

variable {whole : List Char}

namespace Node

theorem reads_termsAll {nodes : List Node}
    (h : ∀ n ∈ nodes, Reads (MatchesAll whole n.terms) n.language) :
    Reads (MatchesAll whole (termsAll nodes)) (rowLanguage nodes) := by
  induction nodes with
  | nil => exact Reads.nothing
  | cons n nodes ih =>
    exact (h n List.mem_cons_self).append (ih fun m hm => h m (List.mem_cons_of_mem n hm))

/-- The terms of a node consume the words of its language. -/
theorem reads_terms (n : Node) : Reads (MatchesAll whole n.terms) n.language := by
  induction n with
  | literal range text => exact Reads.literal text.toList
  | chars range cls => exact ((Reads.oneOf cls).counted range).singleton
  | group range children ih => exact ((reads_termsAll ih).group.counted range).singleton
  | single range child ih => exact (ih.group.counted range).singleton

end Node

/-- The text of the expression of a tree accepts exactly the words of its language. -/
theorem textAccepts_iff {t : Tree} {e : Expression} (h : t.expression? = .ok e) {name : String} :
    Regex.TextAccepts e.text name ↔ name.toList ∈ t.language := by
  have hreads : Reads (MatchesAll name.toList (Node.termsAll t.nodes)) t.language :=
    Node.reads_termsAll fun n _ => n.reads_terms
  simp only [Regex.TextAccepts, ofText?_text h, Option.some.injEq, exists_eq_left', MatchesAll,
    Reads.matchesAll_append, Term.Matches, hreads _ _, Passage.Along, Regex.ahead_leads]
  constructor
  · rintro ⟨before, a, b, hname, _, ⟨rfl, rfl⟩, _, ⟨w, hw, hw'⟩, _, ⟨rfl, rfl⟩, rfl⟩
    rw [hw', List.append_nil]
    exact hw
  · intro hname
    exact ⟨[], name.toList, [], rfl, name.toList, ⟨rfl, rfl⟩, [],
      ⟨name.toList, hname, by rw [List.append_nil]⟩, [], ⟨rfl, rfl⟩, rfl⟩

/-- **Naming and matching agree.** A tree that passes its check has an expression, and a name is
one that some sequence of random words leads to exactly if the text of that expression accepts
it. The built-in engine takes the text, and decides the same. -/
theorem generated_iff_matched (t : Tree) (h : t.check = .ok ()) :
    ∃ e accepts, t.expression? = .ok e ∧ Regex.Engine.builtIn.compile? e.text = .ok accepts ∧
      ∀ name : String,
        (Regex.TextAccepts e.text name ↔
          ∃ words : Draw.Words, (t.generate.run words).1 = .value name) ∧
        (accepts name = true ↔ Regex.TextAccepts e.text name) := by
  obtain ⟨e, he⟩ := exists_expression h
  have hterms := ofText?_text he
  have hbuiltIn := Regex.Engine.builtIn_eq_ok_iff.2 ⟨_, hterms, rfl⟩
  refine ⟨e, _, he, hbuiltIn, fun name => ⟨?_, ?_⟩⟩
  · rw [textAccepts_iff he, mem_language_iff]
  · exact Regex.Engine.builtIn_decides _ _ _ hterms hbuiltIn name

/-- A tree whose text needs escapes and has an empty group and a repetition that never comes. -/
def dotted : Tree :=
  .list [.literal .once "a.b", .group ⟨0, 2⟩ [], .single ⟨0, 0⟩ (.literal .once "*"),
    .chars ⟨1, 3⟩ (.ofPool .underscore)]

/-- The dot stands for itself: of two names that differ there, one can be made up. -/
theorem generated_iff_matched_dotted :
    dotted.check = .ok () ∧ ∃ e, dotted.expression? = .ok e ∧
      e.text = "^a\\.b(?:)\x7b0,2\x7d(?:\\*)\x7b0\x7d[_]\x7b1,3\x7d$" ∧
      (∃ words : Draw.Words, (dotted.generate.run words).1 = .value "a.b__") ∧
      ¬ ∃ words : Draw.Words, (dotted.generate.run words).1 = .value "aab__" := by
  obtain ⟨e, accepts, he, hbuiltIn, hnames⟩ := generated_iff_matched dotted rfl
  have htext : e.text = "^a\\.b(?:)\x7b0,2\x7d(?:\\*)\x7b0\x7d[_]\x7b1,3\x7d$" := by
    obtain rfl := Except.ok.inj he
    decide +kernel
  have hverdicts : (Regex.Engine.builtIn.compile? e.text).toOption.map
      (fun f => (f "a.b__", f "aab__")) = some (true, false) := by
    rw [htext]
    decide +kernel
  simp only [hbuiltIn, Except.toOption, Option.map_some, Option.some.injEq,
    Prod.mk.injEq] at hverdicts
  obtain ⟨hdot, hno⟩ := hverdicts
  refine ⟨rfl, e, he, htext, ?_, ?_⟩
  · rw [← (hnames _).1, ← (hnames _).2]
    exact hdot
  · rw [← (hnames _).1, ← (hnames _).2, hno]
    exact Bool.false_ne_true

end Tree

end Moniker
