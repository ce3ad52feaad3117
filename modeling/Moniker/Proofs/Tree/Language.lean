import Moniker.Proofs.Draw.Outcomes
import Moniker.Proofs.Language
import Moniker.Tree.Generate
import Mathlib.Data.List.Flatten

/-!
# The language of a tree

The names that a tree can make up form a language that is read off the tree, without any
mention of how counts and characters are picked.

* `Tree.language` — that language: a literal has one word, a class its characters, a group what
  its children have one after the other, and all but literals as often as the range says;
* `Tree.mem_language_iff` — the words of that language are the names that some sequence of random
  words leads to.

Nothing is asked of the ranges: no count lies in an inverted one, so that a node with an
inverted range has no word at all, and generation fails there.
-/

namespace Moniker

open Draw

/-! ## Languages -/

/-- The class of a single pool. -/
def CharClass.ofPool (p : Pool) : CharClass :=
  ⟨[p], List.singleton_sublist.2 p.mem_all, List.cons_ne_nil p []⟩

/-- The words of one character of the class. -/
def CharClass.language (cls : CharClass) : Language Char := {w | ∃ c ∈ cls.alphabet, w = [c]}

theorem CharClass.mem_language {cls : CharClass} {w : List Char} :
    w ∈ cls.language ↔ ∃ c ∈ cls.alphabet, w = [c] := Iff.rfl

namespace Tree

mutual

/-- The words that a node stands for. -/
def Node.language : Node → Language Char
  | .literal _ text => {text.toList}
  | .chars range cls => range.counted cls.language
  | .group range children => range.counted (Node.rowLanguage children)
  | .single range child => range.counted child.language

/-- The words that nodes in a row stand for. -/
def Node.rowLanguage : List Node → Language Char
  | [] => 1
  | n :: nodes => n.language * Node.rowLanguage nodes

end

@[simp] theorem Node.language_literal (range : Range) (text : String) :
    (Node.literal range text).language = {text.toList} := rfl

@[simp] theorem Node.language_chars (range : Range) (cls : CharClass) :
    (Node.chars range cls).language = range.counted cls.language := rfl

@[simp] theorem Node.language_group (range : Range) (children : List Node) :
    (Node.group range children).language = range.counted (Node.rowLanguage children) := rfl

@[simp] theorem Node.language_single (range : Range) (child : Node) :
    (Node.single range child).language = range.counted child.language := rfl

@[simp] theorem Node.rowLanguage_nil : Node.rowLanguage [] = 1 := rfl

@[simp] theorem Node.rowLanguage_cons (n : Node) (nodes : List Node) :
    Node.rowLanguage (n :: nodes) = n.language * Node.rowLanguage nodes := rfl

/-- The words that a tree stands for. -/
def language (t : Tree) : Language Char := Node.rowLanguage t.nodes

end Tree

/-! ## Picking counts and characters -/

namespace Range

variable {r : Range}

/-- The counts that are picked are those in the range. -/
theorem draw_leads_ok {n : Nat} : r.draw.Leads (.ok n) ↔ r.Contains n := by
  rcases hinv : r.inverted with _ | _
  · have hle := contains_min hinv
    rcases hfix : r.isFixed with _ | _
    · simp only [draw, hinv, hfix, Bool.false_eq_true, ↓reduceIte, leads_map_ok, bind_eq,
        leads_bind_ok, leads_index_ok, pure_eq, leads_done, Except.ok.injEq, true_and]
      constructor
      · rintro ⟨_, ⟨i, rfl⟩, rfl⟩
        have := i.isLt
        simp only [size] at this
        exact ⟨by omega, by omega⟩
      · rintro ⟨hmin, hmax⟩
        have hlt : n - r.min.toNat < r.size := by
          simp only [size]
          omega
        exact ⟨n - r.min.toNat, ⟨⟨_, hlt⟩, rfl⟩, by omega⟩
    · have heq := r.isFixed_iff.1 hfix
      simp only [draw, hinv, hfix, Bool.false_eq_true, ↓reduceIte, leads_done, Except.ok.injEq,
        Contains, ← heq]
      omega
  · have hlt : r.max.toNat < r.min.toNat := r.inverted_iff.1 hinv
    simp only [draw, hinv, ↓reduceIte, leads_fail, reduceCtorEq, Contains, false_iff]
    omega

/-- Picking a count fails if the range is inverted, and with that range. -/
theorem draw_leads_error {e : Range} :
    r.draw.Leads (.error e) ↔ r.inverted = true ∧ e = r := by
  rcases hinv : r.inverted with _ | _
  · rcases hfix : r.isFixed with _ | _ <;> simp [draw, hinv, hfix, leads_bind_error]
  · simp [draw, hinv]

theorem feasible_draw (r : Range) : r.draw.Feasible := by
  rcases hinv : r.inverted with _ | _
  · rcases hfix : r.isFixed with _ | _
    · have hle := contains_min hinv
      have hmax : r.max.toNat < 4294967296 := r.max.toNat_lt
      simp only [draw, hinv, hfix, Bool.false_eq_true, ↓reduceIte]
      refine (feasible_index ?_ ?_).map _
      · simp only [size, Contains] at *
        omega
      · simp only [size, Contains, Width.count, Width.bits] at *
        omega
    · simp [draw, hinv, hfix]
  · simp [draw, hinv]

end Range

namespace CharClass

variable {cls : CharClass}

theorem draw_leads_ok {c : Char} : cls.draw.Leads (.ok c) ↔ c ∈ cls.alphabet := by
  simp only [draw, leads_map_ok, leads_index_ok, true_and, List.mem_iff_getElem]
  constructor
  · rintro ⟨i, h⟩
    exact ⟨i, i.isLt, h.symm⟩
  · rintro ⟨i, hi, h⟩
    exact ⟨⟨i, hi⟩, h.symm⟩

@[simp] theorem not_draw_leads_error {e : Range} : ¬ cls.draw.Leads (.error e) := by
  simp [draw]

/-- No class has other characters than all pools together. -/
theorem alphabet_sublist (cls : CharClass) :
    cls.alphabet.Sublist (Pool.all.flatMap Pool.chars) :=
  cls.inOrder.flatMap Pool.chars

theorem length_alphabet_le (cls : CharClass) : cls.alphabet.length ≤ 63 := by
  have hall : (Pool.all.flatMap Pool.chars).length = 63 := by decide +kernel
  exact hall ▸ cls.alphabet_sublist.length_le

theorem feasible_draw (cls : CharClass) : cls.draw.Feasible := by
  refine (feasible_index (List.length_pos_iff.2 cls.alphabet_ne_nil) ?_).map _
  exact cls.length_alphabet_le.trans (by decide)

end CharClass

/-! ## Writing words -/

/-- A word leads from what is written to the same with the word behind it. -/
def written : Passage String where
  Leads w a b := b.toList = a.toList ++ w
  leads_nil {a b} := by
    rw [List.append_nil, String.toList_inj]
    exact eq_comm
  leads_append {v w a c} := by
    constructor
    · intro h
      exact ⟨String.ofList (a.toList ++ v), by simp, by simp [h]⟩
    · rintro ⟨b, hb, hc⟩
      rw [hc, hb, List.append_assoc]

theorem written_leads {w : List Char} {a b : String} :
    written.Leads w a b ↔ b.toList = a.toList ++ w := Iff.rfl

/-- `f` writes a word of `l` after what is there, and may write any. -/
def Writes (f : String → Draw Range String) (l : Language Char) : Prop :=
  ∀ a b, (f a).Leads (.ok b) ↔ written.Along l a b

namespace Writes

variable {f g : String → Draw Range String} {l m : Language Char}

/-- To write nothing is to write the empty word. -/
theorem nothing : Writes .done 1 := by
  intro a b
  rw [leads_done, Except.ok.injEq, Passage.along_one, eq_comm]

/-- To write a text is to write the word that it is. -/
theorem text (text : String) : Writes (fun before => .done (before ++ text)) {text.toList} := by
  intro a b
  rw [leads_done, Except.ok.injEq, Passage.along_word, written_leads, ← String.toList_append,
    String.toList_inj]

/-- To write a character of a class is to write a word of one character. -/
theorem char (cls : CharClass) : Writes (fun text => cls.draw.map text.push) cls.language := by
  intro a b
  simp only [leads_map_ok, CharClass.draw_leads_ok, Passage.Along, CharClass.mem_language,
    written_leads, ← String.toList_inj, String.toList_push]
  constructor
  · rintro ⟨c, hc, hb⟩
    exact ⟨[c], ⟨c, hc, rfl⟩, hb⟩
  · rintro ⟨_, ⟨c, hc, rfl⟩, hb⟩
    exact ⟨c, hc, hb⟩

/-- To write one thing after another is to write a word of each. -/
theorem andThen (hf : Writes f l) (hg : Writes g m) :
    Writes (fun before => (f before).bind g) (l * m) := by
  intro a c
  simp only [leads_bind_ok, hf a, hg _ c, Passage.along_mul]

/-- To write something `n` times is to write `n` words of it. -/
theorem iterate (hf : Writes f l) (n : Nat) : Writes (Draw.iterate n f) (l ^ n) := by
  induction n with
  | zero => exact nothing
  | succ n ih =>
    have hstep := hf.andThen ih
    simpa only [← iterate_succ, ← pow_succ'] using hstep

/-- To write something as often as a range says is to write as many words of it. -/
theorem counted (hf : Writes f l) (r : Range) :
    Writes (fun before => r.draw.bind fun n => Draw.iterate n f before) (r.counted l) := by
  intro a b
  simp only [leads_bind_ok, Range.draw_leads_ok, hf.iterate _ a, Passage.along_counted]

end Writes

namespace Tree

namespace Node

/-- Nodes in a row write the words of their row, if each writes its own. -/
theorem writes_extendAll {nodes : List Node} (h : ∀ n ∈ nodes, Writes n.extend n.language) :
    Writes (extendAll nodes) (rowLanguage nodes) := by
  induction nodes with
  | nil => exact Writes.nothing
  | cons n nodes ih =>
    exact (h n List.mem_cons_self).andThen (ih fun m hm => h m (List.mem_cons_of_mem n hm))

/-- A node writes the words of its language. -/
theorem writes_extend (n : Node) : Writes n.extend n.language := by
  induction n with
  | literal range text => exact Writes.text text
  | chars range cls => exact (Writes.char cls).counted range
  | group range children ih => exact (writes_extendAll ih).counted range
  | single range child ih => exact ih.counted range

theorem feasible_extendAll {nodes : List Node}
    (h : ∀ n ∈ nodes, ∀ before, (n.extend before).Feasible) (before : String) :
    (extendAll nodes before).Feasible := by
  induction nodes generalizing before with
  | nil => trivial
  | cons n nodes ih =>
    rw [extendAll_cons]
    refine (h n List.mem_cons_self before).bind ?_
    exact ih fun m hm => h m (List.mem_cons_of_mem n hm)

theorem feasible_extend (n : Node) (before : String) : (n.extend before).Feasible := by
  induction n generalizing before with
  | literal range text => trivial
  | chars range cls =>
    rw [extend_chars]
    exact range.feasible_draw.bind fun n =>
      Feasible.iterate (fun text => cls.feasible_draw.map text.push) n before
  | group range children ih =>
    rw [extend_group]
    exact range.feasible_draw.bind fun n => Feasible.iterate (feasible_extendAll ih) n before
  | single range child ih =>
    rw [extend_single]
    exact range.feasible_draw.bind fun n => Feasible.iterate ih n before

end Node

theorem feasible_generate (t : Tree) : t.generate.Feasible :=
  Node.feasible_extendAll (fun n _ => n.feasible_extend) ""

/-- **The names of a tree**: those that some sequence of random words leads to are the words of
its language. -/
theorem mem_language_iff {t : Tree} {name : String} :
    name.toList ∈ t.language ↔ ∃ words : Words, (t.generate.run words).1 = .value name := by
  rw [← Outcome.ofExcept_ok, exists_words_iff t.feasible_generate, generate,
    Node.writes_extendAll (fun n _ => n.writes_extend) "" name]
  simp [language, Passage.Along, written_leads]

end Tree

end Moniker
