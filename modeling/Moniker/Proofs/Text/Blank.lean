import Mathlib.Data.List.DropRight
import Moniker.Text.Blank

/-!
# Trimmed texts and lines

* `trim_eq_self` — a text that neither begins nor ends with a blank is not changed by trimming;
* `trim_eq_trimRight`, `trim_eq_trimLeft` — what begins, or ends, like a trimmed text has no
  blanks left to drop there;
* `splitOn_newline` — the lines are the pieces between line feeds, except that nothing after the
  last line feed is no line;
* `map_trim_splitOn_withReturns` — a carriage return before each line feed does not show in the
  trimmed lines.
-/

namespace Moniker.Text

/-! ## Trimming -/

/-- The visible characters of ASCII are no blanks. -/
theorem isBlank_eq_false {c : Char} (hle : '!' ≤ c) (hlt : c ≤ '~') : isBlank c = false := by
  have hle' : 33 ≤ c.toNat := hle
  have hlt' : c.toNat ≤ 126 := hlt
  simp only [isBlank, Bool.or_eq_false_iff, Bool.and_eq_false_iff, decide_eq_false_iff_not,
    beq_eq_false_iff_ne]
  omega

/-- To trim a text at its end is to drop blanks from there as long as there are any. -/
theorem trimRight_eq_rdropWhile (cs : List Char) : trimRight cs = cs.rdropWhile isBlank := by
  induction cs with
  | nil => rfl
  | cons c cs ih =>
    rw [trimRight_cons, ih, List.rdropWhile, List.rdropWhile, List.reverse_cons,
      List.dropWhile_append, List.isEmpty_reverse]
    by_cases hempty : (cs.reverse.dropWhile isBlank).isEmpty = true
    · rw [if_pos hempty, hempty, Bool.true_and, List.isEmpty_iff.1 hempty]
      by_cases hc : isBlank c = true <;> simp [hc]
    · simp [hempty]

theorem trimRight_isPrefix (cs : List Char) : trimRight cs <+: cs := by
  rw [trimRight_eq_rdropWhile]
  exact List.rdropWhile_prefix isBlank cs

/-- Trimming takes characters away and changes none. -/
theorem trim_sublist (cs : List Char) : (trim cs).Sublist cs :=
  (trimRight_isPrefix _).sublist.trans (List.dropWhile_sublist isBlank)

/-- What begins like a trimmed text begins with no blank. -/
theorem trimLeft_eq_self {cs line : List Char} (h : cs <+: trim line) : trimLeft cs = cs := by
  cases cs with
  | nil => rfl
  | cons c cs =>
    -- the first character is that of the text without the blanks in front
    obtain ⟨rest, hrest⟩ := h.trans (trimRight_isPrefix (trimLeft line))
    have hhead := List.head?_dropWhile_not isBlank line
    rw [← trimLeft, ← hrest] at hhead
    exact List.dropWhile_cons_of_neg (Bool.eq_false_iff.1 hhead)

/-- What ends like a trimmed text ends with no blank. -/
theorem trimRight_eq_self {cs line : List Char} (h : cs <:+ trim line) : trimRight cs = cs := by
  rw [trimRight_eq_rdropWhile, List.rdropWhile_eq_self_iff]
  intro hne
  have hline : trim line ≠ [] := fun hnil => hne (List.suffix_nil.1 (hnil ▸ h))
  rw [h.getLast hne]
  simp only [trim, trimRight_eq_rdropWhile] at hline ⊢
  exact List.rdropWhile_last_not isBlank _ hline

theorem trim_eq_trimRight {cs line : List Char} (h : cs <+: trim line) :
    trim cs = trimRight cs := by
  rw [trim, trimLeft_eq_self h]

theorem trim_eq_trimLeft {cs line : List Char} (h : cs <:+ trim line) : trim cs = trimLeft cs :=
  trimRight_eq_self ((List.dropWhile_suffix isBlank).trans h)

/-- A text that neither begins nor ends with a blank has none to drop there. -/
theorem trim_eq_self {cs : List Char} {c d : Char} (hhead : cs.head? = some c)
    (hc : isBlank c = false) (hlast : cs.getLast? = some d) (hd : isBlank d = false) :
    trim cs = cs := by
  have hleft : trimLeft cs = cs := by
    obtain ⟨later, rfl⟩ := List.head?_eq_some_iff.1 hhead
    exact List.dropWhile_cons_of_neg (Bool.eq_false_iff.1 hc)
  obtain ⟨earlier, hcs⟩ := List.getLast?_eq_some_iff.1 hlast
  rw [trim, hleft, trimRight_eq_rdropWhile, hcs]
  exact List.rdropWhile_concat_neg isBlank _ d (Bool.eq_false_iff.1 hd)

/-- Blanks in front are trimmed away. -/
theorem trim_append_of_blanks {blanks cs : List Char} (h : ∀ c ∈ blanks, isBlank c = true) :
    trim (blanks ++ cs) = trim cs := by
  rw [trim, trim, trimLeft, trimLeft, List.dropWhile_append_of_pos h]

/-- A blank at the end is trimmed away. -/
theorem trim_concat_blank {c : Char} (hc : isBlank c = true) (cs : List Char) :
    trim (cs ++ [c]) = trim cs := by
  rw [trim, trim, trimLeft, trimLeft, List.dropWhile_append]
  split
  · next hempty =>
    rw [List.isEmpty_iff.1 hempty, List.dropWhile_cons_of_pos hc, List.dropWhile_nil]
  · rw [trimRight_eq_rdropWhile, trimRight_eq_rdropWhile]
    exact List.rdropWhile_concat_pos isBlank _ c hc

/-- What begins with no blank keeps its first character. -/
theorem head?_trim_cons {c : Char} (hc : isBlank c = false) (cs : List Char) :
    (trim (c :: cs)).head? = some c := by
  rw [trim, trimLeft, List.dropWhile_cons_of_neg (Bool.eq_false_iff.1 hc), trimRight_cons, hc,
    Bool.and_false]
  rfl

/-! ## Lines -/

/-- The lines are the pieces between line feeds, but for an empty piece at the end. -/
theorem splitOn_newline (cs : List Char) :
    cs.splitOn '\n' = lines cs ∨ cs.splitOn '\n' = lines cs ++ [[]] := by
  induction cs with
  | nil => exact .inr rfl
  | cons c cs ih =>
    rw [List.splitOn, List.splitOnP_cons_eq_if_modifyHead, ← List.splitOn]
    by_cases hc : c = '\n'
    · subst hc
      rw [if_pos (beq_self_eq_true _), lines_newline]
      rcases ih with ih | ih
      · exact .inl (by rw [ih])
      · exact .inr (by rw [ih, List.cons_append])
    · rw [if_neg (by simpa using hc)]
      simp only [lines_cons, consLine, if_neg hc]
      rcases hlines : lines cs with _ | ⟨line, later⟩
      · -- there is always a first piece, here the empty one that was left out
        rcases ih with ih | ih
        · exact absurd (ih.trans hlines) (List.splitOn_ne_nil '\n' cs)
        · exact .inl (by rw [ih, hlines]; rfl)
      · rcases ih with ih | ih
        · exact .inl (by rw [ih, hlines]; rfl)
        · exact .inr (by rw [ih, hlines]; rfl)

/-- A text whose lines end with a carriage return before the line feed. -/
def withReturns (cs : List Char) : List Char :=
  cs.flatMap fun c => if c = '\n' then ['\r', '\n'] else [c]

/-- The lines have at most a carriage return at their ends that they had not before. -/
theorem splitOn_withReturns (cs : List Char) :
    List.Forall₂ (fun new old => new = old ∨ new = old ++ ['\r'])
      ((withReturns cs).splitOn '\n') (cs.splitOn '\n') := by
  induction cs with
  | nil => exact .cons (.inl rfl) .nil
  | cons c cs ih =>
    rw [withReturns, List.flatMap_cons, ← withReturns]
    simp only [List.splitOn] at ih ⊢
    by_cases hc : c = '\n'
    · subst hc
      simp only [if_true, List.cons_append, List.nil_append, List.splitOnP_cons_eq_if_modifyHead]
      exact .cons (.inr rfl) ih
    · simp only [if_neg hc, List.cons_append, List.nil_append,
        List.splitOnP_cons_eq_if_modifyHead, beq_iff_eq]
      generalize (withReturns cs).splitOnP (· == '\n') = new at ih ⊢
      generalize cs.splitOnP (· == '\n') = old at ih ⊢
      obtain - | ⟨h, hlater⟩ := ih
      · exact .nil
      · exact .cons (h.imp (congrArg (c :: ·)) (congrArg (c :: ·))) hlater

/-- Trimmed, the lines are the same. -/
theorem map_trim_splitOn_withReturns (cs : List Char) :
    ((withReturns cs).splitOn '\n').map trim = (cs.splitOn '\n').map trim := by
  have hlines := splitOn_withReturns cs
  generalize (withReturns cs).splitOn '\n' = new at hlines ⊢
  generalize cs.splitOn '\n' = old at hlines ⊢
  induction hlines with
  | nil => rfl
  | cons h _ ih =>
    rw [List.map_cons, List.map_cons, ih]
    rcases h with rfl | rfl
    · rfl
    · rw [trim_concat_blank rfl]

end Moniker.Text
