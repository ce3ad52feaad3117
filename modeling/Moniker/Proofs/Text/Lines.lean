import Moniker.Text.Blank

/-!
# Reading lines and labels back

* `lines_endLines` — lines that were written one after the other, each with a line feed at its end,
  are the lines of the text;
* `cut?_eq_some_iff` — a line is cut at its first colon with a space behind it;
* `cut?_labelled` — so a label without a colon is found again, whatever was written behind it.
-/

namespace Moniker.Text

variable {line rest label cs : List Char} {ls : List (List Char)}

/-! ## Lines -/

/-- Each of the lines with a line feed at its end. -/
def endLines (ls : List (List Char)) : List Char := ls.flatMap (· ++ ['\n'])

/-- There are no line feeds in a line. -/
theorem newline_notMem_of_mem_lines (h : line ∈ lines cs) : '\n' ∉ line := by
  induction cs generalizing line with
  | nil => simp at h
  | cons c cs ih =>
    by_cases hc : c = '\n'
    · subst hc
      rw [lines_newline] at h
      rcases List.mem_cons.1 h with rfl | h
      · exact List.not_mem_nil
      · exact ih h
    · have hnew : ∀ {old : List Char}, '\n' ∉ old → '\n' ∉ c :: old :=
        List.not_mem_cons_of_ne_of_not_mem (Ne.symm hc)
      simp only [lines_cons, consLine, if_neg hc] at h
      split at h
      · rw [List.mem_singleton.1 h]
        exact hnew List.not_mem_nil
      · next old later hlines =>
        rw [hlines] at ih
        rcases List.mem_cons.1 h with rfl | h
        · exact hnew (ih List.mem_cons_self)
        · exact ih (List.mem_cons_of_mem _ h)

/-- The first line goes as far as the first line feed. -/
theorem lines_append_newline (h : '\n' ∉ line) :
    lines (line ++ '\n' :: rest) = line :: lines rest := by
  induction line with
  | nil => rfl
  | cons c line ih =>
    have hc : c ≠ '\n' := (List.ne_of_not_mem_cons h).symm
    have hline : '\n' ∉ line := List.not_mem_of_not_mem_cons h
    simp only [List.cons_append, lines_cons, ih hline, consLine, if_neg hc]

/-- Written lines are read back, whatever text follows them. -/
theorem lines_endLines_append (h : ∀ line ∈ ls, '\n' ∉ line) (rest : List Char) :
    lines (endLines ls ++ rest) = ls ++ lines rest := by
  induction ls with
  | nil => rfl
  | cons line ls ih =>
    obtain ⟨hline, hls⟩ := List.forall_mem_cons.1 h
    rw [endLines, List.flatMap_cons, ← endLines, List.append_assoc, List.append_assoc,
      List.singleton_append, lines_append_newline hline, ih hls, List.cons_append]

theorem lines_endLines (h : ∀ line ∈ ls, '\n' ∉ line) : lines (endLines ls) = ls := by
  simpa using lines_endLines_append h []

/-! ## Labels -/

/-- What stands before and after the first colon that has a space behind it. -/
def cut? : List Char → Option (List Char × List Char)
  | [] => none
  | c :: cs =>
    if c = ':' ∧ cs.head? = some ' ' then some ([], cs.tail)
    else (cut? cs).map fun (label, rest) => (c :: label, rest)

/-- The cut is at a colon with a space behind it, and there is none before. -/
theorem cut?_eq_some_iff :
    cut? cs = some (label, rest) ↔ cs = label ++ ':' :: ' ' :: rest ∧
      ∀ before after, cs = before ++ ':' :: ' ' :: after → label.length ≤ before.length := by
  induction cs generalizing label with
  | nil => simp [cut?]
  | cons c cs ih =>
    rw [cut?]
    split
    · next hcut =>
      obtain ⟨rfl, hhead⟩ := hcut
      obtain ⟨after, rfl⟩ := List.head?_eq_some_iff.1 hhead
      simp only [List.tail_cons, Option.some.injEq, Prod.mk.injEq]
      constructor
      · rintro ⟨rfl, rfl⟩
        exact ⟨rfl, fun _ _ _ => Nat.zero_le _⟩
      · rintro ⟨h, hfirst⟩
        obtain rfl := List.length_eq_zero_iff.1 (Nat.le_zero.1 (hfirst [] after rfl))
        exact ⟨rfl, (List.cons.inj (List.cons.inj h).2).2⟩
    · next hcut =>
      -- the first character does not begin the separator, so it belongs to the label
      have hne : ∀ after, c :: cs ≠ ':' :: ' ' :: after := by
        rintro after ⟨⟩
        exact hcut ⟨rfl, rfl⟩
      simp only [Option.map_eq_some_iff, Prod.exists, Prod.mk.injEq]
      constructor
      · rintro ⟨label, rest, h, rfl, rfl⟩
        obtain ⟨rfl, hfirst⟩ := ih.1 h
        refine ⟨rfl, fun before after hbefore => ?_⟩
        cases before with
        | nil => exact absurd hbefore (hne after)
        | cons b before =>
          exact Nat.succ_le_succ (hfirst before after (List.cons.inj hbefore).2)
      · rintro ⟨h, hfirst⟩
        cases label with
        | nil => exact absurd h (hne rest)
        | cons b label =>
          obtain ⟨rfl, hcs⟩ := List.cons.inj h
          refine ⟨label, rest, ih.2 ⟨hcs, fun before after hbefore => ?_⟩, rfl, rfl⟩
          exact Nat.le_of_succ_le_succ (hfirst (c :: before) after (congrArg (c :: ·) hbefore))

/-- A label without a colon is cut off where it ends. -/
theorem cut?_labelled (h : ':' ∉ label) :
    cut? (label ++ ':' :: ' ' :: rest) = some (label, rest) := by
  refine cut?_eq_some_iff.2 ⟨rfl, fun before after hbefore => ?_⟩
  rcases List.append_eq_append_iff.1 hbefore with ⟨mid, rfl, -⟩ | ⟨mid, rfl, hmid⟩
  · rw [List.length_append]
    exact Nat.le_add_right _ _
  · cases mid with
    | nil => simp
    | cons c mid =>
      obtain ⟨rfl, -⟩ := List.cons.inj hmid
      exact absurd (List.mem_append_right before List.mem_cons_self) h

end Moniker.Text
