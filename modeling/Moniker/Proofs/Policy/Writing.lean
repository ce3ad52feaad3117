import Moniker.Proofs.Pattern.Composed
import Moniker.Proofs.Policy.Rules
import Moniker.Proofs.Text.Lines

/-!
# Rules written to a file

Rules that are written to a file, one on a line, are read back from it as they are. Blanks are
trimmed at the ends of a line and beside its first equals sign, but a name has neither blanks nor
equals signs in it, and a pattern begins and ends with a delimiter, whatever stands in between.

* `Rule`, `Remark` — what can stand on a line;
* `fileText` — the text of a file with such lines;
* `Rule.written_ruleLine` — on the line of a rule its name and its pattern are read;
* `map_written_ruleLines` — the rules that are read in a file are those that were written to it;
* `PolicySet.get?_of_fileText` — the file is accepted, and its policies are those of its rules.
-/

namespace Moniker

open Text (isBlank trim)

/-! ## Files -/

/-- A rule that can stand on a line. -/
structure Rule where
  name : String
  pattern : String
  isName : IsName name.toList
  accepted : ∃ p, Policy.ofPattern? name pattern = .ok p
  oneLine : '\n' ∉ pattern.toList

/-- A line that is blank or a comment. -/
structure Remark where
  text : List Char
  skipped : (∀ c ∈ text, isBlank c = true) ∨
    ∃ blanks comment, text = blanks ++ '#' :: comment ∧ ∀ c ∈ blanks, isBlank c = true
  oneLine : '\n' ∉ text

/-- A line of a rule file. -/
inductive FileLine where
  | rule (rule : Rule)
  | remark (remark : Remark)

/-- How a line ends. -/
inductive LineEnd where
  | feed
  | returnFeed
deriving DecidableEq

/-- The characters of a rule. -/
def Rule.text (rule : Rule) : List Char := (rule.name ++ " = " ++ rule.pattern).toList

namespace FileLine

/-- The characters of a line. -/
def text : FileLine → List Char
  | rule r => r.text
  | remark r => r.text

/-- The rule on the line. -/
def rule? : FileLine → Option Rule
  | rule r => some r
  | remark _ => none

end FileLine

/-- The characters at the end of a line. -/
def LineEnd.text : LineEnd → List Char
  | feed => ['\n']
  | returnFeed => ['\r', '\n']

/-- The text of a file with the given lines. -/
def fileText (file : List (FileLine × LineEnd)) : String :=
  String.ofList (file.flatMap fun (line, ending) => line.text ++ ending.text)

/-- The rules of a file in the order of its lines. -/
def fileRules (file : List (FileLine × LineEnd)) : List Rule := file.filterMap (·.1.rule?)

/-! ## Names and patterns -/

/-- A character of a name is no blank, and none that has a meaning in a rule file. -/
theorem visible_of_isNameChar {c : Char} (h : IsLetter c ∨ IsDigit c ∨ c = '_' ∨ c = '-') :
    isBlank c = false ∧ c ∉ ['=', '#', '\n'] := by
  have hcode : 45 ≤ c.toNat ∧ c.toNat ≤ 122 ∧ c.toNat ≠ 61 := by
    have hbetween : ∀ a b : Char, a ≤ c ∧ c ≤ b → a.toNat ≤ c.toNat ∧ c.toNat ≤ b.toNat :=
      fun _ _ h => h
    rcases h with (hupper | hlower) | hdigit | rfl | rfl
    · have hle : 65 ≤ c.toNat ∧ c.toNat ≤ 90 := hbetween _ _ hupper
      omega
    · have hle : 97 ≤ c.toNat ∧ c.toNat ≤ 122 := hbetween _ _ hlower
      omega
    · have hle : 48 ≤ c.toNat ∧ c.toNat ≤ 57 := hbetween _ _ hdigit
      omega
    · decide
    · decide
  refine ⟨Text.isBlank_eq_false ?_ ?_, fun hmem => ?_⟩
  · exact Nat.le_trans (by decide : 33 ≤ 45) hcode.1
  · exact Nat.le_trans hcode.2.1 (by decide : 122 ≤ 126)
  · simp only [List.mem_cons, List.not_mem_nil, or_false] at hmem
    rcases hmem with rfl | rfl | rfl <;> revert hcode <;> decide

theorem IsName.visible {cs : List Char} (h : IsName cs) :
    ∀ c ∈ cs, isBlank c = false ∧ c ∉ ['=', '#', '\n'] := by
  obtain ⟨first, later, rfl, hfirst, hlater⟩ := h
  intro c hc
  rcases List.mem_cons.1 hc with rfl | hc
  · refine visible_of_isNameChar ?_
    rcases hfirst with hletter | hunderscore
    · exact .inl hletter
    · exact .inr (.inr (.inl hunderscore))
  · exact visible_of_isNameChar (hlater c hc)

theorem IsName.ne_nil {cs : List Char} (h : IsName cs) : cs ≠ [] := by
  obtain ⟨first, later, rfl, -⟩ := h
  exact List.cons_ne_nil _ _

/-- The pattern of a policy begins and ends with a delimiter. -/
theorem Policy.ends_of_ofPattern? {name pattern : String} {p : Policy}
    (h : ofPattern? name pattern = .ok p) :
    (∃ c ∈ ['{', '[', '<'], pattern.toList.head? = some c) ∧
      ∃ c ∈ ['}', ']', '>', ')'], pattern.toList.getLast? = some c := by
  obtain ⟨tree, hcompile, -, -⟩ := ofPattern?_eq_ok_iff.1 h
  obtain ⟨q, hpattern, -⟩ := bind_eq_ok_iff.1 hcompile
  obtain ⟨level, -, htext, -⟩ := Pattern.ofText?_eq_ok_iff.1 (mapError_eq_ok_iff.1 hpattern)
  rw [← htext]
  exact ⟨level.exists_head?, level.exists_getLast?⟩

namespace Rule

variable (rule : Rule)

theorem text_eq : rule.text = rule.name.toList ++ ' ' :: '=' :: ' ' :: rule.pattern.toList := by
  simp [text]

theorem exists_pattern_head? :
    ∃ c, rule.pattern.toList.head? = some c ∧ isBlank c = false := by
  obtain ⟨p, hp⟩ := rule.accepted
  obtain ⟨⟨c, hc, hhead⟩, -⟩ := Policy.ends_of_ofPattern? hp
  have hopening : ∀ c ∈ ['{', '[', '<'], isBlank c = false := by simp [isBlank]
  exact ⟨c, hhead, hopening c hc⟩

theorem pattern_ne_empty : rule.pattern ≠ "" := by
  obtain ⟨c, hhead, -⟩ := rule.exists_pattern_head?
  intro hempty
  rw [hempty] at hhead
  cases hhead

theorem exists_pattern_getLast? :
    ∃ c, rule.pattern.toList.getLast? = some c ∧ isBlank c = false := by
  obtain ⟨p, hp⟩ := rule.accepted
  obtain ⟨-, c, hc, hlast⟩ := Policy.ends_of_ofPattern? hp
  have hclosing : ∀ c ∈ ['}', ']', '>', ')'], isBlank c = false := by simp [isBlank]
  exact ⟨c, hlast, hclosing c hc⟩

theorem exists_name_head? :
    ∃ c, rule.name.toList.head? = some c ∧ isBlank c = false ∧ c ∉ ['=', '#', '\n'] := by
  obtain ⟨c, later, hname⟩ := List.exists_cons_of_ne_nil rule.isName.ne_nil
  exact ⟨c, by rw [hname]; rfl, rule.isName.visible c (by rw [hname]; exact List.mem_cons_self)⟩

/-! ## Reading a rule -/

/-- There are no blanks at the ends of a name. -/
theorem trim_name : trim rule.name.toList = rule.name.toList := by
  obtain ⟨c, hhead, hc, -⟩ := rule.exists_name_head?
  have hlast := List.getLast?_eq_some_getLast rule.isName.ne_nil
  exact Text.trim_eq_self hhead hc hlast (rule.isName.visible _ (List.getLast_mem _)).1

/-- Nor at the ends of a pattern. -/
theorem trim_pattern : trim rule.pattern.toList = rule.pattern.toList := by
  obtain ⟨c, hhead, hc⟩ := rule.exists_pattern_head?
  obtain ⟨d, hlast, hd⟩ := rule.exists_pattern_getLast?
  exact Text.trim_eq_self hhead hc hlast hd

theorem head?_text : rule.text.head? = rule.name.toList.head? := by
  rw [text_eq, List.head?_append_of_ne_nil _ rule.isName.ne_nil]

theorem getLast?_text : rule.text.getLast? = rule.pattern.toList.getLast? := by
  obtain ⟨d, hlast, -⟩ := rule.exists_pattern_getLast?
  have hsplit : rule.text = (rule.name.toList ++ [' ', '=', ' ']) ++ rule.pattern.toList := by
    simp [text_eq]
  rw [hsplit, List.getLast?_append, hlast, Option.some_or]

/-- Nor at the ends of the line. -/
theorem trim_text : trim rule.text = rule.text := by
  obtain ⟨c, hhead, hc, -⟩ := rule.exists_name_head?
  obtain ⟨d, hlast, hd⟩ := rule.exists_pattern_getLast?
  exact Text.trim_eq_self (rule.head?_text.trans hhead) hc (rule.getLast?_text.trans hlast) hd

/-- The first equals sign is the one behind the name. -/
theorem text_cut :
    rule.text.takeWhile (· != '=') = rule.name.toList ++ [' '] ∧
      rule.text.dropWhile (· != '=') = '=' :: ' ' :: rule.pattern.toList := by
  have hsplit : rule.text =
      (rule.name.toList ++ [' ']) ++ '=' :: ' ' :: rule.pattern.toList := by
    simp [text_eq]
  have hbefore : ∀ c ∈ rule.name.toList ++ [' '], (c != '=') = true := by
    intro c hc
    rw [bne_iff_ne]
    rintro rfl
    rcases List.mem_append.1 hc with hc | hc
    · exact (rule.isName.visible _ hc).2 List.mem_cons_self
    · cases List.mem_singleton.1 hc
  rw [hsplit, List.takeWhile_append_of_pos hbefore, List.dropWhile_append_of_pos hbefore]
  exact ⟨List.append_nil _, rfl⟩

/-- On the line of a rule its name and its pattern are read. -/
theorem written_ruleLine (number : Nat) :
    (RuleLine.mk number rule.text).written = (rule.name, rule.pattern) := by
  obtain ⟨htake, hdrop⟩ := rule.text_cut
  have hname : RuleLine.name ⟨number, rule.text⟩ = rule.name := by
    rw [RuleLine.name, htake, Text.trim_concat_blank rfl, rule.trim_name, String.ofList_toList]
  have hpattern : RuleLine.pattern ⟨number, rule.text⟩ = rule.pattern := by
    have hblank : trim ([' '] ++ rule.pattern.toList) = trim rule.pattern.toList :=
      Text.trim_append_of_blanks (by simp [isBlank])
    rw [RuleLine.pattern, hdrop, List.tail_cons, ← List.singleton_append, hblank,
      rule.trim_pattern, String.ofList_toList]
  rw [RuleLine.written, hname, hpattern]

/-- The line of a rule is no comment. -/
theorem ruleLine?_text {line : List Char} (h : trim line = rule.text) (number : Nat) :
    ruleLine? line number = some ⟨number, rule.text⟩ := by
  obtain ⟨c, hhead, -, hc⟩ := rule.exists_name_head?
  have hrule : ¬ (trim line = [] ∨ (trim line).head? = some '#') := by
    rw [h]
    rintro (hnil | hcomment)
    · rw [← head?_text, hnil] at hhead
      cases hhead
    · rw [head?_text, hhead] at hcomment
      obtain rfl := Option.some.inj hcomment
      simp at hc
  rw [ruleLine?, if_neg hrule, h]

end Rule

/-! ## Reading a file -/

/-- The line as it is read, which is without the line feed. -/
def readLine (line : FileLine) : LineEnd → List Char
  | .feed => line.text
  | .returnFeed => line.text ++ ['\r']

/-- A carriage return does not show in the trimmed line. -/
theorem trim_readLine (line : FileLine) (ending : LineEnd) :
    trim (readLine line ending) = trim line.text := by
  cases ending with
  | feed => rfl
  | returnFeed => exact Text.trim_concat_blank rfl _

/-- No line has a line feed in it. -/
theorem newline_notMem_readLine (line : FileLine) (ending : LineEnd) :
    '\n' ∉ readLine line ending := by
  have htext : '\n' ∉ line.text := by
    cases line with
    | remark remark => exact remark.oneLine
    | rule rule =>
      have hname : '\n' ∉ rule.name.toList := fun hmem =>
        (rule.isName.visible _ hmem).2 (by simp)
      simp [FileLine.text, Rule.text_eq, hname, rule.oneLine]
  cases ending with
  | feed => exact htext
  | returnFeed => simpa [readLine] using htext

theorem lines_fileText (file : List (FileLine × LineEnd)) :
    Text.lines (fileText file).toList = file.map fun (line, ending) => readLine line ending := by
  have htext : (fileText file).toList =
      Text.endLines (file.map fun (line, ending) => readLine line ending) := by
    rw [fileText, String.toList_ofList, Text.endLines, List.flatMap_map]
    apply List.flatMap_congr
    rintro ⟨line, ending⟩ -
    cases ending with
    | feed => rfl
    | returnFeed => exact (List.append_assoc _ ['\r'] ['\n']).symm
  rw [htext, Text.lines_endLines]
  intro line hline
  obtain ⟨⟨line, ending⟩, -, rfl⟩ := List.mem_map.1 hline
  exact newline_notMem_readLine line ending

/-- A remark is skipped. -/
theorem ruleLine?_of_remark {remark : Remark} {line : List Char}
    (h : trim line = trim remark.text) (number : Nat) : ruleLine? line number = none := by
  have hskip : trim line = [] ∨ (trim line).head? = some '#' := by
    rw [h]
    rcases remark.skipped with hblank | ⟨blanks, comment, htext, hblanks⟩
    · have hnone : trim (remark.text ++ []) = trim [] := Text.trim_append_of_blanks hblank
      rw [List.append_nil] at hnone
      exact .inl hnone
    · rw [htext, Text.trim_append_of_blanks hblanks]
      exact .inr (Text.head?_trim_cons rfl comment)
  rw [ruleLine?, if_pos hskip]

/-- The rules of a file are read as they were written. -/
theorem map_written_rulesFrom (file : List (FileLine × LineEnd)) (number : Nat) :
    (rulesFrom number (file.map fun (line, ending) => readLine line ending)).map
        RuleLine.written =
      (fileRules file).map fun rule => (rule.name, rule.pattern) := by
  induction file generalizing number with
  | nil => rfl
  | cons entry file ih =>
    obtain ⟨line, ending⟩ := entry
    rw [List.map_cons, rulesFrom_cons, List.map_append, ih]
    have htrim := trim_readLine line ending
    cases line with
    | remark remark =>
      rw [ruleLine?_of_remark htrim]
      rfl
    | rule rule =>
      rw [rule.ruleLine?_text (htrim.trans rule.trim_text)]
      exact congrArg (· :: _) (rule.written_ruleLine number)

theorem map_written_ruleLines (file : List (FileLine × LineEnd)) :
    (ruleLines (fileText file)).map RuleLine.written =
      (fileRules file).map fun rule => (rule.name, rule.pattern) := by
  rw [ruleLines_eq, lines_fileText, map_written_rulesFrom]

/-- The names of the rules are those that are read. -/
theorem map_name_ruleLines (file : List (FileLine × LineEnd)) :
    (ruleLines (fileText file)).map RuleLine.name = (fileRules file).map Rule.name := by
  have hnames := congrArg (List.map Prod.fst) (map_written_ruleLines file)
  rwa [List.map_map, List.map_map] at hnames

namespace PolicySet

variable {rules : List Rule} {file : List (FileLine × LineEnd)}

/-- A file of rules whose names differ is accepted. -/
theorem exists_ofSource?_fileText (hnames : ((fileRules file).map Rule.name).Nodup) :
    ∃ s, ofSource? (fileText file) = .ok s := by
  refine exists_ofSource?_iff.2 ⟨fun r hr => ?_, map_name_ruleLines file ▸ hnames⟩
  have hwritten : r.written ∈ (ruleLines (fileText file)).map RuleLine.written :=
    List.mem_map_of_mem hr
  rw [map_written_ruleLines] at hwritten
  obtain ⟨rule, -, hrule⟩ := List.mem_map.1 hwritten
  rw [RuleLine.acceptable_iff_written, ← hrule]
  exact ⟨rule.isName, rule.pattern_ne_empty, rule.accepted⟩

/-- **Rules survive being written to a file.** Rules whose names differ may be written to a file in
any order, each on a line with or without a carriage return at its end, and with blank lines and
comments in between. The file is accepted, and under the name of each rule it gives a policy with
the pattern of the rule, as it was written, and with the tree of this pattern. -/
theorem get?_of_fileText (hnames : (rules.map Rule.name).Nodup)
    (hrules : (fileRules file).Perm rules) :
    ∃ s, ofSource? (fileText file) = .ok s ∧
      ∀ rule ∈ rules, ∃ p, s.get? rule.name = some p ∧ p.name = rule.name ∧
        p.pattern = rule.pattern ∧ Tree.compile rule.pattern = .ok p.tree := by
  obtain ⟨s, hs⟩ := exists_ofSource?_fileText ((hrules.map Rule.name).nodup_iff.2 hnames)
  refine ⟨s, hs, fun rule hrule => ?_⟩
  -- the rule is written on some line
  have hwritten : (rule.name, rule.pattern) ∈
      (ruleLines (fileText file)).map RuleLine.written := by
    rw [map_written_ruleLines]
    exact List.mem_map_of_mem (hrules.mem_iff.2 hrule)
  obtain ⟨r, hr, hread⟩ := List.mem_map.1 hwritten
  obtain ⟨hname, hpattern⟩ := Prod.mk.inj hread
  obtain ⟨p, hp, hget⟩ := get?_of_ruleLine hs hr
  rw [hname] at hp hget
  rw [hpattern] at hp
  obtain ⟨tree, hcompile, -, rfl⟩ := Policy.ofPattern?_eq_ok_iff.1 hp
  exact ⟨_, hget, rfl, rfl, hcompile⟩

/-- A pattern with an equals sign and a carriage return in it. -/
def equalsRule : Rule where
  name := "eq"
  pattern := "<a=\r>"
  isName := isRuleName_iff.1 (by decide)
  accepted := isOk_iff.1 (by decide +kernel)
  oneLine := by decide

/-- A pattern with a number sign in it. -/
def hashRule : Rule where
  name := "view-id"
  pattern := "[0100](2)< #>"
  isName := isRuleName_iff.1 (by decide)
  accepted := isOk_iff.1 (by decide +kernel)
  oneLine := by decide

/-- The two rules the other way round, a comment that looks like a rule, and an empty line. -/
def swappedFile : List (FileLine × LineEnd) := [
  (.remark ⟨"\t# eq = <>".toList, .inr ⟨['\t'], " eq = <>".toList, rfl, by simp [isBlank]⟩,
    by decide⟩, .returnFeed),
  (.rule hashRule, .feed), (.remark ⟨[], .inl nofun, nofun⟩, .feed),
  (.rule equalsRule, .returnFeed)]

theorem get?_of_fileText_swapped :
    ∃ s, ofSource? "\t# eq = <>\r\nview-id = [0100](2)< #>\n\neq = <a=\r>\r\n" = .ok s ∧
      (s.get? "eq").map Policy.pattern = some "<a=\r>" ∧
      (s.get? "view-id").map Policy.pattern = some "[0100](2)< #>" := by
  have hnames : ([equalsRule, hashRule].map Rule.name).Nodup := by decide
  have hrules : (fileRules swappedFile).Perm [equalsRule, hashRule] := .swap ..
  have htext : fileText swappedFile =
      "\t# eq = <>\r\nview-id = [0100](2)< #>\n\neq = <a=\r>\r\n" := by decide
  obtain ⟨s, hs, hget⟩ := get?_of_fileText hnames hrules
  obtain ⟨p, hp, -, hpattern, -⟩ := hget equalsRule (by simp)
  obtain ⟨q, hq, -, hpattern', -⟩ := hget hashRule (by simp)
  refine ⟨s, htext ▸ hs, ?_, ?_⟩
  · exact (congrArg (Option.map Policy.pattern) hp).trans (congrArg some hpattern)
  · exact (congrArg (Option.map Policy.pattern) hq).trans (congrArg some hpattern')

end PolicySet

end Moniker
