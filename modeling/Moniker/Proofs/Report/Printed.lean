import Mathlib.Data.List.Basic
import Mathlib.Tactic.SplitIfs
import Moniker.Proofs.Report.Reading
import Moniker.Report.Basic

/-!
# Reports read back

The text of a JSON report is read back as the value that it was written from, whatever characters
are in it. So a report says all that went into it, and nothing else.

* `Json.run?_quoted` — a written string, in the middle of any text, is read as that string;
* `Json.run?_text` — so is a written value;
* `Json.ofText?_document` — a whole document is read as its value;
* `jsonReports_readBack` — what the readers of a report find in it.
-/

namespace Moniker

namespace Json

variable (opened : List Frame)

/-! ## Blanks -/

/-- Where blanks are passed over, the end of a line and the indentation behind it are. -/
theorem run?_newLine {s : Reader} (hfeed : s.step? '\n' = some s) (hblank : s.step? ' ' = some s)
    (level : Nat) : s.run? (newLine level) = some s := by
  have hblanks : ∀ n, s.run? (List.replicate n ' ') = some s := by
    intro n
    induction n with
    | zero => rfl
    | succ n ih => rw [List.replicate_succ, Reader.run?_cons, hblank, Option.bind_some, ih]
  rw [newLine, Reader.run?_cons, hfeed, Option.bind_some, hblanks]

/-! ## Strings -/

section

variable (role : Role) (chars : List Char)

/-- A character with a short escape is read as itself. -/
theorem run?_short {e c : Char} (h : escaped? e = some c) :
    (⟨.quoted role ⟨.outside, none, chars⟩, opened⟩ : Reader).run? ['\\', e] =
      some ⟨.quoted role ⟨.outside, none, c :: chars⟩, opened⟩ := by
  have hu : e ≠ 'u' := by
    rintro rfl
    exact absurd h nofun
  have hmark : (⟨.quoted role ⟨.outside, none, chars⟩, opened⟩ : Reader).step? '\\' =
      some ⟨.quoted role ⟨.backslash, none, chars⟩, opened⟩ := rfl
  rw [Reader.run?_cons, hmark, Option.bind_some]
  simp [Reader.step?, Reader.stepQuoted?, Quoted.step?, hu, h, Quoted.push]

/-- A hexadecimal digit is read as its number. -/
theorem hexDigit?_digitChar {n : Nat} (h : n < 16) : hexDigit? n.digitChar = some n := by
  revert n
  decide

/-- A control character is read as itself. -/
theorem run?_control {c : Char} (h : c.toNat < 0x20) :
    (⟨.quoted role ⟨.outside, none, chars⟩, opened⟩ : Reader).run?
        ('\\' :: 'u' :: '0' :: '0' :: hexByte c.toNat) =
      some ⟨.quoted role ⟨.outside, none, c :: chars⟩, opened⟩ := by
  have hzeros : (⟨.quoted role ⟨.outside, none, chars⟩, opened⟩ : Reader).run?
      ['\\', 'u', '0', '0'] = some ⟨.quoted role ⟨.unit 1 0, none, chars⟩, opened⟩ := rfl
  have hupper : hexDigit? (c.toNat / 16).digitChar = some (c.toNat / 16) :=
    hexDigit?_digitChar (by omega)
  have hlower : hexDigit? (c.toNat % 16).digitChar = some (c.toNat % 16) :=
    hexDigit?_digitChar (by omega)
  have hunit : 16 * (c.toNat / 16) + c.toNat % 16 = c.toNat := Nat.div_add_mod ..
  have hchar : c.toNat < 0xd800 := by omega
  change (⟨.quoted role ⟨.outside, none, chars⟩, opened⟩ : Reader).run?
    (['\\', 'u', '0', '0'] ++ hexByte c.toNat) = _
  rw [Reader.run?_append, hzeros, Option.bind_some, hexByte]
  simp [Reader.step?, Reader.stepQuoted?, Quoted.step?, hupper, hlower, Quoted.addUnit?, hunit,
    hchar, Quoted.push]

/-- Any other character stands for itself. -/
theorem run?_plain {c : Char} (hquote : c ≠ '"') (hmark : c ≠ '\\') (h : ¬ c.toNat < 0x20) :
    (⟨.quoted role ⟨.outside, none, chars⟩, opened⟩ : Reader).run? [c] =
      some ⟨.quoted role ⟨.outside, none, c :: chars⟩, opened⟩ := by
  simp [Reader.step?, Reader.stepQuoted?, Quoted.step?, hquote, hmark, h, Quoted.push]

/-- A character is written with a short escape, as a code unit if it is a control character, or as
it is. -/
theorem escapeChar_cases (c : Char) :
    (∃ e, escaped? e = some c ∧ escapeChar c = ['\\', e]) ∨
    (c.toNat < 0x20 ∧ escapeChar c = '\\' :: 'u' :: '0' :: '0' :: hexByte c.toNat) ∨
    (c ≠ '"' ∧ c ≠ '\\' ∧ ¬ c.toNat < 0x20 ∧ escapeChar c = [c]) := by
  unfold escapeChar
  split_ifs with hquote hmark hb hf hn hr ht hcontrol
  · exact .inl ⟨'"', congrArg some hquote.symm, rfl⟩
  · exact .inl ⟨'\\', congrArg some hmark.symm, rfl⟩
  · exact .inl ⟨'b', congrArg some hb.symm, rfl⟩
  · exact .inl ⟨'f', congrArg some hf.symm, rfl⟩
  · exact .inl ⟨'n', congrArg some hn.symm, rfl⟩
  · exact .inl ⟨'r', congrArg some hr.symm, rfl⟩
  · exact .inl ⟨'t', congrArg some ht.symm, rfl⟩
  · exact .inr (.inl ⟨hcontrol, rfl⟩)
  · exact .inr (.inr ⟨hquote, hmark, hcontrol, rfl⟩)

/-- However it is written in a string, a character is read as itself. -/
theorem run?_escapeChar (c : Char) :
    (⟨.quoted role ⟨.outside, none, chars⟩, opened⟩ : Reader).run? (escapeChar c) =
      some ⟨.quoted role ⟨.outside, none, c :: chars⟩, opened⟩ := by
  obtain ⟨e, he, hc⟩ | ⟨hcontrol, hc⟩ | ⟨hquote, hmark, hcontrol, hc⟩ := escapeChar_cases c
  · rw [hc, run?_short opened role chars he]
  · rw [hc, run?_control opened role chars hcontrol]
  · rw [hc, run?_plain opened role chars hquote hmark hcontrol]

theorem run?_escaped (text : List Char) :
    (⟨.quoted role ⟨.outside, none, chars⟩, opened⟩ : Reader).run? (text.flatMap escapeChar) =
      some ⟨.quoted role ⟨.outside, none, text.reverse ++ chars⟩, opened⟩ := by
  induction text generalizing chars with
  | nil => rfl
  | cons c text ih =>
    rw [List.flatMap_cons, Reader.run?_append, run?_escapeChar, Option.bind_some, ih,
      List.reverse_cons, List.append_assoc]
    rfl

end

/-- Behind its opening quote, a written string is read as that string. -/
theorem run?_quoted (role : Role) (s : String) :
    (⟨.quoted role .empty, opened⟩ : Reader).run? (s.toList.flatMap escapeChar ++ ['"']) =
      some (Reader.endQuoted role opened s) := by
  rw [Quoted.empty, Reader.run?_append_of_eq (run?_escaped opened role [] s.toList)]
  simp [Reader.step?, Reader.stepQuoted?, Quoted.close?]

/-- Where a key must follow, a written string is read as one. -/
theorem run?_key (before : List (String × Json)) (key : String) :
    (⟨.key before, opened⟩ : Reader).run? (stringText key) = some ⟨.colon before key, opened⟩ :=
  run?_quoted opened (.key before) key

theorem run?_colon (before : List (String × Json)) (key : String) :
    (⟨.colon before key, opened⟩ : Reader).run? [':', ' '] =
      some ⟨.value, .object before key :: opened⟩ := rfl

/-! ## Values -/

/-- In the middle of any text, and however far it is indented, the value is read as itself. -/
def ReadsBack (value : Json) : Prop :=
  ∀ level opened, (⟨.value, opened⟩ : Reader).run? (value.text level) =
    some ⟨.behind value, opened⟩

/-- The first value of a list is read like any other: it does not begin with what would close the
list. -/
theorem run?_list_text (value : Json) (level : Nat) :
    (⟨.list, opened⟩ : Reader).run? (value.text level) =
      (⟨.value, .list [] :: opened⟩ : Reader).run? (value.text level) := by
  cases value with
  | bool b => cases b <;> rfl
  | string s => rfl
  | list values => cases values <;> rfl
  | object members => cases members <;> rfl

/-- What follows a value of a list, up to the end of the list. -/
theorem run?_textRest {values : List Json} (h : ∀ value ∈ values, value.ReadsBack)
    (level outer : Nat) (before : List Json) (value : Json) :
    (⟨.behind value, .list before :: opened⟩ : Reader).run?
        (textRest level values ++ (newLine outer ++ [']'])) =
      some ⟨.behind (.list (before.reverse ++ value :: values)), opened⟩ := by
  induction values generalizing before value with
  | nil =>
    rw [textRest, List.nil_append, Reader.run?_append_of_eq (run?_newLine rfl rfl outer)]
    simp [Reader.step?, Reader.isBlank, Reader.resume?]
  | cons next values ih =>
    obtain ⟨hnext, hvalues⟩ := List.forall_mem_cons.1 h
    have hcomma : (⟨.behind value, .list before :: opened⟩ : Reader).step? ',' =
        some ⟨.value, .list (value :: before) :: opened⟩ := rfl
    rw [textRest, List.cons_append, Reader.run?_cons, hcomma, Option.bind_some]
    simp only [List.append_assoc]
    rw [Reader.run?_append_of_eq (run?_newLine rfl rfl level),
      Reader.run?_append_of_eq (hnext level _), ih hvalues]
    simp

/-- What follows a member of an object, up to the end of the object. -/
theorem run?_membersRest {members : List (String × Json)}
    (h : ∀ member ∈ members, member.2.ReadsBack) (level outer : Nat)
    (before : List (String × Json)) (key : String) (value : Json) :
    (⟨.behind value, .object before key :: opened⟩ : Reader).run?
        (membersRest level members ++ (newLine outer ++ ['}'])) =
      some ⟨.behind (.object (before.reverse ++ (key, value) :: members)), opened⟩ := by
  induction members generalizing before key value with
  | nil =>
    rw [membersRest, List.nil_append, Reader.run?_append_of_eq (run?_newLine rfl rfl outer)]
    simp [Reader.step?, Reader.isBlank, Reader.resume?]
  | cons next members ih =>
    obtain ⟨hnext, hmembers⟩ := List.forall_mem_cons.1 h
    obtain ⟨nextKey, nextValue⟩ := next
    have hcomma : (⟨.behind value, .object before key :: opened⟩ : Reader).step? ',' =
        some ⟨.key ((key, value) :: before), opened⟩ := rfl
    rw [membersRest, List.cons_append, Reader.run?_cons, hcomma, Option.bind_some]
    simp only [List.append_assoc]
    rw [Reader.run?_append_of_eq (run?_newLine rfl rfl level),
      Reader.run?_append_of_eq (run?_key _ _ _), Reader.run?_append_of_eq (run?_colon _ _ _),
      Reader.run?_append_of_eq (hnext level _), ih hmembers]
    simp

/-- A written value, in the middle of any text, is read as that value. -/
theorem run?_text (value : Json) : value.ReadsBack := by
  induction value with
  | bool b =>
    intro level opened
    cases b <;> rfl
  | string s =>
    intro level opened
    exact run?_quoted opened .value s
  | list values ih =>
    intro level opened
    cases values with
    | nil => rfl
    | cons value values =>
      obtain ⟨hvalue, hvalues⟩ := List.forall_mem_cons.1 ih
      have hopen : (⟨.value, opened⟩ : Reader).step? '[' = some ⟨.list, opened⟩ := rfl
      have hfirst : (⟨.list, opened⟩ : Reader).run? (value.text (level + 1)) =
          some ⟨.behind value, .list [] :: opened⟩ := by
        rw [run?_list_text, hvalue]
      rw [text, Reader.run?_cons, hopen, Option.bind_some]
      simp only [List.append_assoc]
      rw [Reader.run?_append_of_eq (run?_newLine rfl rfl _), Reader.run?_append_of_eq hfirst,
        run?_textRest opened hvalues]
      rfl
  | object members ih =>
    intro level opened
    cases members with
    | nil => rfl
    | cons member members =>
      obtain ⟨hvalue, hmembers⟩ := List.forall_mem_cons.1 ih
      obtain ⟨key, value⟩ := member
      have hopen : (⟨.value, opened⟩ : Reader).step? '{' = some ⟨.object, opened⟩ := rfl
      -- nothing but a key can follow, as behind a comma
      have hkey : (⟨.object, opened⟩ : Reader).run? (stringText key) =
          some ⟨.colon [] key, opened⟩ := run?_key opened [] key
      rw [text, Reader.run?_cons, hopen, Option.bind_some]
      simp only [List.append_assoc]
      rw [Reader.run?_append_of_eq (run?_newLine rfl rfl _), Reader.run?_append_of_eq hkey,
        Reader.run?_append_of_eq (run?_colon _ _ _), Reader.run?_append_of_eq (hvalue _ _),
        run?_membersRest opened hmembers]
      rfl

/-- The text of a document is read as its value. -/
theorem ofText?_document (value : Json) : ofText? value.document = some value := by
  have hvalue : Reader.empty.run? (value.text 0) = some ⟨.behind value, []⟩ := run?_text value 0 []
  rw [ofText?, document, String.toList_ofList, Reader.run?_append_of_eq hvalue]
  rfl

/-- The same value is read with other blanks and escapes than those of the document. -/
example : ofText? "\t\x7b \"a\\u00e9\\ud83d\\ude00\\/\":[true ,\"\\n\"]\r\n\x7d" =
    some (.object [("aé😀/", .list [.bool true, .string "\n"])]) := by rfl

end Json

/-! ## Reports -/

theorem Batch.json_injective : Function.Injective Batch.json := by
  intro b b' h
  obtain ⟨rule, pattern, names⟩ := b
  obtain ⟨rule', pattern', names'⟩ := b'
  have hstring : Function.Injective Json.string := fun _ _ h => Json.string.inj h
  simpa [Batch.json, hstring.list_map.eq_iff] using h

/-- Different batches have different reports. -/
theorem Batch.jsonReport_injective : Function.Injective Batch.jsonReport := by
  intro batches batches' h
  have hvalue := congrArg Json.ofText? h
  simp only [jsonReport, Json.ofText?_document, Option.some.injEq, Json.object.injEq,
    List.cons.injEq, Prod.mk.injEq, Json.list.injEq, true_and, and_true] at hvalue
  exact json_injective.list_map hvalue

/-- Some rule accepts the name if a verdict says so. -/
theorem Verdict.isEmpty_acceptedBy (verdicts : List Verdict) :
    (!(acceptedBy verdicts).isEmpty) = verdicts.any Verdict.accepted := by
  rw [acceptedBy, List.isEmpty_map]
  induction verdicts with
  | nil => rfl
  | cons v verdicts ih => cases h : v.accepted <;> simp_all

/-- **JSON reports are faithful.** Read as JSON, a report on names is an object that says `ok` and
lists the rules in order, each with its pattern and its names. A report on a name that was checked
is an object with that name and the verdicts on it in order; it lists the rules that accept it in
the same order, and it says `ok` if there is one. The other options make no difference, so two
reports on names are the same text only if they are on the same names. -/
theorem jsonReports_readBack :
    (∀ (batches : List Batch) (verbosity : Nat) (quiet : Bool),
      Json.ofText? (Batch.report batches .json verbosity quiet) =
        some (.object [("ok", .bool true),
          ("rules", .list (batches.map fun b => .object [("rule", .string b.rule),
            ("pattern", .string b.pattern), ("names", .list (b.names.map .string))]))])) ∧
    (∀ (name : String) (verdicts : List Verdict) (quiet : Bool),
      Json.ofText? (Verdict.report name verdicts .json quiet) =
        some (.object [("ok", .bool (verdicts.any fun v => v.accepted)), ("name", .string name),
          ("accepted_by",
            .list ((verdicts.filter fun v => v.accepted).map fun v => .string v.rule)),
          ("rules", .list (verdicts.map fun v => .object [("rule", .string v.rule),
            ("pattern", .string v.pattern), ("accepted", .bool v.accepted)]))])) ∧
    ∀ (batches batches' : List Batch) (verbosity verbosity' : Nat) (quiet quiet' : Bool),
      Batch.report batches .json verbosity quiet = Batch.report batches' .json verbosity' quiet' ↔
        batches = batches' := by
  refine ⟨?_, ?_, ?_⟩
  · intro batches verbosity quiet
    exact Json.ofText?_document _
  · intro name verdicts quiet
    rw [Verdict.report, Verdict.jsonReport, Json.ofText?_document, Verdict.isEmpty_acceptedBy,
      Verdict.acceptedBy, List.map_map]
    rfl
  · intro batches batches' verbosity verbosity' quiet quiet'
    exact Batch.jsonReport_injective.eq_iff

end Moniker
