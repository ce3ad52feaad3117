import Moniker.Proofs.Tree.Expression

/-!
# Printed expressions read back

The text of an expression that was written for a tree is read back as the terms that the tree
calls for, so neither escaping nor brackets nor left out counts make it ambiguous.

* `Tree.Node.terms` — the terms that a node calls for;
* `Tree.Node.run?_text` — reading what is written for a node, in the middle of any text, leaves
  these terms behind;
* `Tree.ofText?_text` — the whole text is read as these terms between `^` and `$`.
-/

namespace Moniker

namespace Regex

namespace Reader

theorem pushAll_singleton (s : Reader) (term : Term) : s.pushAll [term] = s.push term := rfl

/-- A character that means nothing in the notation stands for itself. -/
theorem stepOutside?_plain (s : Reader) {c : Char} (h : c ∉ metacharacters) :
    s.stepOutside? c = some (s.push (.char c)) := by
  have hne : ∀ d ∈ metacharacters, c ≠ d := fun d hd hcd => h (hcd ▸ hd)
  unfold stepOutside?
  split
  case h_8 => rw [if_neg h]
  all_goals exact absurd rfl (hne _ (by decide))

end Reader

/-! ## Literals -/

theorem special_eq : special = metacharacters := by decide

variable (row : List Term) (opened : List (List Term))

/-- Whatever a character means in the notation, as it is written it is read as itself. -/
theorem run?_escapeChar (c : Char) :
    (⟨.outside, row, opened⟩ : Reader).run? (escapeChar c) =
      some (Reader.pushAll ⟨.outside, row, opened⟩ [.char c]) := by
  rw [escapeChar, special_eq]
  by_cases h : c ∈ metacharacters
  · rw [if_pos h]
    simp [Reader.step?, Reader.stepOutside?, h, Reader.push, Reader.pushAll]
  · rw [if_neg h]
    simp [Reader.step?, Reader.stepOutside?_plain _ h, Reader.pushAll_singleton]

theorem run?_escape (text : List Char) :
    (⟨.outside, row, opened⟩ : Reader).run? (escape text) =
      some (Reader.pushAll ⟨.outside, row, opened⟩ (text.map .char)) := by
  induction text generalizing row with
  | nil => rfl
  | cons c text ih =>
    rw [escape, List.flatMap_cons, Reader.run?_append, run?_escapeChar, Option.bind_some]
    have := ih (Term.char c :: row)
    simp only [escape] at this
    simpa [Reader.pushAll] using this

/-! ## Brackets -/

/-- The terms that the pools of a class call for. -/
def poolRanges (pools : List Pool) : List (Char × Char) := pools.map fun p => (p.first, p.last)

theorem ranges?_hyphen {a b : Char} {body : List Char} {found : List (Char × Char)}
    (hends : (isPlain a && isPlain b && a ≤ b) = true) (h : ranges? body = some found) :
    ranges? (a :: '-' :: b :: body) = some ((a, b) :: found) := by
  rw [ranges?, if_pos hends, h]
  rfl

theorem ranges?_poolText (pools : List Pool) :
    ranges? (pools.flatMap poolText) = some (poolRanges pools) := by
  induction pools with
  | nil => rfl
  | cons p pools ih =>
    rw [List.flatMap_cons, poolRanges, List.map_cons]
    cases p with
    | upper | lower | digit => exact ranges?_hyphen (by decide) ih
    | underscore =>
      -- the character behind an underscore begins another pool, so it is no hyphen
      have hrest : ∀ body, ranges? (pools.flatMap poolText) = some body →
          ranges? ('_' :: pools.flatMap poolText) = some (('_', '_') :: body) := by
        intro body hbody
        rcases pools with _ | ⟨q, pools⟩
        · simp_all [ranges?, isPlain]
        · cases q <;> simp_all [poolText, Pool.first, Pool.last, ranges?, isPlain]
      exact hrest _ ih

theorem closing_not_mem_poolText (pools : List Pool) : ']' ∉ pools.flatMap poolText := by
  rw [List.mem_flatMap]
  rintro ⟨p, -, hp⟩
  revert hp
  cases p <;> decide

/-- Between delimiters everything up to the closing one is gathered, if each character is. -/
theorem run?_gather {inside : List Char → Progress} {closing : Char}
    (hgather : ∀ body c, c ≠ closing → (⟨inside body, row, opened⟩ : Reader).step? c =
      some ⟨inside (c :: body), row, opened⟩)
    {text : List Char} (h : closing ∉ text) (body : List Char) :
    (⟨inside body, row, opened⟩ : Reader).run? text =
      some ⟨inside (text.reverse ++ body), row, opened⟩ := by
  induction text generalizing body with
  | nil => rfl
  | cons c text ih =>
    rw [List.mem_cons, not_or] at h
    rw [Reader.run?_cons, hgather body c (Ne.symm h.1), Option.bind_some, ih h.2,
      List.reverse_cons, List.append_assoc]
    rfl

theorem run?_bracket {text : List Char} (h : ']' ∉ text) (body : List Char) :
    (⟨.bracket body, row, opened⟩ : Reader).run? text =
      some ⟨.bracket (text.reverse ++ body), row, opened⟩ := by
  have hgather : ∀ body c, c ≠ ']' → (⟨.bracket body, row, opened⟩ : Reader).step? c =
      some ⟨.bracket (c :: body), row, opened⟩ := by
    intro body c hc
    exact if_neg hc
  exact run?_gather row opened hgather h body

theorem run?_classText (cls : CharClass) :
    (⟨.outside, row, opened⟩ : Reader).run? (classText cls) =
      some (Reader.push ⟨.outside, row, opened⟩ (.oneOf (poolRanges cls.pools))) := by
  have hne : cls.pools.flatMap poolText ≠ [] := by
    obtain ⟨pools, _, nonempty⟩ := cls
    cases pools with
    | nil => exact absurd rfl nonempty
    | cons p pools => cases p <;> exact List.cons_ne_nil _ _
  have hopen : (⟨.outside, row, opened⟩ : Reader).step? '[' = some ⟨.bracket [], row, opened⟩ := rfl
  rw [classText, Reader.run?_cons, hopen, Option.bind_some, Reader.run?_append,
    run?_bracket row opened (closing_not_mem_poolText _)]
  simp [Reader.step?, hne, ranges?_poolText, Reader.push]

/-- By themselves, the brackets of a class are one term. -/
theorem ofText?_classText (cls : CharClass) :
    ofText? (classText cls) = some [.oneOf (poolRanges cls.pools)] := by
  rw [ofText?, Reader.empty, run?_classText [] []]
  rfl

/-! ## Counts -/

theorem number?_decimal (n : UInt32) : number? (decimal n) = some n.toNat := by
  rw [number?, decimal, if_pos, Nat.ofDigitChars_ten_toDigits]
  refine ⟨Nat.toDigits_ne_nil, ?_⟩
  rw [List.all_eq_true]
  exact fun c hc => Nat.isDigit_of_mem_toDigits (by decide) (by decide) hc

/-- Digits are neither of the marks that they are told apart by. -/
theorem decimal_ne {n : UInt32} {c : Char} (hc : c ∈ decimal n) : c ≠ ',' ∧ c ≠ '}' := by
  have := Nat.isDigit_of_mem_toDigits (by decide) (by decide) hc
  constructor <;> rintro rfl <;> simp at this

theorem takeWhile_decimal (n : UInt32) (later : List Char) :
    (decimal n ++ ',' :: later).takeWhile (· != ',') = decimal n := by
  rw [List.takeWhile_append_of_pos (by simpa using fun c hc => (decimal_ne hc).1)]
  simp

theorem dropWhile_decimal (n : UInt32) (later : List Char) :
    (decimal n ++ later).dropWhile (· != ',') = later.dropWhile (· != ',') :=
  List.dropWhile_append_of_pos (by simpa using fun c hc => (decimal_ne hc).1)

/-- What stands between the braces of a range that is not inverted. -/
theorem bounds?_range {r : Range} (h : r.inverted = false) :
    ∃ body, rangeText r = '{' :: (body ++ ['}']) ∧ '}' ∉ body ∧
      bounds? body = some (r.min.toNat, r.max.toNat) := by
  rcases hfix : r.isFixed with _ | _
  · refine ⟨decimal r.min ++ ',' :: decimal r.max, by simp [rangeText, hfix], ?_, ?_⟩
    · simp only [List.mem_append, List.mem_cons, not_or]
      exact ⟨fun hc => (decimal_ne hc).2 rfl, by decide, fun hc => (decimal_ne hc).2 rfl⟩
    · have hle : r.min.toNat ≤ r.max.toNat := (Range.contains_min h).2
      rw [bounds?, dropWhile_decimal, takeWhile_decimal]
      simp [number?_decimal, hle]
  · have heq := r.isFixed_iff.1 hfix
    refine ⟨decimal r.min, by simp [rangeText, hfix], fun hc => (decimal_ne hc).2 rfl, ?_⟩
    have hdrop := dropWhile_decimal r.min []
    rw [List.append_nil, List.dropWhile_nil] at hdrop
    rw [bounds?, hdrop]
    simp [number?_decimal, ← heq]

theorem run?_brace {text : List Char} (h : '}' ∉ text) (body : List Char) :
    (⟨.brace body, row, opened⟩ : Reader).run? text =
      some ⟨.brace (text.reverse ++ body), row, opened⟩ := by
  have hgather : ∀ body c, c ≠ '}' → (⟨.brace body, row, opened⟩ : Reader).step? c =
      some ⟨.brace (c :: body), row, opened⟩ := by
    intro body c hc
    exact if_neg hc
  exact run?_gather row opened hgather h body

/-- A count repeats the term before it. -/
theorem run?_rangeText {r : Range} (h : r.inverted = false) (term : Term) :
    (⟨.outside, term :: row, opened⟩ : Reader).run? (rangeText r) =
      some ⟨.outside, .repeated term r.min.toNat r.max.toNat :: row, opened⟩ := by
  obtain ⟨body, htext, hbody, hbounds⟩ := bounds?_range h
  have hopen : (⟨.outside, term :: row, opened⟩ : Reader).step? '{' =
      some ⟨.brace [], term :: row, opened⟩ := rfl
  rw [htext, Reader.run?_cons, hopen, Option.bind_some, Reader.run?_append,
    run?_brace (term :: row) opened hbody]
  simp [Reader.step?, hbounds, Reader.repeatLast?]

end Regex

/-! ## Trees -/

open Regex (Term Reader)

/-- A term as often as the range says; once is the term itself. -/
def Range.term (r : Range) (term : Term) : Term :=
  if r = .once then term else .repeated term r.min.toNat r.max.toNat

namespace Tree

/-- Reading a counted expression, if reading what is counted gives one term. -/
theorem run?_countedAs? {range : Range} {body regex : Regex} {term : Term}
    {row : List Term} {opened : List (List Term)}
    (h : countedAs? range body = .ok regex)
    (hbody : (⟨.outside, row, opened⟩ : Reader).run? body.text =
      some ⟨.outside, term :: row, opened⟩) :
    (⟨.outside, row, opened⟩ : Reader).run? regex.text =
      some ⟨.outside, range.term term :: row, opened⟩ := by
  obtain ⟨hinv, rfl⟩ := countedAs?_eq_ok.1 h
  -- a count of exactly one is not written
  by_cases honce : range = .once
  · rw [if_pos honce, Range.term, if_pos honce, hbody]
  · rw [if_neg honce, Range.term, if_neg honce, Regex.text, Reader.run?_append, hbody,
      Option.bind_some, Regex.run?_rangeText row opened hinv]

namespace Node

mutual

/-- The terms that a node calls for. -/
def terms : Node → List Term
  | .literal _ text => text.toList.map .char
  | .chars range cls => [range.term (.oneOf (Regex.poolRanges cls.pools))]
  | .group range children => [range.term (.group (termsAll children))]
  | .single range child => [range.term (.group child.terms)]

/-- The terms that several nodes call for. -/
def termsAll : List Node → List Term
  | [] => []
  | n :: nodes => n.terms ++ termsAll nodes

end

/-- What is written for a node, in the middle of any text, is read as the terms of the node. -/
def ReadsBack (n : Node) : Prop :=
  ∀ regex, n.regex? = .ok regex → ∀ row opened,
    (⟨.outside, row, opened⟩ : Reader).run? regex.text =
      some (Reader.pushAll ⟨.outside, row, opened⟩ n.terms)

theorem run?_textAll {nodes : List Node} (h : ∀ n ∈ nodes, n.ReadsBack) {parts : List Regex}
    (hparts : regexes? nodes = .ok parts) (row : List Term) (opened : List (List Term)) :
    (⟨.outside, row, opened⟩ : Reader).run? (Regex.textAll parts) =
      some (Reader.pushAll ⟨.outside, row, opened⟩ (termsAll nodes)) := by
  induction nodes generalizing parts row with
  | nil =>
    obtain rfl : [] = parts := Except.ok.inj hparts
    rfl
  | cons n nodes ih =>
    obtain ⟨part, hpart, others, hothers, rfl⟩ := regexes?_cons.1 hparts
    rw [Regex.textAll, Reader.run?_append, h n List.mem_cons_self part hpart, Option.bind_some,
      Reader.pushAll, ih (fun m hm => h m (List.mem_cons_of_mem n hm)) hothers]
    simp [Reader.pushAll, termsAll]

/-- Reading a group. -/
theorem run?_group {parts : List Regex} {terms row : List Term} {opened : List (List Term)}
    (h : (⟨.outside, [], row :: opened⟩ : Reader).run? (Regex.textAll parts) =
      some (Reader.pushAll ⟨.outside, [], row :: opened⟩ terms)) :
    (⟨.outside, row, opened⟩ : Reader).run? (Regex.group parts).text =
      some ⟨.outside, .group terms :: row, opened⟩ := by
  have hopen : (⟨.outside, row, opened⟩ : Reader).run? ['(', '?', ':'] =
      some ⟨.outside, [], row :: opened⟩ := rfl
  rw [Regex.text, show '(' :: '?' :: ':' :: (Regex.textAll parts ++ [')']) =
    ['(', '?', ':'] ++ (Regex.textAll parts ++ [')']) from rfl, Reader.run?_append, hopen,
    Option.bind_some, Reader.run?_append, h]
  simp [Reader.pushAll, Reader.step?, Reader.stepOutside?, Reader.close?]

theorem run?_text (n : Node) : n.ReadsBack := by
  induction n with
  | literal range text =>
    intro regex hregex row opened
    obtain rfl := Except.ok.inj hregex
    exact Regex.run?_escape row opened text.toList
  | chars range cls =>
    intro regex hregex row opened
    exact run?_countedAs? hregex (Regex.run?_classText row opened cls)
  | group range children ih =>
    intro regex hregex row opened
    obtain ⟨parts, hparts, hcount⟩ := regex?_group.1 hregex
    exact run?_countedAs? hcount (run?_group (run?_textAll ih hparts [] (row :: opened)))
  | single range child ih =>
    intro regex hregex row opened
    obtain ⟨part, hpart, hcount⟩ := regex?_single.1 hregex
    refine run?_countedAs? hcount (run?_group ?_)
    rw [Regex.textAll, Regex.textAll, List.append_nil]
    exact ih part hpart [] (row :: opened)

end Node

/-- The text of the expression for a tree is read as the terms of its nodes between `^` and
`$`. -/
theorem ofText?_text {t : Tree} {e : Expression} (h : t.expression? = .ok e) :
    Regex.ofText? e.text.toList = some (.start :: (Node.termsAll t.nodes ++ [.stop])) := by
  obtain ⟨parts, hparts, rfl⟩ := expression?_eq_ok.1 h
  have hstart : Reader.empty.step? '^' = some ⟨.outside, [.start], []⟩ := rfl
  rw [Expression.text, String.toList_ofList, Regex.ofText?, Reader.run?_cons, hstart,
    Option.bind_some, Reader.run?_append,
    Node.run?_textAll (fun n _ => n.run?_text) hparts [.start] []]
  simp [Reader.pushAll, Reader.step?, Reader.stepOutside?, Reader.push, Reader.finish?]

end Tree

end Moniker
