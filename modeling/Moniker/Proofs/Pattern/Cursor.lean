import Mathlib.Logic.Function.Iterate
import Moniker.Proofs.Pattern.Lexemes
import Moniker.Proofs.Text.Tiling

/-!
# The cursor under any use

A cursor can be called on as often as one likes, also after errors and at the end of the text.
All that a single call can do is said once, and what any number of calls does follows from it.

* `Cursor.Fails` — the two ways to find no lexeme: a character that may not stand where it stands,
  whatever comes behind it, and a delimiter that is never closed;
* `Cursor.Called` — what a call gives, and where it leaves the cursor;
* `Cursor.In` — the cursor stands in the text, which every call keeps;
* `Cursor.calls_safe` — where the cursor, the lexemes and the errors of successive calls are.
-/

namespace Moniker.Pattern

open Text (Boundary StandsAt byteLength)

/-! ## Bodies that do not end -/

/-- Whether the fault is that a delimiter is never closed. -/
def LexFault.isUnclosed : LexFault → Bool
  | unterminatedLiteral | unterminatedClass => true
  | _ => false

/-- The fault was found at the character: at the one that was not expected, or with any other fault
at one that takes one byte. -/
def LexFault.FoundAt : LexFault → Char → Prop
  | unexpected x, c => x = c
  | _, c => c.utf8Size = 1

namespace Delimiters

/-- The character that opens the body between the delimiters. -/
inductive OpenedBy : Delimiters → Char → Prop where
  | angles : OpenedBy .angles '<'
  | brackets : OpenedBy .brackets '['

variable {d : Delimiters} {c : Char} {body : List Char}

/-- A body is not read beyond a character that may not stand in it. -/
theorem read_refused {fault : LexFault} (hveto : d.veto c = some fault) (start : Nat)
    (hbody : ∀ x ∈ body, d.continues x = true) (rest : List Char) :
    d.read start (body ++ c :: rest) =
      (.error ⟨fault, start + 1 + byteLength body⟩,
        ⟨start + 1 + byteLength body, .blocks, c :: rest⟩) := by
  have hc : ¬ d.continues c = true := by simp [continues, hveto]
  have htake : (body ++ c :: rest).takeWhile d.continues = body := by
    rw [List.takeWhile_append_of_pos hbody, List.takeWhile_cons_of_neg hc, List.append_nil]
  have hdrop : (body ++ c :: rest).dropWhile d.continues = c :: rest := by
    rw [List.dropWhile_append_of_pos hbody, List.dropWhile_cons_of_neg hc]
  simp only [read, htake, hdrop, hveto]

/-- A body that goes on to the end of the text is not closed. -/
theorem read_unclosed (start : Nat) (hbody : ∀ x ∈ body, d.continues x = true) :
    d.read start body =
      (.error ⟨d.unterminated, start⟩, ⟨start + 1 + byteLength body, .blocks, []⟩) := by
  have htake : body.takeWhile d.continues = body := List.takeWhile_eq_self_iff.2 hbody
  have hdrop : body.dropWhile d.continues = [] := List.dropWhile_eq_nil_iff.2 hbody
  simp only [read, htake, hdrop]

/-- Where no body can be read, it meets a character that may not stand in it, or it is not
closed. -/
theorem cases_of_read {start : Nat} {text : List Char} {e : LexError} {after : Cursor}
    (h : d.read start text = (.error e, after)) :
    (∀ x ∈ text, d.continues x = true) ∨
      ∃ body c rest fault, text = body ++ c :: rest ∧ (∀ x ∈ body, d.continues x = true) ∧
        d.veto c = some fault := by
  have htext := List.takeWhile_append_dropWhile (p := d.continues) (l := text)
  unfold read at h
  split at h
  · next hdrop => exact .inl (List.dropWhile_eq_nil_iff.1 hdrop)
  · next c rest hdrop =>
    split at h
    · next fault hveto =>
      refine .inr ⟨text.takeWhile d.continues, c, rest, fault, ?_, ?_, hveto⟩
      · rw [← hdrop, htext]
      · intro x hx
        exact List.mem_takeWhile_imp hx
    · simp [Cursor.emit] at h

theorem OpenedBy.utf8Size_eq (h : d.OpenedBy c) : c.utf8Size = 1 := by
  cases h <;> rfl

theorem OpenedBy.foundAt (h : d.OpenedBy c) : d.unterminated.FoundAt c := by
  cases h <;> rfl

theorem OpenedBy.of_veto {opening : Char} {fault : LexFault} (h : d.OpenedBy opening)
    (hveto : d.veto c = some fault) :
    fault.isUnclosed = false ∧ fault.FoundAt c := by
  cases h with
  | angles =>
    simp only [Delimiters.angles] at hveto
    split at hveto
    · next hc =>
      obtain rfl := Option.some.inj hveto
      refine ⟨rfl, ?_⟩
      rcases hc with rfl | rfl | rfl <;> rfl
    · simp at hveto
  | brackets =>
    simp only [Delimiters.brackets] at hveto
    split at hveto
    · obtain rfl := Option.some.inj hveto
      exact ⟨rfl, rfl⟩
    · simp at hveto

end Delimiters

namespace Cursor

/-! ## How reading fails -/

/-- How a cursor fails to read a lexeme. -/
inductive Fails (cursor : Cursor) : LexError → Cursor → Prop where
  /-- a character may not stand where it stands, whatever comes behind it -/
  | refused {fault : LexFault} (passed : List Char) {tail : List Char} {c : Char}
    (hrest : cursor.rest = passed ++ c :: tail) (hclosed : fault.isUnclosed = false)
    (hc : fault.FoundAt c)
    (hstays : ∀ tail', next? ⟨cursor.offset, cursor.mode, passed ++ c :: tail'⟩ =
      some (.error ⟨fault, cursor.offset + byteLength passed⟩,
        ⟨cursor.offset + byteLength passed, cursor.mode, c :: tail'⟩)) :
    Fails cursor ⟨fault, cursor.offset + byteLength passed⟩
      ⟨cursor.offset + byteLength passed, cursor.mode, c :: tail⟩
  /-- what is opened there is never closed -/
  | unclosed {d : Delimiters} {opening : Char} {body : List Char} (hopened : d.OpenedBy opening)
    (hmode : cursor.mode = .blocks) (hrest : cursor.rest = opening :: body)
    (hbody : ∀ x ∈ body, d.continues x = true) :
    Fails cursor ⟨d.unterminated, cursor.offset⟩
      ⟨cursor.offset + byteLength cursor.rest, .blocks, []⟩

theorem nextBlock_opened {d : Delimiters} {c : Char} (h : d.OpenedBy c) (offset : Nat)
    (rest : List Char) : nextBlock offset c rest = d.read offset rest := by
  cases h <;> rfl

/-- A delimited body is not read if it meets a character that it may not hold, or never ends. -/
theorem fails_of_read {d : Delimiters} {opening : Char} (hopened : d.OpenedBy opening)
    {offset : Nat} {text : List Char} {e : LexError} {after : Cursor}
    (h : d.read offset text = (.error e, after)) :
    Fails ⟨offset, .blocks, opening :: text⟩ e after := by
  have hone := hopened.utf8Size_eq
  rcases Delimiters.cases_of_read h with hbody | ⟨body, c, rest, fault, rfl, hbody, hveto⟩
  · rw [Delimiters.read_unclosed offset hbody] at h
    obtain ⟨rfl, rfl⟩ : _ ∧ _ := by simpa using h
    have hstop : offset + 1 + byteLength text = offset + byteLength (opening :: text) := by
      rw [Text.byteLength_cons, hone, Nat.add_assoc]
    rw [hstop]
    exact .unclosed hopened rfl rfl hbody
  · rw [Delimiters.read_refused hveto offset hbody] at h
    obtain ⟨rfl, rfl⟩ : _ ∧ _ := by simpa using h
    obtain ⟨hclosed, hc⟩ := hopened.of_veto hveto
    have hstop : offset + 1 + byteLength body = offset + byteLength (opening :: body) := by
      rw [Text.byteLength_cons, hone, Nat.add_assoc]
    rw [hstop]
    refine .refused (opening :: body) rfl hclosed hc fun tail' => ?_
    have hread := Delimiters.read_refused hveto offset hbody tail'
    rw [hstop] at hread
    rw [List.cons_append, next?, nextBlock_opened hopened, hread]

/-- Between blocks, a character that begins nothing is refused. -/
theorem fails_of_nextBlock {offset : Nat} {c : Char} {rest : List Char} {e : LexError}
    {after : Cursor} (h : nextBlock offset c rest = (.error e, after)) :
    Fails ⟨offset, .blocks, c :: rest⟩ e after := by
  have hrefused : ∀ fault : LexFault, fault.isUnclosed = false →
      fault.FoundAt c →
      (∀ tail', nextBlock offset c tail' =
        (.error ⟨fault, offset⟩, ⟨offset, .blocks, c :: tail'⟩)) →
      Fails ⟨offset, .blocks, c :: rest⟩ e after := by
    intro fault hclosed hc hstays
    rw [hstays rest] at h
    obtain ⟨rfl, rfl⟩ : _ ∧ _ := by simpa using h
    refine .refused [] rfl hclosed hc fun tail' => ?_
    exact congrArg some (hstays tail')
  by_cases hangle : c = '<'
  · subst hangle
    exact fails_of_read .angles h
  by_cases hbracket : c = '['
  · subst hbracket
    exact fails_of_read .brackets h
  by_cases hright : c = '>'
  · subst hright
    exact hrefused .unmatchedAngle rfl rfl fun _ => rfl
  by_cases hclosing : c = ']'
  · subst hclosing
    exact hrefused .unmatchedBracket rfl rfl fun _ => rfl
  by_cases hparen : c = ')'
  · subst hparen
    exact hrefused .unmatchedParen rfl rfl fun _ => rfl
  -- the other characters that begin a token are read
  have hbrace : c ≠ '{' := by rintro rfl; cases h
  have hbrace' : c ≠ '}' := by rintro rfl; cases h
  have hopens : c ≠ '(' := by rintro rfl; cases h
  refine hrefused (.unexpected c) rfl rfl fun tail' => ?_
  simp only [nextBlock]

/-- Inside a repeat count, a character that is of no token there is refused. -/
theorem fails_of_nextCount {offset : Nat} {c : Char} {rest : List Char} {e : LexError}
    {after : Cursor} (h : nextCount offset c rest = (.error e, after)) :
    Fails ⟨offset, .quantifier, c :: rest⟩ e after := by
  unfold nextCount at h
  split_ifs at h with hcomma hparen hdigit
  · cases h
  · cases h
  · cases h
  · obtain ⟨rfl, rfl⟩ : _ ∧ _ := by simpa using h
    refine .refused [] rfl rfl rfl fun tail' => ?_
    simp [next?, nextCount, hcomma, hparen, hdigit]

/-- Where reading finds something wrong, it fails in one of the two ways. -/
theorem fails_of_next? {cursor after : Cursor} {e : LexError}
    (h : cursor.next? = some (.error e, after)) : cursor.Fails e after := by
  obtain ⟨offset, mode, text⟩ := cursor
  cases text with
  | nil => cases mode <;> cases h
  | cons c rest =>
    cases mode with
    | blocks => exact fails_of_nextBlock (Option.some.inj h)
    | quantifier => exact fails_of_nextCount (Option.some.inj h)

/-! ## One call -/

/-- The cursor after a call of `next?`. At the end of the text it stays where it is. -/
def advance (cursor : Cursor) : Cursor := (cursor.next?.map Prod.snd).getD cursor

/-- What the call gives; nothing at the end of the text. -/
def found? (cursor : Cursor) : Option (Except LexError Lexeme) := cursor.next?.map Prod.fst

/-- All that a call can do: what it gives, and the cursor after it. -/
inductive Called (cursor : Cursor) : Option (Except LexError Lexeme) → Cursor → Prop where
  /-- the text is at its end -/
  | ended (hrest : cursor.rest = []) : Called cursor none cursor
  /-- a token stands in front of the cursor -/
  | read {token : Token} {mode : Mode} {rest : List Char} (hne : token.source ≠ [])
    (hrest : cursor.rest = token.source ++ rest) :
    Called cursor (some (.ok (.ofToken token cursor.offset)))
      ⟨cursor.offset + byteLength token.source, mode, rest⟩
  /-- no token does -/
  | failed {e : LexError} {after : Cursor} (hfails : cursor.Fails e after) :
    Called cursor (some (.error e)) after

theorem called (cursor : Cursor) : cursor.Called cursor.found? cursor.advance := by
  unfold found? advance
  rcases hnext : cursor.next? with _ | ⟨_ | lexeme, after⟩
  · refine .ended ?_
    obtain ⟨offset, mode, text⟩ := cursor
    cases text with
    | nil => rfl
    | cons c text => cases mode <;> cases hnext
  · exact .failed (fails_of_next? hnext)
  · obtain ⟨token, next, rest, htakes, -, hrest, hemit⟩ := exists_token_of_next? hnext
    obtain ⟨rfl, rfl⟩ : _ ∧ _ := by simpa [emit] using hemit
    obtain ⟨c, cs, hsource, -⟩ := htakes.exists_source
    exact .read (by simp [hsource]) hrest

variable {cursor after : Cursor} {found : Option (Except LexError Lexeme)} {e : LexError}
  {lexeme : Lexeme}

/-- A failure passes some characters, and is found where one of them begins or behind them. -/
theorem Fails.exists_passed (h : cursor.Fails e after) :
    ∃ passed, cursor.rest = passed ++ after.rest ∧
      after.offset = cursor.offset + byteLength passed ∧
      (e.offset = cursor.offset ∨ e.offset = after.offset) := by
  cases h with
  | refused passed hrest => exact ⟨passed, hrest, rfl, .inr rfl⟩
  | unclosed => exact ⟨cursor.rest, by simp, rfl, .inl rfl⟩

/-- A call passes some characters. -/
theorem Called.exists_passed (h : cursor.Called found after) :
    ∃ passed, cursor.rest = passed ++ after.rest ∧
      after.offset = cursor.offset + byteLength passed := by
  cases h with
  | ended => exact ⟨[], rfl, rfl⟩
  | read _ hrest => exact ⟨_, hrest, rfl⟩
  | failed hfails =>
    obtain ⟨passed, hrest, hoffset, -⟩ := hfails.exists_passed
    exact ⟨passed, hrest, hoffset⟩

theorem Called.offset_le (h : cursor.Called found after) : cursor.offset ≤ after.offset := by
  obtain ⟨passed, -, hoffset⟩ := h.exists_passed
  rw [hoffset]
  exact Nat.le_add_right _ _

/-- The call that gives nothing stays at the end of the text. -/
theorem Called.of_none (h : cursor.Called none after) : cursor.rest = [] ∧ after = cursor := by
  cases h with
  | ended hrest => exact ⟨hrest, rfl⟩

/-- A lexeme takes what the cursor passes, which is its token. -/
theorem Called.of_ok (h : cursor.Called (some (.ok lexeme)) after) :
    lexeme.span = ⟨cursor.offset, after.offset⟩ ∧ cursor.offset < after.offset ∧
      cursor.rest = lexeme.token.source ++ after.rest ∧
      after.offset = cursor.offset + byteLength lexeme.token.source := by
  cases h with
  | @read token mode rest hne hrest =>
    have hpos : byteLength token.source ≠ 0 := fun hzero => hne (Text.byteLength_eq_zero.1 hzero)
    refine ⟨rfl, ?_, hrest, rfl⟩
    show cursor.offset < cursor.offset + byteLength token.source
    omega

/-- An error lies between the cursor before and the one after. -/
theorem Called.of_error (h : cursor.Called (some (.error e)) after) :
    cursor.offset ≤ e.offset ∧ e.offset ≤ after.offset := by
  have hle := h.offset_le
  cases h with
  | failed hfails =>
    obtain ⟨-, -, -, hoffset | hoffset⟩ := hfails.exists_passed
    · exact ⟨hoffset.ge, hoffset ▸ hle⟩
    · exact ⟨hoffset ▸ hle, hoffset.le⟩

/-- The cursor stands in the text: as many bytes as it says lie before it, and what it has not
read lies behind it. -/
def In (text : List Char) (cursor : Cursor) : Prop :=
  ∃ before, text = before ++ cursor.rest ∧ cursor.offset = byteLength before

theorem In.boundary {text : List Char} (h : cursor.In text) : Boundary text cursor.offset := by
  obtain ⟨before, htext, hoffset⟩ := h
  exact ⟨before, cursor.rest, htext, hoffset⟩

/-- What the cursor has in front of it stands in the text where the cursor is. -/
theorem In.standsAt {text cs rest : List Char} (h : cursor.In text)
    (hrest : cursor.rest = cs ++ rest) : StandsAt text cursor.offset cs := by
  obtain ⟨before, htext, hoffset⟩ := h
  refine ⟨before, rest, ?_, hoffset⟩
  rw [htext, hrest, List.append_assoc]

/-- A call leaves the cursor in the text. -/
theorem Called.in {text : List Char} (h : cursor.Called found after) (hin : cursor.In text) :
    after.In text := by
  obtain ⟨passed, hrest, hoffset⟩ := h.exists_passed
  obtain ⟨before, htext, hbefore⟩ := hin
  refine ⟨before ++ passed, ?_, ?_⟩
  · rw [htext, hrest, List.append_assoc]
  · rw [hoffset, hbefore, Text.byteLength_append]

/-! ## Many calls -/

/-- The cursor after so many calls from the beginning of the text on. -/
def afterCalls (text : String) (calls : Nat) : Cursor := advance^[calls] (start text.toList)

/-- What is given by the call with this number, counted from zero. -/
def call? (text : String) (k : Nat) : Option (Except LexError Lexeme) := (afterCalls text k).found?

variable {text : String} {j k : Nat}

theorem called_afterCalls (text : String) (k : Nat) :
    (afterCalls text k).Called (call? text k) (afterCalls text (k + 1)) := by
  have hstep : afterCalls text (k + 1) = (afterCalls text k).advance :=
    Function.iterate_succ_apply' advance k _
  rw [hstep]
  exact called _

theorem in_afterCalls (text : String) (k : Nat) : (afterCalls text k).In text.toList := by
  induction k with
  | zero => exact ⟨[], rfl, rfl⟩
  | succ k ih => exact (called_afterCalls text k).in ih

theorem offset_afterCalls_le (h : j ≤ k) :
    (afterCalls text j).offset ≤ (afterCalls text k).offset := by
  induction h with
  | refl => exact Nat.le_refl _
  | step _ ih => exact Nat.le_trans ih (called_afterCalls text _).offset_le

/-- Where the cursor has got further, some call moved it. -/
theorem exists_call_of_offset_lt (hle : j ≤ k)
    (hlt : (afterCalls text j).offset < (afterCalls text k).offset) :
    ∃ i, j ≤ i ∧ i < k ∧ (afterCalls text i).offset < (afterCalls text (i + 1)).offset := by
  induction hle with
  | refl => exact absurd hlt (Nat.lt_irrefl _)
  | @step k hle ih =>
    by_cases hlast : (afterCalls text k).offset < (afterCalls text (k + 1)).offset
    · exact ⟨k, hle, Nat.lt_succ_self k, hlast⟩
    · obtain ⟨i, hji, hik, hi⟩ := ih (Nat.lt_of_lt_of_le hlt (Nat.not_lt.1 hlast))
      exact ⟨i, hji, Nat.lt_succ_of_lt hik, hi⟩

/-- At the end of the text every later call finds it at its end. -/
theorem call?_eq_none (hle : j ≤ k) (hnone : call? text j = none) : call? text k = none := by
  have hstays : afterCalls text k = afterCalls text j := by
    induction hle with
    | refl => rfl
    | @step k _ ih =>
      have hcalled := called_afterCalls text k
      rw [call?, ih, ← call?, hnone] at hcalled
      exact hcalled.of_none.2
  rw [call?, hstays]
  exact hnone

/-- What successive calls give is what the calls with these numbers give. -/
theorem successive_eq (cursor : Cursor) (calls : Nat) :
    cursor.successive calls = (List.range calls).map fun k => (advance^[k] cursor).found? := by
  induction calls generalizing cursor with
  | zero => rfl
  | succ calls ih =>
    have hcons : cursor.successive (calls + 1) =
        cursor.found? :: cursor.advance.successive calls := by
      unfold found? advance
      rcases hnext : cursor.next? with _ | ⟨found, after⟩ <;> simp [successive, hnext]
    rw [hcons, ih, List.range_succ_eq_map, List.map_cons, List.map_map]
    rfl

/-- **The cursor is safe under any use.** After any number of calls it is at a place where the text
can be cut, and never goes back. A lexeme takes exactly what the cursor passes, and under it stands
its token written out. An error is found between the cursor before and the one after. Lexemes do
not overlap, and if something lies between one and the next, there was an error in between. A call
that finds the text at its end is followed by such calls only. -/
theorem calls_safe (text : String) :
    (∀ calls, (start text.toList).successive calls = (List.range calls).map (call? text)) ∧
    (∀ k, Boundary text.toList (afterCalls text k).offset ∧
      (afterCalls text k).offset ≤ byteLength text.toList ∧
      (afterCalls text k).offset ≤ (afterCalls text (k + 1)).offset) ∧
    (∀ k lexeme, call? text k = some (.ok lexeme) →
      lexeme.span = ⟨(afterCalls text k).offset, (afterCalls text (k + 1)).offset⟩ ∧
      lexeme.span.start < lexeme.span.stop ∧
      lexeme.span.Shows text.toList lexeme.token.source) ∧
    (∀ k e, call? text k = some (.error e) →
      (afterCalls text k).offset ≤ e.offset ∧ e.offset ≤ (afterCalls text (k + 1)).offset) ∧
    (∀ j k a b, j < k → call? text j = some (.ok a) → call? text k = some (.ok b) →
      a.span.stop ≤ b.span.start ∧
      ((∀ i c, j < i → i < k → call? text i ≠ some (.ok c)) → a.span.stop < b.span.start →
        ∃ i e, j < i ∧ i < k ∧ call? text i = some (.error e))) ∧
    ∀ j k, j ≤ k → call? text j = none → call? text k = none := by
  refine ⟨fun calls => successive_eq _ calls, fun k => ?_, fun k lexeme hok => ?_,
    fun k e herror => ?_, fun j k a b hlt ha hb => ?_, fun j k => call?_eq_none⟩
  · have hboundary := (in_afterCalls text k).boundary
    exact ⟨hboundary, hboundary.le, (called_afterCalls text k).offset_le⟩
  · obtain ⟨hspan, hlt, hrest, hstop⟩ := (hok ▸ called_afterCalls text k).of_ok
    rw [hspan]
    exact ⟨rfl, hlt, (in_afterCalls text k).standsAt hrest, hstop⟩
  · exact (herror ▸ called_afterCalls text k).of_error
  · obtain ⟨ha', -⟩ := (ha ▸ called_afterCalls text j).of_ok
    obtain ⟨hb', -⟩ := (hb ▸ called_afterCalls text k).of_ok
    rw [ha', hb']
    refine ⟨offset_afterCalls_le hlt, fun hnone hgap => ?_⟩
    -- some call in between moved the cursor, and so it gave something
    obtain ⟨i, hji, hik, hmoved⟩ := exists_call_of_offset_lt hlt hgap
    rcases hi : call? text i with _ | ⟨e | c⟩
    · have hstays := (hi ▸ called_afterCalls text i).of_none.2
      rw [hstays] at hmoved
      exact absurd hmoved (Nat.lt_irrefl _)
    · exact ⟨i, e, hji, hik, hi⟩
    · exact absurd hi (hnone i c hji hik)

/-- A literal that is never closed is passed as far as the text goes. -/
example : (start "<é".toList).successive 2 = [some (.error ⟨.unterminatedLiteral, 0⟩), none] := by
  decide

end Cursor

end Moniker.Pattern
