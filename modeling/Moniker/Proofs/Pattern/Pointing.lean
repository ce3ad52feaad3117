import Moniker.Proofs.Pattern.Parsing
import Moniker.Proofs.Pattern.Unfinished

/-!
# What a fault points at

A fault of a pattern text points at a stretch of it. While lexemes are taken in, all stretches
come from those of the lexemes: they are kept, or one reaches from an earlier to a later one. So
each of them can be cut out of the text. Only the text that is not made of tokens is pointed at
without a lexeme, by one byte, which may be no whole character.

* `Assembly.marks` — all stretches that an assembly holds;
* `Assembly.Reached` — the stretches that one more lexeme leads to, be it in the next assembly or
  in a fault;
* `Assembly.reached_of_step`, `Assembly.points_of_step` — a step leads to no others;
* `Within` — a stretch that can be cut out of the text, as every run keeps it;
* `pointed_of_error` — where the faults of a text are, and when what they point at can be cut out.
-/

namespace Moniker.Pattern

open Text (Span Boundary StandsAt byteLength)

/-! ## Stretches of an assembly -/

/-- The bytes that an item takes. -/
def Item.span : Item → Span
  | .literal span _ => span
  | .block b => b.span
  | .quantifier q => q.span

/-- The parenthesis that is open. -/
def Progress.paren? : Progress → Option Span
  | .outside => none
  | .opened paren | .least paren _ | .separated paren _ | .most paren _ _ => some paren

/-- The stretches that a level holds. -/
def Level.marks (level : Level) : List Span := level.items.map Item.span

namespace Assembly

/-- All stretches that have been gathered. -/
def marks (a : Assembly) : List Span :=
  a.progress.paren?.toList ++ a.level.marks ++
    a.enclosing.flatMap fun (brace, level) => brace :: level.marks

/-- The stretches that a lexeme leads to: those held before, its own, and those that reach up to
it or to its end. -/
inductive Reached (a : Assembly) (found : Span) : Span → Prop where
  | kept {mark : Span} (h : mark ∈ a.marks) : Reached a found mark
  | own : Reached a found found
  | joined {mark : Span} (h : mark ∈ a.marks) : Reached a found (mark.join found)
  | between {mark : Span} (h : mark ∈ a.marks) : Reached a found ⟨mark.stop, found.start⟩

end Assembly

/-! ## Faults of a level -/

/-- Whether the fault is that the text is not made of tokens. -/
def Fault.isLexical : Fault → Bool
  | lexical _ => true
  | _ => false

/-- The fault is one of a text that is made of tokens, and points at the stretch. -/
structure Fault.PointsAt (fault : Fault) (span : Span) : Prop where
  span?_eq : fault.span? = some span
  isLexical_eq : fault.isLexical = false

/-- Where blocks and counts cannot be joined, the fault is the given one, or points at an item. -/
theorem pointsAt_of_pair {odd fault : Fault} {items : List Item}
    (h : pair odd items = .error fault) :
    fault = odd ∨ ∃ item ∈ items, fault.PointsAt item.span := by
  induction items using pair.induct with
  | case1 => cases h
  | case2 span text items ih =>
    rcases ih (map_eq_error_iff.1 h) with hodd | ⟨item, hmem, hspan⟩
    · exact .inl hodd
    · exact .inr ⟨item, List.mem_cons_of_mem _ hmem, hspan⟩
  | case3 block quantifier items ih =>
    rcases ih (map_eq_error_iff.1 h) with hodd | ⟨item, hmem, hspan⟩
    · exact .inl hodd
    · exact .inr ⟨item, List.mem_cons_of_mem _ (List.mem_cons_of_mem _ hmem), hspan⟩
  | case4 block span text items =>
    obtain rfl := Except.error.inj h
    exact .inr ⟨.literal span text, by simp, rfl, rfl⟩
  | case5 block next items =>
    obtain rfl := Except.error.inj h
    exact .inr ⟨.block next, by simp, rfl, rfl⟩
  | case6 block =>
    obtain rfl := Except.error.inj h
    exact .inl rfl
  | case7 quantifier items =>
    obtain rfl := Except.error.inj h
    exact .inr ⟨.quantifier quantifier, by simp, rfl, rfl⟩

/-- A level without a shape is pointed at as a whole, or one of its items is. -/
theorem pointsAt_of_shape {empty : Span → Fault} {span : Span} {items : List Item} {fault : Fault}
    (hempty : (empty span).PointsAt span) (h : shape empty span items = .error fault) :
    fault.PointsAt span ∨ ∃ item ∈ items, fault.PointsAt item.span := by
  unfold shape at h
  split at h
  · cases h
  · next quantifier =>
    obtain rfl := Except.error.inj h
    exact .inr ⟨.quantifier quantifier, by simp, rfl, rfl⟩
  · split at h
    · obtain rfl := Except.error.inj h
      exact .inl ⟨rfl, rfl⟩
    · rcases bind_eq_error_iff.1 h with hpair | ⟨pieces, -, h⟩
      · rcases pointsAt_of_pair hpair with rfl | hitem
        · exact .inl ⟨rfl, rfl⟩
        · exact .inr hitem
      · cases pieces with
        | nil =>
          obtain rfl := Except.error.inj h
          exact .inl hempty
        | cons first others => cases h

theorem Level.pointsAt_of_shape {level : Level} {empty : Span → Fault} {span : Span} {fault : Fault}
    (hempty : (empty span).PointsAt span) (h : level.shape empty span = .error fault) :
    fault.PointsAt span ∨ ∃ mark ∈ level.marks, fault.PointsAt mark := by
  rcases Pattern.pointsAt_of_shape hempty h with hwhole | ⟨item, hmem, hitem⟩
  · exact .inl hwhole
  · exact .inr ⟨item.span, List.mem_map_of_mem (List.mem_reverse.1 hmem), hitem⟩

theorem Level.marks_of_pushGroup {level after : Level} {span : Span} {body : Pattern}
    (h : level.pushGroup span body = .ok after) : after.marks = span :: level.marks := by
  unfold pushGroup at h
  split at h
  · cases h
  · obtain rfl := Except.ok.inj h
    rfl

/-- A second group is pointed at as a whole. -/
theorem Level.pointsAt_of_pushGroup {level : Level} {span : Span} {body : Pattern} {fault : Fault}
    (h : level.pushGroup span body = .error fault) : fault.PointsAt span := by
  unfold pushGroup at h
  split at h
  · obtain rfl := Except.error.inj h
    exact ⟨rfl, rfl⟩
  · cases h

/-! ## Steps -/

namespace Assembly

variable {a after : Assembly} {found : Lexeme} {fault : Fault} {mark : Span}

theorem mem_marks_iff : mark ∈ a.marks ↔ a.progress.paren? = some mark ∨ mark ∈ a.level.marks ∨
    ∃ brace level, (brace, level) ∈ a.enclosing ∧ (mark = brace ∨ mark ∈ level.marks) := by
  simp [marks]

theorem mem_marks_of_paren? (h : a.progress.paren? = some mark) : mark ∈ a.marks :=
  mem_marks_iff.2 (.inl h)

theorem mem_marks_of_level (h : mark ∈ a.level.marks) : mark ∈ a.marks :=
  mem_marks_iff.2 (.inr (.inl h))

theorem mem_marks_of_enclosing {brace : Span} {level : Level} (h : (brace, level) ∈ a.enclosing)
    (hmark : mark = brace ∨ mark ∈ level.marks) : mark ∈ a.marks :=
  mem_marks_iff.2 (.inr (.inr ⟨brace, level, h, hmark⟩))

/-- The fault points at a stretch that the lexeme leads to. -/
def Points (a : Assembly) (found : Span) (fault : Fault) : Prop :=
  ∃ span, fault.PointsAt span ∧ a.Reached found span

/-- A number leaves the stretches of an assembly as they are. -/
theorem reached_of_takeNumber {next : UInt32 → Progress}
    (hnext : ∀ n, (next n).paren? = a.progress.paren?) (h : a.takeNumber found next = .ok after) :
    ∀ mark ∈ after.marks, a.Reached found.span mark := by
  intro mark hmark
  unfold takeNumber at h
  split at h
  · split at h
    · obtain rfl := Except.ok.inj h
      refine .kept (mem_marks_iff.2 ?_)
      rw [← hnext]
      exact mem_marks_iff.1 hmark
    · cases h
  · cases h

theorem points_of_takeNumber {next : UInt32 → Progress}
    (h : a.takeNumber found next = .error fault) : a.Points found.span fault := by
  unfold takeNumber at h
  split at h
  · split at h
    · cases h
    · obtain rfl := Except.error.inj h
      exact ⟨_, ⟨rfl, rfl⟩, .own⟩
  · obtain rfl := Except.error.inj h
    exact ⟨_, ⟨rfl, rfl⟩, .own⟩

/-- An item that the lexeme leads to can be pushed. -/
theorem reached_of_push {item : Item} (hitem : a.Reached found.span item.span) :
    ∀ mark ∈ (a.push item).marks, a.Reached found.span mark := by
  intro mark hmark
  rcases mem_marks_iff.1 hmark with hparen | hlevel | hopen
  · cases hparen
  · rcases List.mem_cons.1 hlevel with rfl | hlevel
    · exact hitem
    · exact .kept (mem_marks_of_level hlevel)
  · exact .kept (mem_marks_iff.2 (.inr (.inr hopen)))

theorem reached_of_closeGroup {brace : Span} (h : a.closeGroup brace = .ok after) :
    ∀ mark ∈ after.marks, a.Reached brace mark := by
  intro mark hmark
  unfold closeGroup at h
  split at h
  · cases h
  · next opening outer enclosing henclosing =>
    obtain ⟨body, -, h⟩ := bind_eq_ok_iff.1 h
    obtain ⟨level, hpush, h⟩ := bind_eq_ok_iff.1 h
    obtain rfl := Except.ok.inj h
    have hopening : (opening, outer) ∈ a.enclosing := by simp [henclosing]
    rcases mem_marks_iff.1 hmark with hparen | hlevel | ⟨brace', level', hmem, hopen⟩
    · cases hparen
    · rw [Level.marks_of_pushGroup hpush, List.mem_cons] at hlevel
      rcases hlevel with rfl | houter
      · exact .joined (mem_marks_of_enclosing hopening (.inl rfl))
      · exact .kept (mem_marks_of_enclosing hopening (.inr houter))
    · have hmem' : (brace', level') ∈ a.enclosing := by
        rw [henclosing]
        exact List.mem_cons_of_mem _ hmem
      exact .kept (mem_marks_of_enclosing hmem' hopen)

theorem points_of_closeGroup {brace : Span} (h : a.closeGroup brace = .error fault) :
    a.Points brace fault := by
  unfold closeGroup at h
  split at h
  · obtain rfl := Except.error.inj h
    exact ⟨_, ⟨rfl, rfl⟩, .own⟩
  · next opening outer enclosing henclosing =>
    have hmem : (opening, outer) ∈ a.enclosing := by simp [henclosing]
    have hopening : opening ∈ a.marks := mem_marks_of_enclosing hmem (.inl rfl)
    rcases bind_eq_error_iff.1 h with hshape | ⟨body, -, h⟩
    · have hempty : (Fault.emptyGroup ⟨opening.stop, brace.start⟩).PointsAt _ := ⟨rfl, rfl⟩
      rcases Level.pointsAt_of_shape hempty hshape with hspan | ⟨mark, hmark, hspan⟩
      · exact ⟨_, hspan, .between hopening⟩
      · exact ⟨_, hspan, .kept (mem_marks_of_level hmark)⟩
    · rcases bind_eq_error_iff.1 h with hpush | ⟨level, -, h⟩
      · exact ⟨_, Level.pointsAt_of_pushGroup hpush, .joined hopening⟩
      · cases h

/-- Between counts, a lexeme is an item, or it opens or closes something. -/
theorem reached_of_stepOutside (h : a.stepOutside found = .ok after) :
    ∀ mark ∈ after.marks, a.Reached found.span mark := by
  unfold stepOutside at h
  split at h
  · obtain rfl := Except.ok.inj h
    exact reached_of_push .own
  · obtain rfl := Except.ok.inj h
    exact reached_of_push .own
  · -- a level that is empty is begun, and the one that was filled waits for it
    obtain rfl := Except.ok.inj h
    intro mark hmark
    rcases mem_marks_iff.1 hmark with hparen | hlevel | ⟨brace, level, hmem, hopen⟩
    · cases hparen
    · cases hlevel
    · rcases List.mem_cons.1 hmem with heq | hmem
      · obtain ⟨rfl, rfl⟩ := Prod.mk.inj heq
        rcases hopen with rfl | hlevel
        · exact .own
        · exact .kept (mem_marks_of_level hlevel)
      · exact .kept (mem_marks_of_enclosing hmem hopen)
  · exact reached_of_closeGroup h
  · obtain rfl := Except.ok.inj h
    intro mark hmark
    rcases mem_marks_iff.1 hmark with hparen | hother
    · obtain rfl := Option.some.inj hparen
      exact .own
    · exact .kept (mem_marks_iff.2 (.inr hother))
  all_goals cases h

theorem points_of_stepOutside (h : a.stepOutside found = .error fault) :
    a.Points found.span fault := by
  unfold stepOutside at h
  split at h
  case h_4 => exact points_of_closeGroup h
  case h_6 | h_7 | h_8 =>
    obtain rfl := Except.error.inj h
    exact ⟨_, ⟨rfl, rfl⟩, .own⟩
  all_goals cases h

/-- All stretches after a step come from those before it and from that of the lexeme. -/
theorem reached_of_step (h : a.step found = .ok after) :
    ∀ mark ∈ after.marks, a.Reached found.span mark := by
  unfold step at h
  split at h
  · exact reached_of_stepOutside h
  · next hat => exact reached_of_takeNumber (fun _ => by rw [hat]; rfl) h
  · next paren min hat =>
    split at h
    · obtain rfl := Except.ok.inj h
      intro mark hmark
      refine .kept (mem_marks_iff.2 ?_)
      rw [hat]
      exact mem_marks_iff.1 hmark
    · obtain rfl := Except.ok.inj h
      exact reached_of_push (.joined (mem_marks_of_paren? (by rw [hat]; rfl)))
    · cases h
  · next hat => exact reached_of_takeNumber (fun _ => by rw [hat]; rfl) h
  · next paren min max hat =>
    split at h
    · obtain rfl := Except.ok.inj h
      exact reached_of_push (.joined (mem_marks_of_paren? (by rw [hat]; rfl)))
    · cases h

/-- So does what the fault of a step points at. -/
theorem points_of_step (h : a.step found = .error fault) : a.Points found.span fault := by
  unfold step at h
  split at h
  · exact points_of_stepOutside h
  · exact points_of_takeNumber h
  · split at h
    · cases h
    · cases h
    · obtain rfl := Except.error.inj h
      exact ⟨_, ⟨rfl, rfl⟩, .own⟩
  · exact points_of_takeNumber h
  · split at h
    · cases h
    · obtain rfl := Except.error.inj h
      exact ⟨_, ⟨rfl, rfl⟩, .own⟩

/-- A number has been read of a count, whose end comes next. -/
def AwaitsParen (a : Assembly) : Prop :=
  (∃ paren min, a.progress = .least paren min) ∨ ∃ paren min max, a.progress = .most paren min max

/-- At the end of the text a fault points at a stretch that has been gathered, or at all of the
text. It points at nothing only if the end of a count is missing. -/
theorem points_of_finish {size : Nat} (h : a.finish size = .error fault) :
    (∃ span, fault.PointsAt span ∧ (span ∈ a.marks ∨ span = ⟨0, size⟩)) ∨
      fault = .unclosedParen size ∧ a.AwaitsParen := by
  unfold finish at h
  split at h
  case h_1 paren hat | h_2 paren min hat =>
    obtain rfl := Except.error.inj h
    exact .inl ⟨paren, ⟨rfl, rfl⟩, .inl (mem_marks_of_paren? (by rw [hat]; rfl))⟩
  case h_3 paren min hat =>
    obtain rfl := Except.error.inj h
    exact .inr ⟨rfl, .inl ⟨paren, min, hat⟩⟩
  case h_4 paren min max hat =>
    obtain rfl := Except.error.inj h
    exact .inr ⟨rfl, .inr ⟨paren, min, max, hat⟩⟩
  case h_5 =>
    split at h
    · next brace outer enclosing henclosing =>
      obtain rfl := Except.error.inj h
      have hmem : (brace, outer) ∈ a.enclosing := by simp [henclosing]
      exact .inl ⟨brace, ⟨rfl, rfl⟩, .inl (mem_marks_of_enclosing hmem (.inl rfl))⟩
    · have hempty : (Fault.emptyPattern ⟨0, size⟩).PointsAt _ := ⟨rfl, rfl⟩
      rcases Level.pointsAt_of_shape hempty h with hspan | ⟨mark, hmark, hspan⟩
      · exact .inl ⟨_, hspan, .inr rfl⟩
      · exact .inl ⟨_, hspan, .inl (mem_marks_of_level hmark)⟩

end Assembly

/-! ## Stretches of the text -/

/-- The stretch can be cut out of the text, and ends at the offset or before it. -/
structure Within (text : List Char) (offset : Nat) (span : Span) : Prop where
  start : Boundary text span.start
  stop : Boundary text span.stop
  le : span.start ≤ span.stop
  stop_le : span.stop ≤ offset

namespace Assembly

variable {text : List Char} {tokens : List Token} {offset : Nat} {a after : Assembly}
  {fault : Fault} {span : Span}

/-- What a lexeme leads to can be cut out of the text if it is written behind all stretches that
are held. -/
theorem Reached.within {token : Token} (h : a.Reached (Lexeme.ofToken token offset).span span)
    (hstands : StandsAt text offset token.source)
    (hmarks : ∀ mark ∈ a.marks, Within text offset mark) :
    Within text (offset + byteLength token.source) span := by
  have hle : offset ≤ offset + byteLength token.source := Nat.le_add_right _ _
  cases h with
  | kept hmark =>
    obtain ⟨hstart, hstop, horder, hbefore⟩ := hmarks _ hmark
    exact ⟨hstart, hstop, horder, Nat.le_trans hbefore hle⟩
  | own => exact ⟨hstands.boundary, hstands.boundary_after, hle, Nat.le_refl _⟩
  | joined hmark =>
    obtain ⟨hstart, -, horder, hbefore⟩ := hmarks _ hmark
    rw [Lexeme.join_ofToken token horder hbefore]
    exact ⟨hstart, hstands.boundary_after, Nat.le_trans (Nat.le_trans horder hbefore) hle,
      Nat.le_refl _⟩
  | between hmark =>
    obtain ⟨-, hstop, -, hbefore⟩ := hmarks _ hmark
    exact ⟨hstop, hstands.boundary, hbefore, hle⟩

/-- Taking in lexemes in front of which all stretches lie keeps them in front of what comes
next. -/
theorem within_of_run (hstands : StandsAt text offset (tokens.flatMap Token.source))
    (hmarks : ∀ mark ∈ a.marks, Within text offset mark)
    (hrun : a.run (lexemesAt offset tokens) = .ok after) :
    ∀ mark ∈ after.marks, Within text (offset + byteLength (tokens.flatMap Token.source)) mark := by
  induction tokens generalizing a offset with
  | nil =>
    obtain rfl := Except.ok.inj hrun
    exact hmarks
  | cons token tokens ih =>
    obtain ⟨next, hstep, hrun⟩ := bind_eq_ok_iff.1 hrun
    rw [List.flatMap_cons] at hstands ⊢
    have hnext : ∀ mark ∈ next.marks, Within text (offset + byteLength token.source) mark :=
      fun mark hmark => (reached_of_step hstep mark hmark).within hstands.left hmarks
    rw [Text.byteLength_append, ← Nat.add_assoc]
    exact ih hstands.right hnext hrun

/-- What a fault on the way points at can be cut out of the text. -/
theorem exists_within_of_run (hstands : StandsAt text offset (tokens.flatMap Token.source))
    (hmarks : ∀ mark ∈ a.marks, Within text offset mark)
    (hrun : a.run (lexemesAt offset tokens) = .error fault) :
    ∃ span, fault.PointsAt span ∧ Within text (byteLength text) span := by
  induction tokens generalizing a offset with
  | nil => cases hrun
  | cons token tokens ih =>
    rw [List.flatMap_cons] at hstands
    rcases bind_eq_error_iff.1 hrun with hstep | ⟨next, hstep, hrun⟩
    · obtain ⟨span, hspan, hreached⟩ := points_of_step hstep
      obtain ⟨hstart, hstop, horder, -⟩ := hreached.within hstands.left hmarks
      exact ⟨span, hspan, hstart, hstop, horder, hstop.le⟩
    · exact ih hstands.right
        (fun mark hmark => (reached_of_step hstep mark hmark).within hstands.left hmarks) hrun

/-- Where the end of a count comes next, it is all that a count lacks. -/
theorem Gathered.exists_count (h : a.Gathered tokens) (hawaits : a.AwaitsParen) :
    ∃ before, ∃ count : Grammar.Count, tokens ++ [.closeParen] = before ++ count.tokens := by
  obtain ⟨before, own, counting, -, -, hprogress, rfl⟩ := h
  rcases hawaits with ⟨paren, min, hat⟩ | ⟨paren, min, max, hat⟩
  · rw [hat] at hprogress
    obtain - | - | ⟨n⟩ := hprogress
    exact ⟨before ++ own, .exactly n, List.append_assoc ..⟩
  · rw [hat] at hprogress
    obtain - | - | - | - | ⟨n, m⟩ := hprogress
    exact ⟨before ++ own, .between n m, List.append_assoc ..⟩

end Assembly

/-! ## Texts that are not made of tokens -/

namespace Cursor

/-- Behind tokens in front of it a cursor still stands in the text. -/
theorem In.behind {text rest : List Char} {cursor : Cursor} {tokens : List Token}
    (h : cursor.In text) (hrest : cursor.rest = tokens.flatMap Token.source ++ rest) :
    (cursor.behind tokens rest).In text := by
  obtain ⟨before, htext, hoffset⟩ := h
  refine ⟨before ++ tokens.flatMap Token.source, ?_, ?_⟩
  · rw [htext, hrest, List.append_assoc]
    rfl
  · rw [Cursor.behind, hoffset, Text.byteLength_append]

/-- A failure is found at a character. -/
theorem Fails.exists_char {text : List Char} {cursor after : Cursor} {e : LexError}
    (h : cursor.Fails e after) (hin : cursor.In text) :
    ∃ c, StandsAt text e.offset [c] ∧ e.fault.FoundAt c := by
  cases h with
  | @refused fault passed tail c hrest _ hc =>
    have hrest' : cursor.rest = (passed ++ [c]) ++ tail := by simp [hrest]
    exact ⟨c, (hin.standsAt hrest').right, hc⟩
  | @unclosed d opening body hopened _ hrest =>
    have hrest' : cursor.rest = [opening] ++ body := hrest
    exact ⟨opening, hin.standsAt hrest', hopened.foundAt⟩

end Cursor

theorem exists_char_of_error {text : String} {e : LexError} (h : lexemes text = .error e) :
    ∃ c, StandsAt text.toList e.offset [c] ∧ e.fault.FoundAt c := by
  obtain ⟨tokens, rest, after, -, -, hrest, hfails⟩ := Cursor.exists_stop h
  have hstart : (Cursor.start text.toList).In text.toList := ⟨[], rfl, rfl⟩
  exact hfails.exists_char (hstart.behind hrest)

/-- The text is not made of tokens because of a character that takes more than one byte. -/
def Fault.Wide (fault : Fault) : Prop :=
  ∃ c offset, fault = .lexical ⟨.unexpected c, offset⟩ ∧ 1 < c.utf8Size

theorem Fault.Wide.isLexical_eq {fault : Fault} (h : fault.Wide) : fault.isLexical = true := by
  obtain ⟨c, offset, rfl, -⟩ := h
  rfl

/-! ## Faults of a text -/

variable {text : String} {fault : Fault}

/-- The fault of a text made of tokens points at what can be cut out of it, or is that the end of a
count is missing. -/
theorem pointsAt_of_lexemes {found : List Lexeme} (hfound : lexemes text = .ok found)
    (h : ofText? text = .error fault) :
    (∃ span, fault.PointsAt span ∧ Within text.toList (byteLength text.toList) span) ∨
      fault = .unclosedParen (byteLength text.toList) ∧
        ∃ before, ∃ count : Grammar.Count, text.toList ++ [')'] = before ++ count.text := by
  rw [ofText?, hfound] at h
  obtain ⟨tokens, hwritten, htext, rfl⟩ := lexemes_eq_ok_iff.1 hfound
  have hstands : StandsAt text.toList 0 (tokens.flatMap Token.source) :=
    htext ▸ StandsAt.whole text.toList
  have hstart : ∀ mark ∈ Assembly.start.marks, Within text.toList 0 mark := by
    simp [Assembly.marks, Assembly.start, Progress.paren?, Level.marks, Level.empty]
  obtain herror | ⟨_, hread, h⟩ := bind_eq_error_iff.1 h
  · cases herror
  obtain rfl := Except.ok.inj hread
  rcases bind_eq_error_iff.1 h with hrun | ⟨a, hrun, hfinish⟩
  · exact .inl (Assembly.exists_within_of_run hstands hstart hrun)
  have hmarks := Assembly.within_of_run hstands hstart hrun
  rw [htext, Nat.zero_add] at hmarks
  rcases Assembly.points_of_finish hfinish with ⟨span, hspan, hmark | rfl⟩ | ⟨hparen, hawaits⟩
  · exact .inl ⟨span, hspan, hmarks span hmark⟩
  · have hwhole : Within text.toList (byteLength text.toList) ⟨0, byteLength text.toList⟩ :=
      ⟨Text.boundary_zero _, Text.boundary_byteLength _, Nat.zero_le _, Nat.le_refl _⟩
    exact .inl ⟨_, hspan, hwhole⟩
  · have hgathered := Assembly.gathered_start.run (fun lexeme hlexeme =>
      hwritten.exists_takes (map_token_lexemesAt 0 tokens ▸ List.mem_map_of_mem hlexeme)) hrun
    rw [map_token_lexemesAt, List.nil_append] at hgathered
    obtain ⟨before, count, htokens⟩ := hgathered.exists_count hawaits
    refine .inr ⟨hparen, before.flatMap Token.source, count, ?_⟩
    have hsource := congrArg (List.flatMap Token.source) htokens
    rw [List.flatMap_append, List.flatMap_append, htext, count.source_tokens] at hsource
    exact hsource

/-- The one byte at which a text that is not made of tokens is pointed at. It is a whole character
unless this takes more bytes. -/
theorem boundary_of_lexemes {e : LexError} (h : lexemes text = .error e) :
    Boundary text.toList e.offset ∧ e.offset + 1 ≤ byteLength text.toList ∧
      (Boundary text.toList (e.offset + 1) ↔ ¬ (Fault.lexical e).Wide) := by
  obtain ⟨c, hstands, hc⟩ := exists_char_of_error h
  have hpos := c.utf8Size_pos
  have hstop : e.offset + c.utf8Size ≤ byteLength text.toList := by
    simpa using hstands.boundary_after.le
  refine ⟨hstands.boundary, by omega, ?_, ?_⟩
  · rintro hboundary ⟨c', offset, hlexical, hwide⟩
    obtain rfl := Fault.lexical.inj hlexical
    have hle := hstands.le_of_boundary hboundary (Nat.lt_succ_self _)
    obtain rfl : c' = c := hc
    omega
  · intro hwide
    have hone : c.utf8Size = 1 := by
      obtain ⟨fault, offset⟩ := e
      cases fault with
      | unexpected x =>
        obtain rfl : x = c := hc
        by_contra hne
        exact hwide ⟨x, offset, rfl, by omega⟩
      | _ => exact hc
    have hafter := hstands.boundary_after
    rwa [Text.byteLength_cons, Text.byteLength_nil, Nat.add_zero, hone] at hafter

/-- **Faults point at the text.** The fault of a text lies at a place where the text can be cut.
The stretch it points at begins there and lies in the text, and it can be cut out, unless a
character that takes more than one byte was not expected: the one byte pointed at then ends inside
of the character. It points at no stretch only at the end of a text that lacks the end of a count.
-/
theorem pointed_of_error (h : ofText? text = .error fault) :
    Boundary text.toList fault.offset ∧ fault.offset ≤ byteLength text.toList ∧
    (∀ span, fault.span? = some span →
      span.start = fault.offset ∧ span.start ≤ span.stop ∧
      span.stop ≤ byteLength text.toList ∧
      (Boundary text.toList span.stop ↔ ¬ fault.Wide) ∧
      (¬ fault.Wide → ∃ cs, span.Shows text.toList cs)) ∧
    (fault.span? = none → fault = .unclosedParen (byteLength text.toList) ∧
      fault.offset = byteLength text.toList ∧
      ∃ before, ∃ count : Grammar.Count, text.toList ++ [')'] = before ++ count.text) := by
  rcases hread : lexemes text with e | found
  · obtain rfl : Fault.lexical e = fault := by
      rw [ofText?, hread] at h
      exact Except.error.inj h
    obtain ⟨hstart, hstop, hwide⟩ := boundary_of_lexemes hread
    refine ⟨hstart, hstart.le, ?_, ?_⟩
    · intro span hspan
      obtain rfl := Option.some.inj hspan
      refine ⟨rfl, Nat.le_succ _, hstop, hwide, fun hnarrow => ?_⟩
      exact Text.exists_shows_iff.2 ⟨hstart, hwide.2 hnarrow, Nat.le_succ _⟩
    · intro hnone
      cases hnone
  · rcases pointsAt_of_lexemes hread h with ⟨span, hpoints, hwithin⟩ | ⟨rfl, hcount⟩
    · obtain ⟨hstart, hstop, horder, hle⟩ := hwithin
      have hoffset := Fault.offset_eq_start hpoints.span?_eq
      have hnarrow : ¬ fault.Wide := by
        intro hwide
        have hlexical := hwide.isLexical_eq
        rw [hpoints.isLexical_eq] at hlexical
        cases hlexical
      refine ⟨hoffset ▸ hstart, hoffset ▸ hstart.le, ?_, ?_⟩
      · intro span' hspan'
        obtain rfl := Option.some.inj (hpoints.span?_eq.symm.trans hspan')
        refine ⟨hoffset.symm, horder, hle, iff_of_true hstop hnarrow, fun _ => ?_⟩
        exact Text.exists_shows_iff.2 ⟨hstart, hstop, horder⟩
      · intro hnone
        rw [hpoints.span?_eq] at hnone
        cases hnone
    · refine ⟨Text.boundary_byteLength _, Nat.le_refl _, ?_, fun _ => ⟨rfl, rfl, hcount⟩⟩
      intro span hspan
      cases hspan

/-- The parenthesis behind a literal with a character of two bytes opens a count without a number.
It is what the fault points at. -/
theorem pointed_of_error_accented :
    ofText? "<é>(" = .error (.unclosedCount ⟨4, 5⟩) ∧ Boundary "<é>(".toList 4 ∧
      ∃ cs, Span.Shows "<é>(".toList ⟨4, 5⟩ cs := by
  have herror : ofText? "<é>(" = .error (.unclosedCount ⟨4, 5⟩) := by
    rw [ofText?, lexemes, Cursor.lexemes_of_next? rfl, Cursor.lexemes_of_next? rfl,
      Cursor.lexemes_nil]
    rfl
  obtain ⟨hstart, -, hspan, -⟩ := pointed_of_error herror
  obtain ⟨-, -, -, -, hshows⟩ := hspan ⟨4, 5⟩ rfl
  refine ⟨herror, hstart, hshows ?_⟩
  intro hwide
  cases hwide.isLexical_eq

/-- A character of two bytes that was not expected is pointed at by its first byte only, which
cannot be cut out. -/
theorem not_boundary_accented :
    ∃ fault span, ofText? "é" = .error fault ∧ fault.span? = some span ∧
      ¬ Boundary "é".toList span.stop := by
  have herror : ofText? "é" = .error (.lexical ⟨.unexpected 'é', 0⟩) := by
    rw [ofText?, lexemes, Cursor.lexemes_of_error rfl]
    rfl
  refine ⟨_, ⟨0, 1⟩, herror, rfl, fun hboundary => ?_⟩
  have hstands : StandsAt "é".toList 0 ['é'] := StandsAt.whole _
  have hle : 2 ≤ 1 := hstands.le_of_boundary hboundary Nat.zero_lt_one
  omega

end Moniker.Pattern
