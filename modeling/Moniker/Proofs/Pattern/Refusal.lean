import Moniker.Proofs.Pattern.Parsing
import Moniker.Proofs.Pattern.Places

/-!
# The lexeme that cannot be taken in

A text that is made of tokens is taken in lexeme by lexeme, up to the first that is refused. All
ways to refuse one are said once. What is known of the place of a lexeme rules some of them out: a
repeat count is being read exactly where a parenthesis is open, and two numbers never meet.

* `Fault.kind` — what a fault is reported as;
* `Assembly.Refuses` — the ways in which a lexeme is refused, and `Assembly.refuses_of_step`;
* `Assembly.Tracks` — what an assembly knows of the parentheses and braces that it has taken in;
* `StopsAt` — reading a text stops at a lexeme, and `exists_stopsAt` — for which faults it does;
* `exists_brace_of_kind`, `exists_token_of_kind` — which tokens are not expected where they stand.
-/

namespace Moniker.Pattern

open Text (Span byteLength)

/-! ## Kinds of faults -/

/-- What a fault can be reported as. -/
inductive Fault.Kind where
  | tokenizeFailed
  | unexpectedEof
  | unexpectedToken
  | expectedToken (what : String)
  | emptyPattern
  | emptyGroup
  | invalidNumber
  | multipleGroups
  | oddItemCount (count : Nat)
  | expectedQuantifier
  | expectedBlock
deriving DecidableEq

namespace Fault

/-- What the fault is reported as. -/
def kind : Fault → Kind
  | lexical _ => .tokenizeFailed
  | emptyPattern _ => .emptyPattern
  | emptyGroup _ => .emptyGroup
  | unclosedGroup _ | unclosedCount _ | unclosedParen _ => .unexpectedEof
  | unmatchedBrace _ | misplaced _ => .unexpectedToken
  | expectedNumber _ => .expectedToken "NUMBER"
  | expectedParen _ => .expectedToken "')'"
  | countTooLarge .. => .invalidNumber
  | secondGroup .. => .multipleGroups
  | unpaired count _ => .oddItemCount count
  | missingCount _ => .expectedQuantifier
  | strayCount _ => .expectedBlock

/-- Whether the fault is that the items of a level do not go together. -/
def isUneven : Fault → Bool
  | unpaired .. | missingCount _ | strayCount _ => true
  | _ => false

/-- Whether faults of the kind are always found at a lexeme: an empty or second group, or a token
that may not stand where it stands. -/
def Kind.isMidway : Kind → Bool
  | emptyGroup | multipleGroups | unexpectedToken | expectedToken _ => true
  | _ => false

theorem isMidway_of_isUneven {fault : Fault} (h : fault.isUneven = true) :
    fault.kind.isMidway = false := by
  cases fault <;> first | rfl | cases h

end Fault

/-! ## Refused lexemes -/

variable {fault : Fault}

theorem isUneven_of_pair {odd : Fault} {items : List Item} (h : pair odd items = .error fault) :
    fault = odd ∨ fault.isUneven = true := by
  induction items using pair.induct with
  | case1 => cases h
  | case2 span text items ih => exact ih (map_eq_error_iff.1 h)
  | case3 block quantifier items ih => exact ih (map_eq_error_iff.1 h)
  | case6 block =>
    obtain rfl := Except.error.inj h
    exact .inl rfl
  | case4 | case5 | case7 =>
    obtain rfl := Except.error.inj h
    exact .inr rfl

/-- A level without a shape is empty, or its items do not go together. -/
theorem isUneven_of_shape {empty : Span → Fault} {span : Span} {items : List Item}
    (h : shape empty span items = .error fault) : fault = empty span ∨ fault.isUneven = true := by
  unfold shape at h
  split at h
  · cases h
  · obtain rfl := Except.error.inj h
    exact .inr rfl
  · split at h
    · obtain rfl := Except.error.inj h
      exact .inr rfl
    · rcases bind_eq_error_iff.1 h with hpair | ⟨pieces, -, h⟩
      · rcases isUneven_of_pair hpair with rfl | huneven
        · exact .inr rfl
        · exact .inr huneven
      · cases pieces with
        | nil =>
          obtain rfl := Except.error.inj h
          exact .inl rfl
        | cons first others => cases h

namespace Assembly

/-- The ways in which a lexeme cannot be taken in. -/
inductive Refuses (a : Assembly) (found : Lexeme) : Fault → Prop where
  /-- it closes a group, and none is open -/
  | unmatched (hprogress : a.progress = .outside) (htoken : found.token = .closeBrace)
    (hnone : a.enclosing = []) : Refuses a found (.unmatchedBrace found.span)
  /-- it closes a group that holds nothing -/
  | empty {span : Span} (htoken : found.token = .closeBrace) : Refuses a found (.emptyGroup span)
  /-- it closes a group whose items do not go together -/
  | uneven {fault : Fault} (htoken : found.token = .closeBrace) (huneven : fault.isUneven = true) :
    Refuses a found fault
  /-- it closes a group where there is one already -/
  | second {span : Span} {first : Nat} (htoken : found.token = .closeBrace) :
    Refuses a found (.secondGroup span first)
  /-- it belongs to a repeat count, and stands outside of one -/
  | misplaced (hprogress : a.progress = .outside) (htoken : found.token.inCount = true) :
    Refuses a found (.misplaced found)
  /-- it is no number -/
  | notNumber (hprogress : a.progress ≠ .outside) (htoken : found.token.isNumber = false) :
    Refuses a found (.expectedNumber found)
  /-- it is a number that is too large -/
  | tooLarge {digits : String} (htoken : found.token = .number digits) :
    Refuses a found (.countTooLarge found.span digits)
  /-- behind the first number of a count, it neither goes on with the count nor closes it -/
  | afterLeast {paren : Span} {min : UInt32} (hprogress : a.progress = .least paren min)
    (hcomma : found.token ≠ .comma) (hparen : found.token ≠ .closeParen) :
    Refuses a found (.expectedParen found)
  /-- behind the second number of a count, it does not close the count -/
  | afterMost {paren : Span} {min max : UInt32} (hprogress : a.progress = .most paren min max)
    (hparen : found.token ≠ .closeParen) : Refuses a found (.expectedParen found)

variable {a after : Assembly} {found : Lexeme} {next : UInt32 → Progress}

theorem refuses_of_takeNumber (hprogress : a.progress ≠ .outside)
    (h : a.takeNumber found next = .error fault) : a.Refuses found fault := by
  rw [takeNumber] at h
  split at h
  · next digits htoken =>
    split at h
    · cases h
    · obtain rfl := Except.error.inj h
      exact .tooLarge htoken
  · next hnumber =>
    obtain rfl := Except.error.inj h
    refine .notNumber hprogress ?_
    cases htoken : found.token with
    | number digits => exact absurd htoken (hnumber digits)
    | _ => rfl

theorem refuses_of_closeGroup (hprogress : a.progress = .outside)
    (htoken : found.token = .closeBrace) (h : a.closeGroup found.span = .error fault) :
    a.Refuses found fault := by
  rw [closeGroup] at h
  split at h
  · next hnone =>
    obtain rfl := Except.error.inj h
    exact .unmatched hprogress htoken hnone
  · rcases bind_eq_error_iff.1 h with hshape | ⟨body, -, h⟩
    · rcases isUneven_of_shape hshape with rfl | huneven
      · exact .empty htoken
      · exact .uneven htoken huneven
    · rcases bind_eq_error_iff.1 h with hpush | ⟨level, -, h⟩
      · rw [Level.pushGroup] at hpush
        split at hpush
        · obtain rfl := Except.error.inj hpush
          exact .second htoken
        · cases hpush
      · cases h

theorem refuses_of_stepOutside (hprogress : a.progress = .outside)
    (h : a.stepOutside found = .error fault) : a.Refuses found fault := by
  rw [stepOutside] at h
  split at h
  case h_4 htoken => exact refuses_of_closeGroup hprogress htoken h
  case h_6 htoken | h_7 htoken | h_8 htoken =>
    obtain rfl := Except.error.inj h
    exact .misplaced hprogress (by rw [htoken]; rfl)
  all_goals cases h

/-- A step that fails is one of the ways to refuse the lexeme. -/
theorem refuses_of_step (h : a.step found = .error fault) : a.Refuses found fault := by
  rw [step] at h
  split at h
  · next hat => exact refuses_of_stepOutside hat h
  · next hat => exact refuses_of_takeNumber (by simp [hat]) h
  · next hat =>
    split at h
    · cases h
    · cases h
    · next hcomma hparen =>
      obtain rfl := Except.error.inj h
      exact .afterLeast hat hcomma hparen
  · next hat => exact refuses_of_takeNumber (by simp [hat]) h
  · next hat =>
    split at h
    · cases h
    · next hparen =>
      obtain rfl := Except.error.inj h
      exact .afterMost hat hparen

/-- At the end of the text no fault is found that is always found at a lexeme. -/
theorem isMidway_of_finish {size : Nat} (h : a.finish size = .error fault) :
    fault.kind.isMidway = false := by
  rw [finish] at h
  split at h
  case h_5 =>
    split at h
    · obtain rfl := Except.error.inj h
      rfl
    · rcases isUneven_of_shape h with rfl | huneven
      · rfl
      · exact Fault.isMidway_of_isUneven huneven
  all_goals
    obtain rfl := Except.error.inj h
    rfl

end Assembly

/-! ## Parentheses and braces -/

/-- The kind of place that the reading is at. -/
def Progress.mode : Progress → Mode
  | .outside => .blocks
  | _ => .quantifier

theorem Progress.mode_eq_quantifier_iff {progress : Progress} :
    progress.mode = .quantifier ↔ progress ≠ .outside := by
  cases progress <;> simp [mode]

namespace Assembly

/-- What an assembly knows of the tokens that it has taken in: whether a parenthesis is open behind
them, and how many braces are. -/
structure Tracks (a : Assembly) (tokens : List Token) : Prop where
  mode_eq : a.progress.mode = tokens.foldl Mode.after .blocks
  braces_eq : a.enclosing.length + tokens.count .closeBrace = tokens.count .openBrace

theorem tracks_start : start.Tracks [] := ⟨rfl, rfl⟩

variable {a after : Assembly} {found : Lexeme} {tokens : List Token}

theorem Tracks.concat {token : Token} (h : a.Tracks tokens)
    (hmode : after.progress.mode = a.progress.mode.after token)
    (hbraces : after.enclosing.length + [token].count .closeBrace =
      a.enclosing.length + [token].count .openBrace) : after.Tracks (tokens ++ [token]) where
  mode_eq := by rw [hmode, h.mode_eq, List.foldl_concat]
  braces_eq := by
    have hbefore := h.braces_eq
    rw [List.count_append, List.count_append]
    omega

/-- A token that is no brace opens and closes no group. -/
theorem Tracks.concat_same {token : Token} (h : a.Tracks tokens)
    (hmode : after.progress.mode = a.progress.mode.after token)
    (henclosing : after.enclosing = a.enclosing) (hopen : token ≠ .openBrace)
    (hclose : token ≠ .closeBrace) : after.Tracks (tokens ++ [token]) := by
  apply h.concat hmode
  rw [henclosing, List.count_singleton, List.count_singleton, beq_false_of_ne hopen,
    beq_false_of_ne hclose]

/-- A number changes nothing but how far the reading is into a count. -/
theorem Tracks.takeNumber {next : UInt32 → Progress} (h : a.Tracks tokens)
    (hprogress : a.progress ≠ .outside) (hnext : ∀ n, next n ≠ .outside)
    (htake : a.takeNumber found next = .ok after) : after.Tracks (tokens ++ [found.token]) := by
  rw [Assembly.takeNumber] at htake
  split at htake
  · next digits htoken =>
    split at htake
    · next n _ =>
      obtain rfl := Except.ok.inj htake
      rw [htoken]
      refine h.concat_same ?_ rfl (by simp) (by simp)
      rw [Progress.mode_eq_quantifier_iff.2 hprogress]
      exact Progress.mode_eq_quantifier_iff.2 (hnext n)
    · cases htake
  · cases htake

/-- The end of a group closes the innermost of the braces that are open. -/
theorem Tracks.closeGroup (h : a.Tracks tokens) (hprogress : a.progress = .outside)
    (hclose : a.closeGroup found.span = .ok after) : after.Tracks (tokens ++ [.closeBrace]) := by
  rw [Assembly.closeGroup] at hclose
  split at hclose
  · cases hclose
  · next brace outer enclosing henclosing =>
    obtain ⟨body, -, hclose⟩ := bind_eq_ok_iff.1 hclose
    obtain ⟨level, -, hclose⟩ := bind_eq_ok_iff.1 hclose
    obtain rfl := Except.ok.inj hclose
    refine h.concat ?_ ?_
    · rw [hprogress]
      rfl
    · simp [henclosing]

theorem Tracks.stepOutside (h : a.Tracks tokens) (hprogress : a.progress = .outside)
    (hstep : a.stepOutside found = .ok after) : after.Tracks (tokens ++ [found.token]) := by
  rw [Assembly.stepOutside] at hstep
  split at hstep
  case h_4 htoken =>
    rw [htoken]
    exact h.closeGroup hprogress hstep
  case h_6 | h_7 | h_8 => cases hstep
  case h_3 htoken =>
    obtain rfl := Except.ok.inj hstep
    rw [htoken]
    refine h.concat ?_ (by simp)
    rw [hprogress]
    rfl
  case h_1 htoken | h_2 htoken | h_5 htoken =>
    obtain rfl := Except.ok.inj hstep
    rw [htoken]
    refine h.concat_same ?_ rfl (by simp) (by simp)
    rw [hprogress]
    rfl

/-- A step keeps track of its token. -/
theorem Tracks.step (h : a.Tracks tokens) (hstep : a.step found = .ok after) :
    after.Tracks (tokens ++ [found.token]) := by
  rw [Assembly.step] at hstep
  split at hstep
  · next hat => exact h.stepOutside hat hstep
  · next hat => exact h.takeNumber (by simp [hat]) (by simp) hstep
  · next hat =>
    split at hstep
    · next htoken =>
      obtain rfl := Except.ok.inj hstep
      rw [htoken]
      exact h.concat_same (by rw [hat]; rfl) rfl (by simp) (by simp)
    · next htoken =>
      obtain rfl := Except.ok.inj hstep
      rw [htoken]
      exact h.concat_same (by rw [hat]; rfl) rfl (by simp) (by simp)
    · cases hstep
  · next hat => exact h.takeNumber (by simp [hat]) (by simp) hstep
  · next hat =>
    split at hstep
    · next htoken =>
      obtain rfl := Except.ok.inj hstep
      rw [htoken]
      exact h.concat_same (by rw [hat]; rfl) rfl (by simp) (by simp)
    · cases hstep

/-- A run keeps track of all its tokens. -/
theorem Tracks.run {lexemes : List Lexeme} (h : a.Tracks tokens)
    (hrun : a.run lexemes = .ok after) : after.Tracks (tokens ++ lexemes.map Lexeme.token) := by
  induction lexemes generalizing a tokens with
  | nil =>
    obtain rfl := Except.ok.inj hrun
    rwa [List.map_nil, List.append_nil]
  | cons first later ih =>
    obtain ⟨next, hstep, hrun⟩ := bind_eq_ok_iff.1 hrun
    have hlater := ih (h.step hstep) hrun
    rwa [List.append_assoc] at hlater

/-- A run fails at the first lexeme that is refused. -/
theorem run_eq_error_iff {lexemes : List Lexeme} {fault : Fault} :
    a.run lexemes = .error fault ↔ ∃ before found later next, lexemes = before ++ found :: later ∧
      a.run before = .ok next ∧ next.step found = .error fault := by
  refine ⟨?_, ?_⟩
  · intro h
    induction lexemes generalizing a with
    | nil => cases h
    | cons first lexemes ih =>
      rcases bind_eq_error_iff.1 h with hstep | ⟨next, hstep, hrun⟩
      · exact ⟨[], first, lexemes, a, rfl, rfl, hstep⟩
      · obtain ⟨before, found, later, last, rfl, hbefore, hfound⟩ := ih hrun
        refine ⟨first :: before, found, later, last, rfl, ?_, hfound⟩
        rw [run_cons, hstep]
        exact hbefore
  · rintro ⟨before, found, later, next, rfl, hbefore, hfound⟩
    rw [run_append, hbefore]
    show (next.step found).bind _ = _
    rw [hfound]
    rfl

/-- Behind the first number of a count stand the parenthesis that opens it, and this number. -/
theorem Gathered.of_least {paren : Span} {min : UInt32} (h : a.Gathered tokens)
    (hat : a.progress = .least paren min) :
    ∃ before n, tokens = before ++ [.openParen, .number n] := by
  obtain ⟨before, own, counting, -, -, hprogress, rfl⟩ := h
  rw [hat] at hprogress
  obtain - | - | ⟨n⟩ := hprogress
  exact ⟨before ++ own, n.digits, rfl⟩

/-- Behind the second number of a count stands all of the count but its end. -/
theorem Gathered.of_most {paren : Span} {min max : UInt32} (h : a.Gathered tokens)
    (hat : a.progress = .most paren min max) :
    ∃ before n m, tokens = before ++ [.openParen, .number n, .comma, .number m] := by
  obtain ⟨before, own, counting, -, -, hprogress, rfl⟩ := h
  rw [hat] at hprogress
  obtain - | - | - | - | ⟨n, m⟩ := hprogress
  exact ⟨before ++ own, n.digits, m.digits, rfl⟩

end Assembly

/-- Each group that is opened among the tokens is closed there too: behind its brace more braces
close than open. -/
def GroupsClosed (tokens : List Token) : Prop :=
  ∀ before since, tokens = before ++ .openBrace :: since →
    since.count .openBrace < since.count .closeBrace

/-! ## Where the reading of a text stops -/

/-- Reading the text stops with the fault at the lexeme `found`, where `a` has been gathered from
those before it. -/
structure StopsAt (text : String) (fault : Fault) (before : List Lexeme) (found : Lexeme)
    (later : List Lexeme) (a : Assembly) : Prop where
  lexemes_eq : lexemes text = .ok (before ++ found :: later)
  run_eq : Assembly.start.run before = .ok a
  step_eq : a.step found = .error fault

variable {text : String} {fault : Fault}

/-- The faults of a text are that it is not made of tokens, that a lexeme is refused, and that
something is wrong at its end. -/
theorem ofText?_eq_error_iff :
    ofText? text = .error fault ↔
      (∃ e, lexemes text = .error e ∧ fault = .lexical e) ∨
      (∃ before found later a, StopsAt text fault before found later a) ∨
      ∃ found a, lexemes text = .ok found ∧ Assembly.start.run found = .ok a ∧
        a.finish (byteLength text.toList) = .error fault := by
  rw [ofText?]
  rcases hread : lexemes text with e | found
  · refine ⟨?_, ?_⟩
    · intro h
      exact .inl ⟨e, rfl, (Except.error.inj h).symm⟩
    · rintro (⟨e', he, rfl⟩ | ⟨_, _, _, _, hstops⟩ | ⟨found, _, hfound, -⟩)
      · obtain rfl := Except.error.inj he
        rfl
      · rw [hstops.lexemes_eq] at hread
        cases hread
      · cases hfound
  · show Assembly.start.run found >>= _ = _ ↔ _
    rw [bind_eq_error_iff, Assembly.run_eq_error_iff]
    refine ⟨?_, ?_⟩
    · rintro (⟨before, lexeme, later, a, rfl, hbefore, hstep⟩ | ⟨a, hrun, hfinish⟩)
      · exact .inr (.inl ⟨before, lexeme, later, a, hread, hbefore, hstep⟩)
      · exact .inr (.inr ⟨found, a, rfl, hrun, hfinish⟩)
    · rintro (⟨e, he, -⟩ | ⟨before, lexeme, later, a, hstops⟩ | ⟨found', a, hfound, hrun, hfinish⟩)
      · cases he
      · have hall := hstops.lexemes_eq
        rw [hread] at hall
        exact .inl ⟨before, lexeme, later, a, Except.ok.inj hall, hstops.run_eq, hstops.step_eq⟩
      · obtain rfl := Except.ok.inj hfound
        exact .inr ⟨a, hrun, hfinish⟩

/-- A fault that is always found at a lexeme is found where the reading stops. -/
theorem exists_stopsAt (h : ofText? text = .error fault) (hmidway : fault.kind.isMidway = true) :
    ∃ before found later a, StopsAt text fault before found later a := by
  rcases ofText?_eq_error_iff.1 h with ⟨e, -, rfl⟩ | hstops | ⟨found, a, -, -, hfinish⟩
  · cases hmidway
  · exact hstops
  · rw [Assembly.isMidway_of_finish hfinish] at hmidway
    cases hmidway

namespace StopsAt

variable {before later : List Lexeme} {found : Lexeme} {a : Assembly}

/-- The tokens of the text, told apart where the reading stops. -/
theorem written (h : StopsAt text fault before found later a) :
    Written .blocks (before.map Lexeme.token ++ found.token :: later.map Lexeme.token) := by
  have hwritten := (lexemes_eq_ok_iff_written.1 h.lexemes_eq).1
  rwa [List.map_append, List.map_cons] at hwritten

theorem tracks (h : StopsAt text fault before found later a) :
    a.Tracks (before.map Lexeme.token) :=
  Assembly.tracks_start.run h.run_eq

theorem gathered (h : StopsAt text fault before found later a) :
    a.Gathered (before.map Lexeme.token) := by
  refine Assembly.gathered_start.run ?_ h.run_eq
  intro lexeme hlexeme
  exact h.written.exists_takes (List.mem_append_left _ (List.mem_map_of_mem hlexeme))

/-- The lexeme belongs to a repeat count exactly if one is being read. -/
theorem inCount_iff (h : StopsAt text fault before found later a) :
    found.token.inCount = true ↔ a.progress ≠ .outside := by
  rw [(written_iff.1 h.written _ _ _ rfl).2.1, ← h.tracks.mode_eq,
    Progress.mode_eq_quantifier_iff]

/-- No number stands behind a number. -/
theorem isNumber_eq_false {front : List Token} {digits : String}
    (h : StopsAt text fault before found later a)
    (hfront : before.map Lexeme.token = front ++ [.number digits]) :
    found.token.isNumber = false := by
  have hwritten := h.written
  rw [hfront, List.append_assoc] at hwritten
  exact (written_iff.1 hwritten _ _ _ rfl).2.2 rfl _ rfl

/-- If no group is open, all that were opened have been closed. -/
theorem groupsClosed (h : StopsAt text fault before found later a) (hnone : a.enclosing = []) :
    GroupsClosed (before.map Lexeme.token) := by
  intro front since hfront
  obtain ⟨outside, inside, rfl, rfl, hinside⟩ := List.map_eq_append_iff.1 hfront
  have hrun := h.run_eq
  rw [Assembly.run_append] at hrun
  obtain ⟨a', hrun', -⟩ := bind_eq_ok_iff.1 hrun
  -- the braces that are open before the group are closed behind it, and so is its own
  have hopen := (Assembly.tracks_start.run hrun').braces_eq
  have hclosed := h.tracks.braces_eq
  rw [List.nil_append] at hopen
  rw [List.map_append, hinside, hnone, List.count_append, List.count_append, List.count_cons_self,
    List.count_cons_of_ne (by decide), List.length_nil] at hclosed
  omega

/-- The lexeme at which a fault is found that is always found at one is no number. -/
theorem isNumber_of_isMidway (h : StopsAt text fault before found later a)
    (hmidway : fault.kind.isMidway = true) : found.token.isNumber = false := by
  have hrefuses := Assembly.refuses_of_step h.step_eq
  cases hrefuses with
  | unmatched _ htoken | empty htoken | second htoken | uneven htoken => rw [htoken]; rfl
  | misplaced hprogress htoken => exact absurd hprogress (h.inCount_iff.1 htoken)
  | notNumber _ htoken => exact htoken
  | tooLarge => cases hmidway
  | afterLeast hprogress =>
    obtain ⟨front, n, hfront⟩ := h.gathered.of_least hprogress
    exact h.isNumber_eq_false (hfront.trans (List.append_assoc front [.openParen] _).symm)
  | afterMost hprogress =>
    obtain ⟨front, n, m, hfront⟩ := h.gathered.of_most hprogress
    exact h.isNumber_eq_false
      (hfront.trans (List.append_assoc front [.openParen, .number n, .comma] _).symm)

end StopsAt

/-! ## Tokens that are not expected -/

/-- No token of a repeat count is found outside of one. -/
theorem ne_misplaced (text : String) (found : Lexeme) :
    ofText? text ≠ .error (.misplaced found) := by
  intro h
  obtain ⟨before, found', later, a, hstops⟩ := exists_stopsAt h rfl
  cases Assembly.refuses_of_step hstops.step_eq with
  | misplaced hprogress htoken => exact absurd hprogress (hstops.inCount_iff.1 htoken)
  | uneven _ huneven => cases huneven

/-- A token that is not expected closes a group where none is open. -/
theorem exists_brace_of_kind (h : ofText? text = .error fault)
    (hkind : fault.kind = .unexpectedToken) :
    ∃ before brace later, lexemes text = .ok (before ++ brace :: later) ∧
      brace.token = .closeBrace ∧ GroupsClosed (before.map Lexeme.token) ∧
      fault = .unmatchedBrace brace.span := by
  obtain ⟨before, found, later, a, hstops⟩ := exists_stopsAt h (by rw [hkind]; rfl)
  cases Assembly.refuses_of_step hstops.step_eq with
  | unmatched _ htoken hnone =>
    exact ⟨before, found, later, hstops.lexemes_eq, htoken, hstops.groupsClosed hnone, rfl⟩
  | misplaced => exact absurd h (ne_misplaced text found)
  | uneven _ huneven =>
    have hmidway := Fault.isMidway_of_isUneven huneven
    rw [hkind] at hmidway
    cases hmidway
  | empty | second | notNumber | tooLarge | afterLeast | afterMost => cases hkind

/-- Where another token was expected, a comma or the end of a count stands in place of a number, or
a comma stands where a count has two numbers already. -/
theorem exists_token_of_kind {what : String} (h : ofText? text = .error fault)
    (hkind : fault.kind = .expectedToken what) :
    ∃ before found later, lexemes text = .ok (before ++ found :: later) ∧
      fault.span? = some found.span ∧
      (what = "NUMBER" ∧ (found.token = .comma ∨ found.token = .closeParen) ∨
        what = "')'" ∧ found.token = .comma ∧ ∃ front n m, before.map Lexeme.token =
          front ++ [.openParen, .number n, .comma, .number m]) := by
  obtain ⟨before, found, later, a, hstops⟩ := exists_stopsAt h (by rw [hkind]; rfl)
  have hnumber := hstops.isNumber_of_isMidway (by rw [hkind]; rfl)
  -- inside a count there are only numbers, commas and the end
  have hcount : a.progress ≠ .outside → found.token = .comma ∨ found.token = .closeParen := by
    intro hprogress
    have hin := hstops.inCount_iff.2 hprogress
    cases htoken : found.token <;> simp_all [Token.inCount, Token.isNumber]
  cases Assembly.refuses_of_step hstops.step_eq with
  | notNumber hprogress =>
    obtain rfl := Fault.Kind.expectedToken.inj hkind
    exact ⟨before, found, later, hstops.lexemes_eq, rfl, .inl ⟨rfl, hcount hprogress⟩⟩
  | afterLeast hprogress hcomma hparen =>
    rcases hcount (by simp [hprogress]) with htoken | htoken
    · exact absurd htoken hcomma
    · exact absurd htoken hparen
  | afterMost hprogress hparen =>
    obtain rfl := Fault.Kind.expectedToken.inj hkind
    have htoken := (hcount (by simp [hprogress])).resolve_right hparen
    exact ⟨before, found, later, hstops.lexemes_eq, rfl,
      .inr ⟨rfl, htoken, hstops.gathered.of_most hprogress⟩⟩
  | uneven _ huneven =>
    have hmidway := Fault.isMidway_of_isUneven huneven
    rw [hkind] at hmidway
    cases hmidway
  | unmatched | empty | second | misplaced | tooLarge => cases hkind

end Moniker.Pattern
