import Moniker.Proofs.Pattern.Refusal

/-!
# Reading by descent

A pattern can also be read by functions that call each other: one for the items of a level, one for
a group, one for a repeat count. Each is called where its first token has been seen, and looks at it
once more, so each has a branch for what cannot happen there. None of these branches is ever taken.

* `Stop` — how such a reading ends early, and `Stop.missing`, `Stop.noItem` for what cannot happen;
* `readItems`, `readGroup`, `readCount`, `readShape` — the functions;
* `itemsResume` — to read the items of a level is to take in their lexemes;
* `descend?_eq` — a text is read by descent as it is lexeme by lexeme;
* `tokens_expected` — which tokens of a text are reported where they stand.
-/

namespace Moniker.Pattern

open Text (Span byteLength)

/-- How a reading by descent ends early. -/
inductive Stop where
  /-- something is wrong with the text -/
  | fault (fault : Fault)
  /-- a token is missing that was seen before -/
  | missing (token : Token) (found? : Option Lexeme)
  /-- an item is missing where there has to be one -/
  | noItem

/-- What has been read at the beginning of `size` lexemes, and the lexemes after it. -/
structure Read (α : Type) (size : Nat) where
  value : α
  rest : List Lexeme
  shorter : rest.length < size

/-- The same as something read at the beginning of more lexemes. -/
def Read.within {α : Type} {size size' : Nat} (read : Read α size) (h : size ≤ size') :
    Read α size' :=
  ⟨read.value, read.rest, Nat.lt_of_lt_of_le read.shorter h⟩

/-! ## Tokens and counts -/

/-- Read the token. If something else or nothing is there, `missing` says how to end. -/
def readToken (token : Token) (missing : Option Lexeme → Stop) :
    (found : List Lexeme) → Except Stop (Read Lexeme found.length)
  | [] => .error (missing none)
  | first :: later =>
    if first.token = token then .ok ⟨first, later, Nat.lt_succ_self _⟩
    else .error (missing (some first))

theorem readToken_cons {token : Token} {missing : Option Lexeme → Stop} {first : Lexeme}
    (h : first.token = token) (later : List Lexeme) :
    readToken token missing (first :: later) = .ok ⟨first, later, Nat.lt_succ_self _⟩ :=
  if_pos h

/-- Read a number of the count that is opened by `paren`. -/
def readNumber (paren : Span) : (found : List Lexeme) → Except Stop (Read UInt32 found.length)
  | [] => .error (.fault (.unclosedCount paren))
  | first :: later =>
    match first.token with
    | .number digits =>
      match count? digits with
      | some n => .ok ⟨n, later, Nat.lt_succ_self _⟩
      | none => .error (.fault (.countTooLarge first.span digits))
    | _ => .error (.fault (.expectedNumber first))

/-- Read a comma and a second number, if the comma is there. -/
def readMost (paren : Span) :
    (found : List Lexeme) → Except Stop (Read (Option UInt32) (found.length + 1))
  | [] => .ok ⟨none, [], Nat.lt_succ_self _⟩
  | first :: later =>
    if first.token = .comma then do
      let most ← readNumber paren later
      .ok ⟨some most.value, most.rest, Nat.lt_add_right 2 most.shorter⟩
    else .ok ⟨none, first :: later, Nat.lt_succ_self _⟩

/-- How to end where the end of a count is missing. The last lexeme ends at `size`. -/
def noParen (size : Nat) : Option Lexeme → Stop
  | none => .fault (.unclosedParen size)
  | some found => .fault (.expectedParen found)

/-- Read a repeat count. -/
def readCount (size : Nat) (found : List Lexeme) : Except Stop (Read Quantifier found.length) := do
  let opening ← readToken .openParen (.missing .openParen) found
  let min ← readNumber opening.value.span opening.rest
  let max ← readMost opening.value.span min.rest
  let closing ← readToken .closeParen (noParen size) max.rest
  have shorter : closing.rest.length < found.length := by
    have := opening.shorter
    have := min.shorter
    have := max.shorter
    have := closing.shorter
    omega
  .ok ⟨⟨opening.value.span.join closing.value.span, min.value, max.value⟩, closing.rest, shorter⟩

/-! ## Items and groups -/

/-- The pattern that the items of a level make up, told by how many blocks and counts there are. -/
def readShape (empty : Span → Fault) (span : Span) (items : List Item) : Except Stop Pattern :=
  if weight items = 0 then .error (.fault (empty span))
  else if weight items = 1 then
    match items.getLast? with
    | some (.block block) => .ok (.bare block)
    | some (.quantifier quantifier) => .error (.fault (.strayCount quantifier.span))
    | some (.literal ..) | none => .error .noItem
  else if weight items % 2 = 1 then .error (.fault (.unpaired (weight items) span))
  else
    match pair (.unpaired (weight items) span) items with
    | .error fault => .error (.fault fault)
    | .ok (first :: others) => .ok (.row first others)
    | .ok [] => .error .noItem

mutual

/-- Read items into the level, up to the end of the text or to a brace that closes a group. -/
def readItems (size : Nat) (level : Level) :
    (found : List Lexeme) → Except Stop (Read Level (found.length + 1))
  | [] => .ok ⟨level, [], Nat.lt_succ_self _⟩
  | first :: later =>
    match first.token with
    | .closeBrace => .ok ⟨level, first :: later, Nat.lt_succ_self _⟩
    | .literal text => do
      let items ← readItems size (level.push (.literal first.span text)) later
      .ok (items.within (Nat.le_succ _))
    | .flags flags => do
      let items ← readItems size (level.push (.block (.charClass first.span flags))) later
      .ok (items.within (Nat.le_succ _))
    | .openBrace => do
      let group ← readGroup size (first :: later)
      let level ← (level.pushGroup group.value.1 group.value.2).mapError .fault
      have shorter : group.rest.length < later.length + 1 := group.shorter
      let items ← readItems size level group.rest
      .ok (items.within (Nat.le_succ_of_le shorter))
    | .openParen => do
      let count ← readCount size (first :: later)
      have shorter : count.rest.length < later.length + 1 := count.shorter
      let items ← readItems size (level.push (.quantifier count.value)) count.rest
      .ok (items.within (Nat.le_succ_of_le shorter))
    | .closeParen | .comma | .number _ => .error (.fault (.misplaced first))
termination_by found => (found.length, 1)

/-- Read a group. -/
def readGroup (size : Nat) (found : List Lexeme) :
    Except Stop (Read (Span × Pattern) found.length) := do
  let opening ← readToken .openBrace (.missing .openBrace) found
  have opened : opening.rest.length < found.length := opening.shorter
  let items ← readItems size .empty opening.rest
  if items.rest = [] then .error (.fault (.unclosedGroup opening.value.span))
  let closing ← readToken .closeBrace (.missing .closeBrace) items.rest
  let body ← readShape .emptyGroup ⟨opening.value.span.stop, closing.value.span.start⟩
    items.value.items.reverse
  have shorter : closing.rest.length < found.length := by
    have := items.shorter
    have := closing.shorter
    omega
  .ok ⟨(opening.value.span.join closing.value.span, body), closing.rest, shorter⟩
termination_by (found.length, 0)

end

/-- Where the last lexeme ends. -/
def lastStop (found : List Lexeme) : Nat := (found.getLast?.map (·.span.stop)).getD 0

/-- The pattern that a text says, read by descent. -/
def descend? (text : String) : Except Stop Pattern := do
  let found ← (lexemes text).mapError (.fault ∘ .lexical)
  let items ← readItems (lastStop found) .empty found
  match items.rest with
  | [] => readShape .emptyPattern ⟨0, byteLength text.toList⟩ items.value.items.reverse
  | first :: _ => .error (.fault (.unmatchedBrace first.span))

/-! ## Levels -/

theorem pair_ne_nil {odd : Fault} {item : Item} {items : List Item} :
    pair odd (item :: items) ≠ .ok [] := by
  intro h
  match item, items with
  | .literal .., items =>
    obtain ⟨_, -, hnil⟩ := map_eq_ok_iff.1 h
    cases hnil
  | .block _, .quantifier _ :: items =>
    obtain ⟨_, -, hnil⟩ := map_eq_ok_iff.1 h
    cases hnil
  | .block _, [] | .block _, .literal .. :: _ | .block _, .block _ :: _ => cases h
  | .quantifier _, _ => cases h

theorem Item.weight_pos (item : Item) : 0 < item.weight := by
  cases item <;> simp [weight]

theorem weight_eq_zero_iff {items : List Item} : weight items = 0 ↔ items = [] := by
  cases items with
  | nil => exact iff_of_true rfl rfl
  | cons item items =>
    refine iff_of_false ?_ (List.cons_ne_nil _ _)
    exact Nat.ne_of_gt (Nat.add_pos_left item.weight_pos _)

/-- A lone block or count is the only item of its number. -/
theorem weight_eq_one_iff {items : List Item} :
    weight items = 1 ↔
      (∃ block, items = [.block block]) ∨ ∃ count, items = [.quantifier count] := by
  refine ⟨?_, ?_⟩
  · intro h
    match items with
    | [.block block] => exact .inl ⟨block, rfl⟩
    | [.quantifier count] => exact .inr ⟨count, rfl⟩
    | .literal .. :: items => simp only [weight, Item.weight] at h; omega
    | first :: second :: items =>
      have hfirst := first.weight_pos
      have hsecond := second.weight_pos
      simp only [weight] at h
      omega
  · rintro (⟨block, rfl⟩ | ⟨count, rfl⟩) <;> rfl

/-- The number of blocks and counts tells the shapes apart, and none is left over. -/
theorem readShape_eq (empty : Span → Fault) (span : Span) (items : List Item) :
    readShape empty span items = (shape empty span items).mapError .fault := by
  unfold shape
  split
  · rfl
  · rfl
  · next hblock hquantifier =>
    have hone : weight items ≠ 1 := by
      rw [Ne, weight_eq_one_iff]
      rintro (⟨block, rfl⟩ | ⟨count, rfl⟩)
      · exact hblock block rfl
      · exact hquantifier count rfl
    cases items with
    | nil => rfl
    | cons first items =>
      rw [readShape, if_neg (mt weight_eq_zero_iff.1 (List.cons_ne_nil _ _)), if_neg hone]
      split
      · rfl
      · dsimp only
        rcases hpair : pair _ (first :: items) with fault | _ | ⟨piece, pieces⟩
        · rfl
        · exact absurd hpair pair_ne_nil
        · rfl

/-! ## Numbers and counts are taken in -/

/-- What the lexemes come to after what has been gathered. -/
def resume (size : Nat) (a : Assembly) (found : List Lexeme) : Except Stop Pattern :=
  (a.run found >>= (·.finish size)).mapError .fault

variable {size : Nat} {a : Assembly} {paren : Span}

theorem resume_cons (first : Lexeme) (later : List Lexeme) :
    resume size a (first :: later) =
      (a.step first).mapError .fault >>= fun next => resume size next later := by
  rw [resume, Assembly.run_cons]
  rcases a.step first with fault | next <;> rfl

theorem resume_nil {fault : Fault} (h : a.finish size = .error fault) :
    resume size a [] = .error (.fault fault) := by
  rw [resume, Assembly.run_nil]
  exact congrArg (Except.mapError Stop.fault) h

/-- To read a number is to take it in. -/
theorem readNumber_bind {next : UInt32 → Progress}
    (hstep : ∀ first, a.step first = a.takeNumber first next)
    (hfinish : a.finish size = .error (.unclosedCount paren)) (found : List Lexeme) :
    (readNumber paren found >>= fun n => resume size { a with progress := next n.value } n.rest) =
      resume size a found := by
  cases found with
  | nil =>
    rw [resume_nil hfinish]
    rfl
  | cons first later =>
    rw [resume_cons, hstep, readNumber, Assembly.takeNumber]
    cases first.token with
    | number digits =>
      dsimp only
      rcases count? digits with _ | n <;> rfl
    | _ => rfl

/-- To read the end of a count is to take it in, where nothing else can come. -/
theorem readClosing_bind (count : Span → Quantifier) {found : List Lexeme}
    (hstep : ∀ first ∈ found.head?, a.step first = if first.token = .closeParen
      then .ok (a.push (.quantifier (count first.span))) else .error (.expectedParen first))
    (hfinish : a.finish size = .error (.unclosedParen size)) :
    (readToken .closeParen (noParen size) found >>= fun closing =>
      resume size (a.push (.quantifier (count closing.value.span))) closing.rest) =
      resume size a found := by
  cases found with
  | nil =>
    rw [resume_nil hfinish]
    rfl
  | cons first later =>
    rw [resume_cons, hstep first rfl, readToken]
    split <;> rfl

variable {level : Level} {enclosing : List (Span × Level)} {min : UInt32}

/-- Behind the first number and no comma, to read the end of a count is to take it in. -/
theorem readClosing_bind_least (found : List Lexeme)
    (hcomma : ∀ first ∈ found.head?, first.token ≠ .comma) :
    (readToken .closeParen (noParen size) found >>= fun closing =>
      resume size ⟨.outside, level.push (.quantifier ⟨paren.join closing.value.span, min, none⟩),
        enclosing⟩ closing.rest) =
      resume size ⟨.least paren min, level, enclosing⟩ found := by
  refine readClosing_bind (a := ⟨.least paren min, level, enclosing⟩)
    (fun span => ⟨paren.join span, min, none⟩) ?_ rfl
  intro first hfirst
  cases htoken : first.token with
  | comma => exact absurd htoken (hcomma first hfirst)
  | _ => simp [Assembly.step, htoken]

/-- Behind the second number, to read the end of a count is to take it in. -/
theorem readClosing_bind_most {max : UInt32} (found : List Lexeme) :
    (readToken .closeParen (noParen size) found >>= fun closing =>
      resume size ⟨.outside, level.push (.quantifier
        ⟨paren.join closing.value.span, min, some max⟩), enclosing⟩ closing.rest) =
      resume size ⟨.most paren min max, level, enclosing⟩ found := by
  refine readClosing_bind (a := ⟨.most paren min max, level, enclosing⟩)
    (fun span => ⟨paren.join span, min, some max⟩) ?_ rfl
  intro first _
  cases htoken : first.token with
  | _ => simp [Assembly.step, htoken]

/-- To read what stands behind the first number of a count is to take it in. -/
theorem readMost_bind (found : List Lexeme) :
    (readMost paren found >>= fun max =>
      readToken .closeParen (noParen size) max.rest >>= fun closing =>
        resume size ⟨.outside, level.push (.quantifier
          ⟨paren.join closing.value.span, min, max.value⟩), enclosing⟩ closing.rest) =
      resume size ⟨.least paren min, level, enclosing⟩ found := by
  cases found with
  | nil => exact readClosing_bind_least [] (by simp)
  | cons first later =>
    rw [readMost]
    split
    · next hcomma =>
      have hstep : Assembly.step ⟨.least paren min, level, enclosing⟩ first =
          .ok ⟨.separated paren min, level, enclosing⟩ := by
        simp only [Assembly.step, hcomma]
      rw [resume_cons, hstep, bind_assoc]
      show (readNumber paren later >>= fun most => _) =
        resume size ⟨.separated paren min, level, enclosing⟩ later
      rw [← readNumber_bind (fun _ => rfl) rfl later]
      congr 1
      funext most
      exact readClosing_bind_most most.rest
    · next hcomma => exact readClosing_bind_least (first :: later) (by simpa using hcomma)

/-- To read a repeat count is to take its lexemes in. -/
theorem readCount_bind {first : Lexeme} (htoken : first.token = .openParen)
    (later : List Lexeme) :
    (readCount size (first :: later) >>= fun count =>
      resume size ⟨.outside, level.push (.quantifier count.value), enclosing⟩ count.rest) =
      resume size ⟨.outside, level, enclosing⟩ (first :: later) := by
  have hstep : Assembly.step ⟨.outside, level, enclosing⟩ first =
      .ok ⟨.opened first.span, level, enclosing⟩ := by
    simp only [Assembly.step, Assembly.stepOutside, htoken]
  rw [resume_cons, hstep, readCount, readToken_cons htoken]
  simp only [bind_assoc]
  show (readNumber first.span later >>= fun min => _) =
    resume size ⟨.opened first.span, level, enclosing⟩ later
  rw [← readNumber_bind (fun _ => rfl) rfl later]
  congr 1
  funext min
  exact readMost_bind min.rest

/-! ## Items and groups are taken in -/

/-- The lexemes are at their end, or a brace comes next that closes a group. -/
def LevelEnds (rest : List Lexeme) : Prop := ∀ next ∈ rest.head?, next.token = .closeBrace

theorem levelEnds_of_within {n m : Nat} {read : Except Stop (Read Level n)} {h : n ≤ m}
    {items : Read Level m} (hitems : (read >>= fun r => .ok (r.within h)) = .ok items)
    (hread : ∀ r, read = .ok r → LevelEnds r.rest) : LevelEnds items.rest := by
  obtain ⟨r, hr, hitems⟩ := bind_eq_ok_iff.1 hitems
  obtain rfl := Except.ok.inj hitems
  exact hread r hr

/-- Reading items ends where the level does. -/
theorem levelEnds_of_readItems (level : Level) (found : List Lexeme) :
    ∀ items, readItems size level found = .ok items → LevelEnds items.rest := by
  refine readItems.induct
    (fun level found => ∀ items, readItems size level found = .ok items → LevelEnds items.rest)
    (fun _ => True) ?nil ?closeBrace ?literal ?flags ?openBrace ?openParen ?closeParen ?comma
    ?number ?group level found
  case nil =>
    intro level items h
    rw [readItems] at h
    obtain rfl := Except.ok.inj h
    simp [LevelEnds]
  case closeBrace =>
    intro level first later htoken items h
    simp only [readItems, htoken] at h
    obtain rfl := Except.ok.inj h
    simpa [LevelEnds] using htoken
  case literal | flags =>
    intro level first later body htoken ih items h
    simp only [readItems, htoken] at h
    exact levelEnds_of_within h ih
  case openBrace =>
    intro level first later htoken _ ih items h
    simp only [readItems, htoken] at h
    obtain ⟨group, -, h⟩ := bind_eq_ok_iff.1 h
    obtain ⟨outer, -, h⟩ := bind_eq_ok_iff.1 h
    exact levelEnds_of_within h (ih group outer)
  case openParen =>
    intro level first later htoken ih items h
    simp only [readItems, htoken] at h
    obtain ⟨count, -, h⟩ := bind_eq_ok_iff.1 h
    exact levelEnds_of_within h (ih count)
  case closeParen | comma =>
    intro level first later htoken items h
    simp [readItems, htoken] at h
  case number =>
    intro level first later digits htoken items h
    simp [readItems, htoken] at h
  case group => exact fun _ _ => trivial

/-- To read the items of a level and go on behind them is to take in all lexemes. -/
def ItemsResume (size : Nat) (level : Level) (found : List Lexeme) : Prop :=
  ∀ enclosing, (readItems size level found >>= fun items =>
    resume size ⟨.outside, items.value, enclosing⟩ items.rest) =
      resume size ⟨.outside, level, enclosing⟩ found

/-- To read a group and go on behind it is to take in all lexemes, if a brace opens there. -/
def GroupResumes (size : Nat) (found : List Lexeme) : Prop :=
  ∀ brace ∈ found.head?, brace.token = .openBrace → ∀ (level : Level) enclosing,
    (readGroup size found >>= fun group =>
      (level.pushGroup group.value.1 group.value.2).mapError .fault >>= fun level =>
        resume size ⟨.outside, level, enclosing⟩ group.rest) =
      resume size ⟨.outside, level, enclosing⟩ found

/-- A group is read by its items, of which none is missing, and by its closing brace. -/
theorem groupResumes {found : List Lexeme}
    (ih : ∀ opening : Read Lexeme found.length, ItemsResume size .empty opening.rest) :
    GroupResumes size found := by
  intro brace hbrace htoken level enclosing
  obtain ⟨later, rfl⟩ := List.head?_eq_some_iff.1 hbrace
  have hstep : Assembly.step ⟨.outside, level, enclosing⟩ brace =
      .ok ⟨.outside, .empty, (brace.span, level) :: enclosing⟩ := by
    simp only [Assembly.step, Assembly.stepOutside, htoken]
  rw [resume_cons, hstep, readGroup, readToken_cons htoken]
  show _ = resume size ⟨.outside, .empty, (brace.span, level) :: enclosing⟩ later
  rw [← ih ⟨brace, later, Nat.lt_succ_self _⟩ ((brace.span, level) :: enclosing)]
  -- behind the items of the group nothing comes, or its closing brace
  dsimp only [bind, Except.bind]
  rcases hitems : readItems size .empty later with stop | ⟨body, rest, shorter⟩
  · rfl
  have hend := levelEnds_of_readItems _ _ _ hitems
  cases rest with
  | nil => rfl
  | cons closing rest =>
    have hclosing : closing.token = .closeBrace := hend closing rfl
    have hstep : Assembly.step ⟨.outside, body, (brace.span, level) :: enclosing⟩ closing =
        Assembly.closeGroup ⟨.outside, body, (brace.span, level) :: enclosing⟩ closing.span := by
      simp only [Assembly.step, Assembly.stepOutside, hclosing]
    dsimp only
    rw [resume_cons, hstep, Assembly.closeGroup, if_neg (List.cons_ne_nil _ _),
      readToken_cons hclosing]
    dsimp only [Level.shape]
    rw [readShape_eq]
    rcases shape .emptyGroup ⟨brace.span.stop, closing.span.start⟩ body.items.reverse with
      fault | pattern
    · rfl
    · dsimp only [Except.mapError]
      simp only [bind, Except.bind]
      rcases level.pushGroup (brace.span.join closing.span) pattern with fault | outer <;> rfl

/-- To read the items of a level is to take in their lexemes. The levels around it are not looked at
before it ends, so they may be any. -/
theorem itemsResume (level : Level) (found : List Lexeme) : ItemsResume size level found := by
  refine readItems.induct (ItemsResume size) (GroupResumes size) ?nil ?closeBrace ?literal ?flags
    ?openBrace ?openParen ?closeParen ?comma ?number ?group level found
  case nil =>
    intro level enclosing
    rw [readItems]
    rfl
  case closeBrace =>
    intro level first later htoken enclosing
    simp only [readItems, htoken]
    rfl
  case literal | flags =>
    intro level first later body htoken ih enclosing
    simp only [readItems, htoken, bind_assoc]
    rw [resume_cons]
    simp only [Assembly.step, Assembly.stepOutside, htoken]
    exact ih enclosing
  case openBrace =>
    intro level first later htoken hgroup ih enclosing
    rw [← hgroup first rfl htoken level enclosing]
    simp only [readItems, htoken, bind_assoc]
    congr 1
    funext group
    congr 1
    funext outer
    exact ih group outer enclosing
  case openParen =>
    intro level first later htoken ih enclosing
    rw [← readCount_bind htoken later]
    simp only [readItems, htoken, bind_assoc]
    congr 1
    funext count
    exact ih count enclosing
  case closeParen | comma =>
    intro level first later htoken enclosing
    rw [resume_cons]
    simp only [readItems, Assembly.step, Assembly.stepOutside, htoken]
    rfl
  case number =>
    intro level first later digits htoken enclosing
    rw [resume_cons]
    simp only [readItems, Assembly.step, Assembly.stepOutside, htoken]
    rfl
  case group => exact fun found ih => groupResumes ih

/-! ## Texts -/

variable {text : String}

/-- The last lexeme of a text ends where the text does. -/
theorem lastStop_of_lexemes {found : List Lexeme} (h : lexemes text = .ok found) :
    lastStop found = byteLength text.toList := by
  obtain ⟨tokens, -, htext, rfl⟩ := lexemes_eq_ok_iff.1 h
  rw [← htext]
  rcases List.eq_nil_or_concat tokens with rfl | ⟨front, last, rfl⟩
  · rfl
  · rw [List.concat_eq_append, lexemesAt_append, lastStop, lexemesAt, lexemesAt,
      List.getLast?_concat, List.flatMap_append, Text.byteLength_append, Nat.zero_add]
    show _ + byteLength last.source = _
    rw [List.flatMap_singleton]

/-- A text is read by descent as it is lexeme by lexeme. -/
theorem descend?_eq (text : String) : descend? text = (ofText? text).mapError .fault := by
  rw [descend?, ofText?]
  rcases hread : lexemes text with e | found
  · rfl
  · show (readItems (lastStop found) .empty found >>= _) =
      resume (byteLength text.toList) .start found
    rw [lastStop_of_lexemes hread, Assembly.start, ← itemsResume .empty found []]
    rcases hitems : readItems (byteLength text.toList) .empty found with stop | ⟨top, rest, shorter⟩
    · rfl
    cases rest with
    | nil => exact readShape_eq _ _ _
    | cons first later =>
      have htoken : first.token = .closeBrace := levelEnds_of_readItems _ _ _ hitems first rfl
      show _ = resume _ _ (first :: later)
      rw [resume_cons]
      simp only [Assembly.step, Assembly.stepOutside, htoken]
      rfl

/-- **What a reading by descent never meets.** By descent a text is read as it is lexeme by lexeme,
so no token is missing where it is looked at again, no level is without the item that it is said to
have, and nothing but items and braces is met between items. Of all tokens that may stand in the
wrong place only these are reported: a brace that closes a group where none is open; a comma or the
end of a count in place of a number; and a comma behind the two numbers of a count. -/
theorem tokens_expected (text : String) :
    descend? text = (ofText? text).mapError .fault ∧
    (∀ token found?, descend? text ≠ .error (.missing token found?)) ∧
    descend? text ≠ .error .noItem ∧
    (∀ found, descend? text ≠ .error (.fault (.misplaced found))) ∧
    ∀ fault, ofText? text = .error fault →
      (fault.kind = .unexpectedToken → fault.text = "unmatched '\x7d'" ∧
        ∃ before brace later, lexemes text = .ok (before ++ brace :: later) ∧
          brace.token = .closeBrace ∧ GroupsClosed (before.map Lexeme.token) ∧
          fault.span? = some brace.span) ∧
      ∀ what, fault.kind = .expectedToken what →
        ∃ before found later, lexemes text = .ok (before ++ found :: later) ∧
          fault.span? = some found.span ∧
          (what = "NUMBER" ∧ (found.token = .comma ∨ found.token = .closeParen) ∨
            what = "')'" ∧ found.token = .comma ∧ ∃ front n m, before.map Lexeme.token =
              front ++ [.openParen, .number n, .comma, .number m]) := by
  have hfault : ∀ stop, descend? text = .error stop →
      ∃ fault, ofText? text = .error fault ∧ stop = .fault fault := by
    intro stop h
    rw [descend?_eq] at h
    exact mapError_eq_error_iff.1 h
  refine ⟨descend?_eq text, ?_, ?_, ?_, ?_⟩
  · intro token found? h
    obtain ⟨fault, -, hstop⟩ := hfault _ h
    cases hstop
  · intro h
    obtain ⟨fault, -, hstop⟩ := hfault _ h
    cases hstop
  · intro found h
    obtain ⟨fault, hread, hstop⟩ := hfault _ h
    obtain rfl := Stop.fault.inj hstop
    exact ne_misplaced text found hread
  · intro fault h
    refine ⟨?_, fun what hkind => exists_token_of_kind h hkind⟩
    intro hkind
    obtain ⟨before, brace, later, hread, htoken, hclosed, rfl⟩ := exists_brace_of_kind h hkind
    exact ⟨rfl, before, brace, later, hread, htoken, hclosed, rfl⟩

/-- Three numbers in one count are reported at the second comma, and a brace too many where it
stands. -/
theorem tokens_expected_third :
    descend? "[1000](1,2,3)" = .error (.fault (.expectedParen ⟨.comma, ⟨10, 11⟩⟩)) ∧
      ∃ before brace later, lexemes "\x7b<é>\x7d\x7d" = .ok (before ++ brace :: later) ∧
        brace.token = .closeBrace ∧ GroupsClosed (before.map Lexeme.token) ∧
        brace.span = ⟨6, 7⟩ := by
  have hthird : ofText? "[1000](1,2,3)" = .error (.expectedParen ⟨.comma, ⟨10, 11⟩⟩) := by
    have hread : lexemes "[1000](1,2,3)" = .ok (lexemesAt 0 [.flags "1000", .openParen,
      .number "1", .comma, .number "2", .comma, .number "3", .closeParen]) := by decide +kernel
    rw [ofText?, hread]
    rfl
  have hbrace : ofText? "\x7b<é>\x7d\x7d" = .error (.unmatchedBrace ⟨6, 7⟩) := by
    have hread : lexemes "\x7b<é>\x7d\x7d" = .ok (lexemesAt 0 [.openBrace, .literal "é",
      .closeBrace, .closeBrace]) := by decide +kernel
    rw [ofText?, hread]
    rfl
  obtain ⟨hdescend, -⟩ := tokens_expected "[1000](1,2,3)"
  obtain ⟨-, -, -, -, hfaults⟩ := tokens_expected "\x7b<é>\x7d\x7d"
  obtain ⟨-, before, brace, later, hread, htoken, hclosed, hspan⟩ := (hfaults _ hbrace).1 rfl
  refine ⟨?_, before, brace, later, hread, htoken, hclosed, (Option.some.inj hspan).symm⟩
  rw [hdescend, hthird]
  rfl

end Moniker.Pattern
