import Moniker.Proofs.Pattern.Tiling
import Moniker.Proofs.Tree.Meaning

/-!
# Why a text has no tree

A text has no tree if it is no pattern, or if the flags of a class in it are wrong. The classes are
looked at while the nodes are made, group by group, which is also the order in which they stand in
the text.

* `Pattern.classes` — the classes of a pattern at all depths;
* `ClassBlock.Valid` — what the flags of a class have to be;
* `Tree.ofPattern?_eq_error_iff` — making a tree stops at the first class that is wrong;
* `Tree.compile_error_iff` — which error a text without a tree has.
-/

namespace Moniker

open Text (Span StandsAt Tile)

namespace Pattern

/-! ## Classes -/

/-- A class as it is written: the bytes that it takes, and what stands between its brackets. -/
structure ClassBlock where
  span : Span
  flags : String

mutual

/-- The classes in a block, at all depths. -/
def Block.classes : Block → List ClassBlock
  | .charClass span flags => [⟨span, flags⟩]
  | .group _ body => body.classes

/-- The classes in a piece. -/
def Piece.classes : Piece → List ClassBlock
  | .literal .. => []
  | .repeated block _ => block.classes

/-- The classes in a pattern. -/
def classes : Pattern → List ClassBlock
  | .bare block => block.classes
  | .row first others => first.classes ++ rowClasses others

/-- The classes in a row. -/
def rowClasses : List Piece → List ClassBlock
  | [] => []
  | piece :: pieces => piece.classes ++ rowClasses pieces

end

/-- The flags are four, each of them `0` or `1`, and one is set. -/
def ClassBlock.Valid (c : ClassBlock) : Prop :=
  c.flags.toList.length = 4 ∧ (∀ flag ∈ c.flags.toList, flag = '0' ∨ flag = '1') ∧
    '1' ∈ c.flags.toList

/-! ### Where they stand -/

mutual

theorem Block.shows_classes {text : List Char} :
    (block : Block) → block.Placed text →
      ∀ c ∈ block.classes, c.span.Shows text ('[' :: (c.flags.toList ++ [']']))
  | .charClass span flags, h, c, hc => by
    obtain rfl := List.mem_singleton.1 hc
    exact h
  | .group _ body, ⟨_, _, hbody⟩, c, hc => shows_classes body hbody c hc

theorem Piece.shows_classes {text : List Char} :
    (piece : Piece) → piece.Placed text →
      ∀ c ∈ piece.classes, c.span.Shows text ('[' :: (c.flags.toList ++ [']']))
  | .literal .., _, _, hc => absurd hc List.not_mem_nil
  | .repeated block _, ⟨hblock, _⟩, c, hc => Block.shows_classes block hblock c hc

/-- Under the stretch of a class stand its flags in brackets. -/
theorem shows_classes {text : List Char} :
    (p : Pattern) → p.Placed text →
      ∀ c ∈ p.classes, c.span.Shows text ('[' :: (c.flags.toList ++ [']']))
  | .bare block, h, c, hc => Block.shows_classes block h c hc
  | .row first others, ⟨hfirst, hothers⟩, c, hc => by
    rcases List.mem_append.1 hc with hc | hc
    · exact Piece.shows_classes first hfirst c hc
    · exact shows_rowClasses others hothers c hc

theorem shows_rowClasses {text : List Char} :
    (pieces : List Piece) → RowPlaced text pieces →
      ∀ c ∈ rowClasses pieces, c.span.Shows text ('[' :: (c.flags.toList ++ [']']))
  | [], _, _, hc => absurd hc List.not_mem_nil
  | piece :: pieces, ⟨hpiece, hpieces⟩, c, hc => by
    rcases List.mem_append.1 hc with hc | hc
    · exact Piece.shows_classes piece hpiece c hc
    · exact shows_rowClasses pieces hpieces c hc

end

mutual

theorem Block.classes_sublist_leaves :
    (block : Block) → (block.classes.map ClassBlock.span).Sublist block.leaves
  | .charClass .. => .refl _
  | .group _ body => ((classes_sublist_leaves body).trans (List.sublist_append_left _ _)).cons _

theorem Piece.classes_sublist_leaves :
    (piece : Piece) → (piece.classes.map ClassBlock.span).Sublist piece.leaves
  | .literal .. => List.nil_sublist _
  | .repeated block _ => (Block.classes_sublist_leaves block).trans (List.sublist_append_left _ _)

/-- The classes are among the parts that fill a pattern, and in the order of these. -/
theorem classes_sublist_leaves :
    (p : Pattern) → (p.classes.map ClassBlock.span).Sublist p.leaves
  | .bare block => Block.classes_sublist_leaves block
  | .row first others => by
    rw [classes, List.map_append]
    exact (Piece.classes_sublist_leaves first).append (rowClasses_sublist_leaves others)

theorem rowClasses_sublist_leaves :
    (pieces : List Piece) → ((rowClasses pieces).map ClassBlock.span).Sublist (rowLeaves pieces)
  | [] => .refl _
  | piece :: pieces => by
    rw [rowClasses, List.map_append]
    exact (Piece.classes_sublist_leaves piece).append (rowClasses_sublist_leaves pieces)

end

variable {text : String} {p : Pattern}

/-- The classes of a text stand in it one behind the other. -/
theorem pairwise_classes (h : ofText? text = .ok p) :
    p.classes.Pairwise fun a b => a.span.stop ≤ b.span.start := by
  have hleaves := tile_leaves p (placed_of_ofText? h) (tile_of_ofText? h)
  exact List.pairwise_map.1 (hleaves.pairwise.sublist p.classes_sublist_leaves)

end Pattern

/-! ## Flags -/

/-- There is a class for the flags if they are valid. -/
theorem CharClass.exists_ofFlags?_iff {flags : List Char} :
    (∃ cls, ofFlags? flags = .ok cls) ↔
      flags.length = 4 ∧ (∀ flag ∈ flags, flag = '0' ∨ flag = '1') ∧ '1' ∈ flags := by
  simp only [ofFlags?_eq_ok]
  refine ⟨?_, ?_⟩
  · rintro ⟨cls, hlength, hflags, hpools⟩
    refine ⟨hlength, hflags, ?_⟩
    -- a pool of the class is one whose flag is set
    obtain ⟨pool, hpool⟩ := List.exists_mem_of_ne_nil _ cls.nonempty
    rw [hpools, List.mem_filter, decide_eq_true_eq, mem_chosen] at hpool
    exact (List.of_mem_zip hpool.2).1
  · rintro ⟨hlength, hflags, hone⟩
    have hzip : (flags.zip Pool.all).map Prod.fst = flags :=
      List.map_fst_zip (Nat.le_of_eq hlength)
    rw [← hzip] at hone
    obtain ⟨⟨_, pool⟩, hpool, rfl⟩ := List.mem_map.1 hone
    have hne : Pool.all.filter (· ∈ chosen flags) ≠ [] := by
      apply List.ne_nil_of_mem
      exact List.mem_filter.2 ⟨pool.mem_all, decide_eq_true (mem_chosen.2 hpool)⟩
    exact ⟨⟨_, List.filter_sublist, hne⟩, hlength, hflags, rfl⟩

namespace Tree

open Pattern (Block Piece ClassBlock)

/-- What is wrong with a class. -/
def classError? (c : ClassBlock) : Option ClassError :=
  match classOf? c.span.start c.flags with
  | .error e => some e
  | .ok _ => none

variable {e : ClassError}

theorem classError?_eq_some_iff {c : ClassBlock} :
    classError? c = some e ↔ classOf? c.span.start c.flags = .error e := by
  rw [classError?]
  cases classOf? c.span.start c.flags <;> simp

theorem classError?_eq_none_iff {c : ClassBlock} : classError? c = none ↔ c.Valid := by
  have hclass : ∀ cls, CharClass.ofFlags? c.flags.toList = .ok cls ↔
      classOf? c.span.start c.flags = .ok cls := fun _ => classOf?_eq_ok.symm
  rw [classError?, ClassBlock.Valid, ← CharClass.exists_ofFlags?_iff]
  simp only [hclass]
  cases classOf? c.span.start c.flags <;> simp

/-- What is reported of a class is where it begins, and its flags. -/
theorem of_classError?_eq_some {c : ClassBlock} (h : classError? c = some e) :
    e.offset = c.span.start ∧ e.flags = c.flags ∧ ¬ c.Valid := by
  refine ⟨?_, ?_, ?_⟩
  · obtain ⟨fault, -, rfl⟩ := mapError_eq_error_iff.1 (classError?_eq_some_iff.1 h)
    rfl
  · obtain ⟨fault, -, rfl⟩ := mapError_eq_error_iff.1 (classError?_eq_some_iff.1 h)
    rfl
  · rw [← classError?_eq_none_iff, h]
    exact Option.some_ne_none e

/-- The first class that is wrong. -/
def firstError? (classes : List ClassBlock) : Option ClassError := classes.findSome? classError?

theorem firstError?_append (classes later : List ClassBlock) :
    firstError? (classes ++ later) = (firstError? classes).or (firstError? later) :=
  List.findSome?_append

/-! ## Nodes -/

mutual

/-- Making the node of a block stops at the first class that is wrong. -/
theorem nodeOfBlock?_eq_error_iff {range : Range} {e : ClassError} :
    (block : Block) → (nodeOfBlock? range block = .error e ↔ firstError? block.classes = some e)
  | .charClass span flags => by
    rw [nodeOfBlock?, map_eq_error_iff, Block.classes, firstError?, List.findSome?_singleton,
      classError?_eq_some_iff]
  | .group _ body => nodeOfBody?_eq_error_iff body

theorem nodeOfBody?_eq_error_iff {range : Range} {e : ClassError} :
    (body : Pattern) → (nodeOfBody? range body = .error e ↔ firstError? body.classes = some e)
  | .bare block => nodeOfBlock?_eq_error_iff block
  | .row first others => by
    rw [nodeOfBody?, Pattern.classes, firstError?_append]
    apply bind_eq_error_iff_or
    · intro e
      exact nodeOfPiece?_eq_error_iff first
    · intro node _ e
      rw [← nodesOfPieces?_eq_error_iff others, bind_eq_error_iff]
      simp

theorem nodeOfPiece?_eq_error_iff {e : ClassError} :
    (piece : Piece) → (nodeOfPiece? piece = .error e ↔ firstError? piece.classes = some e)
  | .literal _ text => by simp [nodeOfPiece?, Piece.classes, firstError?]
  | .repeated block _ => nodeOfBlock?_eq_error_iff block

theorem nodesOfPieces?_eq_error_iff {e : ClassError} :
    (pieces : List Piece) →
      (nodesOfPieces? pieces = .error e ↔ firstError? (Pattern.rowClasses pieces) = some e)
  | [] => by simp [nodesOfPieces?, Pattern.rowClasses, firstError?]
  | piece :: pieces => by
    rw [nodesOfPieces?, Pattern.rowClasses, firstError?_append]
    apply bind_eq_error_iff_or
    · intro e
      exact nodeOfPiece?_eq_error_iff piece
    · intro node _ e
      rw [← nodesOfPieces?_eq_error_iff pieces, bind_eq_error_iff]
      simp

end

/-- Making the tree of a pattern stops at the first class that is wrong. -/
theorem ofPattern?_eq_error_iff :
    (p : Pattern) → (ofPattern? p = .error e ↔ firstError? p.classes = some e)
  | .bare (.group _ body) => ofPattern?_eq_error_iff body
  | .bare (.charClass span flags) => by
    rw [ofPattern?, map_eq_error_iff]
    exact nodeOfBlock?_eq_error_iff _
  | .row first others => by
    rw [ofPattern?, Pattern.classes, firstError?_append]
    apply bind_eq_error_iff_or
    · intro e
      exact nodeOfPiece?_eq_error_iff first
    · intro node _ e
      rw [← nodesOfPieces?_eq_error_iff others, bind_eq_error_iff]
      simp

/-! ## Texts -/

variable {text : String} {p : Pattern}

/-- A text that is no pattern is reported as such, with its fault. -/
theorem compile_of_ofText?_error {fault : Pattern.Fault} (h : Pattern.ofText? text = .error fault) :
    compile text = .error (.malformed text fault) := by
  rw [compile, h]
  rfl

/-- The tree of a text that is a pattern is that of the pattern. -/
theorem compile_of_ofText? (h : Pattern.ofText? text = .ok p) :
    compile text = (ofPattern? p).mapError (.badClass text) := by
  rw [compile, h]
  rfl

/-- A text that is no pattern is reported as such, and no other text is. -/
theorem compile_eq_malformed_iff {text' : String} {fault : Pattern.Fault} :
    compile text = .error (.malformed text' fault) ↔
      text' = text ∧ Pattern.ofText? text = .error fault := by
  rcases hread : Pattern.ofText? text with fault' | p
  · rw [compile_of_ofText?_error hread]
    simp [eq_comm]
  · rw [compile_of_ofText? hread, mapError_eq_error_iff]
    simp

/-- A class is reported if it is the first of the pattern that is wrong. -/
theorem compile_eq_badClass_iff {text' : String} (h : Pattern.ofText? text = .ok p) :
    compile text = .error (.badClass text' e) ↔ text' = text ∧ firstError? p.classes = some e := by
  rw [compile_of_ofText? h, mapError_eq_error_iff]
  refine ⟨?_, ?_⟩
  · rintro ⟨e', he, herror⟩
    obtain ⟨rfl, rfl⟩ := CompileError.badClass.inj herror
    exact ⟨rfl, (ofPattern?_eq_error_iff p).1 he⟩
  · rintro ⟨rfl, he⟩
    exact ⟨e, (ofPattern?_eq_error_iff p).2 he, rfl⟩

theorem firstError?_eq_none_iff {classes : List ClassBlock} :
    firstError? classes = none ↔ ∀ c ∈ classes, c.Valid := by
  simp only [firstError?, List.findSome?_eq_none_iff, classError?_eq_none_iff]

/-- If no class is wrong there is a tree. -/
theorem exists_compile_iff (h : Pattern.ofText? text = .ok p) :
    (∃ t, compile text = .ok t) ↔ ∀ c ∈ p.classes, c.Valid := by
  rw [compile_of_ofText? h, ← firstError?_eq_none_iff]
  simp only [mapError_eq_ok_iff]
  rcases hp : ofPattern? p with e | t
  · rw [(ofPattern?_eq_error_iff p).1 hp]
    simp
  · refine iff_of_true ⟨t, rfl⟩ (Option.eq_none_iff_forall_ne_some.2 ?_)
    intro e he
    rw [(ofPattern?_eq_error_iff p).2 he] at hp
    cases hp

/-- The class that is reported stands where the report says, and all before it are valid. -/
theorem leftmost_of_firstError? (h : Pattern.ofText? text = .ok p)
    (he : firstError? p.classes = some e) :
    (∃ c ∈ p.classes, c.span.start = e.offset ∧ c.flags = e.flags ∧ ¬ c.Valid) ∧
      StandsAt text.toList e.offset ('[' :: (e.flags.toList ++ [']'])) ∧
      ∀ c ∈ p.classes, c.span.start < e.offset → c.Valid := by
  obtain ⟨before, c, after, hclasses, hc, hbefore⟩ := List.findSome?_eq_some_iff.1 he
  obtain ⟨hoffset, hflags, hwrong⟩ := of_classError?_eq_some hc
  have hmem : c ∈ p.classes := by simp [hclasses]
  have hshows := Pattern.shows_classes p (Pattern.placed_of_ofText? h)
  refine ⟨⟨c, hmem, hoffset.symm, hflags.symm, hwrong⟩, ?_, ?_⟩
  · rw [hoffset, hflags]
    exact (hshows c hmem).1
  · intro c' hmem' hlt
    rw [hclasses, List.mem_append, List.mem_cons] at hmem'
    -- a class behind the one that is reported does not begin before it
    have hbehind := (Pattern.pairwise_classes h)
    rw [hclasses] at hbehind
    rcases hmem' with hmem' | rfl | hmem'
    · exact classError?_eq_none_iff.1 (hbefore c' hmem')
    · omega
    · have hle := List.rel_of_pairwise_cons (List.pairwise_append.1 hbehind).2.1 hmem'
      have hstop := (hshows c hmem).2
      omega

/-- **Why a text has no tree.** A text that is no pattern is reported with its fault, and only such
a text is. Of a text that is a pattern a class is reported if and only if some class in it, at any
depth, is not valid; if all of them are valid it has a tree. The class that is reported is the
leftmost one that is not valid: it stands in the text where the report says, and all classes that
begin before it are valid. -/
theorem compile_error_iff (text : String) :
    (∀ text' fault, compile text = .error (.malformed text' fault) ↔
      text' = text ∧ Pattern.ofText? text = .error fault) ∧
    ∀ p, Pattern.ofText? text = .ok p →
      ((∃ text' e, compile text = .error (.badClass text' e)) ↔ ∃ c ∈ p.classes, ¬ c.Valid) ∧
      ((∃ t, compile text = .ok t) ↔ ∀ c ∈ p.classes, c.Valid) ∧
      ∀ text' e, compile text = .error (.badClass text' e) →
        text' = text ∧ (∃ c ∈ p.classes, c.span.start = e.offset ∧ c.flags = e.flags ∧ ¬ c.Valid) ∧
        StandsAt text.toList e.offset ('[' :: (e.flags.toList ++ [']'])) ∧
        ∀ c ∈ p.classes, c.span.start < e.offset → c.Valid := by
  refine ⟨fun text' fault => compile_eq_malformed_iff, ?_⟩
  intro p h
  refine ⟨?_, exists_compile_iff h, ?_⟩
  · simp only [compile_eq_badClass_iff h]
    have hsome : (∃ e, firstError? p.classes = some e) ↔ ∃ c ∈ p.classes, ¬ c.Valid := by
      rw [← Option.ne_none_iff_exists', ne_eq, firstError?_eq_none_iff]
      push Not
      rfl
    rw [← hsome]
    exact ⟨fun ⟨_, e, _, he⟩ => ⟨e, he⟩, fun ⟨e, he⟩ => ⟨text, e, rfl, he⟩⟩
  · intro text' e herror
    obtain ⟨rfl, he⟩ := (compile_eq_badClass_iff h).1 herror
    exact ⟨rfl, leftmost_of_firstError? h he⟩

/-- Two classes of this text are wrong, the first of them inside a group and behind a literal whose
letter takes two bytes. -/
def accented : String := "<é>\x7b[1000](1)[é111](2)\x7d(2)[0000](1)"

/-- The first class that is wrong is reported, at its byte in the text. -/
theorem compile_error_iff_accented :
    compile accented = .error (.badClass accented ⟨14, "é111", .wrongFlag⟩) ∧
      StandsAt accented.toList 14 "[é111]".toList ∧
      ∃ p, Pattern.ofText? accented = .ok p ∧ ∀ c ∈ p.classes, c.span.start < 14 → c.Valid := by
  have herror : compile accented = .error (.badClass accented ⟨14, "é111", .wrongFlag⟩) := by
    decide +kernel
  obtain ⟨hmalformed, hpattern⟩ := compile_error_iff accented
  rcases hread : Pattern.ofText? accented with fault | p
  · rw [(hmalformed _ _).2 ⟨rfl, hread⟩] at herror
    cases herror
  · obtain ⟨-, -, hblame⟩ := hpattern p hread
    obtain ⟨-, -, hstands, hvalid⟩ := hblame _ _ herror
    exact ⟨herror, hstands, p, rfl, hvalid⟩

end Tree

end Moniker
