import Mathlib.Data.List.Basic
import Moniker.Text.Span

/-!
# Stretches side by side

What it means that stretches of a text leave nothing out and take nothing twice, and that
something stands under a stretch.

* `Tile` — stretches that stand side by side from one byte to another;
* `Tile.countP_holds` — each byte there lies in exactly one of them;
* `Span.Shows` — the characters under a stretch of a text;
* `Boundary` — the offsets between characters, where a text can be cut;
* `exists_shows_iff` — what lies between two of them is a stretch of the text.
-/

namespace Moniker.Text

/-! ## Tiles -/

/-- The stretches stand side by side: the first begins at `start`, each of the others where the one
before it ends, and the last one ends at `stop`. -/
def Tile (start : Nat) : List Span → Nat → Prop
  | [], stop => start = stop
  | span :: spans, stop => span.start = start ∧ start ≤ span.stop ∧ Tile span.stop spans stop

@[simp] theorem tile_nil {start stop : Nat} : Tile start [] stop ↔ start = stop := Iff.rfl

@[simp] theorem tile_cons {start stop : Nat} {span : Span} {spans : List Span} :
    Tile start (span :: spans) stop ↔
      span.start = start ∧ start ≤ span.stop ∧ Tile span.stop spans stop := Iff.rfl

theorem tile_append {start stop : Nat} {spans later : List Span} :
    Tile start (spans ++ later) stop ↔ ∃ mid, Tile start spans mid ∧ Tile mid later stop := by
  induction spans generalizing start with
  | nil => simp
  | cons span spans ih => simp [ih, and_assoc]

theorem Tile.le {start stop : Nat} {spans : List Span} (h : Tile start spans stop) :
    start ≤ stop := by
  induction spans generalizing start with
  | nil => exact Nat.le_of_eq h
  | cons span spans ih => exact Nat.le_trans h.2.1 (ih h.2.2)

/-- Of two stretches the one that comes first ends before the other one begins. -/
theorem Tile.pairwise {start stop : Nat} {spans : List Span} (h : Tile start spans stop) :
    spans.Pairwise fun a b => a.stop ≤ b.start := by
  induction spans generalizing start with
  | nil => exact .nil
  | cons span spans ih =>
    obtain ⟨-, -, hlater⟩ := h
    refine .cons ?_ (ih hlater)
    intro later hmem
    obtain ⟨before, after, rfl⟩ := List.append_of_mem hmem
    obtain ⟨mid, hbefore, rfl, -⟩ := tile_append.1 hlater
    exact hbefore.le

/-- Whether a byte belongs to the stretch. -/
def Span.holds (span : Span) (byte : Nat) : Bool := span.start ≤ byte && byte < span.stop

/-- Of stretches side by side exactly one holds a byte that lies between the ends, and none holds
another byte. -/
theorem Tile.countP_holds {start stop : Nat} {spans : List Span} (h : Tile start spans stop)
    (byte : Nat) :
    spans.countP (·.holds byte) = if start ≤ byte ∧ byte < stop then 1 else 0 := by
  induction spans generalizing start with
  | nil =>
    obtain rfl := tile_nil.1 h
    simp
  | cons span spans ih =>
    obtain ⟨rfl, hle, hlater⟩ := h
    have hstop := hlater.le
    rw [List.countP_cons, ih hlater]
    simp only [Span.holds, Bool.and_eq_true, decide_eq_true_eq]
    split <;> split <;> split <;> omega

/-! ## What stands under a stretch -/

/-- From the byte `offset` of the text on stand the characters `cs`. -/
def StandsAt (text : List Char) (offset : Nat) (cs : List Char) : Prop :=
  ∃ before after, text = before ++ cs ++ after ∧ offset = byteLength before

/-- Under the stretch of the text stand the characters `cs`. It begins where the first of them
begins and ends where the last one ends, and so between characters. -/
def Span.Shows (text : List Char) (span : Span) (cs : List Char) : Prop :=
  StandsAt text span.start cs ∧ span.stop = span.start + byteLength cs

namespace StandsAt

variable {text cs ds : List Char} {offset : Nat}

theorem whole (text : List Char) : StandsAt text 0 text := ⟨[], [], by simp, rfl⟩

theorem shows (h : StandsAt text offset cs) :
    Span.Shows text ⟨offset, offset + byteLength cs⟩ cs := ⟨h, rfl⟩

/-- Where characters stand, the first ones stand. -/
theorem left (h : StandsAt text offset (cs ++ ds)) : StandsAt text offset cs := by
  obtain ⟨before, after, rfl, hoffset⟩ := h
  exact ⟨before, ds ++ after, by simp, hoffset⟩

/-- Behind the first ones stand the others. -/
theorem right (h : StandsAt text offset (cs ++ ds)) :
    StandsAt text (offset + byteLength cs) ds := by
  obtain ⟨before, after, rfl, rfl⟩ := h
  exact ⟨before ++ cs, after, by simp, by simp⟩

theorem mem (h : StandsAt text offset cs) {c : Char} (hc : c ∈ cs) : c ∈ text := by
  obtain ⟨before, after, rfl, -⟩ := h
  simp [hc]

end StandsAt

/-! ## Where a text can be cut -/

/-- The offset lies between two characters of the text, or at one of its ends. -/
def Boundary (text : List Char) (offset : Nat) : Prop :=
  ∃ before after, text = before ++ after ∧ offset = byteLength before

section

variable {text cs : List Char} {offset mid : Nat}

theorem Boundary.le (h : Boundary text offset) : offset ≤ byteLength text := by
  obtain ⟨before, after, rfl, rfl⟩ := h
  rw [byteLength_append]
  exact Nat.le_add_right _ _

theorem boundary_zero (text : List Char) : Boundary text 0 := ⟨[], text, rfl, rfl⟩

theorem boundary_byteLength (text : List Char) : Boundary text (byteLength text) :=
  ⟨text, [], by simp, rfl⟩

theorem StandsAt.boundary (h : StandsAt text offset cs) : Boundary text offset := by
  obtain ⟨before, after, rfl, rfl⟩ := h
  exact ⟨before, cs ++ after, by simp, rfl⟩

theorem StandsAt.boundary_after (h : StandsAt text offset cs) :
    Boundary text (offset + byteLength cs) := by
  obtain ⟨before, after, rfl, rfl⟩ := h
  exact ⟨before ++ cs, after, rfl, by simp⟩

/-- No boundary lies inside of a character. -/
theorem StandsAt.le_of_boundary {c : Char} (h : StandsAt text offset [c]) (hmid : Boundary text mid)
    (hlt : offset < mid) : offset + c.utf8Size ≤ mid := by
  obtain ⟨before, after, rfl, rfl⟩ := h
  obtain ⟨before', after', htext, rfl⟩ := hmid
  rw [List.append_assoc] at htext
  obtain ⟨gap, rfl, hgap⟩ | ⟨gap, rfl, -⟩ := List.append_eq_append_iff.1 htext
  · rw [byteLength_append] at hlt ⊢
    cases gap with
    | nil => simp at hlt
    | cons d gap =>
      -- what lies between the two offsets begins with the character
      obtain ⟨rfl, -⟩ := List.cons.inj hgap
      rw [byteLength_cons]
      omega
  · rw [byteLength_append] at hlt
    omega

/-- A stretch between two boundaries can be cut out of the text, and only such a stretch can. -/
theorem exists_shows_iff {span : Span} :
    (∃ cs, span.Shows text cs) ↔
      Boundary text span.start ∧ Boundary text span.stop ∧ span.start ≤ span.stop := by
  refine ⟨?_, ?_⟩
  · rintro ⟨cs, hstands, hstop⟩
    refine ⟨hstands.boundary, ?_, ?_⟩
    · rw [hstop]
      exact hstands.boundary_after
    · rw [hstop]
      exact Nat.le_add_right _ _
  · rintro ⟨⟨before, after, rfl, hstart⟩, ⟨before', after', htext, hstop⟩, hle⟩
    rw [hstart, hstop] at hle
    obtain ⟨gap, rfl, rfl⟩ | ⟨gap, rfl, rfl⟩ := List.append_eq_append_iff.1 htext
    · refine ⟨gap, ⟨before, after', by simp, hstart⟩, ?_⟩
      rw [hstop, hstart, byteLength_append]
    · -- nothing lies between them, for the second one is not before the first
      have hnil : gap = [] := by
        rw [byteLength_append] at hle
        exact byteLength_eq_zero.1 (by omega)
      subst hnil
      refine ⟨[], ⟨before', after, by simp, ?_⟩, ?_⟩
      · rw [hstart, List.append_nil]
      · rw [hstart, hstop, List.append_nil, byteLength_nil, Nat.add_zero]

end

end Moniker.Text
