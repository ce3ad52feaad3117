import Mathlib.Data.List.Forall2

/-!
# Steps that may fail

When a sequence of steps that may fail succeeds, so has each of them. These equivalences take
such a success apart; the converse direction puts it together again. If the same step is taken
with several things in a row, the first that fails decides.
-/

namespace Moniker

variable {ε ε' α β : Type}

theorem isOk_iff {x : Except ε α} : x.isOk = true ↔ ∃ a, x = .ok a := by
  rcases x with e | a <;> simp [Except.isOk, Except.toBool]

theorem bind_eq_ok_iff {x : Except ε α} {f : α → Except ε β} {b : β} :
    x >>= f = .ok b ↔ ∃ a, x = .ok a ∧ f a = .ok b := by
  rcases x with e | a <;> simp [bind, Except.bind]

theorem bind_eq_error_iff {x : Except ε α} {f : α → Except ε β} {e : ε} :
    x >>= f = .error e ↔ x = .error e ∨ ∃ a, x = .ok a ∧ f a = .error e := by
  rcases x with e' | a <;> simp [bind, Except.bind]

/-- Of two steps one after the other the first that fails decides, be the failures of each told by
an option. -/
theorem bind_eq_error_iff_or {x : Except ε α} {f : α → Except ε β} {first second : Option ε} {e : ε}
    (hx : ∀ e, x = .error e ↔ first = some e)
    (hf : ∀ a, x = .ok a → ∀ e, f a = .error e ↔ second = some e) :
    x >>= f = .error e ↔ first.or second = some e := by
  rw [bind_eq_error_iff]
  rcases x with e' | a
  · rw [(hx e').1 rfl, Option.some_or]
    simp
  · have hnone : first = none := Option.eq_none_iff_forall_ne_some.2 fun e' he' => by
      cases (hx e').2 he'
    rw [hnone, Option.none_or, ← hf a rfl]
    simp

theorem map_eq_ok_iff {x : Except ε α} {f : α → β} {b : β} :
    f <$> x = .ok b ↔ ∃ a, x = .ok a ∧ f a = b := by
  rcases x with e | a <;> simp [Functor.map, Except.map]

theorem map_eq_error_iff {x : Except ε α} {f : α → β} {e : ε} :
    f <$> x = .error e ↔ x = .error e := by
  rcases x with e' | a <;> simp [Functor.map, Except.map]

theorem mapError_eq_ok_iff {x : Except ε α} {f : ε → ε'} {a : α} :
    x.mapError f = .ok a ↔ x = .ok a := by
  cases x with
  | error e => exact ⟨nofun, nofun⟩
  | ok b => exact ⟨fun h => congrArg Except.ok (Except.ok.inj h),
      fun h => congrArg Except.ok (Except.ok.inj h)⟩

theorem mapError_eq_error_iff {x : Except ε α} {f : ε → ε'} {e : ε'} :
    x.mapError f = .error e ↔ ∃ e', x = .error e' ∧ e = f e' := by
  rcases x with e' | a <;> simp [Except.mapError, eq_comm]

/-- If everything in a row has a counterpart, there is a row of counterparts. -/
theorem exists_forall₂ {R : α → β → Prop} {as : List α} (h : ∀ a ∈ as, ∃ b, R a b) :
    ∃ bs, List.Forall₂ R as bs := by
  induction as with
  | nil => exact ⟨[], .nil⟩
  | cons a as ih =>
    obtain ⟨ha, has⟩ := List.forall_mem_cons.1 h
    obtain ⟨b, hb⟩ := ha
    obtain ⟨bs, hbs⟩ := ih has
    exact ⟨b :: bs, .cons hb hbs⟩

/-- In two rows that are alike one by one, everything in the first has a counterpart. -/
theorem exists_of_forall₂ {R : α → β → Prop} {as : List α} {bs : List β}
    (h : List.Forall₂ R as bs) {a : α} (ha : a ∈ as) : ∃ b ∈ bs, R a b := by
  induction h with
  | nil => simp at ha
  | cons hb _ ih =>
    rcases List.mem_cons.1 ha with rfl | ha
    · exact ⟨_, List.mem_cons_self, hb⟩
    · obtain ⟨b, hmem, hab⟩ := ih ha
      exact ⟨b, List.mem_cons_of_mem _ hmem, hab⟩

/-- A step succeeds with everything in a row if it does so one by one. -/
theorem mapM_eq_ok_iff {f : α → Except ε β} {as : List α} {bs : List β} :
    as.mapM f = .ok bs ↔ List.Forall₂ (fun a b => f a = .ok b) as bs := by
  induction as generalizing bs with
  | nil =>
    rw [List.mapM_nil, List.forall₂_nil_left_iff]
    exact ⟨fun h => (Except.ok.inj h).symm, fun h => congrArg Except.ok h.symm⟩
  | cons a as ih =>
    rw [List.mapM_cons, bind_eq_ok_iff, List.forall₂_cons_left_iff]
    constructor
    · rintro ⟨b, hb, h⟩
      obtain ⟨later, hlater, h⟩ := bind_eq_ok_iff.1 h
      exact ⟨b, later, hb, ih.1 hlater, (Except.ok.inj h).symm⟩
    · rintro ⟨b, later, hb, hlater, rfl⟩
      exact ⟨b, hb, bind_eq_ok_iff.2 ⟨later, ih.2 hlater, rfl⟩⟩

/-- It fails as it does with the first with which it fails. -/
theorem mapM_eq_error_iff {f : α → Except ε β} {as : List α} {e : ε} :
    as.mapM f = .error e ↔ ∃ before a after, as = before ++ a :: after ∧
      (∀ x ∈ before, ∃ b, f x = .ok b) ∧ f a = .error e := by
  constructor
  · intro h
    induction as with
    | nil => exact absurd h nofun
    | cons a as ih =>
      rw [List.mapM_cons, bind_eq_error_iff] at h
      rcases h with h | ⟨b, hb, h⟩
      · exact ⟨[], a, as, rfl, nofun, h⟩
      · rcases bind_eq_error_iff.1 h with h | ⟨bs, -, h⟩
        · obtain ⟨before, x, after, rfl, hbefore, hx⟩ := ih h
          exact ⟨a :: before, x, after, rfl, List.forall_mem_cons.2 ⟨⟨b, hb⟩, hbefore⟩, hx⟩
        · exact absurd h nofun
  · rintro ⟨before, a, after, rfl, hbefore, ha⟩
    obtain ⟨bs, hbs⟩ := exists_forall₂ hbefore
    rw [List.mapM_append, mapM_eq_ok_iff.2 hbs, List.mapM_cons, ha]
    rfl

end Moniker
