import Mathlib.Data.List.Sort
import Moniker.Policy.Set
import Moniker.Proofs.Policy.Sound

/-!
# What a policy set holds

A policy set is a list in order, but what matters of it is which policy it holds under a name.
The order of the list follows from that.

* `PolicySet.get?_insert`, `PolicySet.get?_insertAll` — an added policy is held under its name,
  and what is held under other names stays;
* `PolicySet.policies_eq` — the list is what is held under the names in order;
* `PolicySet.get?_defaults_of_mem`, `PolicySet.get?_defaults_of_notMem` — the built-in rules, each
  with the policy of its pattern, and nothing else.
-/

namespace Moniker

/-- The bytes of a name tell which name it is. -/
theorem nameKey_injective : Function.Injective nameKey := by
  intro a b h
  exact String.toByteArray_inj.1 (ByteArray.ext (Array.toList_inj.1 h))

namespace PolicySet

variable {s t : PolicySet} {p : Policy} {name : String}

/-! ## Lookup -/

theorem name_ne_of_lt {p q : Policy} (h : nameKey p.name < nameKey q.name) : p.name ≠ q.name := by
  intro heq
  rw [heq] at h
  exact List.lt_irrefl _ h

/-- The names of the policies in a set differ. -/
theorem nodup_names (s : PolicySet) : s.names.Nodup :=
  List.pairwise_map.2 (s.sorted.imp name_ne_of_lt)

/-- Where names differ, the policy that is found by its name is the only one of that name. -/
theorem find?_name_eq_some_iff {ps : List Policy} (hnodup : (ps.map Policy.name).Nodup) :
    ps.find? (·.name = name) = some p ↔ p ∈ ps ∧ p.name = name := by
  constructor
  · intro h
    exact ⟨List.mem_of_find?_eq_some h, by simpa using List.find?_some h⟩
  · rintro ⟨hp, rfl⟩
    have hsome : (ps.find? (·.name = p.name)).isSome = true :=
      List.find?_isSome.2 ⟨p, hp, by simp⟩
    obtain ⟨q, hq⟩ := Option.isSome_iff_exists.1 hsome
    have hname : q.name = p.name := by simpa using List.find?_some hq
    rw [hq, List.inj_on_of_nodup_map hnodup (List.mem_of_find?_eq_some hq) hp hname]

/-- A policy is held under its own name and no other. -/
theorem get?_eq_some_iff : s.get? name = some p ↔ p ∈ s.policies ∧ p.name = name :=
  find?_name_eq_some_iff s.nodup_names

theorem get?_eq_none_iff : s.get? name = none ↔ name ∉ s.names := by
  simp [get?, names]

theorem mem_names_iff : name ∈ s.names ↔ (s.get? name).isSome = true := by
  rw [← not_iff_not, ← get?_eq_none_iff, Bool.not_eq_true, Option.isSome_eq_false_iff,
    Option.isNone_iff_eq_none]

/-! ## The list of policies -/

/-- The names stand in the order of their bytes. -/
theorem sorted_names (s : PolicySet) : s.names.Pairwise fun a b => nameKey a < nameKey b :=
  List.pairwise_map.2 s.sorted

/-- The policies are what is held under the names, in the order of the names. -/
theorem policies_eq (s : PolicySet) : s.policies = s.names.filterMap s.get? := by
  have hself : ∀ p ∈ s.policies, s.get? p.name = some p := fun p hp =>
    get?_eq_some_iff.2 ⟨hp, rfl⟩
  rw [names, List.filterMap_map]
  symm
  exact (List.filterMap_congr hself).trans List.filterMap_some

/-- Sets that hold policies under the same names have the same names in the same order. -/
theorem names_eq (h : ∀ name, (s.get? name).isSome = (t.get? name).isSome) :
    s.names = t.names := by
  have hmem : ∀ name, name ∈ s.names ↔ name ∈ t.names := by
    intro name
    rw [mem_names_iff, mem_names_iff, h]
  have hperm : s.names.Perm t.names :=
    (List.perm_ext_iff_of_nodup s.nodup_names t.nodup_names).2 hmem
  refine hperm.eq_of_pairwise (fun a b _ _ hab hba => ?_) s.sorted_names t.sorted_names
  exact absurd (List.lt_trans hab hba) (List.lt_irrefl _)

/-- If two sets hold alike policies under every name, their policies are alike one by one. -/
theorem map_policies_eq {α : Type} (f : Policy → α)
    (h : ∀ name, (s.get? name).map f = (t.get? name).map f) :
    s.policies.map f = t.policies.map f := by
  have hnames : s.names = t.names := names_eq fun name => by
    rw [← Option.isSome_map (f := f), h, Option.isSome_map]
  rw [policies_eq s, policies_eq t, List.map_filterMap, List.map_filterMap, hnames]
  exact List.filterMap_congr fun name _ => h name

/-! ## Insertion -/

/-- A placed policy takes the place of any other of its name. -/
theorem mem_place_iff {qs : List Policy} {r : Policy}
    (h : qs.Pairwise fun p q => nameKey p.name < nameKey q.name) :
    r ∈ place p qs ↔ r = p ∨ r ∈ qs ∧ r.name ≠ p.name := by
  induction qs with
  | nil => simp [place]
  | cons q qs ih =>
    obtain ⟨hq, hqs⟩ := List.pairwise_cons.1 h
    rw [place]
    split
    · next hlt =>
      -- all that stand there come after the new one
      have hne : ∀ r ∈ q :: qs, r.name ≠ p.name := by
        intro r hr
        rcases List.mem_cons.1 hr with rfl | hr
        · exact (name_ne_of_lt hlt).symm
        · exact (name_ne_of_lt (List.lt_trans hlt (hq r hr))).symm
      rw [List.mem_cons]
      exact or_congr_right ⟨fun hr => ⟨hr, hne r hr⟩, And.left⟩
    · split
      · next hlt =>
        rw [List.mem_cons, List.mem_cons, ih hqs]
        have hne := name_ne_of_lt hlt
        constructor
        · rintro (rfl | rfl | ⟨hr, hrne⟩)
          · exact .inr ⟨.inl rfl, hne⟩
          · exact .inl rfl
          · exact .inr ⟨.inr hr, hrne⟩
        · rintro (rfl | ⟨rfl | hr, hrne⟩)
          · exact .inr (.inl rfl)
          · exact .inl rfl
          · exact .inr (.inr ⟨hr, hrne⟩)
      · next hnlt hngt =>
        have hname : q.name = p.name := nameKey_injective
          (List.le_antisymm (List.not_lt.1 hnlt) (List.not_lt.1 hngt))
        have hne : ∀ r ∈ qs, r.name ≠ p.name := by
          intro r hr
          rw [← hname]
          exact (name_ne_of_lt (hq r hr)).symm
        rw [List.mem_cons, List.mem_cons]
        constructor
        · rintro (rfl | hr)
          · exact .inl rfl
          · exact .inr ⟨.inr hr, hne r hr⟩
        · rintro (rfl | ⟨rfl | hr, hrne⟩)
          · exact .inl rfl
          · exact absurd hname hrne
          · exact .inr hr

theorem mem_insert_iff {r : Policy} :
    r ∈ (s.insert p).1.policies ↔ r = p ∨ r ∈ s.policies ∧ r.name ≠ p.name :=
  mem_place_iff s.sorted

/-- A set holds no policies but those that it held and those that are added. -/
theorem mem_of_mem_insertAll {ps : List Policy} {p : Policy} (h : p ∈ (s.insertAll ps).policies) :
    p ∈ ps ∨ p ∈ s.policies := by
  induction ps generalizing s with
  | nil => exact .inr h
  | cons q ps ih =>
    rcases ih h with hp | hp
    · exact .inl (List.mem_cons_of_mem q hp)
    · rcases mem_insert_iff.1 hp with rfl | ⟨hp, -⟩
      · exact .inl List.mem_cons_self
      · exact .inr hp

/-- After an insertion the new policy is held under its name, and all else is as before. -/
theorem get?_insert : (s.insert p).1.get? name = if p.name = name then some p else s.get? name := by
  refine Option.ext fun r => ?_
  rw [get?_eq_some_iff, mem_insert_iff]
  split
  · next h =>
    subst h
    rw [Option.some.injEq]
    constructor
    · rintro ⟨rfl | ⟨-, hne⟩, hname⟩
      · rfl
      · exact absurd hname hne
    · rintro rfl
      exact ⟨.inl rfl, rfl⟩
  · next h =>
    rw [get?_eq_some_iff]
    constructor
    · rintro ⟨rfl | ⟨hr, -⟩, hname⟩
      · exact absurd hname h
      · exact ⟨hr, hname⟩
    · rintro ⟨hr, rfl⟩
      exact ⟨.inr ⟨hr, Ne.symm h⟩, rfl⟩

/-- Of several added policies the last one of a name is held under it. -/
theorem get?_insertAll (ps : List Policy) :
    (s.insertAll ps).get? name = (ps.reverse.find? (·.name = name)).or (s.get? name) := by
  induction ps generalizing s with
  | nil => rfl
  | cons p ps ih =>
    have hcons : s.insertAll (p :: ps) = (s.insert p).1.insertAll ps := rfl
    rw [hcons, ih, get?_insert, List.reverse_cons, List.find?_append, Option.or_assoc]
    by_cases h : p.name = name <;> simp [h]

/-- If the names of the added policies differ, each of them is held. -/
theorem get?_insertAll_of_mem {ps : List Policy} (hnodup : (ps.map Policy.name).Nodup)
    (hp : p ∈ ps) : (s.insertAll ps).get? p.name = some p := by
  have hreverse : (ps.reverse.map Policy.name).Nodup := by
    rwa [List.map_reverse, List.nodup_reverse]
  have hfind := (find?_name_eq_some_iff hreverse).2 ⟨List.mem_reverse.2 hp, rfl⟩
  rw [get?_insertAll, hfind, Option.some_or]

/-- Under a name of none of the added policies is held what was there. -/
theorem get?_insertAll_of_notMem {ps : List Policy} (h : name ∉ ps.map Policy.name) :
    (s.insertAll ps).get? name = s.get? name := by
  have hfind : ps.reverse.find? (·.name = name) = none := by
    simpa using h
  rw [get?_insertAll, hfind, Option.none_or]

/-! ## Built-in policies -/

/-- Every built-in rule has a policy. -/
theorem exists_builtIn : ∀ rule ∈ builtInRules, ∃ p, Policy.ofPattern? rule.1 rule.2 = .ok p := by
  have hall : ∀ rule ∈ builtInRules, (Policy.ofPattern? rule.1 rule.2).isOk = true := by
    decide +kernel
  exact fun rule hrule => isOk_iff.1 (hall rule hrule)

theorem mem_builtIn_iff :
    p ∈ builtIn ↔ ∃ rule ∈ builtInRules, Policy.ofPattern? rule.1 rule.2 = .ok p := by
  simp only [builtIn, List.mem_filterMap]
  refine exists_congr fun rule => and_congr_right fun _ => ?_
  cases Policy.ofPattern? rule.1 rule.2 <;> simp [Except.toOption]

theorem names_builtIn : builtIn.map Policy.name = builtInRules.map Prod.fst := by
  decide +kernel

/-- The policy of a built-in rule is held under the name of the rule. -/
theorem get?_defaults_of_mem {rule : String × String} (h : rule ∈ builtInRules) :
    ∃ p, Policy.ofPattern? rule.1 rule.2 = .ok p ∧ defaults.get? rule.1 = some p := by
  obtain ⟨p, hp⟩ := exists_builtIn rule h
  have hnodup : (builtIn.map Policy.name).Nodup := by
    rw [names_builtIn]
    decide
  have hget := get?_insertAll_of_mem (s := empty) hnodup (mem_builtIn_iff.2 ⟨rule, h, hp⟩)
  rw [Policy.name_of_ofPattern? hp] at hget
  exact ⟨p, hp, hget⟩

/-- There is no built-in policy beside those of the built-in rules. -/
theorem get?_defaults_of_notMem (h : name ∉ builtInRules.map Prod.fst) :
    defaults.get? name = none := by
  rw [← names_builtIn] at h
  exact get?_insertAll_of_notMem h

end PolicySet

end Moniker
