import Moniker.Policy.Basic

/-!
# Policies by name

A `PolicySet` holds at most one policy of a name, in the order of the names' UTF-8 bytes.

* `PolicySet.insert` — add a policy, and hand back the one of the same name that it replaces;
* `PolicySet.get?` — the policy of a name;
* `PolicySet.defaults` — the built-in policies.
-/

namespace Moniker

/-- The bytes of a name, which names are ordered by. -/
def nameKey (name : String) : List UInt8 := name.toUTF8.data.toList

/-- Policies by name. -/
structure PolicySet where
  policies : List Policy
  /-- the names are strictly increasing -/
  sorted : policies.Pairwise fun p q => nameKey p.name < nameKey q.name
deriving DecidableEq

namespace PolicySet

/-- The set without policies. -/
def empty : PolicySet := ⟨[], .nil⟩

/-- The names in order. -/
def names (s : PolicySet) : List String := s.policies.map Policy.name

/-- How many policies there are. -/
def size (s : PolicySet) : Nat := s.policies.length

/-- The policy of the given name. -/
def get? (s : PolicySet) (name : String) : Option Policy := s.policies.find? (·.name = name)

/-! ### Insertion -/

/-- Put a policy at its place, instead of one with the same name. -/
def place (p : Policy) : List Policy → List Policy
  | [] => [p]
  | q :: qs =>
    if nameKey p.name < nameKey q.name then p :: q :: qs
    else if nameKey q.name < nameKey p.name then q :: place p qs
    else p :: qs

/-- A placed policy is the new one or was there before. -/
theorem mem_place {p r : Policy} {qs : List Policy} (h : r ∈ place p qs) : r = p ∨ r ∈ qs := by
  induction qs with
  | nil => exact .inl (by simpa [place] using h)
  | cons q qs ih =>
    simp only [place] at h
    split at h
    · simpa using h
    · split at h
      · rcases List.mem_cons.1 h with rfl | h
        · simp
        · rcases ih h with h | h <;> simp [h]
      · rcases List.mem_cons.1 h with rfl | h <;> simp [*]

theorem sorted_place (p : Policy) {qs : List Policy}
    (h : qs.Pairwise fun p q => nameKey p.name < nameKey q.name) :
    (place p qs).Pairwise fun p q => nameKey p.name < nameKey q.name := by
  induction qs with
  | nil => simp [place]
  | cons q qs ih =>
    obtain ⟨hq, hqs⟩ := List.pairwise_cons.1 h
    simp only [place]
    split
    · next hlt =>
      refine List.pairwise_cons.2 ⟨fun r hr => ?_, h⟩
      rcases List.mem_cons.1 hr with rfl | hr
      · exact hlt
      · exact List.lt_trans hlt (hq r hr)
    · split
      · next hlt =>
        refine List.pairwise_cons.2 ⟨fun r hr => ?_, ih hqs⟩
        rcases mem_place hr with rfl | hr
        · exact hlt
        · exact hq r hr
      · next hle =>
        refine List.pairwise_cons.2 ⟨fun r hr => ?_, hqs⟩
        exact List.lt_of_le_of_lt (List.not_lt.1 hle) (hq r hr)

/-- Add a policy. The second part is the policy of the same name that was there before. -/
def insert (s : PolicySet) (p : Policy) : PolicySet × Option Policy :=
  (⟨place p s.policies, sorted_place p s.sorted⟩, s.get? p.name)

/-- Add several policies, one after the other. -/
def insertAll (s : PolicySet) (ps : List Policy) : PolicySet :=
  ps.foldl (fun s p => (s.insert p).1) s

/-! ### Built-in policies -/

/-- The built-in rules, one for each kind of thing that gets a new name. -/
def builtInRules : List (String × String) := [
  ("class", "\x7b[1000](1)[0100](6,12)\x7d(2,3)"),
  ("method", "[0100](7,13)\x7b[1000](1)[0100](6,12)\x7d(0,2)"),
  ("field", "[0100](7,13)\x7b[1000](1)[0100](6,12)\x7d(0,1)"),
  ("id_res", "[0100](7,11)\x7b<_>[0100](7,11)\x7d(0,1)"),
  ("layout_res", "[0100](7,11)\x7b<_>[0100](7,11)\x7d(1,2)")]

/-- The policies of the built-in rules. -/
def builtIn : List Policy :=
  builtInRules.filterMap fun (name, pattern) => (Policy.ofPattern? name pattern).toOption

/-- The set of the built-in policies. -/
def defaults : PolicySet := empty.insertAll builtIn

end PolicySet

end Moniker
