import Moniker.Tree.OfPattern
import Moniker.Tree.Generate
import Moniker.Tree.Matcher

/-!
# Policies

A `Policy` is a named pattern that names can be made up from.

* `Policy.ofPattern?` — the policy of a pattern text. All of its ranges are looked at, also
  those that making up a name would never come to, so a policy can always make up a name.
* `Policy.generate` and `Policy.matches?` — make up a name, and check one.
-/

namespace Moniker

/-- Why a text is not the pattern of a policy. -/
inductive PolicyError where
  /-- the text has no tree -/
  | grammar (error : CompileError)
  /-- a range in it is inverted -/
  | inverted (range : Range)
deriving DecidableEq, Repr

namespace PolicyError

/-- The wording of an error. -/
def message : PolicyError → String
  | grammar error => error.message
  | inverted range => range.message

/-- Whether the pattern text is at fault. -/
def isGrammar : PolicyError → Bool
  | grammar _ => true
  | inverted _ => false

/-- Whether a range is at fault. -/
def isConfiguration : PolicyError → Bool
  | grammar _ => false
  | inverted _ => true

end PolicyError

/-- A named pattern. -/
structure Policy where
  name : String
  /-- the pattern as written -/
  pattern : String
  /-- what the pattern means -/
  tree : Tree
  /-- the line of the rule file that it was read from, if it was -/
  line? : Option Nat
deriving DecidableEq

namespace Policy

/-- The policy of a pattern text. -/
def ofPattern? (name pattern : String) : Except PolicyError Policy := do
  let tree ← (Tree.compile pattern).mapError .grammar
  tree.check.mapError .inverted
  .ok ⟨name, pattern, tree, none⟩

/-- Make up a name. -/
def generate (p : Policy) : Draw Range String := p.tree.generate

/-- What to check names with. -/
def matcher? (engine : Regex.Engine) (p : Policy) : Except MatcherError Matcher :=
  p.tree.matcher? engine

/-- Whether the policy could have made up `name`. -/
def matches? (engine : Regex.Engine) (p : Policy) (name : String) : Except MatcherError Bool :=
  (·.accepts name) <$> p.matcher? engine

end Policy

end Moniker
