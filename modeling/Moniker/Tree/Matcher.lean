import Moniker.Regex.Basic
import Moniker.Regex.Engine
import Moniker.Tree.Basic

/-!
# Checking names against a tree

The names that a tree makes up are those that a regular expression accepts.

* `Tree.expression?` — that expression, or the first inverted range found while writing it;
* `Tree.matcher?` — what an engine makes of the text of the expression.

An expression is written from the inside to the outside: the ranges of what a group holds are
looked at before that of the group.
-/

namespace Moniker

namespace Tree

/-- An expression as often as the range says; once is not written. -/
def countedAs? (range : Range) (body : Regex) : Except Range Regex := do
  range.check
  .ok (if range = .once then body else .repeated body range)

theorem countedAs?_eq (range : Range) (body : Regex) :
    countedAs? range body = if range.inverted then .error range
      else .ok (if range = .once then body else .repeated body range) := by
  rw [countedAs?, Range.check]
  cases range.inverted <;> rfl

namespace Node

mutual

/-- The expression for what a node makes up. -/
def regex? : Node → Except Range Regex
  | .literal _ text => .ok (.literal text)
  | .chars range cls => countedAs? range (.oneOf cls)
  | .group range children => do
    let parts ← regexes? children
    countedAs? range (.group parts)
  | .single range child => do
    let part ← child.regex?
    countedAs? range (.group [part])

/-- The expressions for what several nodes make up. -/
def regexes? : List Node → Except Range (List Regex)
  | [] => .ok []
  | n :: nodes => do
    let part ← n.regex?
    let parts ← regexes? nodes
    .ok (part :: parts)

end

end Node

/-- The expression for the names that a tree makes up. -/
def expression? (t : Tree) : Except Range Expression := (⟨·⟩) <$> Node.regexes? t.nodes

end Tree

/-! ### Matchers -/

/-- What names are checked with. -/
structure Matcher where
  /-- the expression as it was handed to the engine -/
  text : String
  /-- whether a name is one of those that the expression is found in -/
  accepts : String → Bool

/-- Why there is nothing to check names with. -/
inductive MatcherError where
  /-- a range of the tree is inverted -/
  | inverted (range : Range)
  /-- the engine refuses the expression -/
  | refused (reason : String)
deriving DecidableEq, Repr

/-- The wording of an error. -/
def MatcherError.message : MatcherError → String
  | inverted range => range.message
  | refused reason => "pattern cannot be turned into a matcher: " ++ reason

/-- What an engine makes of the expression of a tree. -/
def Tree.matcher? (engine : Regex.Engine) (t : Tree) : Except MatcherError Matcher := do
  let e ← t.expression?.mapError .inverted
  let accepts ← (engine.compile? e.text).mapError .refused
  .ok ⟨e.text, accepts⟩

end Moniker
