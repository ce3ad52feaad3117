import Moniker.Proofs.Language
import Moniker.Regex.Engine

/-!
# What regular expressions match

The notation is given a meaning, which is what is asked of the engines that names are checked with.

* `Regex.Term.Matches` — what a term matches inside a name. It leads from what lies ahead of a
  position to what lies ahead afterwards, so `^` asks for the whole name and `$` for nothing;
* `Regex.TextAccepts` — whether the expression with the given text is found in a name;
* `Regex.Engine.Decides` — the engine finds exactly the expressions that are there.
-/

namespace Moniker.Regex

mutual

/-- In the name `whole`, the term matches what `ahead` has before `after`. -/
def Term.Matches (whole : List Char) : Term → (ahead after : List Char) → Prop
  | .char c, ahead, after => ahead = c :: after
  | .oneOf ranges, ahead, after =>
    ∃ c, (∃ range ∈ ranges, range.1 ≤ c ∧ c ≤ range.2) ∧ ahead = c :: after
  | .group terms, ahead, after => MatchesAll whole terms ahead after
  | .repeated term min max, ahead, after =>
    ∃ n, min ≤ n ∧ n ≤ max ∧ Times (term.Matches whole) n ahead after
  | .start, ahead, after => ahead = whole ∧ after = whole
  | .stop, ahead, after => ahead = [] ∧ after = []

/-- In the name `whole`, the terms match one after the other what `ahead` has before `after`. -/
def MatchesAll (whole : List Char) : List Term → (ahead after : List Char) → Prop
  | [], ahead, after => ahead = after
  | term :: terms, ahead, after =>
    ∃ mid, term.Matches whole ahead mid ∧ MatchesAll whole terms mid after

end

/-- The expression with the given text is found somewhere in the name. -/
def TextAccepts (text name : String) : Prop :=
  ∃ terms, ofText? text.toList = some terms ∧
    ∃ before ahead after, name.toList = before ++ ahead ∧
      MatchesAll name.toList terms ahead after

/-- Of the texts that have a meaning the engine may refuse some, but where it takes one, it says of
every name whether the expression is found in it. -/
def Engine.Decides (engine : Engine) : Prop :=
  ∀ text terms accepts, ofText? text.toList = some terms → engine.compile? text = .ok accepts →
    ∀ name, accepts name = true ↔ TextAccepts text name

end Moniker.Regex
