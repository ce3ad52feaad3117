import Moniker.Policy.Set
import Moniker.Text.Blank

/-!
# Rule files

A rule file has one rule `name = pattern` on a line. Blanks around a line, a name or a pattern
do not count; empty lines and lines that start with `#` are skipped. A pattern is all that
follows the first `=`.

* `Policy.ofSource?` — the policies of a rule file, or what is wrong in the first line that is
  not right;
* `PolicySet.ofSource?` — the built-in policies, overridden and extended by those of a file.
-/

namespace Moniker

open Text (lines trim trimLeft trimRight quote)

/-- What is wrong with a line of a rule file. -/
inductive SourceFault where
  /-- there is no `=` -/
  | notARule
  /-- nothing stands before the `=` -/
  | noName
  /-- what stands before the `=` is not a name -/
  | badName (name : String)
  /-- nothing stands after the `=` -/
  | noPattern
  /-- a rule of that name stands on an earlier line -/
  | repeated (name : String) (first : Nat)
  /-- what stands after the `=` is not the pattern of a policy -/
  | rejected (name : String) (error : PolicyError)
deriving DecidableEq, Repr

/-- The wording of a fault. -/
def SourceFault.text : SourceFault → String
  | notARule => "expected 'name = pattern'"
  | noName => "expected a rule name before '='"
  | badName name =>
    "invalid rule name " ++ quote name ++ " (use letters, digits, '_' and '-')"
  | noPattern => "expected a pattern after '='"
  | repeated name first =>
    "rule " ++ quote name ++ s!" is already defined on line {first}"
  | rejected name error => "rule " ++ quote name ++ ": " ++ error.message

/-- What is wrong with a rule file. -/
structure SourceError where
  /-- the number of the line, counted from 1 -/
  line : Nat
  fault : SourceFault
deriving DecidableEq, Repr

/-- The wording of an error. -/
def SourceError.message (e : SourceError) : String := s!"line {e.line}: " ++ e.fault.text

/-- Whether a rule can have that name: an ASCII letter or underscore, and after it letters,
digits, underscores and hyphens. -/
def isRuleName : List Char → Bool
  | [] => false
  | c :: cs => (c.isAlpha || c == '_') && cs.all fun c => c.isAlphanum || c == '_' || c == '-'

/-- The name and the pattern of a line; nothing for a line that is to be skipped. -/
def ruleOfLine? (line : List Char) : Except SourceFault (Option (String × String)) :=
  match trim line with
  | [] => .ok none
  | '#' :: _ => .ok none
  | rule =>
    match rule.dropWhile (· != '=') with
    | [] => .error .notARule
    | _ :: rest =>
      let name := trimRight (rule.takeWhile (· != '='))
      let pattern := trimLeft rest
      if name.isEmpty then .error .noName
      else if !isRuleName name then .error (.badName (String.ofList name))
      else if pattern.isEmpty then .error .noPattern
      else .ok (some (String.ofList name, String.ofList pattern))

namespace Policy

/-- The policies of the earlier lines, the last one first, together with that of one more
line. -/
def addLine? (earlier : List Policy) (line : List Char) (number : Nat) :
    Except SourceFault (List Policy) := do
  match ← ruleOfLine? line with
  | none => .ok earlier
  | some (name, pattern) =>
    match earlier.find? (·.name = name) with
    | some first => .error (.repeated name (first.line?.getD 0))
    | none =>
      let policy ← (Policy.ofPattern? name pattern).mapError (.rejected name)
      .ok ({ policy with line? := some number } :: earlier)

/-- The policies of several lines, given those of the lines before them. The first of the
lines has the given number. Both lists of policies have the last one first. -/
def addLines? (earlier : List Policy) (number : Nat) :
    List (List Char) → Except SourceError (List Policy)
  | [] => .ok earlier
  | line :: later => do
    let policies ← (addLine? earlier line number).mapError (⟨number, ·⟩)
    addLines? policies (number + 1) later

/-- The policies of a rule file in the order of its lines. -/
def ofSource? (source : String) : Except SourceError (List Policy) :=
  List.reverse <$> addLines? [] 1 (lines source.toList)

end Policy

/-- The built-in policies, overridden and extended by those of a rule file. -/
def PolicySet.ofSource? (source : String) : Except SourceError PolicySet :=
  PolicySet.defaults.insertAll <$> Policy.ofSource? source

end Moniker
