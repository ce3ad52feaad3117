import Moniker.Policy.Source

/-!
# Errors

Everything that can keep the program from answering, with the wording of each.
-/

namespace Moniker

/-- Why a file cannot be read as text. -/
inductive ReadFault where
  | notFound
  | isADirectory
  | notADirectory
  /-- the bytes of the file are not UTF-8 -/
  | invalidData
  /-- anything else, in the words of the system -/
  | other (text : String)
deriving DecidableEq, Repr

/-- The wording that the system has for a fault. -/
def ReadFault.message : ReadFault → String
  | notFound => "No such file or directory (os error 2)"
  | isADirectory => "Is a directory (os error 21)"
  | notADirectory => "Not a directory (os error 20)"
  | invalidData => "stream did not contain valid UTF-8"
  | other text => text

/-- Why there is no answer. -/
inductive Error where
  /-- a pattern is not that of a policy -/
  | policy (error : PolicyError)
  /-- a rule file is wrong -/
  | source (error : SourceError)
  /-- a rule file cannot be read -/
  | unreadable (path : String) (fault : ReadFault)
  /-- no policy has that name -/
  | unknownRule (name : String)
  /-- there is nothing to check names with -/
  | matcher (error : MatcherError)
  /-- the random words have run out -/
  | exhausted
deriving DecidableEq, Repr

namespace Error

/-- The wording of an error. -/
def message : Error → String
  | policy error => error.message
  | source error => error.message
  | unreadable path fault => s!"failed to read {path}: " ++ fault.message
  | unknownRule name => "unknown rule " ++ Text.quote name
  | matcher error => error.message
  | exhausted => "the random words have run out"

/-- Whether a pattern text is at fault, also one in a rule file. -/
def isGrammar : Error → Bool
  | policy error | source ⟨_, .rejected _ error⟩ => error.isGrammar
  | _ => false

/-- Whether an inverted range is at fault, also one in a rule file. -/
def isConfiguration : Error → Bool
  | policy error | source ⟨_, .rejected _ error⟩ => error.isConfiguration
  | matcher (.inverted _) => true
  | _ => false

end Error

end Moniker
