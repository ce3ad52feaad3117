import Moniker.Command.Log

/-!
# A run of the program as seen from outside

`Run.ofArgs` is what becomes of the arguments of the program: its exit code, and what it
writes. A refused command line ends with code 2, as does any error; the help text is no
error.
-/

namespace Moniker

/-- What a run of the program leaves behind. -/
structure Run where
  /-- the exit code -/
  code : Nat
  /-- the report -/
  output : String
  /-- what went wrong, if something did -/
  error? : Option String
  /-- the lines of the log -/
  log : List String
deriving DecidableEq, Repr

namespace Run

/-- What the program says when something went wrong. -/
def complaint (e : Error) : String := "randname: " ++ e.message

variable {σ : Type} [Draw.FiniteSource σ]

/-- A run whose command line has been understood. The log is kept at the level `forced?`, if
there is one, and otherwise at the one that the options ask for. -/
def ofOptions (w : Surroundings σ) (forced? : Option Level) (o : Options) : Run :=
  let log := o.log w (forced?.getD o.level)
  match o.answer w with
  | .ok answer => ⟨answer.code, answer.text, none, log⟩
  | .error e => ⟨2, "", some (complaint e), log⟩

/-- A run whose command line is refused. -/
def refused : UsageError → Run
  | .help => ⟨0, "", none, []⟩
  | _ => ⟨2, "", none, []⟩

/-- A run of the program. -/
def ofArgs (w : Surroundings σ) (forced? : Option Level) (args : List String) : Run :=
  match Options.ofArgs? args with
  | .ok o => ofOptions w forced? o
  | .error e => refused e

end Run

end Moniker
