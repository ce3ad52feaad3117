import Moniker.Command.Options
import Moniker.Command.Directory
import Moniker.Draw.Source

/-!
# What the program does

From the options of a command line and the files it can read, the program selects policies
(`Options.select`), and then either checks a name against them (`Policy.verdicts`) or makes up
names for them (`Policy.batches`). `Options.answer` is the report on that, with the exit code.

The files, the engine that checks names and the random words come from the `Surroundings` of the
run. All names of one run come from one stream of random words, rule after rule, so a run that goes
on longer begins with the same names.
-/

namespace Moniker

open Draw (FiniteSource)
open Regex (Engine)

/-! ### Selecting policies -/

/-- The built-in policies, overridden and extended by those of the file at `path`. -/
def PolicySet.load? (files : Files) (path : String) : Except Error PolicySet := do
  let source ← (files path).mapError (.unreadable path)
  (PolicySet.ofSource? source).mapError .source

/-- The policy of the given name, or the error that there is none. -/
def PolicySet.get (s : PolicySet) (name : String) : Except Error Policy :=
  match s.get? name with
  | some p => .ok p
  | none => .error (.unknownRule name)

/-- The policies that the options select from a set: all of them, or those of the rules that
are named, in the order and as often as they are named. -/
def Options.choose (o : Options) (s : PolicySet) : Except Error (List Policy) :=
  if o.rules.isEmpty then .ok s.policies else o.rules.mapM s.get

/-- The set of policies that the options select from. -/
def Options.policySet (files : Files) (o : Options) : Except Error PolicySet :=
  match o.policy? with
  | some path => PolicySet.load? files path
  | none => .ok .defaults

/-- The policies that the options select. -/
def Options.select (files : Files) (o : Options) : Except Error (List Policy) :=
  match o.pattern? with
  | some pattern => do
    let p ← (Policy.ofPattern? "pattern" pattern).mapError .policy
    .ok [p]
  | none => do
    let s ← o.policySet files
    o.choose s

/-! ### Checking and naming -/

/-- Whether a policy accepts `name`. -/
def Policy.verdict (engine : Engine) (name : String) (p : Policy) : Except Error Verdict := do
  let accepted ← (p.matches? engine name).mapError .matcher
  .ok ⟨p.name, p.pattern, accepted⟩

/-- Which of the policies accept `name`. -/
def Policy.verdicts (engine : Engine) (name : String) (ps : List Policy) :
    Except Error (List Verdict) :=
  ps.mapM (Policy.verdict engine name)

/-- Make up `count` names for each of the policies in turn. -/
def Policy.batches (count : Nat) : List Policy → Draw Range (List Batch)
  | [] => .done []
  | p :: ps =>
    (Draw.collect count p.generate).bind fun names =>
      (batches count ps).map (⟨p.name, p.pattern, names⟩ :: ·)

/-- The names that the random words of a source give for the policies. -/
def Policy.batchesFrom {σ : Type} [FiniteSource σ] (source : σ) (count : Nat) (ps : List Policy) :
    Except Error (List Batch) :=
  match ((Policy.batches count ps).run source).1 with
  | .value batches => .ok batches
  | .failed range => .error (.policy (.inverted range))
  | .exhausted => .error .exhausted

/-! ### Answers -/

/-- What a run of the program finds around it. -/
structure Surroundings (σ : Type) where
  /-- the files that it can read -/
  files : Files
  /-- what checks names -/
  engine : Engine
  /-- the random words that belong to a seed -/
  stream : UInt64 → σ
  /-- the random words if there is no seed -/
  fresh : σ

/-- Where the random words of a run come from. -/
def Options.source {σ : Type} (w : Surroundings σ) (o : Options) : σ :=
  match o.seed? with
  | some seed => w.stream seed
  | none => w.fresh

/-- What the program ends with. -/
structure Answer where
  /-- the exit code -/
  code : Nat
  /-- the report -/
  text : String
deriving DecidableEq, Repr

/-- Check a name. The exit code is 0 if any of the policies accepts it, and 1 if none does. -/
def Options.checkAnswer (engine : Engine) (o : Options) (name : String) (ps : List Policy) :
    Except Error Answer := do
  let verdicts ← Policy.verdicts engine name ps
  let code := if verdicts.any Verdict.accepted then 0 else 1
  .ok ⟨code, Verdict.report name verdicts o.format o.quiet⟩

variable {σ : Type} [FiniteSource σ]

/-- Make up names, with the random words of a source. -/
def Options.nameAnswer (source : σ) (o : Options) (ps : List Policy) : Except Error Answer := do
  let batches ← Policy.batchesFrom source o.count ps
  .ok ⟨0, Batch.report batches o.format o.verbosity o.quiet⟩

/-- What the program ends with. -/
def Options.answer (w : Surroundings σ) (o : Options) : Except Error Answer := do
  let ps ← o.select w.files
  match o.check? with
  | some name => o.checkAnswer w.engine name ps
  | none => o.nameAnswer (o.source w) ps

end Moniker
