import Moniker.Report.Json
import Moniker.Text.Quoted

/-!
# Reports

What the program writes about the names it made up and the names it checked:

* `Batch` — the names made up for one rule; `Batch.report` writes several of them;
* `Verdict` — whether one rule accepts a name; `Verdict.report` writes several of them.

Either report comes in a form for people and as JSON, which says the same whatever the other
options are.
-/

namespace Moniker

/-- The form of a report. -/
inductive ReportFormat where
  | human
  | json
deriving DecidableEq, Repr

/-- A text and the end of its line. -/
def endLine (text : String) : String := text.push '\n'

/-- The names made up for one rule. -/
structure Batch where
  rule : String
  pattern : String
  names : List String
deriving DecidableEq, Repr

namespace Batch

/-- The batch as a JSON value. -/
def json (b : Batch) : Json :=
  .object [("rule", .string b.rule), ("pattern", .string b.pattern),
    ("names", .list (b.names.map .string))]

/-- The JSON report on several batches. -/
def jsonReport (batches : List Batch) : String :=
  (Json.object [("ok", .bool true), ("rules", .list (batches.map json))]).document

/-- The lines on one batch for people: its rule if `shown`, and its names, each with the rule
in front of it if `labelled`. -/
def humanLines (shown labelled : Bool) (b : Batch) : List String :=
  (if shown then ["# " ++ b.rule ++ " = " ++ b.pattern] else []) ++
    b.names.map fun name => if labelled then b.rule ++ ": " ++ name else name

/-- The report on several batches for people. -/
def humanReport (batches : List Batch) (verbosity : Nat) (quiet : Bool) : String :=
  let shown := !quiet && 0 < verbosity
  let labelled := !quiet && 1 < batches.length
  String.join ((batches.flatMap (humanLines shown labelled)).map endLine)

/-- The report on several batches. -/
def report (batches : List Batch) (format : ReportFormat) (verbosity : Nat) (quiet : Bool) :
    String :=
  match format with
  | .human => humanReport batches verbosity quiet
  | .json => jsonReport batches

end Batch

/-- Whether a rule accepts the name that is checked. -/
structure Verdict where
  rule : String
  pattern : String
  accepted : Bool
deriving DecidableEq, Repr

namespace Verdict

/-- The rules that accept the name. -/
def acceptedBy (verdicts : List Verdict) : List String :=
  (verdicts.filter Verdict.accepted).map Verdict.rule

/-- The verdict as a JSON value. -/
def json (v : Verdict) : Json :=
  .object [("rule", .string v.rule), ("pattern", .string v.pattern),
    ("accepted", .bool v.accepted)]

/-- The JSON report on the verdicts about `name`. -/
def jsonReport (name : String) (verdicts : List Verdict) : String :=
  let accepting := acceptedBy verdicts
  (Json.object [("ok", .bool !accepting.isEmpty), ("name", .string name),
    ("accepted_by", .list (accepting.map .string)),
    ("rules", .list (verdicts.map json))]).document

/-- The line on one verdict for people. -/
def humanLine (v : Verdict) : String :=
  (if v.accepted then "ACCEPT " else "reject ") ++ v.rule ++ ": " ++ v.pattern

/-- The report on the verdicts about `name` for people; a quiet one only lists the rules that
accept it. -/
def humanReport (name : String) (verdicts : List Verdict) (quiet : Bool) : String :=
  let accepting := acceptedBy verdicts
  if quiet then String.join (accepting.map endLine)
  else if accepting.isEmpty then endLine ("NO RULE accepts " ++ Text.quote name)
  else String.join (verdicts.map fun v => endLine v.humanLine)

/-- The report on the verdicts about `name`. -/
def report (name : String) (verdicts : List Verdict) (format : ReportFormat) (quiet : Bool) :
    String :=
  match format with
  | .human => humanReport name verdicts quiet
  | .json => jsonReport name verdicts

end Verdict

end Moniker
