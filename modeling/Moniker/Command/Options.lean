import Moniker.Report.Basic

/-!
# The command line

`Options.ofArgs?` reads the arguments of the program from left to right.

* `--name value`, `--name=value`, `-n value`, `-nvalue` and `-n=value` give a `Setting` its
  value, `--name` and `-n` raise a `Flag`, several short ones may share one hyphen, and the
  one other argument is the pattern. After `--` every argument is taken as it is.
* A value may not look like an option, except for a single hyphen; attached values may.
* A setting or flag may be given once, except for rules and verbosity.

The first thing that is wrong decides how the command line is refused. A value that stands in
an argument of its own is only looked at when the argument after it has been recognised, and
whether a pattern goes with the other options only at the very end.
-/

namespace Moniker

/-- What the command line asks for. -/
structure Options where
  /-- the pattern to make names from -/
  pattern? : Option String
  /-- the rule file -/
  policy? : Option String
  /-- the rules to use, all if there are none -/
  rules : List String
  /-- how many names to make for each rule -/
  count : Nat
  /-- the seed of the random words -/
  seed? : Option UInt64
  /-- the name to check -/
  check? : Option String
  format : ReportFormat
  quiet : Bool
  /-- how often `-v` was given, at most 255 times -/
  verbosity : Nat
deriving DecidableEq, Repr

/-- How a command line is refused. -/
inductive UsageError where
  /-- two things do not go together -/
  | conflict
  /-- there is no such option, or a second pattern -/
  | unknownArgument
  /-- a value is missing, empty where it may not be, or not one of those to choose from -/
  | invalidValue
  /-- a value is not a number of 64 bits -/
  | notANumber
  /-- a flag is given a value -/
  | unneededValue
  /-- not an error: only the help text is asked for -/
  | help
deriving DecidableEq, Repr

namespace Options

/-- What an empty command line asks for. -/
def default : Options := ⟨none, none, [], 1, none, none, .human, false, 0⟩

/-- An option with a value. -/
inductive Setting where
  | policy
  | rule
  | count
  | seed
  | check
  | format
deriving DecidableEq, Repr

/-- An option without a value. -/
inductive Flag where
  | quiet
  | verbosity
  | help
deriving DecidableEq, Repr

/-- What an option's name stands for. -/
inductive Named where
  | setting (s : Setting)
  | flag (f : Flag)
deriving DecidableEq, Repr

/-- The options by their long names. -/
def named? (name : String) : Option Named :=
  match name with
  | "policy" => some (.setting .policy)
  | "rule" => some (.setting .rule)
  | "count" => some (.setting .count)
  | "seed" => some (.setting .seed)
  | "check" => some (.setting .check)
  | "format" => some (.setting .format)
  | "quiet" => some (.flag .quiet)
  | "verbosity" => some (.flag .verbosity)
  | "help" => some (.flag .help)
  | _ => none

/-- The options by their short names. -/
def shortNamed? (c : Char) : Option Named :=
  match c with
  | 'n' => some (.setting .count)
  | 'q' => some (.flag .quiet)
  | 'v' => some (.flag .verbosity)
  | 'h' => some (.flag .help)
  | _ => none

/-! ### Values -/

/-- The number that a text writes: decimal digits, perhaps after a plus sign, below 2 ^ 64. -/
def number? (text : String) : Option UInt64 :=
  let digits := match text.toList with
    | '+' :: digits => digits
    | digits => digits
  let n := digits.foldl (fun n c => 10 * n + (c.toNat - '0'.toNat)) 0
  if digits ≠ [] ∧ digits.all Char.isDigit then
    if h : n < UInt64.size then some (UInt64.ofNatLT n h) else none
  else none

/-- The form of report that a text names. -/
def format? (text : String) : Option ReportFormat :=
  match text with
  | "human" => some .human
  | "json" => some .json
  | _ => none

/-- Give a setting its value. -/
def set (o : Options) (setting : Setting) (value : String) : Except UsageError Options :=
  match setting with
  | .policy => if value = "" then .error .invalidValue else .ok { o with policy? := some value }
  | .rule => .ok { o with rules := o.rules ++ [value] }
  | .count =>
    match number? value with
    | some n => .ok { o with count := n.toNat }
    | none => .error .notANumber
  | .seed =>
    match number? value with
    | some n => .ok { o with seed? := some n }
    | none => .error .notANumber
  | .check => .ok { o with check? := some value }
  | .format =>
    match format? value with
    | some format => .ok { o with format }
    | none => .error .invalidValue

/-- Raise a flag. -/
def raise (o : Options) (flag : Flag) : Except UsageError Options :=
  match flag with
  | .quiet => if o.quiet then .error .conflict else .ok { o with quiet := true }
  | .verbosity => .ok { o with verbosity := min 255 (o.verbosity + 1) }
  | .help => .error .help

/-! ### Reading -/

/-- A setting whose value stands in an argument of its own. -/
inductive Pending where
  | nothing
  /-- the value has not been seen -/
  | awaiting (s : Setting)
  /-- the value has been seen, but not been looked at -/
  | held (s : Setting) (value : String)
deriving DecidableEq, Repr

/-- How far the reading has got. -/
structure Reading where
  options : Options
  /-- the settings that have been given -/
  given : List Setting
  pending : Pending
  /-- whether `--` has been seen -/
  plain : Bool
deriving DecidableEq, Repr

namespace Reading

/-- Nothing has been read. -/
def start : Reading := ⟨.default, [], .nothing, false⟩

/-- Give a setting its value, which only the rules may be given twice. -/
def assign (r : Reading) (s : Setting) (value : String) : Except UsageError Reading :=
  if s ≠ .rule ∧ s ∈ r.given then .error .conflict
  else do
    let options ← r.options.set s value
    .ok { r with options, given := s :: r.given }

/-- Look at the value of the setting that is pending. -/
def resolve (r : Reading) : Except UsageError Reading :=
  match r.pending with
  | .nothing => .ok r
  | .awaiting _ => .error .invalidValue
  | .held s value => { r with pending := .nothing }.assign s value

/-- Take in a setting, with its value if that is attached to it. -/
def takeSetting (r : Reading) (s : Setting) (attached? : Option String) :
    Except UsageError Reading := do
  let r ← r.resolve
  match attached? with
  | some value => r.assign s value
  | none => .ok { r with pending := .awaiting s }

/-- Take in a flag. -/
def takeFlag (r : Reading) (f : Flag) : Except UsageError Reading := do
  let r ← r.resolve
  let options ← r.options.raise f
  .ok { r with options }

/-- Take in an argument that starts with two hyphens; `text` is what follows them. -/
def takeLong (r : Reading) (text : List Char) : Except UsageError Reading :=
  let attached? := match text.dropWhile (· != '=') with
    | [] => none
    | _ :: value => some (String.ofList value)
  match named? (String.ofList (text.takeWhile (· != '='))), attached? with
  | none, _ => .error .unknownArgument
  | some (.setting s), attached? => r.takeSetting s attached?
  | some (.flag _), some _ => .error .unneededValue
  | some (.flag f), none => r.takeFlag f

/-- Take in the short names after a hyphen. What follows the name of a setting is its value,
perhaps after an equals sign. -/
def takeShort (r : Reading) : List Char → Except UsageError Reading
  | [] => .ok r
  | c :: rest =>
    match shortNamed? c, rest with
    | none, _ => .error .unknownArgument
    | some (.setting s), [] => r.takeSetting s none
    | some (.setting s), '=' :: value => r.takeSetting s (some (String.ofList value))
    | some (.setting s), value => r.takeSetting s (some (String.ofList value))
    | some (.flag f), rest => do
      let r ← r.takeFlag f
      r.takeShort rest

/-- Take in an argument that is the pattern. -/
def takePattern (r : Reading) (arg : String) : Except UsageError Reading :=
  match r.options.pattern? with
  | some _ => .error .unknownArgument
  | none => do
    let r ← r.resolve
    .ok { r with options := { r.options with pattern? := some arg } }

/-- Take in an argument that does not look like an option: the value that is awaited, or the
pattern. -/
def takePlain (r : Reading) (arg : String) : Except UsageError Reading :=
  match r.pending with
  | .awaiting s => .ok { r with pending := .held s arg }
  | _ => r.takePattern arg

/-- Take in one argument. -/
def step (r : Reading) (arg : String) : Except UsageError Reading :=
  if r.plain then r.takePattern arg
  else match arg.toList with
    | ['-', '-'] => .ok { r with plain := true }
    | '-' :: '-' :: text => r.takeLong text
    | '-' :: c :: names => r.takeShort (c :: names)
    | _ => r.takePlain arg

/-- The options when all arguments have been taken in. -/
def finish (r : Reading) : Except UsageError Options := do
  let r ← r.resolve
  let o := r.options
  if o.pattern?.isSome && (o.policy?.isSome || !o.rules.isEmpty) then .error .conflict
  else .ok o

end Reading

/-- What the arguments of the program ask for, or how they are refused. -/
def ofArgs? (args : List String) : Except UsageError Options := do
  let reading ← args.foldlM Reading.step Reading.start
  reading.finish

end Options

end Moniker
