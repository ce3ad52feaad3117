import Moniker.Command.Run
import Moniker.Draw.Seeded

/-!
# The program

Makes up names from naming patterns, or checks which rules accept a name. This module reads
arguments, environment and files, and writes what `Run.ofArgs` says: the report to the
standard output, the log and what went wrong to the standard error.
-/

namespace Moniker

/-- The environment variable that sets the level of the log, whatever the options say. -/
def levelVariable : String := "RUST_LOG"

/-- What is written if the command line is refused, or if help is asked for. -/
def usage : String :=
  "Usage: randname [OPTIONS] [PATTERN]\n\n" ++
  "  PATTERN            pattern to make names from, instead of the policies\n" ++
  "      --policy FILE  file with lines 'name = pattern', merged over the built-in rules\n" ++
  "      --rule NAME    only use this rule (may be repeated)\n" ++
  "  -n, --count N      names to make for each rule (default 1)\n" ++
  "      --seed N       seed for output that can be reproduced\n" ++
  "      --check NAME   report which rules accept NAME instead\n" ++
  "      --format F     human (default) or json\n" ++
  "  -q, --quiet        print only names\n" ++
  "  -v, --verbosity    tell more (may be repeated)\n" ++
  "  -h, --help         print this help\n"

/-- What the failure to read a file means. -/
def ReadFault.ofError (e : IO.Error) : ReadFault :=
  match e with
  | .noFileOrDirectory .. => .notFound
  | .inappropriateType _ code _ => if code = 21 then .isADirectory else .notADirectory
  | e => .other (toString e)

/-- Read the file at a path. -/
def readText (path : String) : IO (Except ReadFault String) := do
  try
    match String.fromUTF8? (← IO.FS.readBinFile path) with
    | some text => return .ok text
    | none => return .error .invalidData
  catch e => return .error (.ofError e)

/-- The rule file that the arguments name, as it can be read now. No other file is ever
needed. -/
def filesFor (args : List String) : IO Files := do
  match Options.ofArgs? args with
  | .ok { policy? := some path, .. } =>
    let content ← readText path
    return fun _ => content
  | _ => return fun _ => .error .notFound

/-- A seed that cannot be foreseen. -/
def freshSeed : IO UInt64 := do
  let bytes ← IO.getRandomBytes 8
  return bytes.toList.foldl (fun n b => 256 * n + b.toUInt64) 0

/-- What the program finds around it. -/
def surroundings (args : List String) : IO (Surroundings Draw.Seeded) := do
  return ⟨← filesFor args, .builtIn, .ofSeed, .ofSeed (← freshSeed)⟩

end Moniker

open Moniker in
/-- The program: the arguments in, the exit code out. -/
def main (args : List String) : IO UInt32 := do
  let forced? := (← IO.getEnv levelVariable).bind Level.ofName?
  let run := Run.ofArgs (← surroundings args) forced? args
  for entry in run.log do IO.eprintln entry
  for complaint in run.error? do IO.eprintln complaint
  match Options.ofArgs? args with
  | .error .help => IO.print usage
  | .error _ => IO.eprint usage
  | .ok _ => IO.print run.output
  return UInt32.ofNat run.code
