import Moniker.Command.Answer

/-!
# The log of a run

While it answers, the program can tell what it is doing. An `Event` is one thing it tells, and
`Options.events` lists them in order: which patterns were compiled, which rules of the file
override built-in ones, what there is to select from, and what was made up. Only those events
are written that are as grave as the chosen `Level` asks for.
-/

namespace Moniker

open Text (lines quote)

/-- How much is told. Each level tells all that those before it tell. -/
inductive Level where
  | off
  | error
  | warn
  | info
  | debug
  | trace
deriving DecidableEq, Repr

namespace Level

/-- The position of a level, the quietest first. -/
def rank : Level → Nat
  | off => 0
  | error => 1
  | warn => 2
  | info => 3
  | debug => 4
  | trace => 5

/-- The level of the given name. -/
def ofName? (name : String) : Option Level :=
  match name with
  | "off" => some off
  | "error" => some error
  | "warn" => some warn
  | "info" => some info
  | "debug" => some debug
  | "trace" => some trace
  | _ => none

end Level

/-- The level that the options ask for. -/
def Options.level (o : Options) : Level :=
  if o.quiet then .error
  else match o.verbosity with
    | 0 => .warn
    | 1 => .debug
    | _ => .trace

/-- Something worth telling. -/
inductive Event where
  /-- a pattern has been compiled to a tree with so many nodes -/
  | compiled (pattern : String) (nodes : Nat)
  /-- a rule of the file replaces a built-in one -/
  | overridden (rule : String)
  /-- the file has been read, and there are so many rules now -/
  | loaded (path : String) (rules : Nat)
  /-- these are the rules to select from -/
  | ready (rules : List String)
  /-- a name has been made up -/
  | generated (name : String)
  /-- so many names have been made up for a rule -/
  | finished (rule : String) (count : Nat)
deriving DecidableEq, Repr

namespace Event

/-- The level from which on an event is told. -/
def level : Event → Level
  | generated _ => .trace
  | _ => .debug

/-- The wording of an event. -/
def message : Event → String
  | compiled pattern nodes =>
    "DEBUG compiled naming pattern pattern=" ++ quote pattern ++ s!" nodes={nodes}"
  | overridden rule => "DEBUG policy file overrides default rule rule=" ++ quote rule
  | loaded path rules => s!"DEBUG loaded policy file path={path} rules={rules}"
  | ready rules =>
    "DEBUG policy set ready rules=[" ++ String.intercalate ", " (rules.map quote) ++ "]"
  | generated name => "TRACE generated name name=" ++ name
  | finished rule count =>
    "DEBUG generated names rule=" ++ quote rule ++ s!" count={count}"

end Event

/-! ### The events of a run -/

/-- That a pattern has been compiled, if it can be. -/
def compileEvents (pattern : String) : List Event :=
  match Tree.compile pattern with
  | .ok t => [.compiled pattern t.nodeCount]
  | .error _ => []

/-- What is told while the policies of the built-in rules are made. -/
def builtInEvents : List Event := PolicySet.builtInRules.flatMap fun rule => compileEvents rule.2

/-- What is told while one more line of a rule file is read. -/
def lineEvents (earlier : List Policy) (line : List Char) : List Event :=
  match ruleOfLine? line with
  | .ok (some (name, pattern)) =>
    if earlier.any (·.name = name) then [] else compileEvents pattern
  | _ => []

/-- What is told while lines of a rule file are read, up to the first that is wrong. -/
def linesEvents (earlier : List Policy) (number : Nat) : List (List Char) → List Event
  | [] => []
  | line :: later =>
    lineEvents earlier line ++
      match Policy.addLine? earlier line number with
      | .ok policies => linesEvents policies (number + 1) later
      | .error _ => []

/-- What is told when the policies of the file at `path` have been added to the built-in
ones. -/
def overlayEvents (path : String) (ps : List Policy) : List Event :=
  let replacing := ps.filter fun p => (PolicySet.defaults.get? p.name).isSome
  replacing.map (.overridden ·.name) ++ [.loaded path (PolicySet.defaults.insertAll ps).size]

/-- What is told while the file at `path` is read. -/
def loadEvents (files : Files) (path : String) : List Event :=
  match files path with
  | .error _ => []
  | .ok source =>
    builtInEvents ++ linesEvents [] 1 (lines source.toList) ++
      match Policy.ofSource? source with
      | .ok ps => overlayEvents path ps
      | .error _ => []

/-- What is told while policies are selected. -/
def Options.selectEvents (files : Files) (o : Options) : List Event :=
  match o.pattern? with
  | some pattern => compileEvents pattern
  | none =>
    (match o.policy? with
      | some path => loadEvents files path
      | none => builtInEvents) ++
      match o.policySet files with
      | .ok s => [.ready s.names]
      | .error _ => []

/-- What is told about the names for one rule. -/
def Batch.events (b : Batch) : List Event :=
  b.names.map .generated ++ [.finished b.rule b.names.length]

variable {σ : Type} [Draw.FiniteSource σ]

/-- What is told while names are made up. -/
def Options.nameEvents (source : σ) (o : Options) (ps : List Policy) : List Event :=
  match Policy.batchesFrom source o.count ps with
  | .ok batches => batches.flatMap Batch.events
  | .error _ => []

/-- Everything that is told in a run, in order. -/
def Options.events (w : Surroundings σ) (o : Options) : List Event :=
  o.selectEvents w.files ++
    match o.select w.files, o.check? with
    | .ok ps, none => o.nameEvents (o.source w) ps
    | _, _ => []

/-- The lines of the log: what is told in a run, as far as `level` asks for it. -/
def Options.log (w : Surroundings σ) (level : Level) (o : Options) : List String :=
  ((o.events w).filter fun e => e.level.rank ≤ level.rank).map Event.message

end Moniker
