import Mathlib.Data.List.Forall2
import Moniker.Proofs.Draw.Successive
import Moniker.Proofs.Policy.Origin
import Moniker.Draw.Seeded

/-!
# Making up names

What a run is that makes up names, whatever the source of its random words: `Options.MakesUp` tells
the policies and the batches behind its answer.

* `Policy.run_batches_iff` — the names in the batches are what the policies make up in successive
  runs on one source;
* `Policy.run_batches_append_iff` — policies that come later leave the first batches as they are;
* `Options.seeded_runs_extend` — so a seeded run that goes on longer begins with the same names.
-/

namespace Moniker

open Draw (FiniteSource Outcome Successive run_bind_eq_value_iff run_map_eq_value_iff
  run_collect_iff successive_nil_iff successive_append_iff)

variable {σ : Type} [FiniteSource σ]

/-! ## Batches -/

/-- The batch is one of the policy, with `count` names. -/
structure Batch.IsOf (count : Nat) (p : Policy) (b : Batch) : Prop where
  rule : b.rule = p.name
  pattern : b.pattern = p.pattern
  size : b.names.length = count

namespace Policy

/-- What is run to make up names: each of the policies `count` times, in turn. -/
def draws (count : Nat) (ps : List Policy) : List (Draw Range String) :=
  ps.flatMap fun p => List.replicate count p.generate

variable {count : Nat} {p : Policy} {ps qs : List Policy} {bs : List Batch} {s rest : σ}

theorem run_batches_cons_iff :
    (batches count (p :: ps)).run s = (.value bs, rest) ↔
      ∃ names mid later, Successive s (List.replicate count p.generate) names mid ∧
        (batches count ps).run mid = (.value later, rest) ∧
        ⟨p.name, p.pattern, names⟩ :: later = bs := by
  simp only [batches, run_bind_eq_value_iff, run_map_eq_value_iff, run_collect_iff]
  constructor
  · rintro ⟨names, mid, hnames, later, hlater, rfl⟩
    exact ⟨names, mid, later, hnames, hlater, rfl⟩
  · rintro ⟨names, mid, later, hnames, hlater, rfl⟩
    exact ⟨names, mid, hnames, later, hlater, rfl⟩

/-- The batches are those of the policies in turn, and their names the values of successive
runs. -/
theorem run_batches_iff :
    (batches count ps).run s = (.value bs, rest) ↔
      List.Forall₂ (Batch.IsOf count) ps bs ∧
        Successive s (draws count ps) (bs.flatMap Batch.names) rest := by
  induction ps generalizing s bs with
  | nil =>
    simp only [batches, Draw.run_done, Prod.mk.injEq, Outcome.value.injEq, draws,
      List.flatMap_nil, successive_nil_iff, List.forall₂_nil_left_iff]
    constructor
    · rintro ⟨rfl, rfl⟩
      exact ⟨rfl, rfl, rfl⟩
    · rintro ⟨rfl, -, rfl⟩
      exact ⟨rfl, rfl⟩
  | cons p ps ih =>
    simp only [run_batches_cons_iff, ih, draws, List.flatMap_cons, successive_append_iff]
    constructor
    · rintro ⟨names, mid, later, hnames, ⟨hof, hlater⟩, rfl⟩
      have hsize : names.length = count := hnames.length_eq.trans List.length_replicate
      exact ⟨.cons ⟨rfl, rfl, hsize⟩ hof, names, mid, _, hnames, hlater, rfl⟩
    · rintro ⟨hof, first, mid, later, hfirst, hlater, hnames⟩
      obtain - | @⟨_, b, _, bs, hb, hof⟩ := hof
      have hsize : first.length = b.names.length := by
        rw [hfirst.length_eq, List.length_replicate, hb.size]
      obtain ⟨rfl, rfl⟩ := List.append_inj hnames hsize
      refine ⟨b.names, mid, bs, hfirst, ⟨hof, hlater⟩, ?_⟩
      rw [← hb.rule, ← hb.pattern]

/-- Policies that come later go on where the first ones have stopped. -/
theorem run_batches_append_iff :
    (batches count (ps ++ qs)).run s = (.value bs, rest) ↔
      ∃ first mid later, (batches count ps).run s = (.value first, mid) ∧
        (batches count qs).run mid = (.value later, rest) ∧ first ++ later = bs := by
  induction ps generalizing s bs with
  | nil => simp [batches, and_assoc]
  | cons p ps ih =>
    simp only [List.cons_append, run_batches_cons_iff, ih]
    constructor
    · rintro ⟨names, mid, _, hnames, ⟨first, mid', later, hfirst, hlater, rfl⟩, rfl⟩
      exact ⟨_, mid', later, ⟨names, mid, first, hnames, hfirst, rfl⟩, hlater, rfl⟩
    · rintro ⟨_, mid', later, ⟨names, mid, first, hnames, hfirst, rfl⟩, hlater, rfl⟩
      exact ⟨names, mid, _, hnames, ⟨first, mid', later, hfirst, hlater, rfl⟩, rfl⟩

/-- The words of the source are enough for the batches. -/
theorem batchesFrom_eq_ok_iff :
    batchesFrom s count ps = .ok bs ↔ ((batches count ps).run s).1 = .value bs := by
  rw [batchesFrom]
  split <;> simp [*]

/-- The policies are of the same rule, whatever line it was read from. -/
structure SameRule (p q : Policy) : Prop where
  name : p.name = q.name
  pattern : p.pattern = q.pattern

/-- Policies of the same rule make up the same names. -/
theorem SameRule.generate_eq {p q : Policy} (h : p.SameRule q) (hp : p.Sound) (hq : q.Sound) :
    p.generate = q.generate := by
  have hcompiles := hp.compiles
  rw [h.pattern, hq.compiles] at hcompiles
  rw [generate, generate, Except.ok.inj hcompiles]

theorem batches_congr (h : List.Forall₂ SameRule ps qs) (hps : ∀ p ∈ ps, p.Sound)
    (hqs : ∀ q ∈ qs, q.Sound) : batches count ps = batches count qs := by
  induction h with
  | nil => rfl
  | cons hsame _ ih =>
    obtain ⟨hp, hps⟩ := List.forall_mem_cons.1 hps
    obtain ⟨hq, hqs⟩ := List.forall_mem_cons.1 hqs
    rw [batches, batches, hsame.generate_eq hp hq, ih hps hqs, hsame.name, hsame.pattern]

end Policy

/-! ## Runs -/

namespace Options

/-- The random words of a run with a seed are the stream of the seed. -/
theorem source_of_seed {σ : Type} {w : Surroundings σ} {o : Options} {seed : UInt64}
    (h : o.seed? = some seed) : o.source w = w.stream seed := by
  rw [Options.source, h]

/-- With the words of the source, the run makes up these batches for these policies. -/
structure MakesUp (files : Files) (source : σ) (o : Options) (ps : List Policy)
    (bs : List Batch) : Prop where
  selects : o.select files = .ok ps
  gives : ((Policy.batches o.count ps).run source).1 = .value bs

variable {files : Files} {source : σ} {o : Options}

/-- A run that checks nothing ends with the report on its batches. -/
theorem answer_eq_ok_iff {w : Surroundings σ} (hcheck : o.check? = none) {a : Answer} :
    o.answer w = .ok a ↔ ∃ ps bs, o.MakesUp w.files (o.source w) ps bs ∧
      a = ⟨0, Batch.report bs o.format o.verbosity o.quiet⟩ := by
  simp only [answer, hcheck, nameAnswer, bind_eq_ok_iff, Policy.batchesFrom_eq_ok_iff,
    Except.ok.injEq, @eq_comm _ a]
  constructor
  · rintro ⟨ps, hps, bs, hbs, h⟩
    exact ⟨ps, bs, ⟨hps, hbs⟩, h⟩
  · rintro ⟨ps, bs, ⟨hps, hbs⟩, h⟩
    exact ⟨ps, hps, bs, hbs, h⟩

namespace MakesUp

variable {files' : Files} {o' : Options} {ps ps' later : List Policy} {bs bs' : List Batch}

theorem sound (h : o.MakesUp files source ps bs) : ∀ p ∈ ps, p.Sound :=
  (select_eq_ok_iff.1 h.selects).sound

/-- There is one batch for each policy. -/
theorem forall₂ (h : o.MakesUp files source ps bs) : List.Forall₂ (Batch.IsOf o.count) ps bs :=
  (Policy.run_batches_iff.1 (Prod.ext h.gives rfl)).1

/-- The names are the values of successive runs on the source. -/
theorem successive (h : o.MakesUp files source ps bs) :
    ∃ rest, Successive source (Policy.draws o.count ps) (bs.flatMap Batch.names) rest :=
  ⟨_, (Policy.run_batches_iff.1 (Prod.ext h.gives rfl)).2⟩

/-- Names that are made up for further policies come after all others. -/
theorem batches_prefix (h : o.MakesUp files source ps bs)
    (h' : o'.MakesUp files' source (ps' ++ later) bs') (hsame : List.Forall₂ Policy.SameRule ps ps')
    (hcount : o'.count = o.count) : bs <+: bs' := by
  have hsound' : ∀ p ∈ ps', p.Sound := fun p hp => h'.sound p (List.mem_append_left later hp)
  obtain ⟨first, mid, more, hfirst, -, rfl⟩ :=
    Policy.run_batches_append_iff.1 (Prod.ext h'.gives rfl)
  rw [hcount, ← Policy.batches_congr hsame h.sound hsound'] at hfirst
  obtain rfl : bs = first := Outcome.value.inj (h.gives.symm.trans (congrArg Prod.fst hfirst))
  exact List.prefix_append bs more

/-- If more names are made up for the one policy, those that are added come after the others. -/
theorem names_eq_take {p q : Policy} (h : o.MakesUp files source [p] bs)
    (h' : o'.MakesUp files' source [q] bs') (hsame : p.SameRule q) (hcount : o.count ≤ o'.count) :
    ∃ b b', bs = [b] ∧ bs' = [b'] ∧ b.names = b'.names.take o.count := by
  obtain - | @⟨_, b, _, _, hb, ⟨⟩⟩ := h.forall₂
  obtain - | @⟨_, b', _, _, -, ⟨⟩⟩ := h'.forall₂
  refine ⟨b, b', rfl, rfl, ?_⟩
  obtain ⟨rest, hrun⟩ := h.successive
  obtain ⟨rest', hrun'⟩ := h'.successive
  have hgenerate := hsame.generate_eq (h.sound p List.mem_cons_self) (h'.sound q List.mem_cons_self)
  obtain ⟨more, hmore⟩ := Nat.exists_eq_add_of_le hcount
  simp only [Policy.draws, List.flatMap_cons, List.flatMap_nil, List.append_nil, hmore,
    ← hgenerate, List.replicate_add, successive_append_iff] at hrun hrun'
  obtain ⟨first, mid, later, hfirst, -, hnames⟩ := hrun'
  obtain ⟨rfl, -⟩ := hrun.unique hfirst
  rw [← hnames, List.take_left' hb.size]

end MakesUp

/-- **Seeded runs are stable under extension.** Two runs that make up names with the same seed, and
so with the same stream of random words, give reports on batches. If the second one has the rules of
the first and as many names for each, and perhaps further rules, its batches begin with those of the
first. If both have one and the same rule and the second has at least as many names, its names begin
with those of the first. For the names of a run, rule after rule, are what the stream gives in
successive runs, whatever stream it is. -/
theorem seeded_runs_extend {w w' : Surroundings σ} {seed : UInt64} {o o' : Options}
    {a a' : Answer} (hcheck : o.check? = none) (hcheck' : o'.check? = none)
    (hseed : o.seed? = some seed) (hseed' : o'.seed? = some seed)
    (hstream : w'.stream seed = w.stream seed) (h : o.answer w = .ok a)
    (h' : o'.answer w' = .ok a') :
    ∃ ps bs ps' bs', o.MakesUp w.files (w.stream seed) ps bs ∧
      a = ⟨0, Batch.report bs o.format o.verbosity o.quiet⟩ ∧
      o'.MakesUp w'.files (w.stream seed) ps' bs' ∧
      a' = ⟨0, Batch.report bs' o'.format o'.verbosity o'.quiet⟩ ∧
      (∀ first later, ps' = first ++ later → List.Forall₂ Policy.SameRule ps first →
        o'.count = o.count → bs <+: bs') ∧
      (∀ p q, ps = [p] → ps' = [q] → p.SameRule q → o.count ≤ o'.count →
        ∃ b b', bs = [b] ∧ bs' = [b'] ∧ b.names = b'.names.take o.count) ∧
      List.Forall₂ (Batch.IsOf o.count) ps bs ∧
      ∃ rest, Successive (w.stream seed) (Policy.draws o.count ps)
        (bs.flatMap Batch.names) rest := by
  obtain ⟨ps, bs, hmakes, ha⟩ := (answer_eq_ok_iff hcheck).1 h
  obtain ⟨ps', bs', hmakes', ha'⟩ := (answer_eq_ok_iff hcheck').1 h'
  rw [source_of_seed hseed] at hmakes
  rw [source_of_seed hseed', hstream] at hmakes'
  refine ⟨ps, bs, ps', bs', hmakes, ha, hmakes', ha', ?_, ?_, hmakes.forall₂, hmakes.successive⟩
  · rintro first later rfl hsame hcount
    exact hmakes.batches_prefix hmakes' hsame hcount
  · rintro p q rfl rfl hsame hcount
    exact hmakes.names_eq_take hmakes' hsame hcount

/-- A rule file with two rules, and the streams of the program. -/
def twoRules : Surroundings Draw.Seeded where
  files _ := .ok "a=[0010](1)<: >\nb=<y>[1000](0,1)"
  engine := .builtIn
  stream := .ofSeed
  fresh := .ofSeed 0

/-- Two names for each of the rules of that file. -/
def twoNames (rules : List String) : Options :=
  { default with policy? := some "rules", rules, seed? := some 42, count := 2 }

/-- A second rule does not change the names for the first. -/
theorem seeded_runs_extend_further :
    ∃ p q bs bs', (twoNames ["a"]).MakesUp twoRules.files (twoRules.stream 42) [p] bs ∧
      (twoNames ["a", "b"]).MakesUp twoRules.files (twoRules.stream 42) [p, q] bs' ∧
      bs <+: bs' := by
  have hfirst : ((twoNames ["a"]).answer twoRules).isOk = true := by decide +kernel
  have hsecond : ((twoNames ["a", "b"]).answer twoRules).isOk = true := by decide +kernel
  obtain ⟨a, ha⟩ := isOk_iff.1 hfirst
  obtain ⟨a', ha'⟩ := isOk_iff.1 hsecond
  obtain ⟨ps, bs, ps', bs', hmakes, -, hmakes', -, hprefix, -⟩ :=
    seeded_runs_extend rfl rfl rfl rfl rfl ha ha'
  -- the rule that both runs have is the same, since it comes from the same set
  have hrules : (twoNames ["a"]).rules ≠ [] ∧ (twoNames ["a", "b"]).rules ≠ [] := by decide
  obtain ⟨s, hs, hps⟩ := (select_eq_ok_iff.1 hmakes.selects).exists_forall₂ rfl hrules.1
  obtain ⟨s', hs', hps'⟩ := (select_eq_ok_iff.1 hmakes'.selects).exists_forall₂ rfl hrules.2
  obtain rfl := Except.ok.inj (hs.symm.trans hs')
  obtain - | @⟨_, p, _, _, hp, ⟨⟩⟩ := hps
  obtain - | @⟨_, p', _, _, hp', - | @⟨_, q, _, _, -, ⟨⟩⟩⟩ := hps'
  obtain rfl := Option.some.inj (hp.symm.trans hp')
  exact ⟨p, q, bs, bs', hmakes, hmakes',
    hprefix [p] [q] rfl (.cons ⟨rfl, rfl⟩ .nil) rfl⟩

end Options

end Moniker
