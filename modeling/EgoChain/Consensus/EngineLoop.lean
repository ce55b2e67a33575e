import EgoChain.Consensus.EngineBooks

/-!
# The loop of the engine ends

`progress` repeats its body until nothing is left to do.  Every turn that asks
for another one lowers `workLeft`: a round skip uses up rounds the engine has
heard of, a vote moves the step on, and a polka is taken once per round.  The
fuel of the model is therefore never what stops the loop.
-/

namespace EgoChain.Consensus.Tendermint

open EgoChain.Foundations

variable {engine : Tendermint} {now : Nat} {order : IterOrder}
  {target : Nat} {value : ValueId} {next : Tendermint} {out : List Action}

theorem skipTarget_spec (found : engine.skipTarget = some target) :
    engine.round < target ∧ ∃ member, engine.highest.lookup member = some target := by
  unfold skipTarget at found
  dsimp only at found
  split at found
  case h_2 => cases found
  case h_1 round there =>
  obtain ⟨above, found⟩ := Option.ite_none_right_eq_some.mp found
  cases found
  have mem := List.mem_of_getElem? there
  rw [List.mem_insertionSort] at mem
  obtain ⟨entry, inFilter, same⟩ := List.mem_map.mp mem
  have inEntries := (List.mem_filter.mp inFilter).1
  refine ⟨above, entry.1, ?_⟩
  rw [← same]
  exact (KeyedMap.mem_entries_iff engine.highest _ _).mp inEntries

theorem le_highestHeard {member round : Nat} (heard : engine.highest.lookup member = some round) :
    round ≤ engine.highestHeard := by
  have inEntries := (KeyedMap.mem_entries_iff engine.highest _ _).mpr heard
  unfold highestHeard
  generalize engine.highest.entries = entries at inEntries ⊢
  induction entries with
  | nil => cases inEntries
  | cons entry rest ih =>
    rcases List.mem_cons.mp inEntries with here | there
    · subst here
      exact le_max_left _ _
    · exact (ih there).trans (le_max_right _ _)

/-! ## What the steps of the loop leave alone -/

variable (engine)

theorem workLeft_arm (timer : Timer) (round now : Nat) :
    (engine.arm timer round now).workLeft = engine.workLeft := by
  unfold arm
  split <;> rfl

theorem workLeft_armIf (test : Bool) (timer : Timer) (now : Nat) :
    (engine.armIf test timer now).workLeft = engine.workLeft := by
  unfold armIf
  split
  · exact workLeft_arm engine timer engine.round now
  · rfl

theorem workLeft_castAnd (kind : VoteKind) (value : Option ValueId) (next : Step) :
    (engine.castAnd kind value next).1.workLeft = { engine with step := next }.workLeft := by
  unfold castAnd cast
  cases engine.me with
  | none => rfl
  | some me =>
    dsimp only
    split
    · rfl
    · cases kind <;> rfl

/-- What the measure is made of, for one round and one step. -/
theorem workLeft_step_lt {next : Step} (lower : stepRank next < stepRank engine.step) :
    { engine with step := next }.workLeft < engine.workLeft := by
  unfold workLeft
  dsimp [highestHeard]
  omega

variable {engine}

theorem workLeft_startRound (found : engine.skipTarget = some target) :
    (engine.startRound now target).1.workLeft < engine.workLeft := by
  obtain ⟨above, member, heard⟩ := skipTarget_spec found
  have reached := le_highestHeard heard
  unfold startRound
  rw [workLeft_arm]
  unfold workLeft
  dsimp only [highestHeard, stepRank]
  unfold highestHeard at reached
  split <;> split <;> omega

/-- The engine that locks the value of a polka, before it votes. -/
abbrev lockedOn (engine : Tendermint) (value : ValueId) : Tendermint :=
  { engine with
    polkaDone := engine.round :: engine.polkaDone, locked := some (engine.round, value) }

theorem workLeft_takePolka (fresh : engine.round ∉ engine.polkaDone) :
    (engine.takePolka value).1.workLeft < engine.workLeft := by
  have marked : { engine with polkaDone := engine.round :: engine.polkaDone }.workLeft <
      engine.workLeft := by
    unfold workLeft
    dsimp [highestHeard]
    rw [if_pos List.mem_cons_self, if_neg fresh]
    omega
  unfold takePolka
  dsimp only
  split
  case isFalse => exact marked
  case isTrue prevoting =>
  have lower : stepRank .precommit < stepRank engine.step := by rw [prevoting]; decide
  calc
    _ = ((engine.lockedOn value).castAnd .precommit (some value) .precommit).1.workLeft := rfl
    _ = { engine.lockedOn value with step := .precommit }.workLeft := workLeft_castAnd _ _ _ _
    _ < { engine with polkaDone := engine.round :: engine.polkaDone }.workLeft :=
      workLeft_step_lt (engine.lockedOn value) lower
    _ < engine.workLeft := marked

theorem freshPolka_spec (found : engine.freshPolka order = some value) :
    engine.step ≠ .propose ∧ engine.round ∉ engine.polkaDone ∧
      engine.valueWithQuorum order .prevote engine.round = some value ∧
      engine.acceptable value = true := by
  obtain ⟨guard, found⟩ := Option.ite_none_right_eq_some.mp found
  split at found
  case h_2 => cases found
  case h_1 other there =>
    obtain ⟨ok, found⟩ := Option.ite_none_right_eq_some.mp found
    cases found
    exact ⟨guard.1, guard.2, there, ok⟩

/-- A turn of the loop that asks for another one has less left to do. -/
theorem workLeft_advance (goesOn : engine.advance order now = (true, next, out)) :
    next.workLeft < engine.workLeft := by
  unfold advance at goesOn
  split at goesOn
  case h_1 target found =>
    obtain rfl := congrArg (·.2.1) goesOn
    exact workLeft_startRound found
  case h_2 =>
  split at goesOn
  case h_1 value judged =>
    obtain ⟨atPropose, -⟩ := Option.ite_none_right_eq_some.mp judged
    obtain rfl := congrArg (·.2.1) goesOn
    rw [workLeft_castAnd]
    exact workLeft_step_lt _ (by rw [atPropose]; decide)
  case h_2 =>
    dsimp only at goesOn
    rw [← workLeft_armIf engine (decide (engine.step = .prevote ∧
      engine.countAny .prevote engine.round ≥ quorum engine.n)) .prevote now]
    split at goesOn
    case h_1 value found =>
      obtain rfl := congrArg (·.2.1) goesOn
      exact workLeft_takePolka (freshPolka_spec found).2.1
    case h_2 =>
    split at goesOn
    case isFalse => cases goesOn
    case isTrue nil =>
      obtain rfl := congrArg (·.2.1) goesOn
      rw [workLeft_castAnd]
      exact workLeft_step_lt _ (by rw [nil.1]; decide)

theorem settle_fst_of_not_idle (active : (engine.settle order).1.idle = false) :
    engine.settle order = (engine, []) := by
  unfold settle at active ⊢
  split at active
  · simp [idle] at active
  · rfl

theorem workLeft_progressOnce (goesOn : engine.progressOnce order now = (true, next, out)) :
    next.workLeft < engine.workLeft := by
  unfold progressOnce at goesOn
  dsimp only at goesOn
  split at goesOn
  case isTrue => cases goesOn
  case isFalse active =>
    rw [settle_fst_of_not_idle (by simpa using active)] at goesOn
    simp only [Prod.mk.injEq] at goesOn
    exact workLeft_advance (Prod.ext goesOn.1 (Prod.ext goesOn.2.1 rfl))

variable (order : IterOrder) (now : Nat)

/-- Fuel above the measure does not change what the loop computes. -/
theorem progressLoop_eq_of_workLeft_lt {fuel more : Nat} (enough : engine.workLeft < fuel)
    (plenty : fuel ≤ more) :
    progressLoop order now more engine = progressLoop order now fuel engine := by
  induction fuel generalizing engine more with
  | zero => omega
  | succ fuel ih =>
    obtain ⟨more, rfl⟩ : ∃ rest, more = rest + 1 := ⟨more - 1, by omega⟩
    unfold progressLoop
    split
    case h_1 => rfl
    case h_2 next out goesOn =>
      have lower := workLeft_progressOnce goesOn
      rw [ih (show next.workLeft < fuel by omega) (show fuel ≤ more by omega)]

/-- The loop equation of `progress`. -/
theorem progress_unfold (engine : Tendermint) : engine.progress order now =
      match engine.progressOnce order now with
      | (false, next, out) => (next, out)
      | (true, next, out) => ((next.progress order now).1, out ++ (next.progress order now).2) := by
  unfold progress
  rw [progressLoop]
  cases turn : engine.progressOnce order now with
  | mk goesOn rest =>
    obtain ⟨next, out⟩ := rest
    cases goesOn with
    | false => rfl
    | true =>
      have lower := workLeft_progressOnce turn
      have same := progressLoop_eq_of_workLeft_lt order now
        (show next.workLeft < next.workLeft + 1 by omega)
        (show next.workLeft + 1 ≤ engine.workLeft by omega)
      dsimp only
      rw [same]

/-! ## A rule for the loop -/

/-- A relation between a state, a later state and the actions asked for in between, that holds for
every elementary change the loop makes. -/
structure LoopRule (Rel : Tendermint → Tendermint → List Action → Prop) : Prop where
  refl (engine : Tendermint) : Rel engine engine []
  trans {first middle last : Tendermint} {out more : List Action} (left : Rel first middle out)
    (right : Rel middle last more) : Rel first last (out ++ more)
  arm (engine : Tendermint) (timer : Timer) (now : Nat) :
    Rel engine (engine.arm timer engine.round now) []
  skip (engine : Tendermint) (now : Nat) {round : Nat} (target : engine.skipTarget = some round) :
    Rel engine (engine.startRound now round).1 (engine.startRound now round).2
  prevote (engine : Tendermint) {value : Option ValueId} (atPropose : engine.step = .propose)
    (judged : engine.verdict = some value) :
    Rel engine (engine.castAnd .prevote value .prevote).1 (engine.castAnd .prevote value .prevote).2
  precommitNil (engine : Tendermint) (atPrevote : engine.step = .prevote) :
    Rel engine (engine.castAnd .precommit none .precommit).1
      (engine.castAnd .precommit none .precommit).2
  polka (engine : Tendermint) (order : IterOrder) {value : ValueId}
    (found : engine.freshPolka order = some value) :
    Rel engine (engine.takePolka value).1 (engine.takePolka value).2
  decide (engine : Tendermint) (order : IterOrder) {round : Nat} {value : ValueId}
    (undecided : engine.decision = none) (found : engine.findDecision order = some (round, value)) :
    Rel engine { engine with decision := some (round, value), timers := [] } [.decide round value]

namespace LoopRule

variable {Rel : Tendermint → Tendermint → List Action → Prop} (rule : LoopRule Rel)

include rule

theorem armIf (engine : Tendermint) (test : Bool) (timer : Timer) (now : Nat) :
    Rel engine (engine.armIf test timer now) [] := by
  unfold Tendermint.armIf
  split
  · exact rule.arm engine timer now
  · exact rule.refl engine

variable (order : IterOrder) (now : Nat) (engine : Tendermint)

theorem settle : Rel engine (engine.settle order).1 (engine.settle order).2 := by
  unfold Tendermint.settle
  split
  case h_1 found undecided there => exact rule.decide engine order undecided there
  case h_2 => exact rule.refl engine

theorem advance : Rel engine (engine.advance order now).2.1 (engine.advance order now).2.2 := by
  unfold Tendermint.advance
  split
  case h_1 round target => exact rule.skip engine now target
  case h_2 =>
  split
  case h_1 value judged =>
    obtain ⟨atPropose, judged⟩ := Option.ite_none_right_eq_some.mp judged
    exact rule.prevote engine atPropose judged
  case h_2 =>
  have armed := rule.armIf engine (Decidable.decide (engine.step = .prevote ∧
      engine.countAny .prevote engine.round ≥ quorum engine.n)) .prevote now
  dsimp only
  split
  case h_1 value found => exact rule.trans armed (rule.polka _ order found)
  case h_2 =>
    split
    case isTrue nil => exact rule.trans armed (rule.precommitNil _ nil.1)
    case isFalse => exact rule.trans armed (rule.armIf _ _ .precommit now)

theorem progressOnce :
    Rel engine (engine.progressOnce order now).2.1 (engine.progressOnce order now).2.2 := by
  have settled := rule.settle order engine
  unfold Tendermint.progressOnce
  dsimp only
  split
  · exact settled
  · exact rule.trans settled (rule.advance order now (engine.settle order).1)

theorem progress : Rel engine (engine.progress order now).1 (engine.progress order now).2 := by
  unfold Tendermint.progress
  generalize engine.workLeft + 1 = fuel
  induction fuel generalizing engine with
  | zero => exact rule.refl engine
  | succ fuel ih =>
    have once := rule.progressOnce order now engine
    unfold progressLoop
    split
    case h_1 stopped =>
      rw [stopped] at once
      exact once
    case h_2 next out goesOn =>
      rw [goesOn] at once
      exact rule.trans once (ih next)

end LoopRule

/-! ## A rule for the calls that tell the engine nothing -/

/-- A rule for the loop that also covers what the timers do. -/
structure TickRule (Rel : Tendermint → Tendermint → List Action → Prop) : Prop
    extends LoopRule Rel where
  drain (engine : Tendermint) (timers : List (Timer × Nat × Nat)) : Rel engine { engine with timers } []
  next (engine : Tendermint) (now : Nat) :
    Rel engine (engine.startRound now (satAdd32 engine.round 1)).1
      (engine.startRound now (satAdd32 engine.round 1)).2
  prevoteNil (engine : Tendermint) (atPropose : engine.step = .propose) :
    Rel engine (engine.castAnd .prevote none .prevote).1 (engine.castAnd .prevote none .prevote).2

/-- A rule for the loop that also covers what starting the engine and its timers do. -/
structure CallRule (Rel : Tendermint → Tendermint → List Action → Prop) : Prop
    extends LoopRule Rel where
  wait (engine : Tendermint) (timers : List (Timer × Nat × Nat)) (armed : List (Timer × Nat))
    (started : Bool) : Rel engine { engine with timers, armed, started } []
  open' (engine : Tendermint) (now : Nat) :
    Rel engine (engine.startRound now engine.round).1 (engine.startRound now engine.round).2
  next (engine : Tendermint) (now : Nat) :
    Rel engine (engine.startRound now (satAdd32 engine.round 1)).1
      (engine.startRound now (satAdd32 engine.round 1)).2
  prevoteNil (engine : Tendermint) (atPropose : engine.step = .propose) :
    Rel engine (engine.castAnd .prevote none .prevote).1 (engine.castAnd .prevote none .prevote).2

variable {Rel : Tendermint → Tendermint → List Action → Prop}

namespace TickRule

variable (rule : TickRule Rel)

include rule

theorem fire (engine : Tendermint) (now : Nat) (timer : Timer) (round : Nat) :
    Rel engine (engine.fire now timer round).1 (engine.fire now timer round).2 := by
  unfold Tendermint.fire
  cases timer with
  | propose =>
    dsimp only
    split
    case isTrue due => exact rule.prevoteNil engine due.2
    case isFalse => exact rule.refl engine
  | prevote =>
    dsimp only
    split
    case isTrue due => exact rule.precommitNil engine due.2
    case isFalse => exact rule.refl engine
  | precommit =>
    dsimp only
    split
    case isTrue due =>
      subst due
      exact rule.next engine now
    case isFalse => exact rule.refl engine

variable (order : IterOrder) (now : Nat)

theorem fireAll (due : List (Timer × Nat × Nat)) (engine : Tendermint) :
    Rel engine (Tendermint.fireAll order now due engine).1
      (Tendermint.fireAll order now due engine).2 := by
  induction due generalizing engine with
  | nil => exact rule.refl engine
  | cons timer rest ih =>
    obtain ⟨timer, round, -⟩ := timer
    unfold Tendermint.fireAll
    split
    · exact rule.refl engine
    · exact rule.trans (rule.trans (rule.fire engine now timer round)
        (rule.progress order now _)) (ih _)

theorem tick (engine : Tendermint) :
    Rel engine (engine.tick order now).1 (engine.tick order now).2 := by
  have drained := rule.drain engine (engine.timers.filter fun timer => ¬ timer.2.2 ≤ now)
  unfold Tendermint.tick
  simpa using rule.trans drained (rule.trans (rule.fireAll order now _ _) (rule.progress order now _))

end TickRule

namespace CallRule

variable (rule : CallRule Rel)

include rule

variable (order : IterOrder) (now : Nat) (engine : Tendermint)

theorem start : Rel engine (engine.start order now).1 (engine.start order now).2 := by
  have begun := rule.wait engine engine.timers engine.armed true
  unfold Tendermint.start
  split
  case isTrue => exact rule.refl engine
  case isFalse =>
  have again := rule.open' { engine with started := true } now
  dsimp only
  repeat' split
  any_goals simpa using rule.trans begun (rule.trans again (rule.progress order now _))
  · simpa using rule.trans begun (rule.trans (rule.arm _ .prevote now) (rule.progress order now _))
  · simpa using rule.trans begun (rule.trans (rule.arm _ .precommit now) (rule.progress order now _))
  · simpa using rule.trans begun (rule.progress order now _)

theorem tick : Rel engine (engine.tick order now).1 (engine.tick order now).2 :=
  TickRule.tick { rule with
      drain := fun engine timers => rule.wait engine timers engine.armed engine.started }
    order now engine

end CallRule

/-! ## Runs of the loop -/

/-- A turn of the loop leads from the second state to the first and asks for another turn. -/
def GoesOn (next engine : Tendermint) : Prop :=
  ∃ order now out, engine.progressOnce order now = (true, next, out)

/-- The loop of `progress`, without fuel: some number of turns that go on and one that does not. -/
inductive LoopRuns (order : IterOrder) (now : Nat) :
    Nat → Tendermint → Tendermint → List Action → Prop where
  | stop {engine last : Tendermint} {out : List Action}
      (turn : engine.progressOnce order now = (false, last, out)) :
      LoopRuns order now 1 engine last out
  | again {turns : Nat} {engine next last : Tendermint} {out later : List Action}
      (turn : engine.progressOnce order now = (true, next, out))
      (rest : LoopRuns order now turns next last later) :
      LoopRuns order now (turns + 1) engine last (out ++ later)

theorem exists_loopRuns (engine : Tendermint) :
    ∃ turns ≤ engine.workLeft + 1, LoopRuns order now turns engine
      (engine.progress order now).1 (engine.progress order now).2 := by
  induction work : engine.workLeft using Nat.strong_induction_on generalizing engine with
  | _ work' ih =>
    subst work
    rw [progress_unfold]
    cases turn : engine.progressOnce order now with
    | mk goesOn rest =>
      obtain ⟨next, out⟩ := rest
      cases goesOn with
      | false => exact ⟨1, Nat.le_add_left _ _, .stop turn⟩
      | true =>
        have lower := workLeft_progressOnce turn
        obtain ⟨turns, few, runs⟩ := ih next.workLeft lower next rfl
        exact ⟨turns + 1, by omega, .again turn runs⟩

/-- The loop of `progress` ends in every state: each turn that goes on lowers the measure, so no
sequence of turns goes on forever, and what `progress` returns is what the loop ends with. -/
theorem progress_terminates (engine : Tendermint) :
    (∀ next, GoesOn next engine → next.workLeft < engine.workLeft) ∧ WellFounded GoesOn ∧
      ∀ order now, ∃ turns ≤ engine.workLeft + 1, LoopRuns order now turns engine
        (engine.progress order now).1 (engine.progress order now).2 := by
  have lowers : ∀ next engine, GoesOn next engine → next.workLeft < engine.workLeft := by
    rintro next engine ⟨order, now, out, turn⟩
    exact workLeft_progressOnce turn
  refine ⟨fun next => lowers next engine, ?_, fun order now => exists_loopRuns order now engine⟩
  exact Subrelation.wf (lowers _ _) (measure workLeft).wf

end EgoChain.Consensus.Tendermint
