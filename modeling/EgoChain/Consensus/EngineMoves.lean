import EgoChain.Consensus.EngineLoop

/-!
# Elementary moves of the engine

Every public call of the engine is a finite sequence of nine kinds of elementary
change.  Invariants of the engine are proved for one move at a time, and hold
along every call and every run from there.
-/

namespace EgoChain.Consensus

open EgoChain.Foundations

/-- A set of votes: kind, round, voter and value. -/
abbrev Heard := VoteKind → Nat → Nat → Option ValueId → Prop

/-- What the world may tell an engine: votes, and values said to be valid. -/
structure World where
  told : Heard
  accepts : ValueId → Prop

/-- One elementary change of the engine, with the actions it asks for. -/
inductive Move (world : World) : Tendermint → Tendermint → List Action → Prop where
  /-- Bookkeeping that no vote depends on directly. -/
  | note (engine : Tendermint) (proposals : KeyedMap Nat (ValueId × Option Nat))
      (validity : KeyedMap ValueId Bool) (highest : KeyedMap Nat Nat)
      (timers : List (Timer × Nat × Nat)) (armed : List (Timer × Nat)) (started : Bool)
      (proofs : ∀ round value proof, proposals.lookup round = some (value, some proof) →
        proof < round ∨ engine.proposals.lookup round = some (value, some proof))
      (rounds : ∀ member round, highest.lookup member = some round →
        round ≤ maxU32 ∨ engine.highest.lookup member = some round)
      (judged : ∀ value, validity.lookup value = some true →
        world.accepts value ∨ engine.validity.lookup value = some true) :
      Move world engine { engine with proposals, validity, highest, timers, armed, started } []
  | offer (engine : Tendermint) (mine : some (engine.proposer engine.round) = engine.me)
      (fresh : (engine.round, VoteKind.prevote) ∉ engine.sent) :
      Move world engine engine [.propose engine.round (engine.valid.map Prod.fst)
        ((engine.valid.map Prod.snd).or engine.carried)]
  | record (engine : Tendermint) (kind : VoteKind) (round voter : Nat) (value : Option ValueId)
      (inside : voter < engine.n) (other : some voter ≠ engine.me)
      (told : world.told kind round voter value) :
      Move world engine (engine.recordVote kind round voter value) []
  | enter (engine : Tendermint) (round : Nat)
      (cause : engine.skipTarget = some round ∨ round = satAdd32 engine.round 1 ∨
        round = engine.round) :
      Move world engine { engine with round := round, step := .propose } []
  | prevote (engine : Tendermint) (value : Option ValueId) (atPropose : engine.step = .propose)
      (basis : value = none ∨ engine.verdict = some value) :
      Move world engine (engine.castAnd .prevote value .prevote).1
        (engine.castAnd .prevote value .prevote).2
  | precommitNil (engine : Tendermint) (atPrevote : engine.step = .prevote) :
      Move world engine (engine.castAnd .precommit none .precommit).1
        (engine.castAnd .precommit none .precommit).2
  | polka (order : IterOrder) (engine : Tendermint) (value : ValueId)
      (found : engine.freshPolka order = some value) :
      Move world engine (engine.takePolka value).1 (engine.takePolka value).2
  | decide (order : IterOrder) (engine : Tendermint) (round : Nat) (value : ValueId)
      (undecided : engine.decision = none)
      (found : engine.findDecision order = some (round, value)) :
      Move world engine { engine with decision := some (round, value), timers := [] }
        [.decide round value]

/-- A finite sequence of moves with the actions they ask for, in order. -/
inductive Moves (world : World) : Tendermint → Tendermint → List Action → Prop where
  | refl (engine : Tendermint) : Moves world engine engine []
  | tail {first middle last : Tendermint} {out more : List Action} :
      Moves world first middle out → Move world middle last more →
      Moves world first last (out ++ more)

namespace Moves

variable {world : World} {first last : Tendermint} {out : List Action}

theorem single (move : Move world first last out) : Moves world first last out := by
  simpa using Moves.tail (.refl first) move

theorem trans {middle : Tendermint} {more : List Action} (left : Moves world first middle out)
    (right : Moves world middle last more) : Moves world first last (out ++ more) := by
  induction right with
  | refl => simpa using left
  | tail _ move ih =>
    rw [← List.append_assoc]
    exact .tail ih move

/-- A property that every move keeps is kept by every sequence of moves. -/
theorem preserves {Holds : Tendermint → Prop}
    (keeps : ∀ {first last out}, Move world first last out → Holds first → Holds last)
    (moves : Moves world first last out) (initial : Holds first) : Holds last := by
  induction moves with
  | refl => exact initial
  | tail _ move ih => exact keeps move ih

end Moves

namespace Tendermint

variable (world : World)

/-! ## Bookkeeping -/

variable (order : IterOrder) (now : Nat) (engine : Tendermint)

theorem moves_withTimers (timers : List (Timer × Nat × Nat)) (armed : List (Timer × Nat))
    (started : Bool) : Moves world engine { engine with timers, armed, started } [] :=
  .single (.note engine engine.proposals engine.validity engine.highest timers armed started
    (fun _ _ _ => Or.inr) (fun _ _ => Or.inr)
    (fun _ => Or.inr))

theorem moves_arm (timer : Timer) (round now : Nat) :
    Moves world engine (engine.arm timer round now) [] := by
  unfold arm
  split
  · exact .refl engine
  · exact moves_withTimers world engine _ _ engine.started

theorem moves_startRound (now round : Nat)
    (cause : engine.skipTarget = some round ∨ round = satAdd32 engine.round 1 ∨ round = engine.round) :
    Moves world engine (engine.startRound now round).1 (engine.startRound now round).2 := by
  have entered : Moves world engine { engine with round := round, step := .propose } [] :=
    .single (.enter engine round cause)
  have armed := moves_arm world { engine with round := round, step := .propose } .propose round now
  unfold startRound
  dsimp only
  split
  case isTrue mine =>
    have offered : Moves world _ _ _ :=
      .single (.offer { engine with round := round, step := .propose } mine.1 mine.2)
    simpa using (entered.trans offered).trans armed
  case isFalse => simpa using entered.trans armed

/-! ## The loop -/

theorem moves_rule : CallRule (Moves world) where
  refl := .refl
  trans left right := left.trans right
  arm engine timer now := moves_arm world engine timer engine.round now
  skip engine now _ target := moves_startRound world engine now _ (Or.inl target)
  prevote engine _ atPropose judged := .single (.prevote engine _ atPropose (Or.inr judged))
  precommitNil engine atPrevote := .single (.precommitNil engine atPrevote)
  polka engine order _ found := .single (.polka order engine _ found)
  decide engine order _ _ undecided found := .single (.decide order engine _ _ undecided found)
  wait := moves_withTimers world
  open' engine now := moves_startRound world engine now _ (Or.inr (Or.inr rfl))
  next engine now := moves_startRound world engine now _ (Or.inr (Or.inl rfl))
  prevoteNil engine atPropose := .single (.prevote engine none atPropose (Or.inl rfl))

theorem moves_progress :
    Moves world engine (engine.progress order now).1 (engine.progress order now).2 :=
  (moves_rule world).progress order now engine

/-! ## The public calls -/

theorem moves_start : Moves world engine (engine.start order now).1 (engine.start order now).2 :=
  (moves_rule world).start order now engine

/-- Noting a sender's round only touches the table of highest rounds. -/
theorem noteRound_eq (voter round : Nat) :
    ∃ highest : KeyedMap Nat Nat, engine.noteRound voter round = { engine with highest } ∧
      ∀ member heardRound, highest.lookup member = some heardRound →
        (member = voter ∧ heardRound = round) ∨ engine.highest.lookup member = some heardRound := by
  have inserted : ∀ member heardRound,
      (engine.highest.insert voter round).lookup member = some heardRound →
        (member = voter ∧ heardRound = round) ∨ engine.highest.lookup member = some heardRound :=
    fun _ _ => KeyedMap.lookup_of_insert
  unfold noteRound
  split
  · exact ⟨_, rfl, inserted⟩
  · split
    · exact ⟨_, rfl, inserted⟩
    · exact ⟨engine.highest, rfl, fun _ _ => Or.inr⟩

/-- A verdict that is filed for the first time is the only new one. -/
theorem judged_orInsert {engine : Tendermint} {value : ValueId} {valid : Bool}
    (approved : valid = true → world.accepts value) (other : ValueId)
    (found : (engine.validity.orInsert value valid).lookup other = some true) :
    world.accepts other ∨ engine.validity.lookup other = some true := by
  rw [KeyedMap.lookup_orInsert] at found
  split at found
  case isFalse => exact Or.inr found
  case isTrue same =>
  subst same
  cases before : engine.validity.lookup other with
  | some old =>
    rw [before] at found
    exact Or.inr found
  | none =>
    rw [before] at found
    exact Or.inl (approved (Option.some.inj found))

theorem moves_onProposal (round sender : Nat) (value : ValueId) (polRound : Option Nat)
    (valid : Bool) (engine : Tendermint) (u32 : round ≤ maxU32)
    (approved : valid = true → world.accepts value) :
    Moves world engine (engine.onProposal order now round sender value polRound valid).1
      (engine.onProposal order now round sender value polRound valid).2 := by
  unfold onProposal
  split
  case isFalse => exact moves_progress world order now engine
  case isTrue accepted =>
  obtain ⟨highest, noted, bounded⟩ := noteRound_eq { engine with
      proposals := engine.proposals.orInsert round _
      validity := engine.validity.orInsert value valid } sender round
  rw [noted]
  have note : Moves world engine { engine with
        proposals := engine.proposals.orInsert round (value, polRound)
        validity := engine.validity.orInsert value valid
        highest := highest } [] := by
    refine .single (.note engine _ _ highest engine.timers engine.armed engine.started ?_ ?_
      (judged_orInsert world approved))
    · intro at' stored proof there
      rw [KeyedMap.lookup_orInsert] at there
      split at there
      case isFalse => exact Or.inr there
      case isTrue same =>
      subst same
      cases before : engine.proposals.lookup at' with
      | some old =>
        rw [before] at there
        exact Or.inr there
      | none =>
        rw [before] at there
        have below := accepted.2.2.1
        simp only [Option.getD_none, Option.some.injEq, Prod.mk.injEq] at there
        rw [there.2] at below
        exact Or.inl (of_decide_eq_true below)
    · exact fun member heardRound there =>
        (bounded member heardRound there).imp_left fun new => new.2.le.trans u32
  simpa using note.trans (moves_progress world order now _)

theorem moves_onValue (value : ValueId) (valid : Bool) (engine : Tendermint)
    (approved : valid = true → world.accepts value) :
    Moves world engine (engine.onValue order now value valid).1
      (engine.onValue order now value valid).2 := by
  have note : Moves world engine { engine with validity := engine.validity.orInsert value valid } [] :=
    .single (.note engine engine.proposals _ engine.highest engine.timers engine.armed
      engine.started (fun _ _ _ => Or.inr) (fun _ _ => Or.inr)
    (judged_orInsert world approved))
  exact note.trans (moves_progress world order now _)

theorem moves_onVote (kind : VoteKind) (round voter : Nat) (value : Option ValueId)
    (engine : Tendermint) (u32 : round ≤ maxU32)
    (told : voter < engine.n → some voter ≠ engine.me → world.told kind round voter value) :
    Moves world engine (engine.onVote order now kind round voter value).1
      (engine.onVote order now kind round voter value).2 := by
  unfold onVote
  dsimp only
  split
  case isFalse => exact moves_progress world order now engine
  case isTrue counted =>
  obtain ⟨highest, noted, bounded⟩ := noteRound_eq engine voter round
  rw [noted]
  have note : Moves world engine { engine with highest } [] :=
    .single (.note engine engine.proposals engine.validity highest engine.timers engine.armed
      engine.started (fun _ _ _ => Or.inr) (fun member heardRound there =>
        (bounded member heardRound there).imp_left fun new => new.2.le.trans u32)
      (fun _ => Or.inr))
  split
  · have recorded := note.trans (.single (.record _ kind round voter value counted.1 counted.2
      (told counted.1 counted.2)))
    simpa using recorded.trans (moves_progress world order now _)
  · simpa using note.trans (moves_progress world order now _)

theorem moves_tick : Moves world engine (engine.tick order now).1 (engine.tick order now).2 :=
  (moves_rule world).tick order now engine

end Tendermint

end EgoChain.Consensus
