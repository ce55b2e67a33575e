import EgoChain.Consensus.EngineRestart

/-!
# How much a call can ask for

A driver hands every proposal its engine asks for back to the engine, which may
then ask for more.  The exchange ends: what the engine can still ask for is
bounded by the work it has left, and each action uses some of it up.
-/

namespace EgoChain.Consensus

open EgoChain.Foundations Nat Tendermint
open EgoChain.Foundations.LockVoting (Committee)

namespace Tendermint

/-- A bound on the actions that proposals of the rounds so far can still cause. -/
def potential (engine : Tendermint) : Nat :=
  engine.workLeft + if engine.decision.isNone then 1 else 0

theorem length_castAnd_le (engine : Tendermint) (kind : VoteKind) (value : Option ValueId)
    (next : Step) : (engine.castAnd kind value next).2.length ≤ 1 := by
  rcases cast_cases engine kind value with ⟨same, -⟩ | ⟨me, -, -, same⟩ <;> simp [castAnd, same]

theorem decision_castAnd (engine : Tendermint) (kind : VoteKind) (value : Option ValueId)
    (next : Step) : (engine.castAnd kind value next).1.decision = engine.decision := by
  obtain ⟨sent, prevotes, precommits, same⟩ := castAnd_eq engine kind value next
  rw [same]

theorem decision_arm (engine : Tendermint) (timer : Timer) (round now : Nat) :
    (engine.arm timer round now).decision = engine.decision := by
  unfold arm
  split <;> rfl

theorem decision_armIf (engine : Tendermint) (test : Bool) (timer : Timer) (now : Nat) :
    (engine.armIf test timer now).decision = engine.decision := by
  unfold armIf
  split
  · exact decision_arm engine timer engine.round now
  · rfl

section

variable (order : IterOrder) (now : Nat) (engine : Tendermint)

include order now engine

/-- Below the check for a decision, a turn asks for one action at most and decides nothing;
a turn that ends the loop asks for nothing. -/
theorem advance_emits : (engine.advance order now).2.2.length ≤ 1 ∧
      (engine.advance order now).2.1.decision = engine.decision ∧
      ((engine.advance order now).1 = false → (engine.advance order now).2.2 = [] ∧
        (engine.advance order now).2.1.workLeft = engine.workLeft) := by
  unfold advance
  split
  case h_1 round found =>
    refine ⟨?_, ?_, nofun⟩
    · unfold startRound
      dsimp only
      split <;> simp
    · exact decision_arm _ _ _ _
  case h_2 =>
    split
    case h_1 =>
      exact ⟨length_castAnd_le _ _ _ _, decision_castAnd _ _ _ _, nofun⟩
    case h_2 =>
    dsimp only
    have armed := decision_armIf engine (decide (engine.step = .prevote ∧
      engine.countAny .prevote engine.round ≥ quorum engine.n)) .prevote now
    split
    case h_1 value found =>
      refine ⟨?_, ?_, nofun⟩
      · unfold takePolka
        dsimp only
        split
        · exact length_castAnd_le _ _ _ _
        · simp
      · unfold takePolka
        dsimp only
        split
        · exact (decision_castAnd _ .precommit (some value) .precommit).trans armed
        · exact armed
    case h_2 =>
      split
      case isTrue =>
        exact ⟨length_castAnd_le _ _ _ _, (decision_castAnd _ _ _ _).trans armed, nofun⟩
      case isFalse =>
        refine ⟨by simp, (decision_armIf _ _ _ _).trans armed, fun _ => ⟨rfl, ?_⟩⟩
        rw [workLeft_armIf, workLeft_armIf]

theorem progressOnce_cost : (engine.progressOnce order now).2.2.length +
      (engine.progressOnce order now).2.1.potential ≤ engine.potential := by
  unfold progressOnce
  dsimp only
  split
  case isTrue =>
    unfold settle
    split
    case h_1 found undecided there =>
      simp only [potential, undecided]
      show 1 + (engine.workLeft + 0) ≤ engine.workLeft + 1
      omega
    case h_2 => simp
  case isFalse active =>
    rw [settle_fst_of_not_idle (by simpa using active)]
    have emits := advance_emits order now engine
    rcases turn : engine.advance order now with ⟨goesOn, next, emitted⟩
    rw [turn] at emits
    obtain ⟨short, sameDecision, ends⟩ := emits
    unfold potential
    dsimp only at *
    rw [List.nil_append, sameDecision]
    cases goesOn with
    | true =>
      have lower := workLeft_advance turn
      omega
    | false =>
      obtain ⟨rfl, same⟩ := ends rfl
      rw [same]
      simp

theorem progress_cost : (engine.progress order now).2.length + (engine.progress order now).1.potential ≤
      engine.potential := by
  unfold progress
  generalize engine.workLeft + 1 = fuel
  induction fuel generalizing engine with
  | zero => simp [progressLoop]
  | succ fuel ih =>
    have once := progressOnce_cost order now engine
    unfold progressLoop
    split
    case h_1 stopped =>
      rw [stopped] at once
      exact once
    case h_2 next out goesOn =>
    rw [goesOn] at once
    have later := ih next
    simp only [List.length_append] at *
    omega

end

variable {engine : Tendermint}

theorem highestHeard_le {bound : Nat}
    (below : ∀ member round, engine.highest.lookup member = some round → round ≤ bound) :
    engine.highestHeard ≤ bound := by
  have each : ∀ round ∈ engine.highest.entries.map Sigma.snd, round ≤ bound := by
    intro round mem
    obtain ⟨⟨member, other⟩, inside, rfl⟩ := List.mem_map.mp mem
    exact below member other ((KeyedMap.mem_entries_iff engine.highest _ _).mp inside)
  unfold highestHeard
  generalize engine.highest.entries.map Sigma.snd = rounds at each
  induction rounds with
  | nil => exact zero_le _
  | cons round rest ih =>
    exact Nat.max_le.mpr ⟨each round (by simp), ih fun other mem => each other (by simp [mem])⟩

/-- A proposal of a round the engine has reached leaves no more to do than before. -/
theorem onProposal_cost (order : IterOrder) (now sender : Nat) (value : ValueId)
    (polRound : Option Nat) (valid : Bool) {round : Nat} (reached : round ≤ engine.round) :
    (engine.onProposal order now round sender value polRound valid).2.length +
      (engine.onProposal order now round sender value polRound valid).1.potential ≤
        engine.potential := by
  unfold onProposal
  split
  case isFalse => exact progress_cost order now engine
  case isTrue =>
  obtain ⟨highest, noted, bounded⟩ := noteRound_eq { engine with
      proposals := engine.proposals.orInsert round _
      validity := engine.validity.orInsert value valid } sender round
  rw [noted]
  refine (progress_cost order now _).trans ?_
  have heard : ({ engine with highest } : Tendermint).highestHeard ≤
      max engine.highestHeard round := by
    refine highestHeard_le fun member heardRound found => ?_
    rcases bounded member heardRound found with same | old
    · exact same.2 ▸ le_max_right _ _
    · exact (le_highestHeard old).trans (le_max_left _ _)
  unfold potential workLeft
  have less : ({ engine with highest } : Tendermint).highestHeard - engine.round ≤
      engine.highestHeard - engine.round := by omega
  unfold highestHeard at less ⊢
  dsimp only at less ⊢
  omega

end Tendermint

/-! ## Rounds only go up -/

variable {committee : Committee Nat} {junk : ValueId → Prop} {heard : Heard}
  {accepts : ValueId → Prop} {engine next : Tendermint} {out : List Action}

theorem Tendermint.castAnd_round (engine : Tendermint) (kind : VoteKind) (value : Option ValueId)
    (step : Step) : (engine.castAnd kind value step).1.round = engine.round := by
  obtain ⟨sent, prevotes, precommits, same⟩ := castAnd_eq engine kind value step
  rw [same]

theorem Move.round_le {world : World} (move : Move world engine next out)
    (bounded : engine.round ≤ maxU32) : engine.round ≤ next.round := by
  cases move with
  | note | offer | decide => exact le_refl _
  | record _ kind round voter value =>
    obtain ⟨prevotes, precommits, same⟩ := recordVote_eq engine kind round voter value
    rw [same]
  | enter _ round cause =>
    rcases cause with skipped | next | again
    · exact le_of_lt (skipTarget_spec skipped).1
    · rw [next]
      show engine.round ≤ min (engine.round + 1) maxU32
      omega
    · exact le_of_eq again.symm
  | prevote | precommitNil => exact le_of_eq (engine.castAnd_round _ _ _).symm
  | polka order _ value =>
    unfold Tendermint.takePolka
    dsimp only
    split
    · rw [castAnd_round]
    · exact le_refl _

/-- The engine has reached every round it proposes in. -/
theorem Moves.reached (ok : engine.Ok committee junk heard) (seated : engine.me ≠ none)
    (moves : Moves (worldOf committee junk heard accepts) engine next out) :
    engine.round ≤ next.round ∧
      ∀ round polRound value, Action.propose round polRound value ∈ out → round ≤ next.round := by
  induction moves with
  | refl => exact ⟨le_refl _, by simp⟩
  | @tail middle _ out _ earlier move ih =>
    have bounded := ((ok.moves earlier).remembers (earlier.seat.1 ▸ seated)).bounded
    have up := move.round_le bounded
    refine ⟨ih.1.trans up, ?_⟩
    intro round polRound value mem
    rcases List.mem_append.mp mem with old | new
    · exact (ih.2 round polRound value old).trans up
    cases move with
    | note | record | enter => cases new
    | offer =>
      simp only [List.mem_singleton, Action.propose.injEq] at new
      exact le_of_eq new.1
    | prevote | precommitNil => cases mem_castAnd new
    | polka => cases mem_takePolka new
    | decide => simp at new

end EgoChain.Consensus
