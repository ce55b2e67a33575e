import EgoChain.Consensus.EngineRestart

/-!
# What an engine may vote for

An engine that is bound to a carried value votes for that value and no other,
and it votes for nothing, locks on nothing and decides nothing that it was not
told to be valid.
-/

namespace EgoChain.Consensus

variable (accepts : ValueId → Prop)

/-- A value that passes validation and that the carried value, if any, allows. -/
def Fits (carried : Option ValueId) (value : ValueId) : Prop :=
  accepts value ∧ ∀ bound, carried = some bound → value = bound

/-- A proposal or a decision names a value that passes validation. -/
def Action.Fits : Action → Prop
  | .propose _ _ (some value) => accepts value
  | .decide _ value => accepts value
  | _ => True

namespace Tendermint

structure Bound (accepts : ValueId → Prop) (carried : Option ValueId) (engine : Tendermint) :
    Prop where
  carriedIs : engine.carried = carried
  carriedFits : ∀ {value}, carried = some value → accepts value
  judged : ∀ {value}, engine.validity.lookup value = some true → accepts value
  voted : ∀ {kind round value}, engine.memory.voted kind round (some value) → Fits accepts carried value
  locked : ∀ {round value}, engine.locked = some (round, value) → Fits accepts carried value
  valid : ∀ {round value}, engine.valid = some (round, value) → Fits accepts carried value

variable {world : World} {accepts} {carried : Option ValueId} {engine next : Tendermint}
  {out : List Action} {value : ValueId}

theorem Bound.fits_of_acceptable (bound : engine.Bound accepts carried)
    (acceptable : engine.acceptable value = true) : Fits accepts carried value := by
  simp only [Tendermint.acceptable, Bool.and_eq_true, decide_eq_true_eq] at acceptable
  refine ⟨bound.judged acceptable.1, ?_⟩
  rintro other rfl
  have same := acceptable.2
  rw [bound.carriedIs] at same
  simpa [eq_comm] using same

/-- What `castAnd` leaves alone. -/
theorem castAnd_keeps (engine : Tendermint) (kind : VoteKind) (value : Option ValueId) (step : Step) :
    (engine.castAnd kind value step).1.carried = engine.carried ∧
      (engine.castAnd kind value step).1.validity = engine.validity ∧
      (engine.castAnd kind value step).1.locked = engine.locked ∧
      (engine.castAnd kind value step).1.valid = engine.valid := by
  obtain ⟨sent, prevotes, precommits, same⟩ := castAnd_eq engine kind value step
  rw [same]
  exact ⟨rfl, rfl, rfl, rfl⟩

theorem Bound.castAnd (bound : engine.Bound accepts carried) (kind : VoteKind)
    (value : Option ValueId) (step : Step)
    (fits : ∀ v, value = some v → Fits accepts carried v) :
    (engine.castAnd kind value step).1.Bound accepts carried := by
  obtain ⟨sameCarried, sameValidity, sameLocked, sameValid⟩ := castAnd_keeps engine kind value step
  refine ⟨sameCarried.trans bound.carriedIs, bound.carriedFits, ?_, ?_, ?_, ?_⟩
  · rw [sameValidity]
    exact bound.judged
  · intro k round v voted
    rcases (voted_castAnd engine kind value step k round (some v)).mp voted with old | emitted
    · exact bound.voted old
    · obtain ⟨-, -, same⟩ := Action.vote.inj (mem_castAnd emitted)
      exact fits v same.symm
  · rw [sameLocked]
    exact bound.locked
  · rw [sameValid]
    exact bound.valid

theorem Bound.polka {order : IterOrder} (bound : engine.Bound accepts carried)
    (found : engine.freshPolka order = some value) :
    (engine.takePolka value).1.Bound accepts carried := by
  obtain ⟨-, -, -, acceptable⟩ := freshPolka_spec found
  have fits := bound.fits_of_acceptable acceptable
  unfold takePolka
  dsimp only
  split
  case isFalse =>
    exact { bound with valid := fun same => by cases same; exact fits }
  case isTrue =>
  have locked : (engine.lockedOn value).Bound accepts carried :=
    { bound with locked := fun same => by cases same; exact fits }
  have precommitted := locked.castAnd .precommit (some value) .precommit
    (fun v same => Option.some.inj same ▸ fits)
  exact { precommitted with valid := fun same => by cases same; exact fits }

/-- Every move keeps an engine bound. -/
theorem Bound.move (move : Move world engine next out) (bound : engine.Bound world.accepts carried) :
    next.Bound world.accepts carried := by
  cases move with
  | note _ proposals validity highest timers armed started proofs rounds judged =>
    exact { bound with judged := fun found => (judged _ found).elim id bound.judged }
  | offer => exact bound
  | record _ kind round voter value =>
    obtain ⟨prevotes, precommits, same⟩ := recordVote_eq engine kind round voter value
    rw [same]
    exact { bound with }
  | enter | decide => exact { bound with }
  | prevote _ value atPropose basis =>
    refine bound.castAnd .prevote value .prevote ?_
    rintro v rfl
    exact bound.fits_of_acceptable ((verdict_spec (basis.resolve_left (by simp))).1)
  | precommitNil => exact bound.castAnd .precommit none .precommit (by simp)
  | polka order _ value found => exact bound.polka found

theorem Bound.moves (bound : engine.Bound world.accepts carried)
    (moves : Moves world engine next out) : next.Bound world.accepts carried :=
  moves.preserves Bound.move bound

/-- The proposals and decisions of one move name values that pass validation. -/
theorem Bound.emits (bound : engine.Bound world.accepts carried)
    (move : Move world engine next out) : ∀ action ∈ out, action.Fits world.accepts := by
  cases move with
  | note | record | enter => simp
  | offer =>
    intro action mem
    obtain rfl := List.mem_singleton.mp mem
    cases valid : engine.valid with
    | some backed =>
      exact (bound.valid valid).1
    | none =>
      rw [bound.carriedIs]
      cases bind : carried with
      | none => trivial
      | some value => exact bound.carriedFits bind
  | prevote | precommitNil =>
    intro action mem
    rw [mem_castAnd mem]
    trivial
  | polka =>
    intro action mem
    rw [mem_takePolka mem]
    trivial
  | decide order _ round value undecided found =>
    intro action mem
    obtain rfl := List.mem_singleton.mp mem
    exact (bound.fits_of_acceptable (findDecision_spec found).2).1

theorem Bound.emitted (bound : engine.Bound world.accepts carried)
    (moves : Moves world engine next out) : ∀ action ∈ out, action.Fits world.accepts := by
  induction moves with
  | refl => simp
  | tail earlier move ih =>
    exact List.forall_mem_append.mpr ⟨ih, (bound.moves earlier).emits move⟩

end Tendermint

/-! ## Saving and restoring -/

/-- A saved state whose votes, lock and backed value fit. -/
structure Saved.Bound (accepts : ValueId → Prop) (carried : Option ValueId) (saved : Saved) :
    Prop where
  voted : ∀ {kind round value}, saved.memory.voted kind round (some value) → Fits accepts carried value
  locked : ∀ {round value}, saved.locked = some (round, value) → Fits accepts carried value
  valid : ∀ {round value}, saved.valid = some (round, value) → Fits accepts carried value

variable {accepts}

theorem Tendermint.Bound.saved {carried : Option ValueId} {engine : Tendermint}
    (bound : engine.Bound accepts carried) :
    engine.saved.Bound accepts carried where
  voted := by
    rw [saved_memory]
    exact bound.voted
  locked := bound.locked
  valid := bound.valid

namespace Tendermint

variable {height n : Nat} {me : Option Nat} {timeouts : Timeouts} {carried : Option ValueId}

/-- An engine rebuilt from a saved state that it can read. -/
theorem rebuild_some (n : Nat) (me : Option Nat) (timeouts : Timeouts)
    (carried : Option ValueId) {state : Saved} (sameHeight : state.height = height)
    (oneVote : state.memory.OneVote) :
    ∃ sent prevotes precommits, rebuild height n me timeouts carried (some state) =
        { new height n me timeouts with
          round := state.round, step := state.step, locked := state.locked, valid := state.valid
          resumed := true, sent, prevotes, precommits, carried } ∧
      (rebuild height n me timeouts carried (some state)).memory = state.memory := by
  obtain ⟨sent, prevotes, precommits, same, memory, -⟩ :=
    restore_spec (new height n me timeouts) sameHeight rfl rfl not_mem_votersFor_new oneVote
  refine ⟨sent, prevotes, precommits, ?_⟩
  unfold rebuild
  cases carried with
  | none => exact ⟨same, memory⟩
  | some value =>
    rw [same] at memory
    dsimp only
    rw [same]
    exact ⟨rfl, memory⟩

theorem rebuild_none (height n : Nat) (me : Option Nat) (timeouts : Timeouts)
    (carried : Option ValueId) :
    rebuild height n me timeouts carried none = { new height n me timeouts with carried } := by
  cases carried with
  | none | some value => rfl

theorem rebuild_bound {saved : Option Saved} (fits : ∀ {value}, carried = some value → accepts value)
    (readable : ∀ state, saved = some state → state.height = height ∧ state.memory.OneVote ∧
      state.Bound accepts carried) :
    (rebuild height n me timeouts carried saved).Bound accepts carried := by
  cases saved with
  | none =>
    rw [rebuild_none]
    exact {
      carriedIs := rfl
      carriedFits := fits
      judged := nofun
      voted := nofun
      locked := nofun
      valid := nofun }
  | some state =>
    obtain ⟨sameHeight, oneVote, bound⟩ := readable state rfl
    obtain ⟨sent, prevotes, precommits, same, memory⟩ :=
      rebuild_some n me timeouts carried sameHeight oneVote
    have voted : ∀ {kind round value},
        (rebuild height n me timeouts carried (some state)).memory.voted kind round (some value) →
          Fits accepts carried value := by
      rw [memory]
      exact bound.voted
    rw [same] at voted ⊢
    exact {
      carriedIs := rfl
      carriedFits := fits
      judged := nofun
      voted := voted
      locked := bound.locked
      valid := bound.valid }

end Tendermint

end EgoChain.Consensus
