import EgoChain.Consensus.Equivocation

/-!
# The lock and the valid value

An engine locks on a polka while it prevotes, and takes every polka of its round
as its valid value.  The lock is never newer than the valid value.  A polka is
taken once in a round; an engine that has started again has forgotten which it
took, so it can take another one there.

A proposal is asked for on entering a round, before the member's own prevote
there.  What it offers was valid in a round below.
-/

namespace EgoChain.Consensus

/-- A quorum of prevotes for a value in a round. -/
def PolkaIn (heard : Heard) (n round : Nat) (value : ValueId) : Prop :=
  ∃ voters ⊆ Finset.range n, quorum n ≤ voters.card ∧
    ∀ voter ∈ voters, heard .prevote round voter (some value)

/-- What ties the lock and the valid value of a member to its round and to the votes heard. -/
structure Memory.Anchored (heard : Heard) (n : Nat) (me : Option Nat) (memory : Memory)
    (valid : Option (Nat × ValueId)) : Prop where
  bounded : memory.round ≤ maxU32
  ownHeard : ∀ {kind round value member}, me = some member → memory.voted kind round value →
    heard kind round member value
  stepVoted : me ≠ none → memory.step ≠ .propose → ∃ vote, memory.voted .prevote memory.round vote
  validBelow : ∀ {round value}, valid = some (round, value) →
    round ≤ memory.round ∧ PolkaIn heard n round value ∧
      (round = memory.round → me ≠ none → ∃ vote, memory.voted .prevote memory.round vote)
  lockBelow : ∀ {round value}, memory.locked = some (round, value) → PolkaIn heard n round value ∧
    ∃ later other, valid = some (later, other) ∧ round ≤ later

namespace Tendermint

structure Anchored (heard : Heard) (engine : Tendermint) : Prop where
  remembers : engine.memory.Anchored heard engine.n engine.me engine.valid
  heardRounds : ∀ {member round}, engine.highest.lookup member = some round → round ≤ maxU32
  booked : ∀ {kind round voter value}, voter ∈ engine.votersFor kind round value →
    voter < engine.n ∧ heard kind round voter value
  seat : ∀ {member}, engine.me = some member → member < engine.n
  once : engine.resumed = false →
    (∀ {round value}, engine.valid = some (round, value) → round ∈ engine.polkaDone) ∧
      ∀ {round value other}, engine.locked = some (round, value) →
        engine.valid = some (round, other) → value = other

variable {heard : Heard} {engine : Tendermint}

/-- Casting neither reads nor writes the valid value. -/
theorem castAnd_valid (engine : Tendermint) (kind : VoteKind) (value : Option ValueId) (next : Step)
    (valid : Option (Nat × ValueId)) :
    { engine with valid }.castAnd kind value next =
      ({ (engine.castAnd kind value next).1 with valid }, (engine.castAnd kind value next).2) := by
  rcases engine with ⟨-, -, me⟩
  unfold Tendermint.castAnd cast
  cases me with
  | none => rfl
  | some me =>
    dsimp only
    split
    · rfl
    · cases kind <;> rfl

variable (ok : engine.Anchored heard)

include ok

variable {round : Nat} {value : ValueId} {next : Tendermint} {polRound : Option Nat}
  {out : List Action} {world : World}

theorem Anchored.polka (enough : quorum engine.n ≤ engine.count .prevote round (some value)) :
    PolkaIn heard engine.n round value := voters_of_quorum (fun _ => ok.booked) enough

theorem Anchored.record (kind : VoteKind) (round voter : Nat) (value : Option ValueId)
    (inside : voter < engine.n) (told : heard kind round voter value) :
    (engine.recordVote kind round voter value).Anchored heard := by
  obtain ⟨prevotes, precommits, same⟩ := recordVote_eq engine kind round voter value
  have booked : ∀ {k at' who other},
      who ∈ (engine.recordVote kind round voter value).votersFor k at' other →
        who < engine.n ∧ heard k at' who other := by
    intro k at' who other mem
    rcases mem_votersFor_recordVote mem with ⟨rfl, rfl, rfl, rfl⟩ | old
    · exact ⟨inside, told⟩
    · exact ok.booked old
  rw [same] at booked ⊢
  exact { ok with booked := booked }

/-- A vote of the current round, after which the member has prevoted there. -/
theorem Anchored.castAnd {kind : VoteKind} {value : Option ValueId} {next : Step}
    (own : ∀ {member}, engine.me = some member →
      Action.vote kind engine.round value ∈ (engine.castAnd kind value next).2 →
        heard kind engine.round member value)
    (prevoted : kind = .prevote ∨ engine.step ≠ .propose) :
    (engine.castAnd kind value next).1.Anchored heard := by
  have remembers := ok.remembers
  rcases cast_cases engine kind value with ⟨same, why⟩ | ⟨me, seat, absent, same⟩
  · -- The vote was cast before.
    rw [Tendermint.castAnd, same]
    refine { ok with remembers := { remembers with stepVoted := fun member _ => ?_ } }
    rcases prevoted with isPrevote | moved
    · rcases why with away | old
      · exact absurd away member
      · subst isPrevote
        obtain ⟨vote, there⟩ := Option.isSome_iff_exists.mp (AList.lookup_isSome.mpr old)
        exact ⟨vote, there⟩
    · exact remembers.stepVoted member moved
  · have emitted : Action.vote kind engine.round value ∈ (engine.castAnd kind value next).2 := by
      rw [Tendermint.castAnd, same]
      exact List.mem_singleton_self _
    have told := own seat emitted
    have memory := memory_insert value absent
    have votes : { engine.memory.cast kind value with step := next }.Anchored heard engine.n engine.me
        engine.valid :=
      { bounded := remembers.bounded
        ownHeard := by
          rintro k at' vote member mine (old | ⟨rfl, rfl, rfl⟩)
          · exact remembers.ownHeard mine old
          · cases seat.symm.trans mine
            exact told
        stepVoted := by
          intro member _
          rcases prevoted with rfl | moved
          · exact ⟨value, Or.inr ⟨rfl, rfl, rfl⟩⟩
          · obtain ⟨vote, voted⟩ := remembers.stepVoted member moved
            exact ⟨vote, Or.inl voted⟩
        validBelow := fun found => by
          obtain ⟨below, polka, here⟩ := remembers.validBelow found
          refine ⟨below, polka, fun same member => ?_⟩
          obtain ⟨vote, voted⟩ := here same member
          exact ⟨vote, Or.inl voted⟩
        lockBelow := remembers.lockBelow }
    rw [← memory] at votes
    have inserted : ({ engine with
        sent := engine.sent.insert (engine.round, kind) value
        step := next } : Tendermint).Anchored heard := { ok with remembers := votes }
    have recorded := inserted.record kind engine.round me value (ok.seat seat) told
    rw [Tendermint.castAnd, same]
    cases kind <;> exact recorded

/-- A polka of the round becomes the valid value; while prevoting it becomes the lock as well. -/
theorem Anchored.takePolka {order : IterOrder} (found : engine.freshPolka order = some value)
    (own : ∀ {member}, engine.me = some member →
      Action.vote .precommit engine.round (some value) ∈ (engine.takePolka value).2 →
        heard .precommit engine.round member (some value)) :
    (engine.takePolka value).1.Anchored heard := by
  obtain ⟨moved, fresh, there, -⟩ := freshPolka_spec found
  have polka := ok.polka (quorum_le_count there)
  have remembers := ok.remembers
  have prevoted := fun member : engine.me ≠ none => remembers.stepVoted member moved
  unfold Tendermint.takePolka at own ⊢
  dsimp only at own ⊢
  split at own
  case isFalse notPrevoting =>
    rw [if_neg notPrevoting]
    refine { ok with remembers := { remembers with validBelow := ?_, lockBelow := ?_ }, once := ?_ }
    · intro round other same
      cases same
      exact ⟨le_rfl, polka, fun _ => prevoted⟩
    · intro round other locked
      obtain ⟨backed, later, newest, isValid, before⟩ := remembers.lockBelow locked
      exact ⟨backed, _, _, rfl, before.trans (remembers.validBelow isValid).1⟩
    · intro first
      obtain ⟨done, -⟩ := ok.once first
      refine ⟨fun same => ?_, fun {round other newest} locked same => ?_⟩
      · obtain ⟨rfl, -⟩ := Prod.mk.inj (Option.some.inj same)
        exact List.mem_cons_self
      · -- A lock of this round came with a polka that was taken here before.
        obtain ⟨rfl, -⟩ := Prod.mk.inj (Option.some.inj same)
        obtain ⟨-, later, old, isValid, before⟩ := remembers.lockBelow locked
        have below := (remembers.validBelow isValid).1
        have here : later = engine.round := Nat.le_antisymm below before
        exact absurd (here ▸ done isValid) fresh
  case isTrue prevoting =>
    rw [if_pos prevoting]
    have locked : { engine.lockedOn value with valid := some (engine.round, value) }.Anchored heard := by
      refine { ok with remembers := { remembers with validBelow := ?_, lockBelow := ?_ }, once := ?_ }
      · intro round other same
        cases same
        exact ⟨le_rfl, polka, fun _ => prevoted⟩
      · intro round other same
        cases same
        exact ⟨polka, _, _, rfl, le_rfl⟩
      · intro _
        refine ⟨fun same => ?_, fun isLock isValid => ?_⟩
        · obtain ⟨rfl, -⟩ := Prod.mk.inj (Option.some.inj same)
          exact List.mem_cons_self
        · exact (Prod.mk.inj (Option.some.inj (isLock.symm.trans isValid))).2
    have same := castAnd_valid (engine.lockedOn value) .precommit (some value) .precommit
    have precommitted := @Anchored.castAnd _ _ locked _ (some value) .precommit
      (fun seat emitted => own seat (by rw [same] at emitted; exact emitted)) (Or.inr moved)
    obtain ⟨sent, prevotes, precommits, cast⟩ := castAnd_eq _ .precommit (some value) .precommit
    rw [same, cast] at precommitted
    rw [cast]
    exact precommitted

/-- What a proposal of a member says fits the round it is for. -/
def Fits (engine : Tendermint) (round : Nat) (polRound : Option Nat) : Prop :=
  some (engine.proposer round) = engine.me ∧ ∀ proof, polRound = some proof → proof < round

theorem Anchored.move (move : Move world engine next out)
    (told : ∀ {kind round voter value}, world.told kind round voter value →
      heard kind round voter value)
    (own : ∀ {kind round value member}, engine.me = some member →
      Action.vote kind round value ∈ out → heard kind round member value) :
    next.Anchored heard := by
  cases move with
  | note _ proposals validity highest timers armed started proofs rounds =>
    exact { ok with heardRounds := fun found => (rounds _ _ found).elim id ok.heardRounds }
  | offer => exact ok
  | record _ kind round voter value inside other source =>
    exact ok.record kind round voter value inside (told source)
  | enter _ round cause =>
    have bounded := ok.remembers.bounded
    have small : engine.round ≤ round ∧ round ≤ maxU32 := by
      rcases cause with skipped | next | again
      · obtain ⟨higher, member, spoken⟩ := skipTarget_spec skipped
        exact ⟨higher.le, ok.heardRounds spoken⟩
      · rw [next]
        exact ⟨Nat.le_min.mpr ⟨Nat.le_succ _, bounded⟩, Nat.min_le_right _ _⟩
      · rw [again]
        exact ⟨le_rfl, bounded⟩
    refine { ok with remembers := { ok.remembers with
      bounded := small.2, stepVoted := ?_, validBelow := ?_ } }
    · exact fun _ => absurd rfl
    · intro validRound value found
      obtain ⟨below, polka, voted⟩ := ok.remembers.validBelow found
      refine ⟨below.trans small.1, polka, fun same => ?_⟩
      have here : round = engine.round := by
        have atMost : validRound ≤ engine.round := below
        have isRound : validRound = round := same
        omega
      exact here ▸ voted (same.trans here)
  | prevote _ value _ basis => exact ok.castAnd own (Or.inl rfl)
  | precommitNil _ atPrevote =>
    refine ok.castAnd own (Or.inr ?_)
    rw [atPrevote]
    decide
  | polka order _ value found => exact ok.takePolka found own
  | decide => exact { ok with }

theorem Anchored.offers (move : Move world engine next out)
    {value : Option ValueId} (emitted : Action.propose round polRound value ∈ out) :
    engine.Fits round polRound := by
  cases move with
  | offer _ mine fresh =>
    obtain ⟨rfl, rfl, rfl⟩ : round = engine.round ∧ polRound = engine.valid.map Prod.fst ∧
        value = (engine.valid.map Prod.snd).or engine.carried := by simpa using emitted
    refine ⟨mine, fun proof isProof => ?_⟩
    obtain ⟨⟨validRound, valid⟩, found, rfl⟩ := Option.map_eq_some_iff.mp isProof
    obtain ⟨below, -, voted⟩ := ok.remembers.validBelow found
    refine lt_of_le_of_ne below fun same => ?_
    -- The member has not prevoted in the round it enters.
    obtain ⟨vote, there⟩ := voted same (by rw [← mine]; simp)
    exact absurd there (not_voted fresh vote)
  | note | record | enter => cases emitted
  | prevote | precommitNil => cases mem_castAnd emitted
  | polka => cases mem_takePolka emitted
  | decide => simp at emitted

omit ok in
theorem Fits.congr (fits : next.Fits round polRound) (me : next.me = engine.me)
    (n : next.n = engine.n) (height : next.height = engine.height) :
    engine.Fits round polRound := by
  unfold Fits proposer at *
  rw [me, n, height] at fits
  exact fits

theorem Anchored.moves (moves : Moves world engine next out)
    (told : ∀ {kind round voter value}, world.told kind round voter value →
      heard kind round voter value)
    (own : ∀ {kind round value member}, engine.me = some member →
      Action.vote kind round value ∈ out → heard kind round member value) :
    next.Anchored heard ∧ ∀ round polRound value, Action.propose round polRound value ∈ out →
      engine.Fits round polRound := by
  induction moves with
  | refl => exact ⟨ok, by simp⟩
  | @tail _ _ out _ earlier move ih =>
    obtain ⟨before, fits⟩ := ih fun seat emitted => own seat (List.mem_append_left _ emitted)
    obtain ⟨me, n, height⟩ := earlier.seat
    refine ⟨before.move move told fun seat emitted =>
      own (me ▸ seat) (List.mem_append_right _ emitted), fun round polRound value emitted => ?_⟩
    rcases List.mem_append.mp emitted with early | late
    · exact fits round polRound value early
    · exact (before.offers move late).congr me n height

omit ok

theorem new_anchored (heard : Heard) (height n : Nat) (me : Option Nat) (timeouts : Timeouts) :
    (new height n me timeouts).Anchored heard where
  remembers :=
    { bounded := Nat.zero_le _
      ownHeard := nofun
      stepVoted := fun _ => absurd rfl
      validBelow := nofun
      lockBelow := nofun }
  heardRounds := nofun
  booked mem := absurd mem (not_mem_votersFor_new _ _ _ _)
  seat found := of_decide_eq_true (Option.filter_eq_some_iff.mp found).2
  once _ := ⟨fun found => (by cases found), fun found => (by cases found)⟩

/-- The lock, the valid value and the own votes of a member survive a restart. -/
theorem restore_anchored {height n : Nat} {me : Option Nat} (timeouts : Timeouts) {state : Saved}
    (sameHeight : state.height = height)
    (oneVote : state.memory.OneVote)
    (remembers : state.memory.Anchored heard n (me.filter (· < n)) state.valid) :
    ((new height n me timeouts).restore state).Anchored heard := by
  have fresh := new_anchored heard height n me timeouts
  obtain ⟨sent, prevotes, precommits, same, memory, books⟩ := restore_spec
    _ sameHeight rfl rfl not_mem_votersFor_new oneVote
  have booked : ∀ {kind round voter value},
      voter ∈ ((new height n me timeouts).restore state).votersFor kind round value →
        voter < n ∧ heard kind round voter value := by
    intro kind round voter value mem
    obtain ⟨mine, voted⟩ := books mem
    exact ⟨fresh.seat mine, remembers.ownHeard mine voted⟩
  rw [← memory] at remembers
  rw [same] at remembers booked ⊢
  exact { fresh with
    remembers := remembers
    booked := booked
    once := nofun }

end Tendermint

/-! ## A member under arbitrary calls and crashes -/

/-- The votes that the events of a member deliver, and its own. -/
def heardIn (events : List MemberEvent) (seat : Nat) (member : Member) : Heard :=
  fun kind round voter value =>
    (∃ order now saves, .call order now (.onVote kind round voter value) saves ∈ events) ∨
      voter = seat ∧ Action.vote kind round value ∈ member.emitted

namespace Member

variable {height n seat : Nat} {heard : Heard} {member : Member}

structure Anchored (height n seat : Nat) (heard : Heard) (member : Member) : Prop where
  engine : member.engine.Anchored heard
  place : member.engine.me = (some seat).filter (· < n) ∧ member.engine.n = n ∧
    member.engine.height = height
  saved : ∀ {state}, member.saved = some state → state.height = height ∧
    (∀ {kind round value other}, state.memory.voted kind round value →
      state.memory.voted kind round other → value = other) ∧
    state.memory.Anchored heard n ((some seat).filter (· < n)) state.valid
  proposals : ∀ round polRound value, Action.propose round polRound value ∈ member.emitted →
    (Tendermint.new height n (some seat) {}).Fits round polRound

theorem initial_anchored (timeouts : Timeouts) :
    (initial height n seat timeouts).Anchored height n seat heard where
  engine := Tendermint.new_anchored heard height n (some seat) timeouts
  place := ⟨rfl, rfl, rfl⟩
  saved := nofun
  proposals := nofun

theorem emitted_step (member : Member) (event : MemberEvent) :
    ∀ action ∈ member.emitted, action ∈ (member.step height n seat event).emitted := by
  intro action mem
  cases event with
  | call order now made saves => exact List.mem_append_left _ mem
  | carry | crash => exact mem

theorem emitted_run (member : Member) (events : List MemberEvent) :
    ∀ action ∈ member.emitted, action ∈ (member.run height n seat events).emitted := by
  induction events generalizing member with
  | nil => exact fun _ mem => mem
  | cons event rest ih =>
    exact fun action mem => ih _ action (emitted_step member event action mem)

theorem Anchored.step (ok : member.Anchored height n seat heard) {event : MemberEvent}
    (u32 : event.Small)
    (told : ∀ {order now kind round voter value saves},
      event = .call order now (.onVote kind round voter value) saves → heard kind round voter value)
    (own : ∀ {kind round value}, Action.vote kind round value ∈
      (member.step height n seat event).emitted → heard kind round seat value) :
    (member.step height n seat event).Anchored height n seat heard := by
  obtain ⟨me, size, sameHeight⟩ := ok.place
  cases event with
  | carry value =>
    obtain ⟨carried, same⟩ := member.engine.carry_eq value
    refine { ok with engine := ?_, place := ?_ }
    · change (member.engine.carry value).Anchored heard
      rw [same]
      exact { ok.engine with }
    · rw [Member.step, same]
      exact ok.place
  | crash timeouts =>
    refine { ok with engine := ?_, place := Tendermint.rebuild_seat _ _ _ _ _ _ }
    change (Tendermint.rebuild height n (some seat) timeouts none member.saved).Anchored heard
    cases stored : member.saved with
    | none => exact Tendermint.new_anchored heard height n (some seat) timeouts
    | some state =>
      obtain ⟨savedHeight, oneVote, remembers⟩ := ok.saved stored
      exact Tendermint.restore_anchored timeouts savedHeight oneVote remembers
  | call order now made saves =>
    have may : made.Told ⟨heard, fun _ => True⟩ member.engine := by
      cases made with
      | onProposal => exact ⟨u32, fun _ => trivial⟩
      | onValue => exact fun _ => trivial
      | onVote => exact ⟨u32, fun _ _ => told rfl⟩
      | start | tick => trivial
    have moves := may.moves order now
    have mine : ∀ {kind round value voter}, member.engine.me = some voter →
        Action.vote kind round value ∈ (made.run order now member.engine).2 →
          heard kind round voter value := by
      intro kind round value voter isMe emitted
      obtain rfl : seat = voter := by
        rw [me] at isMe
        exact Option.some.inj (Option.filter_eq_some_iff.mp isMe).1
      exact own (List.mem_append_right _ emitted)
    obtain ⟨engine, fits⟩ := ok.engine.moves moves id mine
    obtain ⟨sameMe, sameSize, stillHeight⟩ := moves.seat
    refine ⟨engine, ⟨sameMe.trans me, sameSize.trans size, stillHeight.trans sameHeight⟩, ?_, ?_⟩
    · intro state stored
      change (if (saves || (made.run order now member.engine).2.any Action.isVote) = true then
        some (made.run order now member.engine).1.saved else member.saved) = some state at stored
      split at stored
      case isFalse => exact ok.saved stored
      case isTrue =>
      cases stored
      refine ⟨stillHeight.trans sameHeight, ?_, ?_⟩
      · intro kind round value other voted again
        rw [Tendermint.saved_memory] at voted again
        exact Option.some.inj (voted.symm.trans again)
      · rw [Tendermint.saved_memory, ← me, ← sameMe, ← size, ← sameSize]
        exact engine.remembers
    · intro round polRound value emitted
      rcases List.mem_append.mp emitted with old | new
      · exact ok.proposals round polRound value old
      · exact (fits round polRound value new).congr me size sameHeight

theorem Anchored.run (ok : member.Anchored height n seat heard) {events : List MemberEvent}
    (u32 : ∀ event ∈ events, event.Small)
    (told : ∀ {order now kind round voter value saves},
      .call order now (.onVote kind round voter value) saves ∈ events → heard kind round voter value)
    (own : ∀ {kind round value}, Action.vote kind round value ∈
      (member.run height n seat events).emitted → heard kind round seat value) :
    (member.run height n seat events).Anchored height n seat heard := by
  induction events generalizing member with
  | nil => exact ok
  | cons event rest ih =>
    have once := ok.step (u32 event List.mem_cons_self)
      (fun same => told (by rw [same]; exact List.mem_cons_self))
      (fun emitted => own (emitted_run _ rest _ emitted))
    exact ih once (fun later mem => u32 later (List.mem_cons_of_mem _ mem))
      (fun mem => told (List.mem_cons_of_mem _ mem)) own

end Member

/-- Under any calls and any restarts, a lock comes with a valid value that is not older, for the
same value if it is of the same round; only an engine that was restored and heard of two polkas of
one round can have another one there.  Every proposal it asks for has its proof in a round below,
and every engine of the committee that can take the round takes the proposal. -/
theorem locks_below_valid_values (height n seat : Nat) (timeouts : Timeouts)
    (events : List MemberEvent) (u32 : ∀ event ∈ events, event.Small) :
    let member := (Member.initial height n seat timeouts).run height n seat events
    (∀ round value, member.engine.locked = some (round, value) →
      ∃ later other, member.engine.valid = some (later, other) ∧ round ≤ later ∧
        later ≤ member.engine.round ∧ (round = later → value = other ∨
          member.engine.resumed = true ∧ PolkaIn (heardIn events seat member) n round value ∧
            PolkaIn (heardIn events seat member) n round other)) ∧
    ∀ round polRound value, Action.propose round polRound value ∈ member.emitted →
      (∀ proof, polRound = some proof → proof < round) ∧
      ∀ (other : Tendermint) (order : IterOrder) (now : Nat) (chosen : ValueId) (valid : Bool),
        other.height = height → other.n = n → round ≤ satAdd32 other.round roundWindow →
        other.onProposal order now round seat chosen polRound valid = ({ other with
            proposals := other.proposals.orInsert round (chosen, polRound)
            validity := other.validity.orInsert chosen valid }.noteRound seat round).progress
              order now := by
  intro member
  have anchored : member.Anchored height n seat (heardIn events seat member) :=
    (Member.initial_anchored timeouts).run u32 (fun mem => Or.inl ⟨_, _, _, mem⟩)
      (fun emitted => Or.inr ⟨rfl, emitted⟩)
  obtain ⟨-, size, -⟩ := anchored.place
  have remembers := anchored.engine.remembers
  rw [size] at remembers
  refine ⟨fun round value locked => ?_, fun round polRound value emitted => ?_⟩
  · obtain ⟨polka, later, other, isValid, before⟩ := remembers.lockBelow locked
    obtain ⟨below, polkaToo, -⟩ := remembers.validBelow isValid
    refine ⟨later, other, isValid, before, below, ?_⟩
    rintro rfl
    cases resumed : member.engine.resumed with
    | false => exact Or.inl ((anchored.engine.once resumed).2 locked isValid)
    | true => exact Or.inr ⟨rfl, polka, polkaToo⟩
  · obtain ⟨mine, proofs⟩ := anchored.proposals round polRound value emitted
    refine ⟨proofs, fun other order now chosen valid sameHeight sameSize inWindow => ?_⟩
    have proposes : other.proposer round = (Tendermint.new height n (some seat) {}).proposer round := by
      unfold Tendermint.proposer
      rw [sameHeight, sameSize]
      rfl
    rw [← proposes] at mine
    obtain ⟨seated, inside⟩ := Option.filter_eq_some_iff.mp
      (show (some seat).filter (· < n) = some (other.proposer round) from mine.symm)
    have isProposer : seat = other.proposer round := Option.some.inj seated
    have member : seat < other.n := by
      rw [sameSize, isProposer]
      exact of_decide_eq_true inside
    have below : polRound.all (· < round) = true := by
      cases polRound with
      | none => rfl
      | some proof => exact decide_eq_true (proofs proof rfl)
    unfold Tendermint.onProposal
    rw [if_pos ⟨member, isProposer, below, inWindow⟩]

/-- Two values that members can vote for. -/
def oneValue : ValueId := Vector.replicate 32 1

def twoValue : ValueId := Vector.replicate 32 2

/-- A member locks on a polka for one value, starts again in the same round, and is then told of
prevotes of the three other members for another value. -/
def twoPolkas : List MemberEvent :=
  [.call .inserted 0 .start false, .call .inserted 0 (.onProposal 0 1 oneValue none true) false,
    .call .inserted 0 (.onVote .prevote 0 1 (some oneValue)) false,
    .call .inserted 0 (.onVote .prevote 0 2 (some oneValue)) false,
    .crash {}, .call .inserted 0 .start false,
    .call .inserted 0 (.onValue twoValue true) false,
    .call .inserted 0 (.onVote .prevote 0 1 (some twoValue)) false,
    .call .inserted 0 (.onVote .prevote 0 2 (some twoValue)) false,
    .call .inserted 0 (.onVote .prevote 0 3 (some twoValue)) false]

theorem twoPolkas_run :
    ((Member.initial 1 4 0 {}).run 1 4 0 twoPolkas).engine.locked = some (0, oneValue) ∧
      ((Member.initial 1 4 0 {}).run 1 4 0 twoPolkas).engine.valid = some (0, twoValue) ∧
      oneValue ≠ twoValue := by
  decide

theorem twoPolkas_small : ∀ event ∈ twoPolkas, event.Small := by
  simp [twoPolkas, MemberEvent.Small, Call.Small]

/-- The member has heard of both polkas. -/
theorem two_polkas_are_heard :
    PolkaIn (heardIn twoPolkas 0 ((Member.initial 1 4 0 {}).run 1 4 0 twoPolkas)) 4 0 oneValue ∧
      PolkaIn (heardIn twoPolkas 0 ((Member.initial 1 4 0 {}).run 1 4 0 twoPolkas)) 4 0 twoValue := by
  obtain ⟨locked, valid, apart⟩ := twoPolkas_run
  obtain ⟨later, other, isValid, -, -, either⟩ :=
    (locks_below_valid_values 1 4 0 {} twoPolkas twoPolkas_small).1 0 oneValue locked
  cases valid.symm.trans isValid
  exact ((either rfl).resolve_left apart).2

/-- The lock and the valid value of one round can differ. -/
theorem lock_and_valid_value_can_differ :
    ¬ ∀ (height n seat : Nat) (timeouts : Timeouts) (events : List MemberEvent),
      (∀ event ∈ events, event.Small) → ∀ round value,
      ((Member.initial height n seat timeouts).run height n seat events).engine.locked =
        some (round, value) →
      ∃ later other, ((Member.initial height n seat timeouts).run height n seat events).engine.valid =
          some (later, other) ∧ round ≤ later ∧
        later ≤ ((Member.initial height n seat timeouts).run height n seat events).engine.round ∧
        (round = later → value = other) := by
  intro always
  obtain ⟨locked, valid, apart⟩ := twoPolkas_run
  obtain ⟨later, other, isValid, -, -, same⟩ :=
    always 1 4 0 {} twoPolkas twoPolkas_small 0 oneValue locked
  cases valid.symm.trans isValid
  exact apart (same rfl)

end EgoChain.Consensus
