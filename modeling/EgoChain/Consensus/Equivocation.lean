import EgoChain.Consensus.CommitteeRun
import EgoChain.Consensus.EngineCost

/-!
# One vote and one proposal per round

A single member of a committee under arbitrary calls and crashes.  Its votes are
guarded by the table of votes sent, which survives a restart.  Its proposals are
asked for on entering a round, and between restarts the engine only enters rounds
above the one it is in; the largest round of 32 bits is the exception, since the
counter stops there.
-/

namespace EgoChain.Consensus

/-- The rounds below the largest one in which some actions ask for a proposal. -/
def proposedRounds (out : List Action) : List Nat :=
  out.filterMap fun action =>
    match action with
    | .propose round _ _ => if round < maxU32 then some round else none
    | _ => none

@[simp]
theorem proposedRounds_append (out more : List Action) :
    proposedRounds (out ++ more) = proposedRounds out ++ proposedRounds more :=
  List.filterMap_append ..

variable {out : List Action} {made : Call}

theorem proposedRounds_eq_nil
    (none : ∀ round polRound value, Action.propose round polRound value ∉ out) :
    proposedRounds out = [] := by
  refine List.filterMap_eq_nil_iff.mpr fun action mem => ?_
  cases action with
  | propose round polRound value => exact absurd mem (none round polRound value)
  | vote | decide => rfl

/-- The rounds of a call are numbers of 32 bits. -/
def Call.Small : Call → Prop
  | .onProposal round _ _ _ _ => round ≤ maxU32
  | .onVote _ round _ _ => round ≤ maxU32
  | _ => True

theorem Call.From.small {member round : Nat} (told : made.From member round) (u32 : made.Small) :
    round ≤ maxU32 := by
  cases made with
  | onProposal | onVote => exact told.2 ▸ u32
  | start | onValue | tick => exact told.elim

namespace Tendermint

/-- The engine's rounds are numbers of 32 bits. -/
def Small (engine : Tendermint) : Prop :=
  engine.round ≤ maxU32 ∧ ∀ {member round}, engine.highest.lookup member = some round → round ≤ maxU32

/-- From one state to the next, proposals are asked for in ever higher rounds. -/
structure Climbs (engine next : Tendermint) (out : List Action) : Prop where
  small : next.Small
  up : engine.round ≤ next.round
  ascending : (proposedRounds out).Pairwise (· < ·)
  above : ∀ round ∈ proposedRounds out, engine.round < round ∧ round ≤ next.round
  started : next.started = engine.started

variable {engine : Tendermint}

theorem Climbs.trans {middle next : Tendermint} {more : List Action}
    (first : Climbs engine middle out) (second : Climbs middle next more) :
    Climbs engine next (out ++ more) where
  small := second.small
  up := first.up.trans second.up
  ascending := by
    rw [proposedRounds_append, List.pairwise_append]
    refine ⟨first.ascending, second.ascending, fun before inFirst after inSecond => ?_⟩
    exact lt_of_le_of_lt (first.above before inFirst).2 (second.above after inSecond).1
  above := by
    intro round mem
    rw [proposedRounds_append] at mem
    rcases List.mem_append.mp mem with early | late
    · exact ⟨(first.above round early).1, (first.above round early).2.trans second.up⟩
    · exact ⟨lt_of_le_of_lt first.up (second.above round late).1, (second.above round late).2⟩
  started := second.started.trans first.started

/-- Entering a round asks for at most one proposal, of that round. -/
theorem proposedRounds_startRound (engine : Tendermint) (now round : Nat) :
    (proposedRounds (engine.startRound now round).2).Sublist [round] ∧
      (proposedRounds (engine.startRound now round).2 ≠ [] → round < maxU32) := by
  unfold startRound
  dsimp only
  split
  case isFalse => exact ⟨List.nil_sublist _, absurd rfl⟩
  case isTrue => by_cases below : round < maxU32 <;> simp [proposedRounds, below]

theorem startRound_seat (engine : Tendermint) (now round : Nat) :
    (engine.startRound now round).1.round = round ∧
      (engine.startRound now round).1.highest = engine.highest ∧
      (engine.startRound now round).1.started = engine.started := by
  unfold startRound arm
  dsimp only
  split <;> exact ⟨rfl, rfl, rfl⟩

variable (small : engine.Small)

include small

theorem Climbs.refl : Climbs engine engine [] :=
  ⟨small, le_rfl, .nil, by simp [proposedRounds], rfl⟩

/-- A change within the round that asks for no proposal. -/
theorem climbs_within {next : Tendermint} (round : next.round = engine.round)
    (highest : next.highest = engine.highest) (started : next.started = engine.started)
    (quiet : ∀ round polRound value, Action.propose round polRound value ∉ out) :
    Climbs engine next out where
  small := by
    unfold Small
    rw [round, highest]
    exact small
  up := round.ge
  ascending := by
    rw [proposedRounds_eq_nil quiet]
    exact .nil
  above := by simp [proposedRounds_eq_nil quiet]
  started := started

theorem climbs_castAnd (kind : VoteKind) (value : Option ValueId) (step : Step) :
    Climbs engine (engine.castAnd kind value step).1 (engine.castAnd kind value step).2 := by
  obtain ⟨sent, prevotes, precommits, same⟩ := castAnd_eq engine kind value step
  refine climbs_within small ?_ ?_ ?_ fun _ _ _ mem => by cases mem_castAnd mem
  · rw [same]
  · rw [same]
  · rw [same]

theorem climbs_takePolka (value : ValueId) :
    Climbs engine (engine.takePolka value).1 (engine.takePolka value).2 := by
  unfold takePolka
  dsimp only
  split
  case isFalse => exact climbs_within small rfl rfl rfl (by simp)
  case isTrue =>
    have cast := @climbs_castAnd (engine.lockedOn value) small .precommit (some value) .precommit
    exact { cast with }

theorem climbs_arm (timer : Timer) (round now : Nat) :
    Climbs engine (engine.arm timer round now) [] := by
  unfold arm
  split
  · exact .refl small
  · exact climbs_within small rfl rfl rfl (by simp)

/-- A higher round is entered with at most one proposal, for that round.  At the largest
round the counter stands still, and nothing is counted there. -/
theorem climbs_startRound (now : Nat) {round : Nat} (u32 : round ≤ maxU32)
    (higher : engine.round < round ∨ round = maxU32) :
    Climbs engine (engine.startRound now round).1 (engine.startRound now round).2 := by
  obtain ⟨roundIs, highestIs, startedIs⟩ := startRound_seat engine now round
  obtain ⟨one, below⟩ := proposedRounds_startRound engine now round
  have inside := small.1
  refine ⟨?small, by omega, (List.pairwise_singleton _ _).sublist one, ?above, startedIs⟩
  case small =>
    unfold Small
    rw [roundIs, highestIs]
    exact ⟨u32, small.2⟩
  case above =>
    intro proposed mem
    obtain rfl := List.mem_singleton.mp (one.subset mem)
    have least := below (List.ne_nil_of_mem mem)
    omega

/-! ## The loop and the calls -/

omit small in
theorem climbs_rule : TickRule fun engine next out => engine.Small → Climbs engine next out where
  refl _ small := .refl small
  trans left right small := (left small).trans (right (left small).small)
  arm engine timer now small := climbs_arm small timer engine.round now
  skip _ now _ target small := by
    obtain ⟨higher, member, heard⟩ := skipTarget_spec target
    exact climbs_startRound small now (small.2 heard) (Or.inl higher)
  prevote _ value _ _ small := climbs_castAnd small .prevote value .prevote
  precommitNil _ _ small := climbs_castAnd small .precommit none .precommit
  polka _ _ value _ small := climbs_takePolka small value
  decide _ _ _ _ _ _ small := climbs_within small rfl rfl rfl (by simp)
  drain _ _ small := climbs_within small rfl rfl rfl (by simp)
  next engine now small := by
    refine climbs_startRound small now (Nat.min_le_right _ _) ?_
    unfold satAdd32
    omega
  prevoteNil _ _ small := climbs_castAnd small .prevote none .prevote

variable (order : IterOrder) (now : Nat)

theorem climbs_progress : Climbs engine (engine.progress order now).1 (engine.progress order now).2 :=
  climbs_rule.progress order now engine small

/-- Every call but `start` climbs. -/
theorem climbs_call (u32 : made.Small) (running : made ≠ .start) :
    Climbs engine (made.run order now engine).1 (made.run order now engine).2 := by
  obtain ⟨proposals, validity, highest, prevotes, precommits, same, told⟩ := made.heard_eq engine
  have heard : Climbs engine (made.heard engine) [] := by
    rw [same]
    refine ⟨⟨small.1, fun found => ?_⟩, le_rfl, .nil, by simp [proposedRounds], rfl⟩
    exact (told _ _ found).elim (fun new => new.1.small u32) small.2
  have whole := heard.trans (climbs_progress heard.small order now)
  cases made with
  | start => exact absurd rfl running
  | onProposal | onValue | onVote => exact whole
  | tick => exact climbs_rule.tick order now engine small

omit small

/-- An engine that has not started enters no round. -/
theorem progress_waiting (waiting : engine.started = false) :
    engine.progress order now = engine.settle order := by
  have stays : (engine.settle order).1.idle = true := by
    unfold settle
    split <;> simp [idle, waiting]
  unfold progress progressLoop progressOnce
  dsimp only
  rw [if_pos stays]

theorem call_waiting (waiting : engine.started = false) (noTimers : engine.timers = [])
    (running : made ≠ .start) :
    (made.run order now engine).1.timers = [] ∧ proposedRounds (made.run order now engine).2 = [] := by
  -- Every call ends in `progress`, on an engine with the same timers.
  have ends : ∀ {next : Tendermint}, next.started = false → next.timers = [] →
      (next.progress order now).1.timers = [] ∧ proposedRounds (next.progress order now).2 = [] := by
    intro next waiting noTimers
    rw [progress_waiting _ _ waiting]
    unfold settle
    split
    · exact ⟨rfl, rfl⟩
    · exact ⟨noTimers, rfl⟩
  obtain ⟨proposals, validity, highest, prevotes, precommits, same, -⟩ := made.heard_eq engine
  have told := @ends (made.heard engine) (same ▸ waiting) (same ▸ noTimers)
  cases made with
  | start => exact absurd rfl running
  | onProposal | onValue | onVote => exact told
  | tick =>
    unfold Call.run tick
    simp only [noTimers]
    exact ends waiting rfl

include small in
/-- What `start` asks for: at most one proposal for the round the engine is in, and then
proposals for higher rounds. -/
theorem start_climbs (waiting : engine.started = false) :
    (engine.start order now).1.Small ∧ (engine.start order now).1.started = true ∧
      (proposedRounds (engine.start order now).2).Pairwise (· < ·) ∧
      ∀ round ∈ proposedRounds (engine.start order now).2,
        round ≤ (engine.start order now).1.round := by
  have first : ∀ {begun : Tendermint} {out : List Action}, begun.Small → begun.started = true →
      (proposedRounds out).Sublist [begun.round] →
      (begun.progress order now).1.Small ∧ (begun.progress order now).1.started = true ∧
        (proposedRounds (out ++ (begun.progress order now).2)).Pairwise (· < ·) ∧
        ∀ round ∈ proposedRounds (out ++ (begun.progress order now).2),
          round ≤ (begun.progress order now).1.round := by
    intro begun out small running one
    have climbs := climbs_progress small order now
    have own : ∀ round ∈ proposedRounds out, round = begun.round := fun round mem =>
      List.mem_singleton.mp (one.subset mem)
    rw [proposedRounds_append, List.pairwise_append]
    refine ⟨climbs.small, climbs.started.trans running, ⟨(List.pairwise_singleton _ _).sublist one,
      climbs.ascending, fun before early after late => ?_⟩, fun round mem => ?_⟩
    · exact own before early ▸ (climbs.above after late).1
    · rcases List.mem_append.mp mem with early | late
      · exact own round early ▸ climbs.up
      · exact (climbs.above round late).2
  unfold start
  rw [if_neg (by simp [waiting])]
  dsimp only
  have begun : { engine with started := true }.Small := small
  split
  case isFalse => exact first begun rfl (List.nil_sublist _)
  case isTrue =>
  obtain ⟨roundIs, highestIs, running⟩ :=
    startRound_seat { engine with started := true } now engine.round
  have one := (proposedRounds_startRound { engine with started := true } now engine.round).1
  have nowSmall : ({ engine with started := true }.startRound now engine.round).1.Small := by
    unfold Small
    rw [roundIs, highestIs]
    exact small
  split
  · exact first nowSmall running (by rwa [roundIs])
  · exact first nowSmall running (by rwa [roundIs])
  · have armed := climbs_arm begun .prevote engine.round now
    exact first armed.small armed.started (List.nil_sublist _)
  · have armed := climbs_arm begun .precommit engine.round now
    exact first armed.small armed.started (List.nil_sublist _)

end Tendermint

/-! ## A member under arbitrary calls and crashes -/

/-- A member's engine, the state it last saved, and the actions its calls returned: all of
them, and those since the last restart. -/
structure Member where
  engine : Tendermint
  saved : Option Saved
  emitted : List Action
  recent : List Action

/-- A member saves its state after every call that returns a vote, and after others as it
likes. -/
inductive MemberEvent where
  | call (order : IterOrder) (now : Nat) (made : Call) (saves : Bool)
  | carry (value : ValueId)
  | crash (timeouts : Timeouts)

def MemberEvent.Small : MemberEvent → Prop
  | .call _ _ made _ => made.Small
  | _ => True

def Action.isVote : Action → Bool
  | .vote _ _ _ => true
  | _ => false

namespace Member

def initial (height n seat : Nat) (timeouts : Timeouts) : Member where
  engine := .new height n (some seat) timeouts
  saved := none
  emitted := []
  recent := []

def step (height n seat : Nat) (member : Member) : MemberEvent → Member
  | .call order now made saves =>
    let (engine, out) := made.run order now member.engine
    { engine := engine
      saved := if saves || out.any Action.isVote then some engine.saved else member.saved
      emitted := member.emitted ++ out
      recent := member.recent ++ out }
  | .carry value => { member with engine := member.engine.carry value }
  | .crash timeouts =>
    { member with
      engine := .rebuild height n (some seat) timeouts none member.saved
      recent := [] }

def run (height n seat : Nat) (member : Member) (events : List MemberEvent) : Member :=
  events.foldl (step height n seat) member

/-- The member's votes are in its memory and in what it saved, and its proposals since the
last restart went up to the round it is in. -/
structure Ok (height : Nat) (member : Member) : Prop where
  sameHeight : member.engine.height = height
  small : member.engine.Small
  remembers : ∀ {kind round value}, .vote kind round value ∈ member.emitted →
    member.engine.memory.voted kind round value
  unsaved : member.saved = none → ∀ {kind round value}, .vote kind round value ∉ member.emitted
  saved : ∀ {state}, member.saved = some state → state.height = height ∧ state.round ≤ maxU32 ∧
    (∀ {kind round value other}, state.memory.voted kind round value →
      state.memory.voted kind round other → value = other) ∧
    ∀ {kind round value}, .vote kind round value ∈ member.emitted → state.memory.voted kind round value
  ascending : (proposedRounds member.recent).Pairwise (· < ·)
  reached : ∀ round ∈ proposedRounds member.recent, round ≤ member.engine.round
  waiting : member.engine.started = false →
    member.engine.timers = [] ∧ proposedRounds member.recent = []

theorem initial_ok (height n seat : Nat) (timeouts : Timeouts) :
    (initial height n seat timeouts).Ok height where
  sameHeight := rfl
  small := ⟨Nat.zero_le _, nofun⟩
  remembers := nofun
  unsaved := nofun
  saved := nofun
  ascending := .nil
  reached := nofun
  waiting _ := ⟨rfl, rfl⟩

/-- Every input is possible here. -/
def anyWorld : World := ⟨fun _ _ _ _ => True, fun _ => True⟩

theorem moves_call (engine : Tendermint) (order : IterOrder) (now : Nat) (u32 : made.Small) :
    Moves anyWorld engine (made.run order now engine).1 (made.run order now engine).2 := by
  refine Call.Told.moves ?_ order now
  cases made with
  | onProposal => exact ⟨u32, fun _ => trivial⟩
  | onValue => exact fun _ => trivial
  | onVote => exact ⟨u32, fun _ _ => trivial⟩
  | start | tick => trivial

variable {height : Nat} {member : Member}

/-- A rebuilt engine is in the saved round and waits. -/
theorem rebuild_waits (height n seat : Nat) (timeouts : Timeouts) {saved : Option Saved}
    (readable : ∀ {state}, saved = some state → state.height = height ∧ state.round ≤ maxU32 ∧
      state.memory.OneVote) :
    (Tendermint.rebuild height n (some seat) timeouts none saved).Small ∧
      (Tendermint.rebuild height n (some seat) timeouts none saved).timers = [] := by
  cases found : saved with
  | none => exact ⟨⟨Nat.zero_le _, nofun⟩, rfl⟩
  | some state =>
    obtain ⟨sameHeight, roundIs, oneVote⟩ := readable found
    obtain ⟨sent, prevotes, precommits, same, -⟩ :=
      Tendermint.restore_spec (.new height n (some seat) timeouts) sameHeight rfl rfl
        Tendermint.not_mem_votersFor_new oneVote
    unfold Tendermint.rebuild
    dsimp only
    rw [same]
    exact ⟨⟨roundIs, nofun⟩, rfl⟩

variable (ok : member.Ok height)

include ok

variable (order : IterOrder) (now : Nat)

/-- The proposals since the last restart, after one more call. -/
theorem Ok.call_ascends (u32 : made.Small) : (made.run order now member.engine).1.Small ∧
      (proposedRounds (member.recent ++ (made.run order now member.engine).2)).Pairwise (· < ·) ∧
      (∀ round ∈ proposedRounds (member.recent ++ (made.run order now member.engine).2),
        round ≤ (made.run order now member.engine).1.round) ∧
      ((made.run order now member.engine).1.started = false →
        (made.run order now member.engine).1.timers = [] ∧
          proposedRounds (member.recent ++ (made.run order now member.engine).2) = []) := by
  rw [proposedRounds_append]
  by_cases starts : made = .start
  · subst starts
    unfold Call.run
    cases running : member.engine.started with
    | true =>
      have same : member.engine.start order now = (member.engine, []) := by
        unfold Tendermint.start
        rw [if_pos running]
      rw [same, show proposedRounds [] = [] from rfl, List.append_nil]
      exact ⟨ok.small, ok.ascending, ok.reached, ok.waiting⟩
    | false =>
      obtain ⟨small, started, ascending, reached⟩ :=
        Tendermint.start_climbs ok.small order now running
      rw [(ok.waiting running).2]
      exact ⟨small, ascending, reached, fun waiting => by rw [started] at waiting; cases waiting⟩
  · have climbs := Tendermint.climbs_call ok.small order now u32 starts
    refine ⟨climbs.small, ?_, ?_, ?_⟩
    · rw [List.pairwise_append]
      refine ⟨ok.ascending, climbs.ascending, fun before early after late => ?_⟩
      exact lt_of_le_of_lt (ok.reached before early) (climbs.above after late).1
    · intro round mem
      rcases List.mem_append.mp mem with early | late
      · exact (ok.reached round early).trans climbs.up
      · exact (climbs.above round late).2
    · intro waiting
      rw [climbs.started] at waiting
      obtain ⟨noTimers, none⟩ := ok.waiting waiting
      obtain ⟨still, quiet⟩ := Tendermint.call_waiting order now waiting noTimers starts
      exact ⟨still, by rw [none, quiet, List.append_nil]⟩

theorem Ok.call {n seat : Nat} (saves : Bool) (u32 : made.Small) :
    (member.step height n seat (.call order now made saves)).Ok height := by
  have moves := moves_call member.engine order now u32
  obtain ⟨small, ascending, reached, waiting⟩ := ok.call_ascends order now u32
  have voted := moves.voted
  obtain ⟨-, -, sameHeight⟩ := moves.seat
  unfold step
  dsimp only
  generalize made.run order now member.engine = made' at *
  obtain ⟨engine, out⟩ := made'
  have remembers : ∀ {kind round value}, .vote kind round value ∈ member.emitted ++ out →
      engine.memory.voted kind round value := by
    intro kind round value mem
    refine (voted kind round value).mpr ?_
    exact (List.mem_append.mp mem).imp_left ok.remembers
  -- Without a vote among the actions, what was saved before still holds all votes.
  have silent : (saves || out.any Action.isVote) = false →
      ∀ {kind round value}, .vote kind round value ∈ member.emitted ++ out →
        .vote kind round value ∈ member.emitted := by
    intro notSaved kind round value mem
    rcases List.mem_append.mp mem with old | new
    · exact old
    · have noVote := List.any_eq_false.mp (Bool.or_eq_false_iff.mp notSaved).2
      exact absurd rfl (noVote _ new)
  refine ⟨sameHeight.trans ok.sameHeight, small, remembers, ?unsaved, ?saved, ascending, reached,
    waiting⟩
  case unsaved =>
    intro none kind round value mem
    split at none
    case isTrue => cases none
    case isFalse notSaved =>
      exact ok.unsaved none (silent (Bool.eq_false_iff.mpr notSaved) mem)
  case saved =>
    intro state found
    split at found
    case isTrue =>
      cases found
      rw [engine.saved_memory]
      refine ⟨sameHeight.trans ok.sameHeight, small.1, fun first second => ?_, remembers⟩
      exact Option.some.inj (first.symm.trans second)
    case isFalse notSaved =>
      obtain ⟨heightIs, roundIs, oneVote, all⟩ := ok.saved found
      exact ⟨heightIs, roundIs, oneVote, fun mem => all (silent (Bool.eq_false_iff.mpr notSaved) mem)⟩

theorem Ok.crash {n seat : Nat} (timeouts : Timeouts) :
    (member.step height n seat (.crash timeouts)).Ok height := by
  have readable : ∀ {state}, member.saved = some state → state.height = height ∧
      state.round ≤ maxU32 ∧ state.memory.OneVote := by
    intro state found
    obtain ⟨heightIs, roundIs, oneVote, -⟩ := ok.saved found
    exact ⟨heightIs, roundIs, oneVote⟩
  obtain ⟨small, noTimers⟩ := rebuild_waits height n seat timeouts readable
  have voted := @Tendermint.rebuild_voted _ n (some seat) timeouts none member.saved
    fun state found => ⟨(readable found).1, (readable found).2.2⟩
  exact {
    sameHeight := (Tendermint.rebuild_seat height n (some seat) timeouts none member.saved).2.2
    small := small
    remembers := by
      intro kind round value mem
      refine (voted kind round value).mpr ?_
      cases found : member.saved with
      | none => exact absurd mem (ok.unsaved found)
      | some state =>
        obtain ⟨-, -, -, all⟩ := ok.saved found
        exact ⟨state, rfl, all mem⟩
    unsaved := ok.unsaved
    saved := ok.saved
    ascending := .nil
    reached := nofun
    waiting := fun _ => ⟨noTimers, rfl⟩ }

theorem Ok.step (n seat : Nat) {event : MemberEvent} (u32 : event.Small) :
    (member.step height n seat event).Ok height := by
  cases event with
  | call order now made saves => exact ok.call order now saves u32
  | carry value =>
    obtain ⟨carried, same⟩ := Tendermint.carry_eq member.engine value
    unfold Member.step
    dsimp only
    rw [same]
    exact { ok with }
  | crash timeouts => exact ok.crash timeouts

theorem Ok.run (n seat : Nat) {events : List MemberEvent} (u32 : ∀ event ∈ events, event.Small) :
    (member.run height n seat events).Ok height := by
  induction events generalizing member with
  | nil => exact ok
  | cons event rest ih =>
    exact ih (ok.step n seat (u32 event List.mem_cons_self)) fun later mem =>
      u32 later (List.mem_cons_of_mem _ mem)

end Member

/-- A member never votes for two values in one round and phase, restarts included, and
between restarts it asks for at most one proposal in each round below the largest. -/
theorem member_never_equivocates (height n seat : Nat) (timeouts : Timeouts)
    (events : List MemberEvent) (u32 : ∀ event ∈ events, event.Small) :
    (∀ kind round value other, Action.vote kind round value ∈
        ((Member.initial height n seat timeouts).run height n seat events).emitted →
      Action.vote kind round other ∈
        ((Member.initial height n seat timeouts).run height n seat events).emitted →
      value = other) ∧
    (proposedRounds ((Member.initial height n seat timeouts).run height n seat
      events).recent).Nodup := by
  have ok := (Member.initial_ok height n seat timeouts).run n seat u32
  refine ⟨fun kind round value other first second => ?_, ok.ascending.imp ne_of_lt⟩
  exact Option.some.inj ((ok.remembers first).symm.trans (ok.remembers second))

/-- The only member of a committee proposes and votes, crashes and starts again. -/
def restartRun : List MemberEvent :=
  [.call .inserted 0 .start false,
    .call .inserted 0 (.onProposal 0 0 (Vector.replicate 32 7) none true) false,
    .crash {}, .call .inserted 0 .start false, .call .inserted 100000 .tick false]

theorem restarted_member_votes_once : Action.vote .prevote 0 (some (Vector.replicate 32 7)) ∈
        ((Member.initial 0 1 0 {}).run 0 1 0 restartRun).emitted ∧
      (∀ other, Action.vote .prevote 0 other ∈
        ((Member.initial 0 1 0 {}).run 0 1 0 restartRun).emitted →
          some (Vector.replicate 32 7) = other) ∧
      (proposedRounds ((Member.initial 0 1 0 {}).run 0 1 0 restartRun).recent).Nodup := by
  have voted : Action.vote .prevote 0 (some (Vector.replicate 32 7)) ∈
      ((Member.initial 0 1 0 {}).run 0 1 0 restartRun).emitted := by decide
  have small : ∀ event ∈ restartRun, event.Small := by
    simp [restartRun, MemberEvent.Small, Call.Small]
  obtain ⟨oneVote, oneProposal⟩ := member_never_equivocates 0 1 0 {} restartRun small
  exact ⟨voted, fun other second => oneVote .prevote 0 _ other voted second, oneProposal⟩

end EgoChain.Consensus
