import EgoChain.Consensus.EngineInvariant
import EgoChain.Foundations.Lists

/-!
# What an engine emits, and what survives a restart

The votes in an engine's memory are the ones it was restored with and the ones
it has asked to be sent since.  A state saved from an engine holds exactly its
memory, and an engine restored from it starts with that memory and no other
knowledge.
-/

namespace EgoChain.Consensus

open EgoChain.Foundations List Tendermint
open EgoChain.Foundations.LockVoting (Committee Votes Polka Commit)

/-! ## Emitted votes and decisions -/

namespace Tendermint

variable (engine : Tendermint) (kind : VoteKind) (value : Option ValueId) (next : Step)

theorem castAnd_seat : (engine.castAnd kind value next).1.me = engine.me ∧
      (engine.castAnd kind value next).1.n = engine.n ∧
      (engine.castAnd kind value next).1.height = engine.height := by
  obtain ⟨sent, prevotes, precommits, same⟩ := castAnd_eq engine kind value next
  rw [same]
  exact ⟨rfl, rfl, rfl⟩

theorem voted_castAnd (k : VoteKind) (round : Nat) (v : Option ValueId) :
    (engine.castAnd kind value next).1.memory.voted k round v ↔ engine.memory.voted k round v ∨
        Action.vote k round v ∈ (engine.castAnd kind value next).2 := by
  rcases cast_cases engine kind value with ⟨same, -⟩ | ⟨me, -, absent, same⟩
  · rw [castAnd, same]
    simp [memory]
  have stored := congrArg (fun memory => memory.voted k round v) (memory_insert value absent)
  have voted : ({ engine with sent := engine.sent.insert (engine.round, kind) value }.recordVote
      kind engine.round me value).memory.voted k round v ↔
        engine.memory.voted k round v ∨ (k = kind ∧ round = engine.round ∧ v = value) := by
    rw [recordVote_memory]
    exact iff_of_eq stored
  rw [castAnd, same]
  simp only [mem_singleton, Action.vote.injEq]
  exact voted

end Tendermint

variable {world : World} {engine next : Tendermint} {out : List Action} {kind : VoteKind}
  {value : ValueId} {round : Nat} {committee : Committee Nat} {junk : ValueId → Prop}
  {heard : Heard}

theorem Move.seat (move : Move world engine next out) :
    next.me = engine.me ∧ next.n = engine.n ∧ next.height = engine.height := by
  cases move with
  | note | offer | enter | decide => exact ⟨rfl, rfl, rfl⟩
  | record _ kind round voter value =>
    obtain ⟨prevotes, precommits, same⟩ := recordVote_eq engine kind round voter value
    rw [same]
    exact ⟨rfl, rfl, rfl⟩
  | prevote | precommitNil => exact castAnd_seat engine _ _ _
  | polka order _ value =>
    unfold Tendermint.takePolka
    dsimp only
    split
    · exact castAnd_seat _ .precommit (some value) .precommit
    · exact ⟨rfl, rfl, rfl⟩

/-- A move adds to the memory exactly the votes it emits. -/
theorem Move.voted (move : Move world engine next out) (kind : VoteKind) (round : Nat)
    (value : Option ValueId) :
    next.memory.voted kind round value ↔
      engine.memory.voted kind round value ∨ Action.vote kind round value ∈ out := by
  cases move with
  | note | enter | decide => simp [Tendermint.memory]
  | offer | record => simp
  | prevote | precommitNil => exact voted_castAnd engine _ _ _ kind round value
  | polka order _ chosen =>
    unfold Tendermint.takePolka
    dsimp only
    split
    · exact voted_castAnd _ .precommit (some chosen) .precommit kind round value
    · simp [Tendermint.memory]

variable {action : Action}

/-- The only action `castAnd` can ask for is the vote it is given. -/
theorem Tendermint.mem_castAnd {vote : Option ValueId} {next : Step}
    (emitted : action ∈ (engine.castAnd kind vote next).2) :
    action = .vote kind engine.round vote := by
  rcases cast_cases engine kind vote with ⟨same, -⟩ | ⟨me, -, -, same⟩
  · simp [castAnd, same] at emitted
  · simpa [castAnd, same] using emitted

theorem Tendermint.mem_takePolka (emitted : action ∈ (engine.takePolka value).2) :
    action = .vote .precommit engine.round (some value) := by
  unfold takePolka at emitted
  dsimp only at emitted
  split at emitted
  · have voted := mem_castAnd emitted
    exact voted
  · cases emitted

theorem Tendermint.castAnd_away (away : engine.me = none) (kind : VoteKind) (vote : Option ValueId)
    (next : Step) : (engine.castAnd kind vote next).2 = [] := by
  rcases cast_cases engine kind vote with ⟨same, -⟩ | ⟨me, seat, -, -⟩
  · rw [castAnd, same]
  · cases away.symm.trans seat

/-- An observer's moves emit no votes. -/
theorem Move.away
    (move : Move world engine next out) (away : engine.me = none) (kind : VoteKind) (round : Nat)
    (value : Option ValueId) : Action.vote kind round value ∉ out := by
  cases move with
  | note | offer | record | enter | decide => simp
  | prevote | precommitNil => simp [castAnd_away away]
  | polka order _ chosen =>
    unfold Tendermint.takePolka
    dsimp only
    split
    · rw [castAnd_away (by exact away)]
      simp
    · simp

/-- Only one kind of move decides, and it emits nothing else. -/
theorem Move.decides (move : Move world engine next out) (emitted : Action.decide round value ∈ out) :
    ∃ order, engine.findDecision order = some (round, value) ∧ out = [.decide round value] := by
  cases move with
  | note | record | enter => cases emitted
  | offer => simp at emitted
  | prevote | precommitNil => cases mem_castAnd emitted
  | polka => cases mem_takePolka emitted
  | decide order _ decidedRound decidedValue undecided found =>
    obtain ⟨rfl, rfl⟩ : round = decidedRound ∧ value = decidedValue := by simpa using emitted
    exact ⟨order, found, rfl⟩

namespace Moves

theorem seat (moves : Moves world engine next out) :
    next.me = engine.me ∧ next.n = engine.n ∧ next.height = engine.height := by
  induction moves with
  | refl => exact ⟨rfl, rfl, rfl⟩
  | tail _ move ih =>
    obtain ⟨me, n, height⟩ := move.seat
    exact ⟨me.trans ih.1, n.trans ih.2.1, height.trans ih.2.2⟩

theorem voted (moves : Moves world engine next out) (kind : VoteKind) (round : Nat)
    (value : Option ValueId) :
    next.memory.voted kind round value ↔
      engine.memory.voted kind round value ∨ Action.vote kind round value ∈ out := by
  induction moves with
  | refl => simp
  | tail _ move ih => rw [move.voted, ih, mem_append, or_assoc]

theorem away (moves : Moves world engine next out) (away : engine.me = none) (kind : VoteKind)
    (round : Nat) (value : Option ValueId) : Action.vote kind round value ∉ out := by
  induction moves with
  | refl => simp
  | tail earlier move ih =>
    rw [mem_append, not_or]
    exact ⟨ih, move.away (earlier.seat.1.trans away) kind round value⟩

/-- A decision is backed by a quorum of precommits among the votes heard of and the
engine's own votes up to that point. -/
theorem decided {accepts : ValueId → Prop} (ok : engine.Ok committee junk heard)
    (moves : Moves (worldOf committee junk heard accepts) engine next out)
    {before after : List Action} (counts : ¬ junk value)
    (emitted : out = before ++ .decide round value :: after) :
    Commit committee (votesOf junk fun kind r voter v => heard kind r voter v ∨
      (engine.me = some voter ∧
        (engine.memory.voted kind r v ∨ Action.vote kind r v ∈ before))) round value := by
  induction moves generalizing after with
  | refl => simp at emitted
  | @tail _ _ out more earlier move ih =>
    rcases append_eq_append_cons emitted with ⟨rest, beforeIs, moreIs⟩ | ⟨rest, outIs⟩
    · -- The decision is the only action of the last move.
      obtain ⟨order, found, only⟩ :=
        move.decides (show Action.decide round value ∈ more by simp [moreIs])
      have empty : rest = [] := by
        rw [only] at moreIs
        cases rest with
        | nil => rfl
        | cons action rest => simp at moreIs
      have commit := ((ok.moves earlier).decide found).decided rfl counts
      refine commit_mono ?_ commit
      rintro kind at' voter w (heardOf | ⟨mine, voted⟩)
      · exact Or.inl heardOf
      · refine Or.inr ⟨earlier.seat.1 ▸ mine, ?_⟩
        rw [beforeIs, empty, append_nil]
        exact (earlier.voted kind at' w).mp voted
    · exact ih outIs

end Moves

/-! ## Saving and restoring -/

namespace Tendermint

variable (engine) (votes : List (Nat × VoteKind × Option ValueId))

@[simp]
theorem saved_memory : engine.saved.memory = engine.memory := by
  unfold saved Saved.memory
  congr 1
  funext kind round value
  apply propext
  rw [mem_insertionSort, mem_map]
  constructor
  · rintro ⟨⟨⟨at', k⟩, v⟩, mem, same⟩
    obtain ⟨rfl, rfl, rfl⟩ := same
    exact (KeyedMap.mem_entries_iff engine.sent _ _).mp mem
  · intro there
    exact ⟨⟨(round, kind), value⟩, (KeyedMap.mem_entries_iff engine.sent _ _).mpr there, rfl⟩

theorem restoreVote_eq (vote : Nat × VoteKind × Option ValueId) :
    ∃ prevotes precommits, engine.restoreVote vote = { engine with
        sent := engine.sent.insert (vote.1, vote.2.1) vote.2.2, prevotes, precommits } := by
  unfold restoreVote
  dsimp only
  split
  · obtain ⟨prevotes, precommits, same⟩ := recordVote_eq
      { engine with sent := engine.sent.insert _ vote.2.2 } vote.2.1 vote.1 _ vote.2.2
    exact ⟨prevotes, precommits, same⟩
  · exact ⟨engine.prevotes, engine.precommits, rfl⟩

theorem foldl_restoreVote_eq : ∃ sent prevotes precommits, votes.foldl restoreVote engine =
      { engine with sent, prevotes, precommits } := by
  induction votes generalizing engine with
  | nil => exact ⟨engine.sent, engine.prevotes, engine.precommits, rfl⟩
  | cons vote rest ih =>
    obtain ⟨prevotes, precommits, same⟩ := restoreVote_eq engine vote
    obtain ⟨sent, prevotes, precommits, restIs⟩ := ih _
    refine ⟨sent, prevotes, precommits, ?_⟩
    rw [foldl_cons, restIs, same]

theorem lookup_restoreVote (vote : Nat × VoteKind × Option ValueId) (key : Nat × VoteKind) :
    (engine.restoreVote vote).sent.lookup key =
      if key = (vote.1, vote.2.1) then some vote.2.2 else engine.sent.lookup key := by
  obtain ⟨prevotes, precommits, same⟩ := restoreVote_eq engine vote
  rw [same]
  exact KeyedMap.lookup_insert_eq engine.sent _ _ _

variable {value : Option ValueId}

/-- A table restored from a list without conflicts holds the list and what was there. -/
theorem lookup_foldl_restoreVote (agree : ∀ other, (round, kind, other) ∈ votes → other = value)
    (there : (round, kind, value) ∈ votes ∨ engine.sent.lookup (round, kind) = some value) :
    (votes.foldl restoreVote engine).sent.lookup (round, kind) = some value := by
  induction votes generalizing engine with
  | nil => exact there.resolve_left (by simp)
  | cons vote rest ih =>
    refine ih _ (fun other mem => agree other (by simp [mem])) ?_
    rw [lookup_restoreVote]
    rcases there with mem | old
    · rcases mem_cons.mp mem with here | later
      · subst here
        exact Or.inr (if_pos rfl)
      · exact Or.inl later
    · right
      split
      case isFalse => exact old
      case isTrue same =>
        obtain ⟨at', k, v⟩ := vote
        cases same
        rw [agree v mem_cons_self]

theorem mem_of_lookup_foldl_restoreVote
    (found : (votes.foldl restoreVote engine).sent.lookup (round, kind) = some value) :
    (round, kind, value) ∈ votes ∨ engine.sent.lookup (round, kind) = some value := by
  induction votes generalizing engine with
  | nil => exact Or.inr found
  | cons vote rest ih =>
    rcases ih _ found with later | before
    · exact Or.inl (mem_cons_of_mem _ later)
    rw [lookup_restoreVote] at before
    split at before
    case isFalse => exact Or.inr before
    case isTrue same =>
      cases same
      cases before
      exact Or.inl mem_cons_self

/-- The books of a restored engine hold its own votes only. -/
theorem mem_votersFor_foldl_restoreVote {voter : Nat}
    (mem : voter ∈ (votes.foldl restoreVote engine).votersFor kind round value) :
    (engine.me = some voter ∧ (round, kind, value) ∈ votes) ∨
      voter ∈ engine.votersFor kind round value := by
  induction votes generalizing engine with
  | nil => exact Or.inr mem
  | cons vote rest ih =>
    obtain ⟨prevotes, precommits, same⟩ := restoreVote_eq engine vote
    rcases ih _ mem with ⟨mine, later⟩ | before
    · rw [same] at mine
      exact Or.inl ⟨mine, mem_cons_of_mem _ later⟩
    unfold restoreVote at before
    dsimp only at before
    split at before
    case h_1 me seat =>
      rcases mem_votersFor_recordVote before with ⟨rfl, rfl, rfl, rfl⟩ | old
      · exact Or.inl ⟨seat, mem_cons_self⟩
      · exact Or.inr (by cases kind <;> exact old)
    case h_2 => exact Or.inr (by cases kind <;> exact before)

variable {engine}

/-- How a driver makes an engine: a new one, the saved state if there is one, and
the value the height is bound to. -/
def rebuild (height n : Nat) (me : Option Nat) (timeouts : Timeouts)
    (carried : Option ValueId) (saved : Option Saved) : Tendermint :=
  let engine := new height n me timeouts
  let engine := match saved with
    | some saved => engine.restore saved
    | none => engine
  match carried with
  | some value => engine.carry value
  | none => engine

variable {height n : Nat} {me : Option Nat} {timeouts : Timeouts} {carried : Option ValueId}

theorem carry_eq (engine : Tendermint) (value : ValueId) :
    ∃ carried, engine.carry value = { engine with carried } := by
  unfold carry
  split
  · exact ⟨engine.carried, rfl⟩
  · exact ⟨some value, rfl⟩

theorem rebuild_eq (height n : Nat) (me : Option Nat) (timeouts : Timeouts)
    (carried : Option ValueId) (saved : Option Saved) :
    ∃ bound, rebuild height n me timeouts carried saved =
      { rebuild height n me timeouts none saved with carried := bound } := by
  cases carried with
  | none => exact ⟨(rebuild height n me timeouts none saved).carried, rfl⟩
  | some value => exact carry_eq _ value

/-- The engine at the saved place, before its votes are listed again. -/
abbrev placed (engine : Tendermint) (saved : Saved) : Tendermint :=
  { engine with
    round := saved.round, step := saved.step, locked := saved.locked, valid := saved.valid }

theorem restore_seat (engine : Tendermint) (saved : Saved) :
    (engine.restore saved).me = engine.me ∧ (engine.restore saved).n = engine.n ∧
      (engine.restore saved).height = engine.height := by
  unfold restore
  split
  · exact ⟨rfl, rfl, rfl⟩
  · obtain ⟨sent, prevotes, precommits, same⟩ :=
      foldl_restoreVote_eq _ saved.sent
    dsimp only
    rw [same]
    exact ⟨rfl, rfl, rfl⟩

theorem rebuild_seat (height n : Nat) (me : Option Nat) (timeouts : Timeouts)
    (carried : Option ValueId) (saved : Option Saved) :
    (rebuild height n me timeouts carried saved).me = me.filter (· < n) ∧
      (rebuild height n me timeouts carried saved).n = n ∧
      (rebuild height n me timeouts carried saved).height = height := by
  obtain ⟨bound, same⟩ := rebuild_eq height n me timeouts carried saved
  rw [same]
  cases saved with
  | none => exact ⟨rfl, rfl, rfl⟩
  | some state => exact restore_seat _ state

theorem new_ok (members : committee.members = Finset.range n)
    (quorumSize : committee.quorum = quorum n) :
    (new height n me timeouts).Ok committee junk heard where
  members := members
  quorumSize := quorumSize
  heardRounds := nofun
  proofs := nofun
  booked {kind round voter value} mem := by
    cases kind <;> exact absurd mem (not_mem_nil)
  seat found := of_decide_eq_true (Option.filter_eq_some_iff.mp found).2
  remembers _ :=
    { bounded := Nat.zero_le _
      oneVote := nofun
      voteRound := nofun
      stepVoted := absurd rfl
      lockBacked := nofun
      precommitLocked := nofun
      justified := nofun }
  decided := nofun

variable {saved : Saved}

/-- Restoring an engine that has not voted: the table of own votes and the books come
from the saved list, and nothing else of the engine's knowledge changes. -/
theorem restore_spec (engine : Tendermint) (sameHeight : saved.height = engine.height)
    (waiting : engine.started = false) (noVotes : engine.sent = ∅)
    (noBooks : ∀ kind round voter value, voter ∉ engine.votersFor kind round value)
    (oneVote : saved.memory.OneVote) :
    ∃ sent prevotes precommits, engine.restore saved = { engine with
          round := saved.round, step := saved.step, locked := saved.locked, valid := saved.valid
          resumed := true, sent, prevotes, precommits } ∧
      (engine.restore saved).memory = saved.memory ∧
      ∀ {kind round voter value}, voter ∈ (engine.restore saved).votersFor kind round value →
        engine.me = some voter ∧ saved.memory.voted kind round value := by
  have unfolded : engine.restore saved =
      { saved.sent.foldl restoreVote (engine.placed saved) with resumed := true } := by
    unfold restore
    rw [if_neg (by simp [sameHeight, waiting])]
  obtain ⟨sent, prevotes, precommits, same⟩ := foldl_restoreVote_eq (engine.placed saved) saved.sent
  refine ⟨sent, prevotes, precommits, ?_, ?_, ?_⟩
  · rw [unfolded, same]
  · have voted : ∀ kind round value,
        (saved.sent.foldl restoreVote (engine.placed saved)).sent.lookup (round, kind) =
          some value ↔ saved.memory.voted kind round value := by
      intro kind round value
      constructor
      · intro found
        rcases mem_of_lookup_foldl_restoreVote _ _ found with there | impossible
        · exact there
        · rw [noVotes] at impossible
          cases impossible
      · intro there
        exact lookup_foldl_restoreVote _ _ (fun other mem => oneVote mem there) (Or.inl there)
    rw [same] at voted
    rw [unfolded, same]
    unfold memory Saved.memory
    congr 1
    funext kind round value
    exact propext (voted kind round value)
  · intro kind round voter value mem
    rw [unfolded] at mem
    have inFold : voter ∈ (saved.sent.foldl restoreVote (engine.placed saved)).votersFor kind round
        value := by cases kind <;> exact mem
    rcases mem_votersFor_foldl_restoreVote _ _ inFold with own | before
    · exact own
    · have inEngine : voter ∈ engine.votersFor kind round value := by
        cases kind <;> exact before
      exact absurd inEngine (noBooks kind round voter value)

theorem Ok.restore (ok : engine.Ok committee junk heard) (sameHeight : saved.height = engine.height)
    (waiting : engine.started = false) (noVotes : engine.sent = ∅)
    (noBooks : ∀ kind round voter value, voter ∉ engine.votersFor kind round value)
    (undecided : engine.decision = none)
    (disciplined : saved.memory.Ok committee junk heard engine.me) :
    (engine.restore saved).Ok committee junk heard := by
  obtain ⟨sent, prevotes, precommits, same, memory, books⟩ :=
    restore_spec engine sameHeight waiting noVotes noBooks disciplined.oneVote
  have remembers : (engine.restore saved).memory.Ok committee junk heard engine.me := by
    rw [memory]
    exact disciplined
  have booked : ∀ {kind round voter value}, voter ∈ (engine.restore saved).votersFor kind round value →
        voter < engine.n ∧ (voter ∈ committee.faulty ∨ Junk junk value ∨
          known heard engine.me (engine.restore saved).memory kind round voter value) := by
    intro kind round voter value mem
    obtain ⟨mine, voted⟩ := books mem
    rw [memory]
    exact ⟨ok.seat mine, Or.inr (Or.inr (Or.inr ⟨mine, voted⟩))⟩
  rw [same] at remembers booked ⊢
  exact { ok with
    booked := booked
    remembers := fun _ => remembers
    decided := fun found => by rw [undecided] at found; cases found }

theorem not_mem_votersFor_new (kind : VoteKind) (round voter : Nat) (value : Option ValueId) :
    voter ∉ (new height n me timeouts).votersFor kind round value := by
  cases kind <;> exact not_mem_nil

theorem rebuild_ok {saved : Option Saved} (members : committee.members = Finset.range n)
    (quorumSize : committee.quorum = quorum n)
    (disciplined : ∀ state, saved = some state →
      state.height = height ∧ state.memory.Ok committee junk heard (me.filter (· < n))) :
    (rebuild height n me timeouts carried saved).Ok committee junk heard := by
  have fresh : (new height n me timeouts).Ok committee junk heard := new_ok members quorumSize
  obtain ⟨bound, same⟩ := rebuild_eq height n me timeouts carried saved
  rw [same]
  cases saved with
  | none => exact { fresh with }
  | some state =>
    obtain ⟨sameHeight, disciplined⟩ := disciplined state rfl
    have restored := fresh.restore sameHeight rfl rfl not_mem_votersFor_new rfl disciplined
    exact { restored with }

/-- A rebuilt engine remembers the votes of the saved state and no others. -/
theorem rebuild_voted (n : Nat) (me : Option Nat) (timeouts : Timeouts)
    (carried : Option ValueId) (saved : Option Saved)
    (readable : ∀ state, saved = some state → state.height = height ∧ state.memory.OneVote)
    (kind : VoteKind) (round : Nat) (value : Option ValueId) :
    (rebuild height n me timeouts carried saved).memory.voted kind round value ↔
      ∃ state, saved = some state ∧ state.memory.voted kind round value := by
  obtain ⟨bound, same⟩ := rebuild_eq height n me timeouts carried saved
  rw [same]
  cases saved with
  | none => exact ⟨nofun, nofun⟩
  | some state =>
    obtain ⟨sameHeight, oneVote⟩ := readable state rfl
    obtain ⟨-, -, -, -, memory, -⟩ :=
      restore_spec _ sameHeight rfl rfl not_mem_votersFor_new oneVote
    have voted : (rebuild height n me timeouts none (some state)).memory.voted kind round value ↔
        state.memory.voted kind round value := by
      unfold rebuild
      rw [memory]
    constructor
    · intro there
      exact ⟨state, rfl, voted.mp there⟩
    · rintro ⟨other, same, there⟩
      cases same
      exact voted.mpr there

end Tendermint

end EgoChain.Consensus
