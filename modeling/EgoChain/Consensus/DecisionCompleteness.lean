import EgoChain.Consensus.CommitteeRun
import EgoChain.Consensus.EngineBinding

/-!
# When an engine decides

An engine decides a value as soon as it has a quorum of precommits for it on
record and knows it to be valid, and for no other reason.  What it has on record
is another matter: a vote that arrives from more than `roundWindow` rounds above
the engine's own is dropped, and so is a vote of a member that is on record with
`valuesPerVoter` others.  An observer stays in round zero, so the rounds above the
window are lost to it for good.
-/

namespace EgoChain.Consensus

open EgoChain.Foundations List

variable {engine : Tendermint} {round voter : Nat}

namespace Tendermint

/-- A member's ballot has room for another value. -/
def HasRoom (engine : Tendermint) (kind : VoteKind) (round voter : Nat) : Prop :=
  (ballotIn (engine.book kind) round voter).values.length < valuesPerVoter

variable {kind : VoteKind} {value : Option ValueId} {next : Tendermint} {order : IterOrder}

theorem mem_votersFor_recordVote_iff {k : VoteKind} {at' who : Nat} {other : Option ValueId} :
    who ∈ (engine.recordVote kind round voter value).votersFor k at' other ↔
      who ∈ engine.votersFor k at' other ∨ (k = kind ∧ at' = round ∧ who = voter ∧ other = value ∧
        engine.HasRoom kind round voter) := by
  cases kind <;> cases k
  · simp only [true_and]
    exact mem_votersIn_record_iff
  · simp [recordVote, votersFor, book]
  · simp [recordVote, votersFor, book]
  · simp only [true_and]
    exact mem_votersIn_record_iff

/-- The engine has sent a vote of every round for which it has one of its own on record. -/
def OwnSent (engine : Tendermint) : Prop :=
  ∀ {kind round voter value}, engine.me = some voter → voter ∈ engine.votersFor kind round value →
    (round, kind) ∈ engine.sent

theorem OwnSent.hasRoom (own : engine.OwnSent) (mine : engine.me = some voter)
    (fresh : (round, kind) ∉ engine.sent) : engine.HasRoom kind round voter := by
  have empty : (ballotIn (engine.book kind) round voter).values = [] := by
    refine eq_nil_iff_forall_not_mem.mpr fun value mem => fresh ?_
    exact own mine (mem_votersIn_iff.mpr mem)
  unfold HasRoom
  rw [empty]
  decide

/-- From one state to the next the engine has taken down the votes heard, and cast those in its
actions; it has decided on nothing but a quorum of precommits. -/
structure Hears (heard : Heard) (engine next : Tendermint) (out : List Action) : Prop where
  seat : next.me = engine.me
  size : next.n = engine.n
  carries : next.carried = engine.carried
  ownSent : engine.OwnSent → next.OwnSent
  books : engine.OwnSent → ∀ kind round voter value,
    voter ∈ next.votersFor kind round value ↔ voter ∈ engine.votersFor kind round value ∨
      heard kind round voter value ∨ (engine.me = some voter ∧ Action.vote kind round value ∈ out)
  decided : engine.OwnSent → ∀ {round value}, next.decision = some (round, value) →
    engine.decision = some (round, value) ∨ quorum next.n ≤ next.count .precommit round (some value)

/-- Nothing was heard. -/
def silence : Heard := fun _ _ _ _ => False

namespace Hears

variable {heard more : Heard} {middle : Tendermint} {out later : List Action}

theorem trans (left : Hears heard engine middle out) (right : Hears more middle next later) :
    Hears (fun kind round voter value => heard kind round voter value ∨ more kind round voter value)
      engine next (out ++ later) where
  seat := right.seat.trans left.seat
  size := right.size.trans left.size
  carries := right.carries.trans left.carries
  ownSent own := right.ownSent (left.ownSent own)
  books own kind round voter value := by
    rw [right.books (left.ownSent own), left.books own, left.seat, mem_append]
    tauto
  decided own {round value} found := by
    rcases right.decided (left.ownSent own) found with before | enough
    · refine (left.decided own before).imp_right fun enough => ?_
      rw [right.size]
      refine enough.trans (subperm_of_subset (votersIn_nodup _ _ _) fun voter mem => ?_).length_le
      exact (right.books (left.ownSent own) _ _ _ _).mpr (Or.inl mem)
    · exact Or.inr enough

theorem congr (hears : Hears heard engine next out)
    (same : ∀ kind round voter value, heard kind round voter value ↔ more kind round voter value) :
    Hears more engine next out := by
  have funs : heard = more := by
    funext kind round voter value
    exact propext (same kind round voter value)
  exact funs ▸ hears

/-- Changes in which nothing is heard. -/
theorem quiet (left : Hears silence engine middle out) (right : Hears silence middle next later) :
    Hears silence engine next (out ++ later) :=
  (left.trans right).congr fun _ _ _ _ => or_self_iff

/-- A change that leaves the votes and the decision alone. -/
theorem of_same (seat : next.me = engine.me) (size : next.n = engine.n)
    (carries : next.carried = engine.carried) (sent : next.sent = engine.sent)
    (prevotes : next.prevotes = engine.prevotes) (precommits : next.precommits = engine.precommits)
    (decision : next.decision = engine.decision) (silent : ∀ kind round value,
      Action.vote kind round value ∉ out) : Hears silence engine next out := by
  have books : ∀ kind round value,
      next.votersFor kind round value = engine.votersFor kind round value := by
    intro kind round value
    cases kind
    · exact congrArg (votersIn · round value) prevotes
    · exact congrArg (votersIn · round value) precommits
  refine ⟨seat, size, carries, fun own => ?_, fun _ kind round voter value => ?_, fun _ _ _ found => ?_⟩
  · intro kind round voter value mine mem
    rw [sent]
    exact own (seat ▸ mine) (books kind round value ▸ mem)
  · rw [books]
    simp [silence, silent kind round value]
  · exact Or.inl (decision ▸ found)

end Hears

variable (engine)

theorem hears_castAnd (kind : VoteKind) (value : Option ValueId) (step : Step) :
    Hears silence engine (engine.castAnd kind value step).1 (engine.castAnd kind value step).2 := by
  obtain ⟨sent, prevotes, precommits, shape⟩ := castAnd_eq engine kind value step
  rcases cast_cases engine kind value with ⟨same, -⟩ | ⟨me, mine, fresh, same⟩
  · rw [castAnd, same]
    exact .of_same rfl rfl rfl rfl rfl rfl rfl (by simp)
  have sentIs : (engine.castAnd kind value step).1.sent =
      engine.sent.insert (engine.round, kind) value := by
    rw [castAnd, same]
    cases kind <;> rfl
  have voters : ∀ k at' other, (engine.castAnd kind value step).1.votersFor k at' other =
      (engine.recordVote kind engine.round me value).votersFor k at' other := by
    intro k at' other
    rw [castAnd, same]
    cases kind <;> cases k <;> rfl
  have out : (engine.castAnd kind value step).2 = [.vote kind engine.round value] := by
    rw [castAnd, same]
  refine ⟨by rw [shape], by rw [shape], by rw [shape], ?_, ?_, ?_⟩
  · intro own k at' voter other isMe mem
    rw [shape] at isMe
    rw [voters, mem_votersFor_recordVote_iff] at mem
    rw [sentIs, AList.mem_insert]
    rcases mem with old | ⟨rfl, rfl, -⟩
    · exact Or.inr (own isMe old)
    · exact Or.inl rfl
  · intro own k at' voter other
    rw [voters, mem_votersFor_recordVote_iff, out, mem_singleton, Action.vote.injEq, mine,
      Option.some.injEq]
    have room := own.hasRoom mine fresh
    simp only [silence, false_or]
    constructor
    · rintro (old | ⟨rfl, rfl, rfl, rfl, -⟩)
      · exact Or.inl old
      · exact Or.inr ⟨rfl, rfl, rfl, rfl⟩
    · rintro (old | ⟨rfl, rfl, rfl, rfl⟩)
      · exact Or.inl old
      · exact Or.inr ⟨rfl, rfl, rfl, rfl, room⟩
  · intro _ round v found
    rw [shape] at found
    exact Or.inl found

theorem hears_wait (timers : List (Timer × Nat × Nat))
    (armed : List (Timer × Nat)) (started : Bool) :
    Hears silence engine { engine with timers, armed, started } [] :=
  .of_same rfl rfl rfl rfl rfl rfl rfl (by simp)

theorem hears_arm (timer : Timer) (round now : Nat) :
    Hears silence engine (engine.arm timer round now) [] := by
  unfold arm
  split
  · exact .of_same rfl rfl rfl rfl rfl rfl rfl (by simp)
  · exact hears_wait engine _ _ engine.started

theorem hears_startRound (now round : Nat) :
    Hears silence engine (engine.startRound now round).1 (engine.startRound now round).2 := by
  have entered : Hears silence engine { engine with round := round, step := .propose }
      (engine.startRound now round).2 := by
    refine .of_same rfl rfl rfl rfl rfl rfl rfl fun kind at' value mem => ?_
    unfold startRound at mem
    dsimp only at mem
    split at mem
    · cases mem_singleton.mp mem
    · cases mem
  have armed := entered.quiet (hears_arm _ .propose round now)
  rw [append_nil] at armed
  exact armed

theorem hears_takePolka (value : ValueId) :
    Hears silence engine (engine.takePolka value).1 (engine.takePolka value).2 := by
  unfold takePolka
  dsimp only
  split
  case isFalse => exact .of_same rfl rfl rfl rfl rfl rfl rfl (by simp)
  case isTrue =>
    have voted := hears_castAnd (engine.lockedOn value) .precommit (some value) .precommit
    exact { voted with }

variable {engine}

/-- Without a call that tells it something, an engine hears nothing. -/
theorem hears_rule : CallRule (Hears silence) where
  refl engine := .of_same rfl rfl rfl rfl rfl rfl rfl (by simp)
  trans := .quiet
  arm engine timer now := hears_arm engine timer engine.round now
  skip engine now round _ := hears_startRound engine now round
  prevote engine value _ _ := hears_castAnd engine .prevote value .prevote
  precommitNil engine _ := hears_castAnd engine .precommit none .precommit
  polka engine _ value _ := hears_takePolka engine value
  decide engine order round value _ found := by
    have enough := quorum_le_count (findDecision_spec found).1
    refine ⟨rfl, rfl, rfl, fun own => own, fun _ kind at' voter other => ?_, fun _ at' other is => ?_⟩
    · have same : ({ engine with decision := some (round, value), timers := [] } :
          Tendermint).votersFor kind at' other = engine.votersFor kind at' other := by
        cases kind <;> rfl
      rw [same]
      simp [silence]
    · obtain ⟨rfl, rfl⟩ := Prod.mk.inj (Option.some.inj is)
      exact Or.inr enough
  wait := hears_wait
  open' engine now := hears_startRound engine now engine.round
  next engine now := hears_startRound engine now _
  prevoteNil engine _ := hears_castAnd engine .prevote none .prevote

/-! ## The loop leaves nothing undecided -/

/-- Where nothing is decided, a value that may be accepted has no quorum of precommits, unless
another value has one in the same round. -/
def Settled (engine : Tendermint) : Prop :=
  engine.decision = none → ∀ round value, engine.acceptable value = true →
    quorum engine.n ≤ engine.count .precommit round (some value) →
      ∃ other ≠ value, quorum engine.n ≤ engine.count .precommit round (some other)

theorem settled_of_findDecision (nothing : engine.findDecision order = none) : engine.Settled := by
  intro _ round value acceptable enough
  by_contra none
  refine findDecision_ne_none order acceptable enough (fun other many => ?_) nothing
  by_contra differs
  exact none ⟨other, differs, many⟩

theorem armIf_eq (engine : Tendermint) (test : Bool) (timer : Timer) (now : Nat) :
    ∃ timers armed, engine.armIf test timer now = { engine with timers, armed } := by
  unfold armIf arm
  repeat' split
  any_goals exact ⟨engine.timers, engine.armed, rfl⟩
  exact ⟨_, _, rfl⟩

variable {now : Nat} {out : List Action}

/-- The turn that ends the loop sets timers at most. -/
theorem advance_stops (stops : engine.advance order now = (false, next, out)) :
    ∃ timers armed, next = { engine with timers, armed } := by
  unfold advance at stops
  split at stops
  case h_1 => cases stops
  case h_2 =>
  split at stops
  case h_1 => cases stops
  case h_2 =>
  dsimp only at stops
  split at stops
  case h_1 => cases stops
  case h_2 =>
  split at stops
  case isTrue => cases stops
  case isFalse =>
  obtain ⟨timers, armed, first⟩ := armIf_eq engine (Decidable.decide
    (engine.step = .prevote ∧ engine.countAny .prevote engine.round ≥ quorum engine.n))
    .prevote now
  rw [first] at stops
  obtain ⟨later, more, second⟩ := armIf_eq { engine with timers, armed } (Decidable.decide
    (Tendermint.countAny { engine with timers, armed } .precommit engine.round ≥
      quorum engine.n)) .precommit now
  have same := congrArg (fun turn => turn.2.1) stops
  exact ⟨later, more, same.symm.trans second⟩

theorem settle_stops (undecided : (engine.settle order).1.decision = none) :
    engine.settle order = (engine, []) ∧ engine.findDecision order = none := by
  unfold settle at undecided ⊢
  cases decision : engine.decision with
  | some found =>
    rw [decision] at undecided
    rw [decision] at undecided
    cases undecided
  | none =>
    rw [decision] at undecided
    cases there : engine.findDecision order with
    | none => exact ⟨rfl, rfl⟩
    | some found =>
      rw [there] at undecided
      cases undecided

theorem settled_progressOnce (stops : engine.progressOnce order now = (false, next, out)) :
    next.Settled := by
  intro undecided
  unfold progressOnce at stops
  dsimp only at stops
  split at stops
  case isTrue =>
    have same := congrArg (fun turn => turn.2.1) stops
    dsimp only at same
    rw [← same] at undecided ⊢
    obtain ⟨quiet, nothing⟩ := settle_stops undecided
    rw [quiet] at undecided ⊢
    exact settled_of_findDecision nothing undecided
  case isFalse active =>
    have quiet := settle_fst_of_not_idle (by simpa using active)
    rw [quiet] at stops
    have advanced : engine.advance order now = (false, next, (engine.advance order now).2.2) := by
      simp only [Prod.mk.injEq] at stops
      exact Prod.ext stops.1 (Prod.ext stops.2.1 rfl)
    obtain ⟨timers, armed, rfl⟩ := advance_stops advanced
    have waits : (engine.settle order).1.decision = none := by
      rw [quiet]
      exact undecided
    have settled : engine.Settled := settled_of_findDecision (settle_stops waits).2
    exact settled undecided

/-- Every call that runs the loop leaves nothing undecided. -/
theorem settled_progress (order : IterOrder) (now : Nat) (engine : Tendermint) :
    (engine.progress order now).1.Settled := by
  obtain ⟨turns, -, runs⟩ := exists_loopRuns order now engine
  generalize (engine.progress order now).1 = last at runs ⊢
  generalize (engine.progress order now).2 = out at runs
  induction runs with
  | stop turn => exact settled_progressOnce turn
  | again _ _ ih => exact ih

end Tendermint

/-! ## What the calls tell the engine -/

namespace Tendermint

/-- A vote of another member in the window of the engine, from a ballot that has room. -/
structure TakesVote (engine : Tendermint) (kind : VoteKind) (round voter : Nat) : Prop where
  member : voter < engine.n
  other : some voter ≠ engine.me
  window : round ≤ satAdd32 engine.round roundWindow
  room : engine.HasRoom kind round voter

/-- A proposal that the engine looks at. -/
structure TakesProposal (engine : Tendermint) (round sender : Nat) (polRound : Option Nat) :
    Prop where
  member : sender < engine.n
  turn : sender = engine.proposer round
  proof : polRound.all (· < round) = true
  window : round ≤ satAdd32 engine.round roundWindow

end Tendermint

/-- The call brings a vote that the engine takes down. -/
def Call.Brings (kind : VoteKind) (round voter : Nat) (value : Option ValueId)
    (engine : Tendermint) (made : Call) : Prop :=
  made = .onVote kind round voter value ∧ engine.TakesVote kind round voter

/-- The call says whether a value is valid. -/
def Call.Judges (value : ValueId) (valid : Bool) (engine : Tendermint) : Call → Prop
  | .onValue about verdict => about = value ∧ verdict = valid
  | .onProposal round sender about polRound verdict =>
    about = value ∧ verdict = valid ∧ engine.TakesProposal round sender polRound
  | _ => False

variable {value : ValueId}

theorem Call.Judges.unique {made : Call} {first second : Bool} {engine : Tendermint}
    (one : made.Judges value first engine) (two : made.Judges value second engine) :
    first = second := by
  cases made with
  | onValue => exact one.2.symm.trans two.2
  | onProposal => exact one.2.1.symm.trans two.2.1
  | _ => exact one.elim

namespace Tendermint

theorem hears_recordVote (engine : Tendermint) (kind : VoteKind) (round : Nat)
    (value : Option ValueId) (other : some voter ≠ engine.me) :
    Hears (fun k at' who v => k = kind ∧ at' = round ∧ who = voter ∧ v = value ∧
      engine.HasRoom kind round voter) engine (engine.recordVote kind round voter value) [] := by
  obtain ⟨prevotes, precommits, same⟩ := recordVote_eq engine kind round voter value
  refine ⟨by rw [same], by rw [same], by rw [same], ?_, ?_, ?_⟩
  · intro own k at' who v mine mem
    rw [mem_votersFor_recordVote_iff] at mem
    rw [same] at mine ⊢
    rcases mem with old | ⟨-, -, rfl, -⟩
    · exact own mine old
    · exact absurd mine.symm other
  · intro _ k at' who v
    rw [mem_votersFor_recordVote_iff]
    simp
  · intro _ at' v found
    rw [same] at found
    exact Or.inl found

theorem hears_noteRound (engine : Tendermint) (voter round : Nat) :
    Hears silence engine (engine.noteRound voter round) [] := by
  obtain ⟨highest, same, -⟩ := noteRound_eq engine voter round
  rw [same]
  exact .of_same rfl rfl rfl rfl rfl rfl rfl (by simp)

variable (order : IterOrder)

include order

variable (now : Nat) (engine : Tendermint)

theorem hears_progress :
    Hears silence engine (engine.progress order now).1 (engine.progress order now).2 :=
  hears_rule.progress order now engine

theorem hears_onVote (kind : VoteKind) (round voter : Nat) (value : Option ValueId) :
    Hears (fun k at' who v => k = kind ∧ at' = round ∧ who = voter ∧ v = value ∧
      engine.TakesVote kind round voter) engine
      (engine.onVote order now kind round voter value).1
      (engine.onVote order now kind round voter value).2 := by
  obtain ⟨highest, noted, -⟩ := noteRound_eq engine voter round
  have note := hears_noteRound engine voter round
  unfold onVote
  dsimp only
  split
  case isFalse outside =>
    refine (hears_progress order now engine).congr fun k at' who v => ?_
    exact ⟨False.elim, fun told => outside ⟨told.2.2.2.2.member, told.2.2.2.2.other⟩⟩
  case isTrue inside =>
  split
  case isFalse above =>
    refine (note.quiet (hears_progress order now _)).congr fun k at' who v => ?_
    rw [noted] at above
    exact ⟨False.elim, fun told => above told.2.2.2.2.window⟩
  case isTrue window =>
    have recorded := hears_recordVote (engine.noteRound voter round) kind round value
      (by rw [noted]; exact inside.2)
    have whole := (note.trans recorded).trans (hears_progress order now _)
    refine whole.congr fun k at' who v => ?_
    have room : (engine.noteRound voter round).HasRoom kind round voter ↔
        engine.HasRoom kind round voter := by
      rw [noted]
      cases kind <;> rfl
    rw [noted] at window
    constructor
    · rintro ((none | ⟨sameKind, sameRound, sameVoter, sameValue, free⟩) | none)
      · exact none.elim
      · exact ⟨sameKind, sameRound, sameVoter, sameValue, inside.1, inside.2, window, room.mp free⟩
      · exact none.elim
    · rintro ⟨sameKind, sameRound, sameVoter, sameValue, takes⟩
      exact Or.inl (Or.inr ⟨sameKind, sameRound, sameVoter, sameValue, room.mpr takes.room⟩)

theorem hears_onValue (value : ValueId) (valid : Bool) :
    Hears silence engine (engine.onValue order now value valid).1
      (engine.onValue order now value valid).2 := by
  have judged : Hears silence engine { engine with
      validity := engine.validity.orInsert value valid } [] :=
    .of_same rfl rfl rfl rfl rfl rfl rfl (by simp)
  exact judged.quiet (hears_progress order now _)

theorem hears_onProposal (round sender : Nat) (value : ValueId)
    (polRound : Option Nat) (valid : Bool) :
    Hears silence engine (engine.onProposal order now round sender value polRound valid).1
      (engine.onProposal order now round sender value polRound valid).2 := by
  unfold onProposal
  split
  case isFalse => exact hears_progress order now engine
  case isTrue =>
  have filed : Hears silence engine { engine with
      proposals := engine.proposals.orInsert round (value, polRound)
      validity := engine.validity.orInsert value valid } [] :=
    .of_same rfl rfl rfl rfl rfl rfl rfl (by simp)
  exact (filed.quiet (hears_noteRound _ sender round)).quiet (hears_progress order now _)

/-- A call adds to the books the vote that it brings, and no other. -/
theorem hears_call (made : Call) :
    Hears (fun kind round voter value => made.Brings kind round voter value engine) engine
      (made.run order now engine).1 (made.run order now engine).2 := by
  cases made with
  | start =>
    refine (hears_rule.start order now engine).congr fun _ _ _ _ => ?_
    simp [silence, Call.Brings]
  | tick =>
    refine (hears_rule.tick order now engine).congr fun _ _ _ _ => ?_
    simp [silence, Call.Brings]
  | onValue value valid =>
    refine (hears_onValue order now engine value valid).congr fun _ _ _ _ => ?_
    simp [silence, Call.Brings]
  | onProposal round sender value polRound valid =>
    refine (hears_onProposal order now engine round sender value polRound valid).congr fun _ _ _ _ => ?_
    simp [silence, Call.Brings]
  | onVote kind round voter value =>
    refine (hears_onVote order now engine kind round voter value).congr fun k at' who v => ?_
    constructor
    · rintro ⟨rfl, rfl, rfl, rfl, takes⟩
      exact ⟨rfl, takes⟩
    · rintro ⟨same, takes⟩
      obtain ⟨rfl, rfl, rfl, rfl⟩ := Call.onVote.inj same
      exact ⟨rfl, rfl, rfl, rfl, takes⟩

variable {engine}

theorem settled_call (settled : engine.Settled) (made : Call) :
    (made.run order now engine).1.Settled := by
  cases made with
  | start =>
    change (engine.start order now).1.Settled
    unfold start
    split
    · exact settled
    · exact settled_progress order now _
  | onProposal | onValue | onVote | tick => exact settled_progress order now _

omit order

/-! ## What the engine knows of a value -/

theorem validity_startRound (engine : Tendermint) (now round : Nat) :
    (engine.startRound now round).1.validity = engine.validity := by
  unfold startRound arm
  dsimp only
  split <;> rfl

theorem verdicts_rule : CallRule fun engine next _ => next.validity = engine.validity where
  refl _ := rfl
  trans left right := right.trans left
  arm engine timer now := by
    unfold arm
    split <;> rfl
  skip engine now round _ := validity_startRound engine now round
  prevote engine value _ _ := (castAnd_keeps engine .prevote value .prevote).2.1
  precommitNil engine _ := (castAnd_keeps engine .precommit none .precommit).2.1
  polka engine _ value _ := by
    unfold takePolka
    dsimp only
    split
    · exact (castAnd_keeps _ .precommit (some value) .precommit).2.1
    · rfl
  decide _ _ _ _ _ _ := rfl
  wait _ _ _ _ := rfl
  open' engine now := validity_startRound engine now _
  next engine now := validity_startRound engine now _
  prevoteNil engine _ := (castAnd_keeps engine .prevote none .prevote).2.1

theorem takesProposal_iff {sender : Nat} {polRound : Option Nat} :
    engine.TakesProposal round sender polRound ↔
      sender < engine.n ∧ sender = engine.proposer round ∧ polRound.all (· < round) ∧
        round ≤ satAdd32 engine.round roundWindow :=
  ⟨fun takes => ⟨takes.member, takes.turn, takes.proof, takes.window⟩,
    fun ⟨member, turn, proof, window⟩ => ⟨member, turn, proof, window⟩⟩

/-- The first verdict on a value stands: what is known of it before and after a call, and what the
call says of it. -/
structure FirstVerdict (judges : Bool → Prop) (before after : Option Bool) : Prop where
  stands : ∀ {valid}, before = some valid → after = some valid
  first : before = none →
    (∃ valid, judges valid ∧ after = some valid) ∨ ((∀ valid, ¬ judges valid) ∧ after = none)

variable {judges : Bool → Prop}

theorem FirstVerdict.kept (known : Option Bool) (silent : ∀ valid, ¬ judges valid) :
    FirstVerdict judges known known :=
  ⟨id, fun absent => Or.inr ⟨silent, absent⟩⟩

theorem FirstVerdict.put (validity : KeyedMap ValueId Bool) {about : ValueId} {verdict : Bool}
    (only : ∀ valid, judges valid ↔ about = value ∧ verdict = valid) :
    FirstVerdict judges (validity.lookup value) ((validity.orInsert about verdict).lookup value) := by
  rw [KeyedMap.lookup_orInsert]
  split
  case isTrue here =>
    subst here
    refine ⟨fun found => ?_, fun absent => ?_⟩
    · rw [found, Option.getD_some]
    · rw [absent]
      exact Or.inl ⟨verdict, (only verdict).mpr ⟨rfl, rfl⟩, rfl⟩
  case isFalse differs =>
    exact .kept _ fun valid told => differs ((only valid).mp told).1.symm

theorem verdict_call (order : IterOrder) (now : Nat) (engine : Tendermint) (made : Call)
    (value : ValueId) :
    FirstVerdict (fun valid => made.Judges value valid engine) (engine.validity.lookup value)
      ((made.run order now engine).1.validity.lookup value) := by
  cases made with
  | start =>
    have same := verdicts_rule.start order now engine
    exact same ▸ .kept _ fun _ => id
  | tick =>
    have same := verdicts_rule.tick order now engine
    exact same ▸ .kept _ fun _ => id
  | onValue about verdict =>
    have same : (engine.onValue order now about verdict).1.validity = _ :=
      verdicts_rule.progress order now _
    exact same ▸ .put engine.validity fun _ => Iff.rfl
  | onVote kind round voter vote =>
    have same : (engine.onVote order now kind round voter vote).1.validity = engine.validity := by
      refine (verdicts_rule.progress order now _).trans ?_
      obtain ⟨highest, noted, -⟩ := noteRound_eq engine voter round
      split
      · rw [noted]
        dsimp only
        split
        · cases kind <;> rfl
        · rfl
      · rfl
    exact same ▸ .kept _ fun _ => id
  | onProposal round sender about polRound verdict =>
    have ran : (engine.onProposal order now round sender about polRound verdict).1.validity = _ :=
      verdicts_rule.progress order now _
    rw [Call.run, ran]
    by_cases takes : engine.TakesProposal round sender polRound
    · obtain ⟨highest, noted, -⟩ := noteRound_eq { engine with
        proposals := engine.proposals.orInsert round _
        validity := engine.validity.orInsert about verdict } sender round
      rw [if_pos (takesProposal_iff.mp takes), noted]
      refine .put engine.validity fun valid => ?_
      exact ⟨fun told => ⟨told.1, told.2.1⟩, fun told => ⟨told.1, told.2, takes⟩⟩
    · rw [if_neg fun guard => takes (takesProposal_iff.mpr guard)]
      exact .kept _ fun valid told => takes told.2.2

end Tendermint

/-! ## Runs of one engine -/

/-- A call with the time and the order of the hash maps at which it is made. -/
abbrev Delivery := IterOrder × Nat × Call

namespace Tendermint

/-- The state after the calls, and everything they asked for. -/
def feed (engine : Tendermint) : List Delivery → Tendermint × List Action
  | [] => (engine, [])
  | (order, now, made) :: rest =>
    let (next, out) := made.run order now engine
    let (last, later) := next.feed rest
    (last, out ++ later)

/-- Some call of the run does something in the state in which it is made. -/
def Sometime (happens : Tendermint → Call → Prop) (engine : Tendermint) : List Delivery → Prop
  | [] => False
  | (order, now, made) :: rest =>
    happens engine made ∨ Sometime happens (made.run order now engine).1 rest

theorem hears_feed (engine : Tendermint) (deliveries : List Delivery) :
    Hears (fun kind round voter value =>
      Sometime (Call.Brings kind round voter value) engine deliveries) engine
      (engine.feed deliveries).1 (engine.feed deliveries).2 := by
  induction deliveries generalizing engine with
  | nil => exact hears_rule.refl engine
  | cons delivery rest ih =>
    obtain ⟨order, now, made⟩ := delivery
    exact (hears_call order now engine made).trans (ih _)

theorem settled_feed (settled : engine.Settled) (deliveries : List Delivery) :
    (engine.feed deliveries).1.Settled := by
  induction deliveries generalizing engine with
  | nil => exact settled
  | cons delivery rest ih =>
    obtain ⟨order, now, made⟩ := delivery
    exact ih (settled_call order now settled made)

/-- The first call that says anything of the value says this. -/
def FirstJudged (value : ValueId) (valid : Bool) (engine : Tendermint) : List Delivery → Prop
  | [] => False
  | (order, now, made) :: rest => made.Judges value valid engine ∨
      (∀ verdict, ¬ made.Judges value verdict engine) ∧
        FirstJudged value valid (made.run order now engine).1 rest

theorem verdict_stands {deliveries : List Delivery} {valid : Bool}
    (known : engine.validity.lookup value = some valid) :
    (engine.feed deliveries).1.validity.lookup value = some valid := by
  induction deliveries generalizing engine with
  | nil => exact known
  | cons delivery rest ih =>
    obtain ⟨order, now, made⟩ := delivery
    exact ih ((verdict_call order now engine made value).stands known)

theorem verdict_feed {deliveries : List Delivery} {valid : Bool}
    (unknown : engine.validity.lookup value = none)
    (told : FirstJudged value valid engine deliveries) :
    (engine.feed deliveries).1.validity.lookup value = some valid := by
  induction deliveries generalizing engine with
  | nil => exact told.elim
  | cons delivery rest ih =>
    obtain ⟨order, now, made⟩ := delivery
    rcases (verdict_call order now engine made value).first unknown with
      ⟨verdict, judged, known⟩ | ⟨silent, absent⟩
    · rcases told with here | ⟨silent, -⟩
      · have next : (made.run order now engine).1.validity.lookup value = some valid :=
          known.trans (congrArg some (judged.unique here))
        exact @verdict_stands _ _ rest _ next
      · exact absurd judged (silent verdict)
    · exact ih absent (told.resolve_left (silent valid)).2

/-- A precommit that the engine has on record after the calls: one it starts with, one of another
member that it took down, or one of its own. -/
def OnRecord (engine : Tendermint) (deliveries : List Delivery) (round : Nat) (value : ValueId)
    (voter : Nat) : Prop :=
  voter ∈ engine.votersFor .precommit round (some value) ∨
    Sometime (Call.Brings .precommit round voter (some value)) engine deliveries ∨
      (engine.me = some voter ∧ Action.vote .precommit round (some value) ∈ (engine.feed deliveries).2)

/-- The precommits of a quorum of members are on record after the calls. -/
def QuorumOnRecord (engine : Tendermint) (deliveries : List Delivery) (round : Nat)
    (value : ValueId) : Prop :=
  ∃ voters : Finset Nat, quorum engine.n ≤ voters.card ∧
    ∀ voter ∈ voters, engine.OnRecord deliveries round value voter

theorem quorumOnRecord_iff (own : engine.OwnSent) (deliveries : List Delivery) (round : Nat)
    (value : ValueId) :
    engine.QuorumOnRecord deliveries round value ↔
      quorum engine.n ≤ (engine.feed deliveries).1.count .precommit round (some value) := by
  have books := (hears_feed engine deliveries).books own .precommit round
  have distinct : ((engine.feed deliveries).1.votersFor .precommit round (some value)).Nodup :=
    votersIn_nodup _ _ _
  unfold count
  rw [← toFinset_card_of_nodup distinct]
  constructor
  · rintro ⟨voters, many, onRecord⟩
    refine many.trans (Finset.card_le_card fun voter mem => ?_)
    exact mem_toFinset.mpr ((books voter (some value)).mpr (onRecord voter mem))
  · intro many
    exact ⟨_, many, fun voter mem => (books voter (some value)).mp (mem_toFinset.mp mem)⟩

/-! ## Engines from their start -/

theorem mem_sent_foldl_restoreVote {key : Nat × VoteKind}
    {votes : List (Nat × VoteKind × Option ValueId)}
    (there : key ∈ engine.sent ∨ ∃ value, (key.1, key.2, value) ∈ votes) :
    key ∈ (votes.foldl restoreVote engine).sent := by
  induction votes generalizing engine with
  | nil => exact there.resolve_right (by simp)
  | cons vote rest ih =>
    obtain ⟨prevotes, precommits, same⟩ := restoreVote_eq engine vote
    refine ih ?_
    rw [same, AList.mem_insert]
    rcases there with sent | ⟨value, mem⟩
    · exact Or.inl (Or.inr sent)
    · rcases mem_cons.mp mem with here | later
      · subst here
        exact Or.inl (Or.inl rfl)
      · exact Or.inr ⟨value, later⟩

theorem restore_ownSent (height n : Nat) (me : Option Nat) (timeouts : Timeouts) (saved : Saved) :
    ((new height n me timeouts).restore saved).OwnSent := by
  intro kind round voter value mine mem
  unfold restore at mine mem ⊢
  split at mem
  case isTrue => exact absurd mem (not_mem_votersFor_new kind round voter value)
  case isFalse apart =>
  rw [if_neg apart]
  have listed : voter ∈ (saved.sent.foldl restoreVote
      ((new height n me timeouts).placed saved)).votersFor kind round value := by
    cases kind <;> exact mem
  rcases mem_votersFor_foldl_restoreVote _ _ listed with ⟨-, there⟩ | before
  · exact mem_sent_foldl_restoreVote (Or.inr ⟨value, there⟩)
  · cases kind <;> exact absurd before not_mem_nil

/-- What an engine starts with, whatever state it is restored from. -/
structure Fresh (carried : Option ValueId) (engine : Tendermint) : Prop where
  ownSent : engine.OwnSent
  unjudged : engine.validity = ∅
  undecided : engine.decision = none
  carries : engine.carried = carried

theorem fresh_new (height n : Nat) (me : Option Nat) (timeouts : Timeouts) :
    (new height n me timeouts).Fresh none := by
  refine ⟨fun _ mem => ?_, rfl, rfl, rfl⟩
  exact absurd mem (not_mem_votersFor_new _ _ _ _)

theorem fresh_restore (height n : Nat) (me : Option Nat) (timeouts : Timeouts) (saved : Saved) :
    ((new height n me timeouts).restore saved).Fresh none ∧
      ((new height n me timeouts).restore saved).started = false := by
  have own : ((new height n me timeouts).restore saved).OwnSent :=
    restore_ownSent height n me timeouts saved
  unfold restore at own ⊢
  split
  case isTrue => exact ⟨fresh_new height n me timeouts, rfl⟩
  case isFalse same =>
  rw [if_neg same] at own
  obtain ⟨sent, prevotes, precommits, shape⟩ := foldl_restoreVote_eq _ saved.sent
  dsimp only at own ⊢
  rw [shape] at own ⊢
  exact ⟨⟨own, rfl, rfl, rfl⟩, rfl⟩

theorem Fresh.carry (fresh : engine.Fresh none) (waiting : engine.started = false)
    (value : ValueId) : (engine.carry value).Fresh (some value) := by
  unfold Tendermint.carry
  rw [if_neg (by simp [waiting])]
  exact ⟨fresh.ownSent, fresh.unjudged, fresh.undecided, rfl⟩

theorem fresh_rebuild (height n : Nat) (me : Option Nat) (timeouts : Timeouts)
    (carried : Option ValueId) (saved : Option Saved) :
    (rebuild height n me timeouts carried saved).Fresh carried := by
  cases saved with
  | none =>
    have fresh := fresh_new height n me timeouts
    cases carried with
    | none => exact fresh
    | some value => exact fresh.carry rfl value
  | some saved =>
    obtain ⟨fresh, waiting⟩ := fresh_restore height n me timeouts saved
    cases carried with
    | none => exact fresh
    | some value => exact fresh.carry waiting value

theorem Fresh.settled {carried : Option ValueId} (fresh : engine.Fresh carried) : engine.Settled := by
  intro _ _ value acceptable
  have unknown : engine.validity.lookup value = none := by rw [fresh.unjudged]; rfl
  simp [unknown, Tendermint.acceptable] at acceptable

/-- Whatever else an engine is told, it decides a value exactly if it has the precommits of a quorum
for it on record, when the first verdict on the value is that it is valid, and no other value has a
quorum on record or is carried. -/
theorem decides_iff_quorumOnRecord (height n : Nat) (me : Option Nat) (timeouts : Timeouts)
    (carried : Option ValueId) (saved : Option Saved) (deliveries : List Delivery) (value : ValueId)
    (free : ∀ other, carried = some other → other = value)
    (told : FirstJudged value true (rebuild height n me timeouts carried saved) deliveries)
    (alone : ∀ round other, other ≠ value →
      ¬ (rebuild height n me timeouts carried saved).QuorumOnRecord deliveries round other) :
    (∃ round, ((rebuild height n me timeouts carried saved).feed deliveries).1.decision =
        some (round, value)) ↔
      ∃ round, (rebuild height n me timeouts carried saved).QuorumOnRecord deliveries round value := by
  have fresh := fresh_rebuild height n me timeouts carried saved
  generalize rebuild height n me timeouts carried saved = engine at *
  have hears := hears_feed engine deliveries
  have decided : ∀ {round other}, (engine.feed deliveries).1.decision = some (round, other) →
      engine.QuorumOnRecord deliveries round other := by
    intro round other found
    rcases hears.decided fresh.ownSent found with before | enough
    · rw [fresh.undecided] at before
      cases before
    · rw [hears.size] at enough
      exact (quorumOnRecord_iff fresh.ownSent deliveries round other).mpr enough
  constructor
  · rintro ⟨round, found⟩
    exact ⟨round, decided found⟩
  · rintro ⟨round, onRecord⟩
    cases decision : (engine.feed deliveries).1.decision with
    | some found =>
      obtain ⟨at', other⟩ := found
      obtain rfl : other = value := by
        by_contra differs
        exact alone at' other differs (decided decision)
      exact ⟨at', rfl⟩
    | none =>
      have unknown : engine.validity.lookup value = none := by rw [fresh.unjudged]; rfl
      have valid := verdict_feed unknown told
      have acceptable : (engine.feed deliveries).1.acceptable value = true := by
        unfold Tendermint.acceptable
        rw [valid, hears.carries, fresh.carries]
        cases carried with
        | none => rfl
        | some other => simp [free other rfl]
      have enough := (quorumOnRecord_iff fresh.ownSent deliveries round value).mp onRecord
      rw [← hears.size] at enough
      obtain ⟨other, differs, many⟩ :=
        settled_feed fresh.settled deliveries decision round value acceptable enough
      rw [hears.size] at many
      exact absurd ((quorumOnRecord_iff fresh.ownSent deliveries round other).mpr many)
        (alone round other differs)

def someValue : ValueId := Vector.replicate 32 1

/-- An observer of four members is started, hears some verdicts on a value, and is brought the
precommits of three members for it. -/
def watched (verdicts : List Bool) (round : Nat) : List Delivery :=
  (.inserted, 0, .start) ::
    (verdicts.map fun valid => (.inserted, 0, .onValue someValue valid)) ++
    [0, 1, 2].map fun voter => (.inserted, 0, .onVote .precommit round voter (some someValue))

theorem mem_of_brings {kind : VoteKind} {round voter : Nat} {vote : Option ValueId}
    {deliveries : List Delivery}
    (brings : Sometime (Call.Brings kind round voter vote) engine deliveries) :
    .onVote kind round voter vote ∈ deliveries.map fun delivery => delivery.2.2 := by
  induction deliveries generalizing engine with
  | nil => exact brings.elim
  | cons delivery rest ih =>
    rcases brings with ⟨here, -⟩ | there
    · exact List.mem_cons.mpr (Or.inl here.symm)
    · exact List.mem_cons_of_mem _ (ih there)

/-- The second verdict does not count. -/
theorem observer_decides_on_a_quorum :
    ∃ round, ((rebuild 0 4 none {} none none).feed (watched [true, false] 0)).1.decision =
      some (round, someValue) := by
  refine (decides_iff_quorumOnRecord 0 4 none {} none none (watched [true, false] 0) someValue (by simp)
    (Or.inr ⟨fun _ => id, Or.inl ⟨rfl, rfl⟩⟩) ?_).mpr ⟨0, {0, 1, 2}, by decide, ?_⟩
  · rintro round other differs ⟨voters, many, onRecord⟩
    obtain ⟨voter, mem⟩ := Finset.card_pos.mp (lt_of_lt_of_le (quorum_pos 4) many)
    rcases onRecord voter mem with there | taken | ⟨mine, -⟩
    · cases there
    · have made := mem_of_brings taken
      simp only [watched, List.map_cons, List.map_nil, List.cons_append, List.nil_append, List.mem_cons,
        List.not_mem_nil, Call.onVote.injEq, reduceCtorEq, Option.some.injEq, false_or, or_false] at made
      obtain made | made | made := made <;> exact differs made.2.2.2
    · cases mine
  · intro voter mem
    simp only [Finset.mem_insert, Finset.mem_singleton] at mem
    obtain rfl | rfl | rfl := mem
    · exact Or.inr (Or.inl (Or.inr (Or.inr (Or.inr (Or.inl ⟨rfl, by decide, by decide, by decide,
        by unfold HasRoom; decide⟩)))))
    · exact Or.inr (Or.inl (Or.inr (Or.inr (Or.inr (Or.inr (Or.inl ⟨rfl, by decide, by decide,
        by decide, by unfold HasRoom; decide⟩))))))
    · exact Or.inr (Or.inl (Or.inr (Or.inr (Or.inr (Or.inr (Or.inr (Or.inl ⟨rfl, by decide,
        by decide, by decide, by unfold HasRoom; decide⟩)))))))

/-- A quorum of precommits in round 65 is lost on an observer. -/
theorem observer_misses_a_late_quorum :
    ¬ ∀ (height n : Nat) (me : Option Nat) (timeouts : Timeouts) (deliveries : List Delivery)
      (round : Nat) (value : ValueId) (voters : Finset Nat),
      quorum n ≤ voters.card →
      (∀ voter ∈ voters, voter < n ∧ ∃ order now,
        (order, now, Call.onVote .precommit round voter (some value)) ∈ deliveries) →
      (∃ order now, (order, now, Call.onValue value true) ∈ deliveries) →
      (∃ order now, (order, now, Call.start) ∈ deliveries) →
      ∃ round, ((rebuild height n me timeouts none none).feed deliveries).1.decision =
        some (round, value) := by
  intro always
  obtain ⟨round, decision⟩ := always 0 4 none {} (watched [true] 65) 65 someValue {0, 1, 2} (by decide)
    (fun voter mem => ⟨(by decide : ∀ voter ∈ ({0, 1, 2} : Finset Nat), voter < 4) voter mem, .inserted, 0,
      by simpa [watched] using mem⟩)
    ⟨.inserted, 0, by simp [watched]⟩ ⟨.inserted, 0, by simp [watched]⟩
  have undecided : ((rebuild 0 4 none {} none none).feed (watched [true] 65)).1.decision = none := by
    decide
  rw [undecided] at decision
  cases decision

end Tendermint

end EgoChain.Consensus
