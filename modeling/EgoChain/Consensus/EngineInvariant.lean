import EgoChain.Consensus.EngineDiscipline

/-!
# The invariant of the engine

Every move keeps the discipline of the member's votes, books only votes that a
faulty member could have sent or that the engine was told about, and decides
only on a quorum of precommits.
-/

namespace EgoChain.Consensus

open EgoChain.Foundations
open EgoChain.Foundations.LockVoting (Committee Votes Polka Commit)

/-- A value of a vote that is set aside. -/
def Junk (junk : ValueId → Prop) (value : Option ValueId) : Prop := ∃ v, value = some v ∧ junk v

/-- What may reach an engine: any vote of a faulty member, any vote for a value that is
set aside, and the votes of the others that were heard. -/
def worldOf (committee : Committee Nat) (junk : ValueId → Prop) (heard : Heard)
    (accepts : ValueId → Prop) : World where
  told kind round voter value :=
    voter ∈ committee.faulty ∨ Junk junk value ∨ heard kind round voter value
  accepts := accepts

namespace Tendermint

/-- The votes the engine knows of, its own included. -/
def knows (heard : Heard) (engine : Tendermint) : Heard :=
  known heard engine.me engine.memory

structure Ok (committee : Committee Nat) (junk : ValueId → Prop) (heard : Heard)
    (engine : Tendermint) : Prop where
  members : committee.members = Finset.range engine.n
  quorumSize : committee.quorum = quorum engine.n
  heardRounds : ∀ {member round}, engine.highest.lookup member = some round → round ≤ maxU32
  proofs : ∀ {round value proof},
    engine.proposals.lookup round = some (value, some proof) → proof < round
  booked : ∀ {kind round voter value}, voter ∈ engine.votersFor kind round value →
    voter < engine.n ∧ (voter ∈ committee.faulty ∨ Junk junk value ∨
      engine.knows heard kind round voter value)
  seat : ∀ {me}, engine.me = some me → me < engine.n
  remembers : engine.me ≠ none → engine.memory.Ok committee junk heard engine.me
  decided : ∀ {round value}, engine.decision = some (round, value) → ¬ junk value →
    Commit committee (votesOf junk (engine.knows heard)) round value

variable {committee : Committee Nat} {junk : ValueId → Prop} {heard : Heard}
  {accepts : ValueId → Prop} {engine next : Tendermint} {kind : VoteKind} {round : Nat} {value : ValueId}
  (ok : engine.Ok committee junk heard) {order : IterOrder} {out : List Action}

include ok

omit ok in
/-- A count that reaches the quorum is a quorum of booked voters. -/
theorem voters_of_quorum {Cast : Nat → Prop} {value : Option ValueId}
    (booked : ∀ voter ∈ engine.votersFor kind round value, voter < engine.n ∧ Cast voter)
    (enough : quorum engine.n ≤ engine.count kind round value) :
    ∃ voters ⊆ Finset.range engine.n, quorum engine.n ≤ voters.card ∧ ∀ voter ∈ voters, Cast voter := by
  have distinct : (engine.votersFor kind round value).Nodup := votersIn_nodup _ _ _
  refine ⟨(engine.votersFor kind round value).toFinset, fun voter mem => ?_, ?_, fun voter mem => ?_⟩
  · exact Finset.mem_range.mpr (booked voter (List.mem_toFinset.mp mem)).1
  · rw [List.toFinset_card_of_nodup distinct]
    exact enough
  · exact (booked voter (List.mem_toFinset.mp mem)).2

theorem Ok.backed (counts : ¬ junk value)
    (enough : quorum engine.n ≤ engine.count kind round (some value)) :
    committee.Backed fun voter =>
      ¬ junk value ∧ engine.knows heard kind round voter (some value) := by
  unfold Committee.Backed
  rw [ok.members, ok.quorumSize]
  refine voters_of_quorum (fun voter mem => (ok.booked mem).imp_right ?_) enough
  rintro (faulty | ⟨v, same, aside⟩ | known)
  · exact Or.inl faulty
  · exact absurd (Option.some.inj same ▸ aside) counts
  · exact Or.inr ⟨counts, known⟩

/-- Hearing of more votes keeps the invariant. -/
theorem Ok.hear {more : Heard} (grows : ∀ kind round voter value, heard kind round voter value →
      more kind round voter value) : engine.Ok committee junk more := by
  have wider : ∀ kind round voter value, engine.knows heard kind round voter value →
      engine.knows more kind round voter value := known_mono grows (fun _ _ _ => id)
  exact { ok with
    booked := fun mem => (ok.booked mem).imp_right (Or.imp_right (Or.imp_right (wider _ _ _ _)))
    remembers := fun member => (ok.remembers member).hear grows
    decided := fun found counts => commit_mono wider (ok.decided found counts) }

/-! ## Recording and casting -/

omit ok in
@[simp]
theorem recordVote_memory (engine : Tendermint) (kind : VoteKind) (round voter : Nat)
    (value : Option ValueId) : (engine.recordVote kind round voter value).memory = engine.memory := by
  cases kind <;> rfl

omit ok in
theorem recordVote_eq (engine : Tendermint) (kind : VoteKind) (round voter : Nat)
    (value : Option ValueId) :
    ∃ prevotes precommits, engine.recordVote kind round voter value =
      { engine with prevotes, precommits } := by
  cases kind
  · exact ⟨_, engine.precommits, rfl⟩
  · exact ⟨engine.prevotes, _, rfl⟩

omit ok in
theorem mem_votersFor_recordVote {k : VoteKind} {voter at' who : Nat} {value other : Option ValueId}
    (mem : who ∈ (engine.recordVote kind round voter value).votersFor k at' other) :
    (k = kind ∧ at' = round ∧ who = voter ∧ other = value) ∨ who ∈ engine.votersFor k at' other := by
  cases kind <;> cases k
  · exact (mem_votersIn_record mem).imp_left fun new => ⟨rfl, new⟩
  · exact Or.inr mem
  · exact Or.inr mem
  · exact (mem_votersIn_record mem).imp_left fun new => ⟨rfl, new⟩

theorem Ok.record (kind : VoteKind) (round voter : Nat) (value : Option ValueId)
    (inside : voter < engine.n)
    (source : voter ∈ committee.faulty ∨ Junk junk value ∨ engine.knows heard kind round voter value) :
    (engine.recordVote kind round voter value).Ok committee junk heard := by
  obtain ⟨prevotes, precommits, same⟩ := recordVote_eq engine kind round voter value
  have booked : ∀ {k at' who other},
      who ∈ (engine.recordVote kind round voter value).votersFor k at' other →
        who < engine.n ∧ (who ∈ committee.faulty ∨ Junk junk other ∨
          engine.knows heard k at' who other) := by
    intro k at' who other mem
    rcases mem_votersFor_recordVote mem with ⟨rfl, rfl, rfl, rfl⟩ | old
    · exact ⟨inside, source⟩
    · exact ok.booked old
  rw [same] at booked ⊢
  exact { ok with booked := booked }

omit ok in
/-- The engine with one more vote of its own in its table. -/
theorem memory_insert (value : Option ValueId) (fresh : (engine.round, kind) ∉ engine.sent) :
    { engine with sent := engine.sent.insert (engine.round, kind) value }.memory =
      engine.memory.cast kind value := by
  have absent : engine.sent.lookup (engine.round, kind) = none := AList.lookup_eq_none.mpr fresh
  unfold memory Memory.cast
  congr 1
  funext k round v
  dsimp only
  rw [KeyedMap.lookup_insert_eq]
  apply propext
  constructor
  · intro there
    split at there
    case isTrue same =>
      cases same
      exact Or.inr ⟨rfl, rfl, (Option.some.inj there).symm⟩
    case isFalse => exact Or.inl there
  · rintro (old | ⟨rfl, rfl, rfl⟩)
    · have differs : (round, k) ≠ (engine.round, kind) := by
        intro same
        rw [same, absent] at old
        cases old
      rw [if_neg differs]
      exact old
    · rw [if_pos rfl]

omit ok in
theorem not_voted (absent : (engine.round, kind) ∉ engine.sent) (value : Option ValueId) :
    ¬ engine.memory.voted kind engine.memory.round value := by
  intro there
  have found : engine.sent.lookup (engine.round, kind) = some value := there
  rw [AList.lookup_eq_none.mpr absent] at found
  cases found

omit ok in
/-- What `cast` does: nothing, or one fresh vote of the current round. -/
theorem cast_cases (engine : Tendermint) (kind : VoteKind) (value : Option ValueId) :
    (engine.cast kind value = (engine, []) ∧ (engine.me = none ∨ (engine.round, kind) ∈ engine.sent)) ∨
    ∃ me, engine.me = some me ∧ (engine.round, kind) ∉ engine.sent ∧ engine.cast kind value =
        ({ engine with sent := engine.sent.insert (engine.round, kind) value }.recordVote kind
          engine.round me value, [.vote kind engine.round value]) := by
  unfold cast
  cases seat : engine.me with
  | none => exact Or.inl ⟨rfl, Or.inl rfl⟩
  | some me =>
    by_cases old : (engine.round, kind) ∈ engine.sent
    · exact Or.inl ⟨if_pos old, Or.inr old⟩
    · exact Or.inr ⟨me, rfl, old, if_neg old⟩

omit ok in
/-- Casting touches the votes and the step only. -/
theorem castAnd_eq (engine : Tendermint) (kind : VoteKind) (value : Option ValueId) (next : Step) :
    ∃ sent prevotes precommits, (engine.castAnd kind value next).1 =
      { engine with sent, prevotes, precommits, step := next } := by
  rcases cast_cases engine kind value with ⟨same, -⟩ | ⟨me, -, -, same⟩ <;> rw [castAnd, same]
  · exact ⟨engine.sent, engine.prevotes, engine.precommits, rfl⟩
  · obtain ⟨prevotes, precommits, recorded⟩ := recordVote_eq
      { engine with sent := engine.sent.insert (engine.round, kind) value } kind engine.round me value
    exact ⟨_, prevotes, precommits, by rw [recorded]⟩

/-- Casting keeps the invariant when the vote obeys the rules of its kind. -/
theorem Ok.castAnd (kind : VoteKind) (value : Option ValueId) (next : Step)
    (old : engine.me ≠ none → (engine.round, kind) ∈ engine.sent →
      { engine.memory with step := next }.Ok committee junk heard engine.me)
    (fresh : engine.me ≠ none → (engine.round, kind) ∉ engine.sent →
      { engine.memory.cast kind value with step := next }.Ok committee junk heard engine.me) :
    (engine.castAnd kind value next).1.Ok committee junk heard := by
  rcases cast_cases engine kind value with ⟨same, why⟩ | ⟨me, seat, absent, same⟩ <;>
    rw [Tendermint.castAnd, same]
  · refine { ok with remembers := ?_ }
    intro member
    exact old member (why.resolve_left member)
  have memory := memory_insert value absent
  have wider : ∀ k round voter v, engine.knows heard k round voter v →
      ({ engine with sent := engine.sent.insert (engine.round, kind) value }.knows heard)
        k round voter v := by
    unfold knows
    rw [memory]
    exact Memory.known_cast
  have remembered : { engine.memory.cast kind value with step := next }.Ok committee junk heard
      engine.me := fresh (by simp [seat]) absent
  rw [← memory] at remembered
  have inserted : ({ engine with
      sent := engine.sent.insert (engine.round, kind) value
      step := next } : Tendermint).Ok committee junk heard :=
    { ok with
      booked := fun mem => (ok.booked mem).imp_right (Or.imp_right (Or.imp_right (wider _ _ _ _)))
      remembers := fun _ => remembered
      decided := fun found counts => commit_mono wider (ok.decided found counts) }
  have recorded := inserted.record kind engine.round me value (ok.seat seat)
    (Or.inr (Or.inr (Or.inr ⟨seat, by simp [Tendermint.memory]⟩)))
  cases kind <;> exact recorded

/-! ## The moves -/

omit ok in
/-- A prevote for a value rests on a positive verdict, on the carried value and on the lock. -/
theorem verdict_spec (judged : engine.verdict = some (some value)) :
    engine.acceptable value = true ∧ ∀ lock, engine.locked = some lock → lock.2 = value ∨
      ∃ validRound, engine.proposals.lookup engine.round = some (value, some validRound) ∧
        lock.1 ≤ validRound ∧ quorum engine.n ≤ engine.count .prevote validRound (some value) := by
  unfold verdict at judged
  split at judged
  case h_1 => cases judged
  case h_2 proposed pol found =>
  split at judged
  case h_1 => cases judged
  case h_2 ok verified =>
  have chosen {free : Bool} (same : (if (ok && engine.carried.all (· = proposed)) && free then
      some proposed else none) = some value) :
      proposed = value ∧ free = true ∧ engine.acceptable value = true := by
    obtain ⟨allowed, same⟩ := Option.ite_none_right_eq_some.mp same
    cases same
    simp only [Bool.and_eq_true] at allowed
    refine ⟨rfl, allowed.2, ?_⟩
    rw [acceptable, verified, allowed.1.1, allowed.1.2]
    rfl
  split at judged
  case h_1 =>
    obtain ⟨rfl, free, acceptable⟩ := chosen (Option.some.inj judged)
    exact ⟨acceptable, fun lock locked => Or.inl (by simpa [locked] using free)⟩
  case h_2 validRound =>
  obtain ⟨enough, judged⟩ := Option.ite_none_right_eq_some.mp judged
  obtain ⟨rfl, free, acceptable⟩ := chosen (Option.some.inj judged)
  refine ⟨acceptable, fun lock locked => ?_⟩
  have either : lock.1 ≤ validRound ∨ lock.2 = proposed := by simpa [locked] using free
  exact either.symm.imp_right fun older => ⟨validRound, found, older, enough⟩

theorem Ok.prevote {value : Option ValueId} (basis : value = none ∨ engine.verdict = some value) :
    (engine.castAnd .prevote value .prevote).1.Ok committee junk heard := by
  refine ok.castAnd _ _ _ ?_ ?_
  · intro member old
    obtain ⟨earlier, there⟩ := AList.lookup_isSome.mpr old |> Option.isSome_iff_exists.mp
    exact (ok.remembers member).moveStep ⟨earlier, there⟩ .prevote
  · intro member absent
    refine ((ok.remembers member).cast (not_voted absent) ?_ (by intro impossible; cases impossible)).moveStep
      ⟨value, Or.inr ⟨rfl, rfl, rfl⟩⟩ .prevote
    rintro - v rfl lock locked
    rcases (verdict_spec (basis.resolve_left (by simp))).2 lock locked with
      same | ⟨validRound, found, older, enough⟩
    · exact Or.inl same
    · exact Or.inr ⟨validRound, older, ok.proofs found, fun counts => ok.backed counts enough⟩

theorem Ok.precommitNil (atPrevote : engine.step = .prevote) :
    (engine.castAnd .precommit none .precommit).1.Ok committee junk heard := by
  have moved : engine.memory.step ≠ .propose := by
    rw [show engine.memory.step = .prevote from atPrevote]
    decide
  refine ok.castAnd _ _ _ ?_ ?_
  · intro member _
    exact (ok.remembers member).moveStep ((ok.remembers member).stepVoted moved) .precommit
  · intro member absent
    obtain ⟨prevote, prevoted⟩ := (ok.remembers member).stepVoted moved
    exact ((ok.remembers member).cast (not_voted absent) (by intro impossible; cases impossible)
      (by rintro - v impossible; cases impossible)).moveStep ⟨prevote, Or.inl prevoted⟩ .precommit

/-- Locking on a polka of the current round keeps the invariant. -/
theorem Ok.lock (moved : engine.step ≠ .propose) (polka : ¬ junk value →
      Polka committee (votesOf junk (engine.knows heard)) engine.round value) :
    { engine with locked := some (engine.round, value) }.Ok committee junk heard :=
  { ok with remembers := fun member => (ok.remembers member).lock moved polka }

theorem Ok.polka (found : engine.freshPolka order = some value) :
    (engine.takePolka value).1.Ok committee junk heard := by
  obtain ⟨moved, -, there, -⟩ := freshPolka_spec found
  have polka := fun counts => ok.backed counts (quorum_le_count there)
  have marked : { engine with polkaDone := engine.round :: engine.polkaDone }.Ok committee junk heard :=
    { ok with }
  unfold takePolka
  dsimp only
  split
  case isFalse => exact { marked with }
  case isTrue =>
  have locked := marked.lock moved polka
  have precommitted := locked.castAnd .precommit (some value) .precommit
    (fun seat _ => (locked.remembers seat).moveStep
      ((locked.remembers seat).stepVoted moved) .precommit)
    (fun seat absent => by
      obtain ⟨prevote, prevoted⟩ := (locked.remembers seat).stepVoted moved
      refine ((locked.remembers seat).cast (not_voted absent)
        (by intro impossible; cases impossible) ?_).moveStep ⟨prevote, Or.inl prevoted⟩ .precommit
      rintro - v same
      cases same
      rfl)
  exact { precommitted with }

theorem Ok.decide (found : engine.findDecision order = some (round, value)) :
    { engine with decision := some (round, value), timers := [] }.Ok committee junk heard := by
  refine { ok with decided := ?_ }
  intro r v same counts
  cases same
  exact ok.backed counts (quorum_le_count (findDecision_spec found).1)

/-- Every move keeps the invariant. -/
theorem Ok.move (move : Move (worldOf committee junk heard accepts) engine next out) :
    next.Ok committee junk heard := by
  cases move with
  | note _ proposals validity highest timers armed started proofs rounds =>
    exact { ok with
      proofs := fun found => (proofs _ _ _ found).elim id ok.proofs
      heardRounds := fun found => (rounds _ _ found).elim id ok.heardRounds }
  | offer => exact ok
  | record _ kind round voter value inside other source =>
    exact ok.record kind round voter value inside (source.imp_right (Or.imp_right Or.inl))
  | enter _ round cause =>
    refine { ok with remembers := fun member => (ok.remembers member).enter ?_ ?_ }
    · rcases cause with skipped | next | again
      · exact le_of_lt (skipTarget_spec skipped).1
      · have bounded : engine.round ≤ maxU32 := (ok.remembers member).bounded
        rw [next]
        show engine.round ≤ min (engine.round + 1) maxU32
        omega
      · exact again.ge
    · rcases cause with skipped | next | again
      · obtain ⟨-, sender, heardOf⟩ := skipTarget_spec skipped
        exact ok.heardRounds heardOf
      · rw [next]
        exact Nat.min_le_right _ _
      · rw [again]
        exact (ok.remembers member).bounded
  | prevote _ value atPropose basis => exact ok.prevote basis
  | precommitNil _ atPrevote => exact ok.precommitNil atPrevote
  | polka order _ value found => exact ok.polka found
  | decide order _ round value undecided found => exact ok.decide found

theorem Ok.moves (moves : Moves (worldOf committee junk heard accepts) engine next out) :
    next.Ok committee junk heard :=
  moves.preserves (fun move ok => ok.move move) ok

end Tendermint

end EgoChain.Consensus
