import EgoChain.Consensus.NetworkInvariant

/-!
# Agreement across replacement committees

When nodes only crash, all committees of a height settle on one value.  A value
is settled when a node decides it in an attempt it has not given up, or when
`maybe_commit` assembles a certificate for a block with it.

A node that has given up goes on counting the votes of the committee it left,
and its own precommit, which it no longer sends, with them.  What it decides
then is not settled, and the committee after it may settle on another value.
-/

namespace EgoChain.Consensus

open EgoChain.Foundations

/-- A correct node decided the value in an attempt it had not given up, or assembled a
certificate for a block with that value id. -/
def Network.Settles (setting : HeightSetting) (network : Network) (value : ValueId) : Prop :=
  ∃ address, address ∉ setting.faulty ∧
    ((∃ decision ∈ (network address).decisions, decision.silent = false ∧ decision.value = value) ∨
      ∃ entry ∈ (network address).assembled, setting.valueId entry.1.hash = value)

section NoFaulty

variable {setting : HeightSetting} (noFaulty : setting.faulty = []) {value : ValueId}

include noFaulty

theorem HeightSetting.faultySeats_eq_empty (members : List Address) :
    setting.faultySeats members = ∅ := by
  refine Finset.eq_empty_of_forall_notMem fun seat mem => ?_
  obtain ⟨address, faulty, -⟩ := mem_placesOf.mp mem
  simp [noFaulty] at faulty

theorem HeightSetting.fewFaulty : setting.FewFaulty := by
  intro attempt members _
  have nobody : setting.faultyAmong members = ∅ := by
    simp [HeightSetting.faultyAmong, noFaulty]
  rw [nobody]
  exact Nat.zero_le _

/-- Without faulty members every quorum of precommits for a value is sealed. -/
theorem Committed.isSealed {made : Signature → Prop} {attempt round : Nat}
    (committed : Committed setting made attempt round value) :
    Sealed setting made attempt round value := by
  have counts := committed.1 noFaulty
  obtain ⟨members, seated, voters, inside, large, spoke⟩ := committed.2 counts
  refine ⟨counts, members, seated, voters, ?_, large, fun seat mem => ?_⟩
  · rw [HeightSetting.faultySeats_eq_empty noFaulty, Finset.sdiff_empty]
    exact inside
  · exact ((spoke seat mem).resolve_left (by simp [seats, committeeOf])).2

theorem Network.Ok.settled {network : Network} (ok : network.Ok setting)
    (settles : network.Settles setting value) :
    ∃ attempt round, Sealed setting (network.Made setting) attempt round value := by
  obtain ⟨address, correct, ⟨decision, mem, loud, rfl⟩ | ⟨entry, mem, rfl⟩⟩ := settles
  · exact ⟨_, _, ((ok address correct).history.committed decision mem loud).isSealed noFaulty⟩
  · exact ⟨_, _, ((ok address correct).assembled entry mem).isSealed noFaulty⟩

end NoFaulty

/-- When nodes only crash, no two values are settled at a height, in one attempt or in
different ones. -/
theorem settled_values_agree (setting : HeightSetting) (crashOnly : setting.faulty = [])
    (events : List NetworkEvent) (network : Network)
    (ran : Network.initial.run setting events = some network) (value second : ValueId)
    (settles : network.Settles setting value) (settlesToo : network.Settles setting second) :
    value = second := by
  have ok := (Network.initial_ok setting).run ran
  have recorded := ok.recorded
  obtain ⟨attempt, round, isSealed⟩ := ok.settled crashOnly settles
  obtain ⟨later, laterRound, sealedToo⟩ := ok.settled crashOnly settlesToo
  exact recorded.sealed_unique (HeightSetting.fewFaulty crashOnly) (recorded.clean crashOnly)
    isSealed sealedToo

/-! ## Runs -/

/-- A digest for runs on short hash texts. -/
def plainDigest (text : Text) : ValueId := Vector.replicate 32 (text.headD 0)

/-- A height at which blocks are valid as soon as their hash is not blank. -/
def plainSetting (faulty : List Address) (committees : Nat → Option (List Address)) :
    HeightSetting where
  height := 40000
  committeeForAttempt := committees
  parentHash := []
  faulty := faulty
  blake3 := plainDigest
  validate block _ := tmValueId plainDigest block.hash ≠ tmValueId plainDigest []
  hashed _ _ passed := of_decide_eq_true passed

def plainBlock (name : Text) : Block where
  height := 40000
  hash := name
  prevHash := []
  miner := [1]
  contents := []

namespace NetworkEvent

def at' (address : Address) (event : DriverEvent) : NetworkEvent where
  address := address
  order := .inserted
  now := 0
  event := event

def hearVote (address voter : Address) (attempt : Nat) (kind : VoteKind) (name : Text) :
    NetworkEvent :=
  .at' address (.vote {
    height := 40000, round := 0, kind := kind, value := some name, voter := voter
    sig := ⟨voter, .vote attempt kind 40000 0 name⟩, attempt := attempt })

/-- A node hears a proposal and finds its block valid. -/
def hearProposal (address proposer : Address) (attempt : Nat) (name : Text) : List NetworkEvent :=
  [.at' address (.proposal true {
      height := 40000, round := 0, polRound := none, block := plainBlock name
      proposer := proposer, sig := ⟨proposer, .proposal attempt 40000 0 none name⟩, polVotes := []
      attempt := attempt, skips := [] }),
    .at' address (.settle 0 true)]

end NetworkEvent

variable (round : Nat) (name : Text) (voter : Address) (voters : List Address)

def prevoteOf : Address × Signature :=
  (voter, ⟨voter, .vote 0 .prevote 40000 round name⟩)

def giveUpOf (lock : Option TmLock) (voter : Address) : TmSkipVote where
  voter := voter
  locked := lock
  sig := ⟨voter, .skip 40000 0 (lock.map fun lock => (lock.round, lock.value))⟩

def lockOf : TmLock where
  round := round
  value := name
  pol := voters.map (prevoteOf round name)
  attempt := none

/-- Members 1, 2 and 3 precommit the block of member 1, and none of them hears of it. -/
def heldRun : List NetworkEvent :=
  [.at' [1] (.begin true), .at' [2] (.begin true), .at' [3] (.begin true),
    .at' [1] (.propose (plainBlock [7]) true)] ++
  NetworkEvent.hearProposal [2] [1] 0 [7] ++ NetworkEvent.hearProposal [3] [1] 0 [7] ++
  [.hearVote [1] [2] 0 .prevote [7], .hearVote [1] [3] 0 .prevote [7],
    .hearVote [2] [1] 0 .prevote [7], .hearVote [2] [3] 0 .prevote [7],
    .hearVote [3] [1] 0 .prevote [7], .hearVote [3] [2] 0 .prevote [7]]

/-- Four members; the first of them proposes in attempt 0 and the second in attempt 1. -/
def splitSetting : HeightSetting :=
  plainSetting [] fun attempt =>
    match attempt with
    | 0 => some [[1], [2], [3], [4]]
    | 1 => some [[2], [3], [4], [1]]
    | _ => none

/-- Members 1 and 2 give up attempt 0 with the lock they have. -/
def heldSkips : TmSkipCert where
  attempt := 0
  votes := [[1], [2]].map (giveUpOf (some (lockOf 0 [7] [[1], [2], [3]])))

/-- Member 3 decides the block, the others give up, and their next committee finalizes it. -/
def replacedRun : List NetworkEvent :=
  heldRun ++
  [.at' [4] (.begin true), .hearVote [3] [1] 0 .precommit [7], .hearVote [3] [2] 0 .precommit [7],
    .at' [1] (.tick true true), .at' [2] (.tick true true),
    -- Member 2 proposes the block again as soon as it enters attempt 1.
    .at' [1] (.advance true [heldSkips]), .at' [2] (.advance true [heldSkips]),
    .at' [4] (.advance true [heldSkips])] ++
  (NetworkEvent.hearProposal [1] [2] 1 [7]).take 1 ++ NetworkEvent.hearProposal [4] [2] 1 [7] ++
  [.hearVote [2] [1] 1 .prevote [7], .hearVote [2] [4] 1 .prevote [7],
    .hearVote [1] [2] 1 .prevote [7], .hearVote [1] [4] 1 .prevote [7],
    .hearVote [4] [2] 1 .prevote [7], .hearVote [4] [1] 1 .prevote [7],
    .hearVote [2] [1] 1 .precommit [7], .hearVote [2] [4] 1 .precommit [7], .at' [2] (.commit true)]

/-- What member 3 decides in attempt 0 and what member 2 finalizes in attempt 1 is one value. -/
theorem decision_outlives_its_committee : ∃ network : Network,
    Network.initial.run splitSetting replacedRun = some network ∧
      ∃ decision ∈ (network [3]).decisions, ∃ entry ∈ (network [2]).assembled,
        decision.attempt = 0 ∧ entry.2.attempt = 1 ∧
        decision.value = splitSetting.valueId entry.1.hash := by
  have settles : ∃ network ∈ Network.initial.run splitSetting replacedRun,
      ∃ decision ∈ (network [3]).decisions, ∃ entry ∈ (network [2]).assembled,
        decision.attempt = 0 ∧ entry.2.attempt = 1 ∧ decision.silent = false := by
    decide +kernel
  obtain ⟨network, ran, decision, isDecision, entry, isEntry, first, next, loud⟩ := settles
  exact ⟨network, ran, decision, isDecision, entry, isEntry, first, next,
    settled_values_agree splitSetting rfl replacedRun network ran _ _
      ⟨[3], List.not_mem_nil, Or.inl ⟨decision, isDecision, loud, rfl⟩⟩
      ⟨[2], List.not_mem_nil, Or.inr ⟨entry, isEntry, rfl⟩⟩⟩

/-- Members 1 and 2 give up attempt 0 without a lock. -/
def splitSkip : TmSkipCert where
  attempt := 0
  votes := [[1], [2]].map (giveUpOf none)

/-- Member 1 gives up attempt 0 and then hears enough to decide the first block there,
with its own precommit unsent.  The others move on and decide a second block. -/
def splitRun : List NetworkEvent :=
  [.at' [1] (.begin true), .at' [2] (.begin true), .at' [3] (.begin true), .at' [4] (.begin true),
    .at' [1] (.propose (plainBlock [7]) true)] ++
  NetworkEvent.hearProposal [3] [1] 0 [7] ++ NetworkEvent.hearProposal [4] [1] 0 [7] ++
  -- Members 3 and 4 precommit the first block.
  [.hearVote [3] [1] 0 .prevote [7], .hearVote [3] [4] 0 .prevote [7],
    .hearVote [4] [1] 0 .prevote [7], .hearVote [4] [3] 0 .prevote [7],
    -- Members 1 and 2 give up; member 1 hears the rest too late.
    .at' [1] (.tick true true), .at' [2] (.tick true true),
    .hearVote [1] [3] 0 .prevote [7], .hearVote [1] [4] 0 .prevote [7],
    .hearVote [1] [3] 0 .precommit [7], .hearVote [1] [4] 0 .precommit [7],
    .at' [2] (.advance true [splitSkip]), .at' [3] (.advance true [splitSkip]),
    .at' [4] (.advance true [splitSkip]),
    .at' [2] (.propose (plainBlock [8]) true)] ++
  NetworkEvent.hearProposal [3] [2] 1 [8] ++ NetworkEvent.hearProposal [4] [2] 1 [8] ++
  [.hearVote [2] [3] 1 .prevote [8], .hearVote [2] [4] 1 .prevote [8],
    .hearVote [3] [2] 1 .prevote [8], .hearVote [3] [4] 1 .prevote [8],
    .hearVote [4] [2] 1 .prevote [8], .hearVote [4] [3] 1 .prevote [8],
    .hearVote [2] [3] 1 .precommit [8], .hearVote [2] [4] 1 .precommit [8]]

/-- A node that has given up may decide another value than the committee after it. -/
theorem decisions_after_giving_up_can_differ :
    ¬ ∀ (setting : HeightSetting) (events : List NetworkEvent) (network : Network),
      setting.faulty = [] → Network.initial.run setting events = some network →
      ∀ address other, ∀ decision ∈ (network address).decisions,
        ∀ second ∈ (network other).decisions, decision.value = second.value := by
  intro agree
  have split : ∃ network ∈ Network.initial.run splitSetting splitRun,
      ∃ first ∈ (network [1]).decisions, ∃ second ∈ (network [2]).decisions,
        first.value ≠ second.value := by
    decide +kernel
  obtain ⟨network, ran, first, isFirst, second, isSecond, differ⟩ := split
  exact differ (agree splitSetting splitRun network rfl ran [1] [2] first isFirst second isSecond)

end EgoChain.Consensus
