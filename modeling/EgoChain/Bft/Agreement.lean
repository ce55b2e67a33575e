import EgoChain.Bft.Soundness
import EgoChain.Foundations.Quorum

/-!
# Agreement of the older engine

The engines of the honest validators of one committee, with messages lost,
delayed, repeated and in any order, and with whatever the faulty validators and
outsiders send.  An honest validator votes when `receive_proposal` tells it to,
and finalizes the block in hand when its own `receive_vote` returns a
certificate.

A round that begins anew forgets what the engine has voted for, and a lock is set
only when a block is finalized.  So a validator that has helped to finalize a
block votes for another one in the next round, and two blocks of a height can be
finalized without a fault.  As long as no request for a round reaches an engine
that has voted, a validator votes for one block of a height, and agreement holds.
-/

namespace EgoChain.Bft

open EgoChain.Foundations List

/-! ## The network -/

structure Committee where
  crypto : Crypto
  validatorSet : List Address
  keys : Address → KeyPair
  ownKey : ∀ member ∈ validatorSet, crypto.addressOf (keys member).publicKey = member
  weights : List Nat
  /-- The height at which a member's engine starts. -/
  start : Address → Nat
  faulty : Finset Address

namespace Committee

variable (committee : Committee)

def quorum : Nat := 2 * committee.validatorSet.length / 3 + 1

def Honest (member : Address) : Prop :=
  member ∈ committee.validatorSet ∧ member ∉ committee.faulty

instance (member : Address) : Decidable (committee.Honest member) :=
  inferInstanceAs (Decidable (_ ∧ _))

def engineOf (member : Address) : BftEngine :=
  ((BftEngine.new committee.crypto (committee.keys member) committee.validatorSet).setWeights
    committee.weights).seedHeightRound (committee.start member) 0

end Committee

/-- The engines, and everything the honest validators have sent and finalized. -/
structure Network where
  engines : Address → BftEngine
  proposed : List BlockHeader
  cast : List Vote
  asked : List ViewChangeMsg
  finalized : List (Address × BlockHeader)

/-- A step of one honest validator. -/
inductive Event where
  | propose (member : Address) (roots : BlockRoots) (now : Nat)
  | proposal (member : Address) (header : BlockHeader) (now : Nat)
  | vote (member : Address) (vote : Vote)
  | trigger (member : Address)
  | viewChange (member : Address) (msg : ViewChangeMsg)

def Event.member : Event → Address
  | .propose member _ _ => member
  | .proposal member _ _ => member
  | .vote member _ => member
  | .trigger member => member
  | .viewChange member _ => member

/-- `shadow_on_vote`: a certificate finalizes the block in hand. -/
def BftEngine.onVote (crypto : Crypto) (engine : BftEngine) (vote : Vote) :
    BftEngine × Option BlockHeader :=
  match engine.receiveVote crypto vote with
  | (next, .ok (some qc)) =>
    match next.currentRound.proposedBlock with
    | some header =>
      match next.finalizeBlock crypto header qc with
      | (last, .ok ()) => (last, some header)
      | (last, .error _) => (last, none)
    | none => (next, none)
  | (next, _) => (next, none)

namespace Network

variable (committee : Committee) (net : Network)

def initial : Network where
  engines := committee.engineOf
  proposed := []
  cast := []
  asked := []
  finalized := []

def seat (member : Address) (engine : BftEngine) : Network :=
  { net with engines := Function.update net.engines member engine }

def castBy (net : Network) : Except PoCError (Option Vote) → Network
  | .ok (some vote) => { net with cast := vote :: net.cast }
  | _ => net

def finalizedBy (net : Network) (member : Address) : Option BlockHeader → Network
  | some header => { net with finalized := (member, header) :: net.finalized }
  | none => net

def step : Event → Network
  | .propose member roots now =>
    let (engine, header) := (net.engines member).proposeBlock committee.crypto roots now
    { net.seat member engine with proposed := header :: net.proposed }
  | .proposal member header now =>
    let (engine, answer) := (net.engines member).receiveProposal committee.crypto header now
    (net.seat member engine).castBy answer
  | .vote member vote =>
    let (engine, decided) := (net.engines member).onVote committee.crypto vote
    (net.seat member engine).finalizedBy member decided
  | .trigger member =>
    { net with asked := (net.engines member).triggerViewChange committee.crypto :: net.asked }
  | .viewChange member msg =>
    net.seat member ((net.engines member).receiveViewChange committee.crypto msg).1

/-- Only honest validators take steps, and what verifies under the key of one was signed by it. -/
def Unforged (event : Event) : Prop :=
  committee.Honest event.member ∧ match event with
    | .proposal _ header _ =>
      committee.Honest (committee.crypto.addressOf header.proposerPublicKey) →
        header.verifySignature committee.crypto = .ok true →
        ∃ made ∈ net.proposed, made.proposer = committee.crypto.addressOf header.proposerPublicKey ∧
            made.blockHash committee.crypto = header.blockHash committee.crypto
    | .vote _ vote =>
      committee.Honest (committee.crypto.addressOf vote.voterPublicKey) →
        vote.verify committee.crypto = .ok true →
        ∃ sent ∈ net.cast, sent.voter = committee.crypto.addressOf vote.voterPublicKey ∧
            sent.blockHash = vote.blockHash ∧ sent.height = vote.height ∧
            sent.epoch = vote.epoch ∧ sent.round = vote.round
    | .viewChange _ msg =>
      committee.Honest (committee.crypto.addressOf msg.senderPk) →
        msg.verify committee.crypto = .ok true →
        ∃ sent ∈ net.asked, sent.sender = committee.crypto.addressOf msg.senderPk ∧
            sent.newRound = msg.newRound ∧ sent.height = msg.height ∧ sent.epoch = msg.epoch
    | _ => True

instance (event : Event) : Decidable (net.Unforged committee event) :=
  match event with
  | .propose _ _ _ => inferInstanceAs (Decidable (_ ∧ True))
  | .proposal _ _ _ => inferInstanceAs (Decidable (_ ∧ (_ → _ → _)))
  | .vote _ _ => inferInstanceAs (Decidable (_ ∧ (_ → _ → _)))
  | .trigger _ => inferInstanceAs (Decidable (_ ∧ True))
  | .viewChange _ _ => inferInstanceAs (Decidable (_ ∧ (_ → _ → _)))

/-- The state after a list of events, if each was unforged and kept to the rule when it
happened. -/
def run (rule : Network → Event → Prop) [∀ net event, Decidable (rule net event)] (net : Network) :
    List Event → Option Network
  | [] => some net
  | event :: rest =>
    if net.Unforged committee event ∧ rule net event then (net.step committee event).run rule rest
    else none

/-- What can come about by unforged events that keep to a rule. -/
inductive Reached (rule : Network → Event → Prop) : Network → Prop where
  | start : Reached rule (initial committee)
  | step {net : Network} {event : Event} (before : Reached rule net)
      (unforged : net.Unforged committee event) (kept : rule net event) :
      Reached rule (net.step committee event)

theorem Reached.of_run {committee : Committee} {rule : Network → Event → Prop}
    [∀ net event, Decidable (rule net event)] {events : List Event} {net last : Network}
    (before : Reached committee rule net) (done : net.run committee rule events = some last) :
    Reached committee rule last := by
  induction events generalizing net with
  | nil =>
    cases done
    exact before
  | cons event rest ih =>
    rw [run] at done
    split at done
    case isTrue allowed => exact ih (before.step allowed.1 allowed.2) done
    case isFalse => cases done

/-- Votes are authentic and not of the last height that 64 bits can count, and no request for a
round reaches an engine that has voted since its round state was set up. -/
def Careful : Event → Prop
  | .vote _ vote =>
    vote.Authentic committee.crypto committee.validatorSet ∧ vote.height + 1 < 2 ^ 64
  | .viewChange member _ => (net.engines member).currentRound.votedFor = none
  | _ => True

instance (net : Network) (event : Event) : Decidable (net.Careful committee event) :=
  match event with
  | .propose _ _ _ => inferInstanceAs (Decidable True)
  | .proposal _ _ _ => inferInstanceAs (Decidable True)
  | .vote _ _ => inferInstanceAs (Decidable ((_ → _) ∧ _))
  | .trigger _ => inferInstanceAs (Decidable True)
  | .viewChange _ _ => inferInstanceAs (Decidable (_ = _))

end Network

/-! ## One vote for each height -/

/-- The member has cast a vote for the block at the height. -/
def CastFor (cast : List Vote) (member : Address) (height : Nat) (hash : Hash) : Prop :=
  ∃ vote ∈ cast, vote.voter = member ∧ vote.height = height ∧ vote.blockHash = hash

variable (committee : Committee) (cast : List Vote)

/-- A vote of a validator, which has cast it if it is not faulty. -/
def Genuine (vote : Vote) : Prop :=
  vote.voter ∈ committee.validatorSet ∧
    (vote.voter ∉ committee.faulty → CastFor cast vote.voter vote.height vote.blockHash)

/-- What holds of an honest member's engine, given the votes cast so far. -/
structure Seated (committee : Committee) (cast : List Vote) (member : Address)
    (engine : BftEngine) : Prop where
  keypair : engine.keypair = committee.keys member
  validatorSet : engine.validatorSet = committee.validatorSet
  height : engine.currentRound.height = engine.currentHeight
  proposed : ∀ block, engine.currentRound.proposedBlock = some block →
    block.height = engine.currentHeight
  book : VoteBook (Genuine committee cast) engine
  voted : ∀ vote ∈ cast, vote.voter = member → vote.height < engine.currentHeight ∨
    (vote.height = engine.currentHeight ∧ engine.currentRound.votedFor = some vote.blockHash)

/-- A quorum of validators, of whom the honest ones have cast a vote for the block. -/
def Certified (height : Nat) (hash : Hash) : Prop :=
  ∃ voters : Finset Address, voters ⊆ committee.validatorSet.toFinset ∧ committee.quorum ≤ voters.card ∧
    ∀ voter ∈ voters, voter ∉ committee.faulty → CastFor cast voter height hash

variable {committee} {cast} {more : List Vote} {member : Address} {engine : BftEngine}
  {height : Nat} {hash : Hash} {header : BlockHeader}

theorem CastFor.mono (made : CastFor cast member height hash) (within : cast ⊆ more) :
    CastFor more member height hash := by
  obtain ⟨vote, mem, isFor⟩ := made
  exact ⟨vote, within mem, isFor⟩

theorem Certified.mono (made : Certified committee cast height hash) (within : cast ⊆ more) :
    Certified committee more height hash := by
  obtain ⟨voters, known, enough, each⟩ := made
  exact ⟨voters, known, enough, fun voter mem honest => (each voter mem honest).mono within⟩

theorem genuine_mono {vote : Vote} (genuine : Genuine committee cast vote) (within : cast ⊆ more) :
    Genuine committee more vote :=
  ⟨genuine.1, fun honest => (genuine.2 honest).mono within⟩

namespace Seated

theorem initial (committee : Committee) (member : Address) :
    Seated committee [] member (committee.engineOf member) where
  keypair := rfl
  validatorSet := rfl
  height := rfl
  proposed := nofun
  book := VoteBook.of_empty rfl
  voted := nofun

section

variable (seated : Seated committee cast member engine)

include seated

/-- A vote of another member changes nothing. -/
theorem cons {vote : Vote} (other : vote.voter ≠ member) :
    Seated committee (vote :: cast) member engine := by
  refine { seated with book := ?_, voted := ?_ }
  · exact seated.book.mono fun _ genuine => genuine_mono genuine (subset_cons_self vote cast)
  · exact forall_mem_cons.mpr ⟨fun isMine => absurd isMine other, seated.voted⟩

theorem proposeBlock (roots : BlockRoots) (now : Nat) :
    Seated committee cast member (engine.proposeBlock committee.crypto roots now).1 :=
  { seated with
    proposed := by
      intro block isProposed
      cases isProposed
      rfl
    book := seated.book.framed (engine.framed_proposeBlock committee.crypto roots now) }

theorem joinRound (header : BlockHeader) : Seated committee cast member (engine.joinRound header) := by
  have frame := engine.framed_joinRound header
  obtain ⟨votedFor, proposedBlock⟩ := engine.votedFor_joinRound header
  constructor
  case keypair => exact frame.keypair.trans seated.keypair
  case validatorSet => exact frame.validatorSet.trans seated.validatorSet
  case height => rw [frame.height, frame.currentHeight, seated.height]
  case proposed =>
    rw [proposedBlock, frame.currentHeight]
    exact seated.proposed
  case book => exact seated.book.framed frame
  case voted =>
    rw [votedFor, frame.currentHeight]
    exact seated.voted

theorem keepBlock (header : BlockHeader) :
    Seated committee cast member (engine.keepBlock committee.crypto header) :=
  { seated with }

/-- The vote cast is the member's only one of the height, or one more for the same block. -/
theorem castVote {vote : Vote} (here : header.height = engine.currentHeight)
    (free : ∀ earlier, engine.currentRound.votedFor = some earlier →
      earlier = header.blockHash committee.crypto) (height : vote.height = header.height)
    (hash : vote.blockHash = header.blockHash committee.crypto) :
    Seated committee (vote :: cast) member (engine.recordProposal committee.crypto header) :=
  { seated with
    proposed := by
      intro block isProposed
      cases isProposed
      exact here
    book := (seated.book.framed (engine.framed_recordProposal committee.crypto header)).mono
      fun _ genuine => genuine_mono genuine (subset_cons_self vote cast)
    voted := by
      intro given mem isMine
      rcases mem_cons.mp mem with rfl | earlier
      · exact Or.inr ⟨height.trans here, by rw [hash]; rfl⟩
      rcases seated.voted given earlier isMine with below | ⟨atHeight, votedFor⟩
      · exact Or.inl below
      · refine Or.inr ⟨atHeight, ?_⟩
        rw [free _ votedFor]
        rfl }

theorem recordVote {vote : Vote} (genuine : Genuine committee cast vote)
    (here : vote.height = engine.currentRound.height) :
    Seated committee cast member (engine.recordVote vote) :=
  { seated with book := seated.book.recordVote genuine here }

variable (qc : QuorumCertificate)

theorem holdQc : Seated committee cast member (engine.holdQc qc) :=
  { seated with }

theorem advance (here : header.height = engine.currentHeight) (fits : header.height + 1 < 2 ^ 64) :
    Seated committee cast member (engine.advance header qc) := by
  refine { seated with height := rfl, proposed := nofun, book := VoteBook.of_empty rfl, voted := ?_ }
  intro vote mem isMine
  have next : (engine.advance header qc).currentHeight = engine.currentHeight + 1 := by
    rw [← here]
    exact Nat.mod_eq_of_lt fits
  rcases seated.voted vote mem isMine with below | ⟨atHeight, -⟩ <;> exact Or.inl (by omega)

theorem receiveViewChange (msg : ViewChangeMsg) (free : engine.currentRound.votedFor = none) :
    Seated committee cast member (engine.receiveViewChange committee.crypto msg).1 := by
  obtain ⟨store, -, same | ⟨-, -, moved⟩⟩ := engine.receiveViewChange_cases committee.crypto msg
  · rw [same]
    exact { seated with }
  rw [moved]
  refine { seated with proposed := nofun, book := VoteBook.of_empty rfl, voted := ?_ }
  intro vote mem isMine
  rcases seated.voted vote mem isMine with below | ⟨-, votedFor⟩
  · exact Or.inl below
  · rw [free] at votedFor
    cases votedFor

/-- The votes in hand for a block of the height certify it, if they are as many as the quorum. -/
theorem certified (enough : committee.quorum ≤ (engine.votesFor hash).length) :
    Certified committee cast engine.currentHeight hash := by
  obtain ⟨distinct, each⟩ := seated.book.votesFor hash
  refine ⟨((engine.votesFor hash).map Vote.voter).toFinset, ?_, ?_, ?_⟩
  · intro voter mem
    obtain ⟨vote, isFor, rfl⟩ := mem_map.mp (mem_toFinset.mp mem)
    exact mem_toFinset.mpr (each vote isFor).1.1
  · rw [toFinset_card_of_nodup distinct, length_map]
    exact enough
  · intro voter mem honest
    obtain ⟨vote, isFor, rfl⟩ := mem_map.mp (mem_toFinset.mp mem)
    obtain ⟨genuine, height, isHash⟩ := each vote isFor
    have made := genuine.2 honest
    rw [height, seated.height, isHash] at made
    exact made

end

end Seated

/-- What can come of a vote: it is noted or not, and a certificate may finalize the block in
hand. -/
theorem onVote_cases (crypto : Crypto) (engine : BftEngine) (vote : Vote) :
    engine.onVote crypto vote = (engine, none) ∨
      (vote.verify crypto = .ok true ∧ vote.height = engine.currentRound.height ∧
        (engine.onVote crypto vote = (engine.recordVote vote, none) ∨
          ∃ block qc, engine.currentRound.proposedBlock = some block ∧
            (engine.onVote crypto vote = ((engine.recordVote vote).holdQc qc, none) ∨
              (engine.quorumSize ≤ ((engine.recordVote vote).votesFor (block.blockHash crypto)).length ∧
                engine.onVote crypto vote =
                  (((engine.recordVote vote).holdQc qc).advance block qc, some block))))) := by
  rw [BftEngine.onVote]
  rcases engine.receiveVote_cases crypto vote with
    ⟨answer, failed, same⟩ | ⟨signed, here, same | ⟨block, qc, proposed, -, made, same⟩⟩ <;>
    rw [same]
  · refine Or.inl ?_
    cases answer with
    | error error => rfl
    | ok found =>
      cases found with
      | none => rfl
      | some qc => exact absurd rfl (failed qc)
  · exact Or.inr ⟨signed, here, Or.inl rfl⟩
  · refine Or.inr ⟨signed, here, Or.inr ⟨block, qc, proposed, ?_⟩⟩
    have inHand : ((engine.recordVote vote).holdQc qc).currentRound.proposedBlock = some block :=
      proposed
    dsimp only
    rw [inHand]
    dsimp only
    rcases ((engine.recordVote vote).holdQc qc).finalizeBlock_cases crypto block qc with
      ⟨error, refused⟩ | ⟨-, enough, finalized⟩
    · rw [refused]
      exact Or.inl rfl
    rw [finalized]
    refine Or.inr ⟨?_, rfl⟩
    have count : qc.voterCount =
        ((engine.recordVote vote).votesFor (block.blockHash crypto)).length := by
      rw [made, QuorumCertificate.voterCount, QuorumCertificate.new]
      simp
    rw [← count]
    exact enough

/-! ## Runs -/

/-- What holds of every state that is reached. -/
structure Safe (committee : Committee) (net : Network) : Prop where
  seated : ∀ member, committee.Honest member → Seated committee net.cast member (net.engines member)
  once : ∀ first ∈ net.cast, ∀ second ∈ net.cast, first.voter = second.voter →
    first.height = second.height → first.blockHash = second.blockHash
  certified : ∀ record ∈ net.finalized,
    Certified committee net.cast record.2.height (record.2.blockHash committee.crypto)

namespace Safe

variable {net : Network}

theorem initial (committee : Committee) : Safe committee (Network.initial committee) where
  seated := fun member _ => Seated.initial committee member
  once := nofun
  certified := nofun

variable (safe : Safe committee net)

include safe

omit safe in
theorem seated_seat (engineSeated : Seated committee more member engine)
    (others : ∀ other, other ≠ member → committee.Honest other →
      Seated committee more other (net.engines other)) (other : Address)
    (honest : committee.Honest other) :
    Seated committee more other ((net.seat member engine).engines other) := by
  simp only [Network.seat, Function.update_apply]
  split
  case isTrue same => exact same ▸ engineSeated
  case isFalse apart => exact others other apart honest

/-- A new state of one engine, with the votes as they are. -/
theorem seat (engineSeated : Seated committee net.cast member engine) :
    Safe committee (net.seat member engine) where
  seated := seated_seat engineSeated fun other _ => safe.seated other
  once := safe.once
  certified := safe.certified

/-- A new state of one engine, with a vote that it casts. -/
theorem castBy {vote : Vote} (isMine : vote.voter = member)
    (before : ∀ given ∈ net.cast, given.voter = member → given.height = vote.height →
      given.blockHash = vote.blockHash)
    (engineSeated : Seated committee (vote :: net.cast) member engine) :
    Safe committee ((net.seat member engine).castBy (.ok (some vote))) where
  seated := seated_seat engineSeated fun other apart honest =>
    (safe.seated other honest).cons fun mine => apart (mine.symm.trans isMine)
  once := by
    intro first firstMem second secondMem sameVoter sameHeight
    rcases mem_cons.mp firstMem with rfl | firstEarlier
    · rcases mem_cons.mp secondMem with rfl | secondEarlier
      · rfl
      · exact (before second secondEarlier (sameVoter.symm.trans isMine) sameHeight.symm).symm
    · rcases mem_cons.mp secondMem with rfl | secondEarlier
      · exact before first firstEarlier (sameVoter.trans isMine) sameHeight
      · exact safe.once first firstEarlier second secondEarlier sameVoter sameHeight
  certified := by
    intro record mem
    exact (safe.certified record mem).mono (subset_cons_self vote net.cast)

theorem proposal {now : Nat} (honest : committee.Honest member) :
    Safe committee (net.step committee (.proposal member header now)) := by
  have seated := safe.seated member honest
  have joined := seated.joinRound header
  rw [Network.step]
  rcases (net.engines member).receiveProposal_cases committee.crypto header now with
    same | ⟨here, -, -, ⟨answer, noVote, same⟩ | same | ⟨free, -, same⟩⟩ <;> rw [same]
  · exact safe.seat seated
  · have silent : ∀ net : Network, net.castBy answer = net := by
      intro net
      cases answer with
      | error error => rfl
      | ok found =>
        cases found with
        | none => rfl
        | some vote => exact absurd rfl (noVote vote)
    dsimp only
    rw [silent]
    exact safe.seat joined
  · exact safe.seat (joined.keepBlock header)
  · have isMine : (((net.engines member).joinRound header).voteFor committee.crypto header).voter =
        member := by
      change committee.crypto.addressOf ((net.engines member).joinRound header).keypair.publicKey = member
      rw [joined.keypair]
      exact committee.ownKey member honest.1
    have height := here.trans ((net.engines member).framed_joinRound header).currentHeight.symm
    rw [← ((net.engines member).votedFor_joinRound header).1] at free
    refine safe.castBy isMine ?_ ((joined.keepBlock header).castVote height free rfl rfl)
    intro given mem mine sameHeight
    have atHeight := sameHeight.trans height
    rcases joined.voted given mem mine with below | ⟨-, votedFor⟩
    · omega
    · exact free _ votedFor

theorem vote {vote : Vote} (unforged : net.Unforged committee (.vote member vote))
    (careful : net.Careful committee (.vote member vote)) :
    Safe committee (net.step committee (.vote member vote)) := by
  obtain ⟨honest, sent⟩ := unforged
  obtain ⟨authentic, fits⟩ := careful
  have seated := safe.seated member honest
  have genuine : vote.verify committee.crypto = .ok true → Genuine committee net.cast vote := by
    intro signed
    obtain ⟨known, ownKey⟩ := authentic signed
    refine ⟨known, fun correct => ?_⟩
    dsimp only at sent
    rw [ownKey] at sent
    obtain ⟨made, mem, voter, hash, height, -, -⟩ := sent ⟨known, correct⟩ signed
    exact ⟨made, mem, voter, height, hash⟩
  rw [Network.step]
  rcases onVote_cases committee.crypto (net.engines member) vote with
    same | ⟨signed, here, same | ⟨block, qc, proposed, same | ⟨enough, same⟩⟩⟩ <;> rw [same]
  · exact safe.seat seated
  · exact safe.seat (seated.recordVote (genuine signed) here)
  · exact safe.seat ((seated.recordVote (genuine signed) here).holdQc qc)
  have noted := seated.recordVote (genuine signed) here
  have height : block.height = (net.engines member).currentHeight := seated.proposed block proposed
  have fitsToo : block.height + 1 < 2 ^ 64 := by
    rw [height, ← seated.height, ← here]
    exact fits
  have after := safe.seat ((noted.holdQc qc).advance qc height fitsToo)
  refine { after with certified := ?_ }
  intro record mem
  rcases mem_cons.mp mem with rfl | earlier
  · have quorum : committee.quorum = (net.engines member).quorumSize := by
      rw [BftEngine.quorumSize, seated.validatorSet]
      rfl
    rw [← quorum] at enough
    have made : Certified committee net.cast (net.engines member).currentHeight
        (block.blockHash committee.crypto) := noted.certified enough
    rw [← height] at made
    exact made
  · exact safe.certified record earlier

theorem step {event : Event} (unforged : net.Unforged committee event)
    (careful : net.Careful committee event) : Safe committee (net.step committee event) := by
  have honest := unforged.1
  cases event with
  | propose member roots now =>
    have after := safe.seat ((safe.seated member honest).proposeBlock roots now)
    exact { after with }
  | proposal member header now => exact safe.proposal honest
  | vote member vote => exact safe.vote unforged careful
  | trigger member => exact { safe with }
  | viewChange member msg =>
    exact safe.seat ((safe.seated member honest).receiveViewChange msg careful)

omit safe in
theorem reached (way : Network.Reached committee (Network.Careful committee) net) :
    Safe committee net := by
  induction way with
  | start => exact Safe.initial committee
  | step before unforged kept ih => exact ih.step unforged kept

/-- Two certified blocks of a height have an honest voter in common. -/
theorem certified_eq (distinct : committee.validatorSet.Nodup)
    (few : committee.faulty.card ≤ committee.validatorSet.length - committee.quorum)
    {first second : Hash} (firstMade : Certified committee net.cast height first)
    (secondMade : Certified committee net.cast height second) : first = second := by
  obtain ⟨firstVoters, firstKnown, firstEnough, firstCast⟩ := firstMade
  obtain ⟨secondVoters, secondKnown, secondEnough, secondCast⟩ := secondMade
  have size := toFinset_card_of_nodup distinct
  have large : committee.validatorSet.toFinset.card + committee.faulty.card <
      firstVoters.card + secondVoters.card := by
    rw [Committee.quorum] at few firstEnough secondEnough
    omega
  obtain ⟨voter, inFirst, inSecond, correct⟩ := exists_correct_in_both firstKnown secondKnown large
  obtain ⟨one, oneMem, oneVoter, oneHeight, rfl⟩ := firstCast voter inFirst correct
  obtain ⟨two, twoMem, twoVoter, twoHeight, rfl⟩ := secondCast voter inSecond correct
  exact safe.once one oneMem two twoMem (oneVoter.trans twoVoter.symm) (oneHeight.trans twoHeight.symm)

end Safe

/-- Over every run that is careful in the sense above, with at most `n - quorum` faulty
validators and whatever weights: no two honest engines finalize different blocks of a height. -/
theorem careful_engines_agree (committee : Committee) (distinct : committee.validatorSet.Nodup)
    (few : committee.faulty.card ≤ committee.validatorSet.length - committee.quorum)
    (net : Network) (reached : Network.Reached committee (Network.Careful committee) net)
    (first second : Address × BlockHeader) (firstDone : first ∈ net.finalized)
    (secondDone : second ∈ net.finalized) (sameHeight : first.2.height = second.2.height) :
    first.2.blockHash committee.crypto = second.2.blockHash committee.crypto := by
  have safe := Safe.reached reached
  have firstMade := safe.certified first firstDone
  rw [sameHeight] at firstMade
  exact safe.certified_eq distinct few firstMade (safe.certified second secondDone)

/-! ### Four validators without a fault -/

def plainCommittee : Committee where
  crypto := plainCrypto
  validatorSet := fourValidators
  keys := plainKeys
  ownKey := fun _ _ => rfl
  weights := []
  start := fun _ => 0
  faulty := ∅

variable (header) (name : PublicKey)

/-- The vote that a validator casts for a header of the first height. -/
def voteIn : Vote :=
  Vote.new plainCrypto (header.blockHash plainCrypto) 0 0 header.round (plainKeys name)

/-- One validator proposes, three vote, and the votes reach some of them. -/
def roundOf (voters counters : List Address) : List Event :=
  .propose header.proposer plainRoots 0 :: (voters.map fun voter => .proposal voter header 0) ++
      counters.flatMap fun counter => voters.map fun voter => .vote counter (voteIn header voter)

theorem two_engines_finalize_one_block :
    ∃ net, Network.Reached plainCommittee (Network.Careful plainCommittee) net ∧
      net.finalized.map Prod.fst = [[2], [1]] ∧
      ∀ first ∈ net.finalized, ∀ second ∈ net.finalized,
        first.2.blockHash plainCrypto = second.2.blockHash plainCrypto := by
  have run : ∃ net ∈ (Network.initial plainCommittee).run plainCommittee
      (Network.Careful plainCommittee) (roundOf firstHeader [[1], [2], [3]] [[1], [2]]),
        net.finalized = [([2], firstHeader), ([1], firstHeader)] := by
    decide
  obtain ⟨net, done, finalized⟩ := run
  have reached := Network.Reached.of_run Network.Reached.start done
  have height : ∀ record ∈ net.finalized, record.2.height = 0 := by
    rw [finalized]
    decide
  refine ⟨net, reached, by rw [finalized]; rfl, fun first firstDone second secondDone => ?_⟩
  exact careful_engines_agree plainCommittee (by decide) (by decide) net reached first second
    firstDone secondDone ((height first firstDone).trans (height second secondDone).symm)

/-- The block that the second validator proposes in round 1. -/
def secondHeader : BlockHeader :=
  (((plainEngine [2]).seedHeightRound 0 1).proposeBlock plainCrypto plainRoots 0).2

/-- The request of a validator for round 1. -/
def requestOf : ViewChangeMsg :=
  ViewChangeMsg.new plainCrypto 1 0 0 none (plainKeys name)

/-- Three validators vote for the first block, whose certificate only the first one sees.  The
others ask for the next round, and two of them vote a second time. -/
def roundsApart : List Event :=
  roundOf firstHeader [[1], [2], [3]] [[1]] ++ [.trigger [2], .trigger [3], .trigger [4]] ++
    ([[2], [3], [4]].flatMap fun member =>
      [[2], [3], [4]].map fun name => .viewChange member (requestOf name)) ++
    roundOf secondHeader [[2], [3], [4]] [[2]]

/-- No validator is faulty, and two blocks of one height are finalized. -/
theorem next_round_finalizes_another_block : plainCommittee.faulty = ∅ ∧
      ∃ net, Network.Reached plainCommittee (fun _ _ => True) net ∧
        ([1], firstHeader) ∈ net.finalized ∧ ([2], secondHeader) ∈ net.finalized ∧
        firstHeader.height = secondHeader.height ∧
        firstHeader.blockHash plainCrypto ≠ secondHeader.blockHash plainCrypto := by
  have run : ∃ net ∈ (Network.initial plainCommittee).run plainCommittee (fun _ _ => True) roundsApart,
      net.finalized = [([2], secondHeader), ([1], firstHeader)] := by
    decide +kernel
  obtain ⟨net, done, finalized⟩ := run
  exact ⟨rfl, net, Network.Reached.of_run Network.Reached.start done, by simp [finalized],
    by simp [finalized], by decide, by decide⟩

end EgoChain.Bft
