import EgoChain.Bft.Engine

/-!
# What a call can do

For each call of the engine, every way it can end, with what was checked on that
way.  The later proofs use these lists and never open the calls again.
-/

namespace EgoChain.Bft

open List
open EgoChain.Consensus (maxU64 satAdd64)

/-! ## What most calls leave as it is -/

/-- Only the round, the block in hand, the certificates and the known blocks may differ. -/
structure Framed (engine next : BftEngine) : Prop where
  keypair : next.keypair = engine.keypair
  validatorSet : next.validatorSet = engine.validatorSet
  weights : next.weights = engine.weights
  currentHeight : next.currentHeight = engine.currentHeight
  height : next.currentRound.height = engine.currentRound.height
  votes : next.currentRound.votes = engine.currentRound.votes
  viewChanges : next.forkChoice.viewChanges = engine.forkChoice.viewChanges

namespace Framed

variable {engine next last : BftEngine}

theorem refl (engine : BftEngine) : Framed engine engine :=
  ⟨rfl, rfl, rfl, rfl, rfl, rfl, rfl⟩

theorem trans (first : Framed engine next) (second : Framed next last) : Framed engine last where
  keypair := second.keypair.trans first.keypair
  validatorSet := second.validatorSet.trans first.validatorSet
  weights := second.weights.trans first.weights
  currentHeight := second.currentHeight.trans first.currentHeight
  height := second.height.trans first.height
  votes := second.votes.trans first.votes
  viewChanges := second.viewChanges.trans first.viewChanges

end Framed

namespace BftEngine

variable (crypto : Crypto) (engine : BftEngine)

/-! ## Proposals -/

section

variable (header : BlockHeader)

include header

theorem joinRound_eq : engine.joinRound header = engine ∨
      (engine.currentRound.height = engine.currentHeight ∧ engine.currentRound.round < header.round ∧
        engine.joinRound header = { engine with
            currentRound := { engine.currentRound with round := header.round, phase := .propose } }) := by
  rw [joinRound]
  split
  case isTrue ahead => exact Or.inr ⟨ahead.1, ahead.2, rfl⟩
  case isFalse => exact Or.inl rfl

theorem framed_joinRound : Framed engine (engine.joinRound header) := by
  rcases engine.joinRound_eq header with same | ⟨-, -, moved⟩
  · rw [same]
    exact Framed.refl engine
  · rw [moved]
    constructor <;> rfl

theorem votedFor_joinRound :
    (engine.joinRound header).currentRound.votedFor = engine.currentRound.votedFor ∧
      (engine.joinRound header).currentRound.proposedBlock = engine.currentRound.proposedBlock := by
  rcases engine.joinRound_eq header with same | ⟨-, -, moved⟩
  · rw [same]
    exact ⟨rfl, rfl⟩
  · rw [moved]
    exact ⟨rfl, rfl⟩

theorem framed_keepBlock : Framed engine (engine.keepBlock crypto header) := by
  constructor <;> rfl

theorem framed_recordProposal : Framed engine (engine.recordProposal crypto header) := by
  constructor <;> rfl

/-- The proposal is dropped, or it comes from the proposer of its round, as the header tells it;
then the round is joined, and a vote is cast after the signature has been checked. -/
theorem receiveProposal_cases (now : Nat) :
    engine.receiveProposal crypto header now = (engine, .ok none) ∨
      (header.height = engine.currentHeight ∧ engine.currentRound.round ≤ header.round ∧
        engine.proposerAt engine.currentHeight header.round = some header.proposer ∧
        ((∃ answer, (∀ vote, answer ≠ .ok (some vote)) ∧
            engine.receiveProposal crypto header now = (engine.joinRound header, answer)) ∨
          engine.receiveProposal crypto header now =
            ((engine.joinRound header).keepBlock crypto header, .ok none) ∨
          ((∀ earlier, engine.currentRound.votedFor = some earlier →
              earlier = header.blockHash crypto) ∧
            header.verifySignature crypto = .ok true ∧
            engine.receiveProposal crypto header now =
              (((engine.joinRound header).keepBlock crypto header).recordProposal crypto header,
                .ok (some ((engine.joinRound header).voteFor crypto header)))))) := by
  rw [receiveProposal]
  by_cases here : header.height = engine.currentHeight
  case neg => exact Or.inl (if_pos here)
  rw [if_neg (not_not.mpr here)]
  by_cases late : header.round < engine.currentRound.round
  case pos => exact Or.inl (if_pos late)
  rw [if_neg late]
  by_cases elected : engine.proposerAt engine.currentHeight header.round = some header.proposer
  case neg => exact Or.inl (if_pos elected)
  rw [if_neg (not_not.mpr elected)]
  refine Or.inr ⟨here, not_lt.mp late, elected, ?_⟩
  cases signed : header.verifySignature crypto with
  | error error => exact Or.inl ⟨.error error, fun _ => by simp, rfl⟩
  | ok valid =>
    cases valid with
    | false => exact Or.inl ⟨.ok none, fun _ => by simp, rfl⟩
    | true =>
      dsimp only
      split
      · exact Or.inl ⟨.ok none, fun _ => by simp, rfl⟩
      split
      case isFalse => exact Or.inr (Or.inl rfl)
      case isTrue =>
      rw [castVote]
      split
      case isTrue => exact Or.inr (Or.inl rfl)
      case isFalse free =>
      refine Or.inr (Or.inr ⟨?_, rfl, rfl⟩)
      intro earlier voted
      by_contra other
      apply free
      rw [← (engine.votedFor_joinRound header).1] at voted
      simp [keepBlock, voted, other]

theorem framed_receiveProposal (now : Nat) :
    Framed engine (engine.receiveProposal crypto header now).1 := by
  have joined := engine.framed_joinRound header
  have kept := joined.trans (framed_keepBlock crypto _ header)
  rcases engine.receiveProposal_cases crypto header now with
    same | ⟨-, -, -, ⟨answer, -, same⟩ | same | ⟨-, -, same⟩⟩ <;> rw [same]
  · exact Framed.refl engine
  · exact joined
  · exact kept
  · exact kept.trans (framed_recordProposal crypto _ header)

end

theorem framed_proposeBlock (roots : BlockRoots) (now : Nat) :
    Framed engine (engine.proposeBlock crypto roots now).1 := by
  constructor <;> rfl

/-- The round moves only to the round of a header that names the proposer elected for it. -/
theorem round_receiveProposal (header : BlockHeader) (now : Nat) :
    (engine.receiveProposal crypto header now).1.currentRound.round = engine.currentRound.round ∨
      (header.height = engine.currentRound.height ∧
        engine.proposerAt header.height header.round = some header.proposer ∧
        (engine.receiveProposal crypto header now).1.currentRound.round = header.round) := by
  rcases engine.receiveProposal_cases crypto header now with same | ⟨here, -, elected, ways⟩
  · rw [same]
    exact Or.inl rfl
  have round : (engine.receiveProposal crypto header now).1.currentRound.round =
      (engine.joinRound header).currentRound.round := by
    rcases ways with ⟨answer, -, same⟩ | same | ⟨-, -, same⟩ <;> rw [same] <;> rfl
  rw [round]
  rcases engine.joinRound_eq header with same | ⟨height, -, moved⟩
  · rw [same]
    exact Or.inl rfl
  · rw [moved]
    rw [← here] at elected
    exact Or.inr ⟨here.trans height.symm, elected, rfl⟩

/-! ## Votes -/

theorem certify_cases (vote : Vote) : engine.certify crypto vote = (engine, none) ∨
      ∃ block qc, engine.currentRound.proposedBlock = some block ∧
        engine.isQuorum ((engine.votesFor (block.blockHash crypto)).map Vote.voter) = true ∧
        qc = QuorumCertificate.new crypto (block.blockHash crypto) vote.height vote.epoch vote.round
          (engine.votesFor (block.blockHash crypto)) ∧
        engine.certify crypto vote = (engine.holdQc qc, some qc) := by
  rw [certify]
  cases proposed : engine.currentRound.proposedBlock with
  | none => exact Or.inl rfl
  | some block =>
    dsimp only
    split
    · exact Or.inl rfl
    split
    case isFalse => exact Or.inl rfl
    case isTrue heavy => exact Or.inr ⟨block, _, rfl, heavy, rfl, rfl⟩

/-- The vote is dropped, or noted, or noted and completes a certificate for the block in hand. -/
theorem receiveVote_cases (vote : Vote) : (∃ answer, (∀ qc, answer ≠ .ok (some qc)) ∧
      engine.receiveVote crypto vote = (engine, answer)) ∨
    (vote.verify crypto = .ok true ∧ vote.height = engine.currentRound.height ∧
      (engine.receiveVote crypto vote = (engine.recordVote vote, .ok none) ∨
        ∃ block qc, engine.currentRound.proposedBlock = some block ∧ (engine.recordVote vote).isQuorum
            (((engine.recordVote vote).votesFor (block.blockHash crypto)).map Vote.voter) = true ∧
          qc = QuorumCertificate.new crypto (block.blockHash crypto) vote.height vote.epoch
            vote.round ((engine.recordVote vote).votesFor (block.blockHash crypto)) ∧
          engine.receiveVote crypto vote = ((engine.recordVote vote).holdQc qc, .ok (some qc)))) := by
  rw [receiveVote]
  cases signed : vote.verify crypto with
  | error error => exact Or.inl ⟨.error error, fun _ => by simp, rfl⟩
  | ok valid =>
    cases valid with
    | false => exact Or.inl ⟨.ok none, fun _ => by simp, rfl⟩
    | true =>
      by_cases here : vote.height = engine.currentRound.height
      case neg =>
        rw [if_pos here]
        exact Or.inl ⟨.ok none, fun _ => by simp, rfl⟩
      rw [if_neg (not_not.mpr here)]
      refine Or.inr ⟨rfl, here, ?_⟩
      rcases certify_cases crypto _ vote with
        none' | ⟨block, qc, proposed, heavy, made, formed⟩
      · rw [none']
        exact Or.inl rfl
      · rw [formed]
        exact Or.inr ⟨block, qc, proposed, heavy, made, rfl⟩

end BftEngine

/-! ## Requests for a round -/

namespace ForkChoiceStore

variable (crypto : Crypto) (store : ForkChoiceStore) (msg : ViewChangeMsg)

/-- The requests in hand for the round that a request asks for. -/
def askedWith : List ViewChangeMsg :=
  (store.viewChanges.lookup (msg.height, msg.newRound)).getD []

/-- The requests after one has come: as before, or with it if it verifies and its sender is
new. -/
inductive Noted (msg : ViewChangeMsg) (next : ForkChoiceStore) : Prop where
  | same (same : next.viewChanges = store.viewChanges)
  | again (same : next.viewChanges =
      store.viewChanges.insert (msg.height, msg.newRound) (store.askedWith msg))
  | added (signed : msg.verify crypto = .ok true)
      (fresh : ∀ other ∈ store.askedWith msg, other.sender ≠ msg.sender)
      (more : next.viewChanges =
        store.viewChanges.insert (msg.height, msg.newRound) (store.askedWith msg ++ [msg]))

variable {crypto store} in
theorem Noted.addQc {msg : ViewChangeMsg} {next : ForkChoiceStore}
    (noted : store.Noted crypto msg next) (qc : QuorumCertificate) :
    store.Noted crypto msg (next.addQc qc) := by
  cases noted with
  | same same => exact .same same
  | again same => exact .again same
  | added signed fresh more => exact .added signed fresh more

/-- A round is granted only when as many requests for it as the quorum are in hand. -/
theorem addViewChange_spec (quorum : Nat) :
    store.Noted crypto msg (store.addViewChange crypto msg quorum).1 ∧
      ∀ best, (store.addViewChange crypto msg quorum).2 = .ok (some best) →
        ∃ msgs, (store.addViewChange crypto msg quorum).1.viewChanges.lookup
          (msg.height, msg.newRound) = some msgs ∧ quorum ≤ msgs.length := by
  rw [addViewChange]
  cases signed : msg.verify crypto with
  | error error => exact ⟨.same rfl, fun _ granted => by simp at granted⟩
  | ok valid =>
    cases valid with
    | false => exact ⟨.same rfl, fun _ granted => by simp at granted⟩
    | true =>
      dsimp only
      split
      · exact ⟨.again rfl, fun _ granted => by simp at granted⟩
      case isFalse absent =>
      have fresh : ∀ other ∈ store.askedWith msg, other.sender ≠ msg.sender := by
        simpa [askedWith] using absent
      split
      case isFalse => exact ⟨.added signed fresh rfl, fun _ granted => by simp at granted⟩
      case isTrue enough =>
      split
      · exact ⟨(Noted.added signed fresh rfl).addQc _,
          fun _ _ => ⟨_, AList.lookup_insert _, enough⟩⟩
      · exact ⟨.added signed fresh rfl, fun _ _ => ⟨_, AList.lookup_insert _, enough⟩⟩

end ForkChoiceStore

namespace BftEngine

variable (crypto : Crypto) (engine : BftEngine) {validator : Address}

/-- The request is noted, and the round begins anew if enough requests for it are in hand. -/
theorem receiveViewChange_cases (msg : ViewChangeMsg) :
    ∃ store, engine.forkChoice.Noted crypto msg store ∧
      ((engine.receiveViewChange crypto msg).1 = { engine with forkChoice := store } ∨
        (msg.height = engine.currentRound.height ∧
          (∃ msgs, store.viewChanges.lookup (msg.height, msg.newRound) = some msgs ∧
            engine.quorumSize ≤ msgs.length) ∧
          (engine.receiveViewChange crypto msg).1 =
            { engine.enterRound msg.newRound with forkChoice := store })) := by
  obtain ⟨noted, granted⟩ := engine.forkChoice.addViewChange_spec crypto msg engine.quorumSize
  rw [receiveViewChange]
  split
  · exact ⟨engine.forkChoice, .same rfl, Or.inl rfl⟩
  case isFalse ahead =>
  have here : msg.height = engine.currentRound.height := by
    by_contra elsewhere
    exact ahead (Or.inl elsewhere)
  generalize engine.forkChoice.addViewChange crypto msg engine.quorumSize = answer at noted granted
  obtain ⟨store, result⟩ := answer
  dsimp only at noted granted ⊢
  split
  · exact ⟨store, noted, Or.inl rfl⟩
  · exact ⟨store, noted, Or.inl rfl⟩
  · exact ⟨store, noted, Or.inr ⟨here, granted none rfl, rfl⟩⟩
  case h_4 qc =>
    obtain ⟨msgs, found, enough⟩ := granted (some qc) rfl
    exact ⟨store.addQc qc, noted.addQc qc, Or.inr ⟨here, ⟨msgs, found, enough⟩, rfl⟩⟩

/-! ## Finality -/

theorem finalizeBlock_cases (header : BlockHeader) (qc : QuorumCertificate) :
    (∃ error, engine.finalizeBlock crypto header qc = (engine, .error error)) ∨
      (qc.blockHash = header.blockHash crypto ∧ engine.quorumSize ≤ qc.voterCount ∧
        engine.finalizeBlock crypto header qc = (engine.advance header qc, .ok ())) := by
  rw [finalizeBlock]
  by_cases same : qc.blockHash = header.blockHash crypto
  case neg => exact Or.inl ⟨_, if_pos same⟩
  rw [if_neg (not_not.mpr same)]
  by_cases few : qc.voterCount < engine.quorumSize
  case pos => exact Or.inl ⟨_, if_pos few⟩
  rw [if_neg few]
  exact Or.inr ⟨same, not_lt.mp few, rfl⟩

/-! ## Proposers and weights -/

theorem mem_of_walk {pick : Nat} {seats : List (Nat × Address)}
    (found : walk pick seats = some validator) : ∃ weight, (weight, validator) ∈ seats := by
  induction seats generalizing pick with
  | nil => cases found
  | cons seat rest ih =>
    obtain ⟨weight, here⟩ := seat
    rw [walk] at found
    split at found
    · cases found
      exact ⟨weight, mem_cons_self⟩
    · obtain ⟨other, mem⟩ := ih found
      exact ⟨other, mem_cons_of_mem _ mem⟩

theorem mem_of_proposerAt {height round : Nat}
    (elected : engine.proposerAt height round = some validator) :
    validator ∈ engine.validatorSet := by
  rw [proposerAt] at elected
  split at elected
  · cases elected
  split at elected
  · exact mem_of_getElem? elected
  split at elected
  · exact mem_of_getElem? elected
  rcases Option.or_eq_some_iff.mp elected with walked | ⟨-, last⟩
  · obtain ⟨weight, mem⟩ := mem_of_walk walked
    exact (of_mem_zip mem).2
  · exact mem_of_getLast? last

/-- The weight of all validators, as it would be without the limit of 64 bits. -/
def fullWeight : Nat :=
  if engine.weights.isEmpty then engine.validatorSet.length else engine.weights.sum

theorem foldl_satAdd64 (weights : List Nat) (total : Nat) (small : total + weights.sum ≤ maxU64) :
    weights.foldl satAdd64 total = total + weights.sum := by
  induction weights generalizing total with
  | nil => simp
  | cons weight rest ih =>
    rw [sum_cons, ← add_assoc] at small
    have fits : satAdd64 total weight = total + weight := min_eq_left (by omega)
    rw [foldl_cons, fits, ih _ small, sum_cons, add_assoc]

theorem totalWeight_eq (small : engine.weights.sum ≤ maxU64) :
    engine.totalWeight = engine.fullWeight := by
  have sum : saturatingSum engine.weights = engine.weights.sum := by
    have exact' := foldl_satAdd64 engine.weights 0 (by omega)
    rw [zero_add] at exact'
    exact exact'
  rw [totalWeight, fullWeight, sum]

/-- What the loop of `is_quorum` counts is at most what the voters weigh. -/
theorem tally_le (voters : List Address) :
    (engine.tally voters).2 ≤ (voters.map engine.weightOf).sum := by
  have loop : ∀ (voters : List Address) (counted : List Address × Nat),
      (voters.foldl (fun counted voter =>
        if voter ∈ counted.1 then counted
        else (counted.1 ++ [voter], satAdd64 counted.2 (engine.weightOf voter)))
        counted).2 ≤ counted.2 + (voters.map engine.weightOf).sum := by
    intro voters
    induction voters with
    | nil => simp
    | cons voter rest ih =>
      intro counted
      rw [foldl_cons, map_cons, sum_cons]
      refine (ih _).trans ?_
      split
      · omega
      · have limit : satAdd64 counted.2 (engine.weightOf voter) ≤
            counted.2 + engine.weightOf voter := min_le_left _ _
        omega
  have count := loop voters ([], 0)
  rw [zero_add] at count
  exact count

theorem heavy_of_isQuorum {voters : List Address} (small : engine.weights.sum ≤ maxU64)
    (quorum : engine.isQuorum voters = true) :
    2 * engine.fullWeight < 3 * (voters.map engine.weightOf).sum := by
  rw [isQuorum, engine.totalWeight_eq small] at quorum
  have count := engine.tally_le voters
  split at quorum
  · cases quorum
  · rw [decide_eq_true_eq] at quorum
    omega

end BftEngine

end EgoChain.Bft
