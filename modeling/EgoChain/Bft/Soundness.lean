import EgoChain.Bft.EngineFacts

/-!
# Who makes a certificate, and who moves a round

The engine asks neither whether a voter is a validator nor whether the key of a
message belongs to the address it names, and it moves its round before it looks at
the signature of a header.  What it certifies, and which rounds it enters, is
therefore as good as the messages it is given: the results are about every stream
of authentic messages, and a stream with one forger shows what happens without.
-/

namespace EgoChain.Bft

open EgoChain.Foundations List
open EgoChain.Consensus (maxU64)

/-! ## Authentic messages -/

variable (name : PublicKey) (inputs : List Input) (crypto : Crypto) (validatorSet : List Address)

/-- A vote that verifies names a validator and is signed under its own key. -/
def Vote.Authentic (vote : Vote) : Prop :=
  vote.verify crypto = .ok true →
    vote.voter ∈ validatorSet ∧ crypto.addressOf vote.voterPublicKey = vote.voter

/-- The same for a request. -/
def ViewChangeMsg.Authentic (msg : ViewChangeMsg) : Prop :=
  msg.verify crypto = .ok true → msg.sender ∈ validatorSet ∧ crypto.addressOf msg.senderPk = msg.sender

/-- The header was signed by the proposer it names. -/
structure BlockHeader.Signed (crypto : Crypto) (header : BlockHeader) : Prop where
  ownKey : crypto.addressOf header.proposerPublicKey = header.proposer
  verified : header.verifySignature crypto = .ok true

/-- A header that names a validator as its proposer is signed by it. -/
def BlockHeader.Authentic (header : BlockHeader) : Prop :=
  header.proposer ∈ validatorSet → header.Signed crypto

def deliveredVotes : List Vote :=
  inputs.filterMap fun input =>
    match input with
    | .vote given => some given
    | _ => none

variable {crypto} {engine next : BftEngine} {holds weaker : Vote → Prop} (header : BlockHeader)
  (qc : QuorumCertificate) (input : Input)

/-! ## The votes in hand -/

/-- Every vote in hand stands at its voter, is of the height, and has a property of votes. -/
def VoteBook (holds : Vote → Prop) (engine : BftEngine) : Prop :=
  ∀ voter vote, engine.currentRound.votes.lookup voter = some vote →
    vote.voter = voter ∧ holds vote ∧ vote.height = engine.currentRound.height

namespace VoteBook

theorem of_empty (none' : engine.currentRound.votes = ∅) : VoteBook holds engine := by
  intro voter vote found
  rw [none'] at found
  cases found

section

variable (book : VoteBook holds engine)

include book

theorem framed (same : Framed engine next) : VoteBook holds next := by
  intro voter vote found
  rw [same.votes] at found
  rw [same.height]
  exact book voter vote found

theorem mono (weaken : ∀ vote, holds vote → weaker vote) : VoteBook weaker engine := by
  intro voter vote found
  obtain ⟨keyed, held, height⟩ := book voter vote found
  exact ⟨keyed, weaken vote held, height⟩

variable {vote : Vote}

theorem recordVote (held : holds vote) (here : vote.height = engine.currentRound.height) :
    VoteBook holds (engine.recordVote vote) := by
  intro voter found stored
  rcases KeyedMap.lookup_of_insert stored with ⟨rfl, rfl⟩ | before
  · exact ⟨rfl, held, here⟩
  · exact book voter found before

theorem receiveVote (held : vote.verify crypto = .ok true → holds vote) :
    VoteBook holds (engine.receiveVote crypto vote).1 := by
  rcases engine.receiveVote_cases crypto vote with
    ⟨answer, -, same⟩ | ⟨signed, here, same | ⟨-, qc, -, -, -, same⟩⟩ <;> rw [same]
  · exact book
  · exact book.recordVote (held signed) here
  · exact (book.recordVote (held signed) here).framed (by constructor <;> rfl)

theorem receiveViewChange (msg : ViewChangeMsg) :
    VoteBook holds (engine.receiveViewChange crypto msg).1 := by
  obtain ⟨store, -, same | ⟨-, -, moved⟩⟩ := engine.receiveViewChange_cases crypto msg
  · rw [same]
    exact book
  · rw [moved]
    exact of_empty rfl

theorem finalizeBlock : VoteBook holds (engine.finalizeBlock crypto header qc).1 := by
  rcases engine.finalizeBlock_cases crypto header qc with ⟨error, same⟩ | ⟨-, -, same⟩ <;> rw [same]
  · exact book
  · exact of_empty rfl

/-- The votes for a block, with distinct voters. -/
theorem votesFor (hash : Hash) : ((engine.votesFor hash).map Vote.voter).Nodup ∧
      ∀ vote ∈ engine.votesFor hash, holds vote ∧ vote.height = engine.currentRound.height ∧
        vote.blockHash = hash := by
  have entry : ∀ stored ∈ engine.currentRound.votes.entries,
      stored.2.voter = stored.1 ∧ holds stored.2 ∧ stored.2.height = engine.currentRound.height := by
    rintro ⟨voter, vote⟩ mem
    exact book voter vote ((KeyedMap.mem_entries_iff _ _ _).mp mem)
  constructor
  · have keys : (engine.currentRound.votes.entries.map Sigma.snd).map Vote.voter =
        engine.currentRound.votes.entries.map Sigma.fst := by
      rw [map_map]
      exact map_congr_left fun stored mem => (entry stored mem).1
    have distinct : ((engine.currentRound.votes.entries.map Sigma.snd).map Vote.voter).Nodup := by
      rw [keys]
      exact engine.currentRound.votes.nodupKeys
    exact (filter_sublist.map Vote.voter).nodup distinct
  · intro vote mem
    obtain ⟨stored, same⟩ := mem_filter.mp mem
    obtain ⟨found, inMap, rfl⟩ := mem_map.mp stored
    obtain ⟨-, held, height⟩ := entry found inMap
    exact ⟨held, height, by simpa using same⟩

end

end VoteBook

/-- The vote was delivered and verifies. -/
def Delivered (crypto : Crypto) (inputs : List Input) (vote : Vote) : Prop :=
  vote ∈ deliveredVotes inputs ∧ vote.verify crypto = .ok true

theorem voteBook_after {inputs : List Input} (book : VoteBook (Delivered crypto inputs) engine)
    (input : Input) :
    VoteBook (Delivered crypto (inputs ++ [input])) (engine.after crypto input) := by
  have wider : VoteBook (Delivered crypto (inputs ++ [input])) engine := by
    refine book.mono fun vote given => ⟨?_, given.2⟩
    rw [deliveredVotes, filterMap_append]
    exact mem_append_left _ given.1
  cases input with
  | proposal header now => exact wider.framed (engine.framed_receiveProposal crypto header now)
  | vote vote => exact wider.receiveVote fun signed => ⟨by simp [deliveredVotes], signed⟩
  | viewChange msg => exact wider.receiveViewChange msg
  | propose roots now => exact wider.framed (engine.framed_proposeBlock crypto roots now)
  | finalize header qc => exact wider.finalizeBlock header qc
  | setWeights weights => exact wider
  | seed height round => exact VoteBook.of_empty rfl

theorem voteBook_afterAll (start : engine.currentRound.votes = ∅) :
    VoteBook (Delivered crypto inputs) (engine.afterAll crypto inputs) := by
  induction inputs using List.reverseRecOn with
  | nil => exact VoteBook.of_empty start
  | append_singleton inputs input ih =>
    rw [BftEngine.afterAll, foldl_append]
    exact voteBook_after ih input

/-! ## Certificates -/

/-- The certificate stands for these votes, and they are a quorum of validators for its block. -/
structure SoundCertificate (crypto : Crypto) (engine : BftEngine) (qc : QuorumCertificate)
    (signers : List Vote) : Prop where
  certified : qc = QuorumCertificate.new crypto qc.blockHash qc.height qc.epoch qc.round signers
  distinct : (signers.map Vote.voter).Nodup
  member : ∀ vote ∈ signers, vote.voter ∈ engine.validatorSet
  ownKey : ∀ vote ∈ signers, crypto.addressOf vote.voterPublicKey = vote.voter
  signed : ∀ vote ∈ signers, vote.verify crypto = .ok true
  target : ∀ vote ∈ signers,
    vote.blockHash = qc.blockHash ∧ vote.height = qc.height ∧ vote.round = qc.round
  heavy : 2 * engine.fullWeight < 3 * ((signers.map Vote.voter).map engine.weightOf).sum

theorem validatorSet_after : (engine.after crypto input).validatorSet = engine.validatorSet := by
  cases input with
  | proposal header now => exact (engine.framed_receiveProposal crypto header now).validatorSet
  | vote vote =>
    rcases engine.receiveVote_cases crypto vote with
      ⟨answer, -, same⟩ | ⟨-, -, same | ⟨-, qc, -, -, -, same⟩⟩ <;>
      exact congrArg (fun result => result.1.validatorSet) same
  | viewChange msg =>
    obtain ⟨store, -, same | ⟨-, -, same⟩⟩ := engine.receiveViewChange_cases crypto msg <;>
      exact (congrArg BftEngine.validatorSet same :)
  | propose roots now | setWeights weights | seed height round => rfl
  | finalize header qc =>
    rcases engine.finalizeBlock_cases crypto header qc with ⟨error, same⟩ | ⟨-, -, same⟩ <;>
      exact congrArg (fun result => result.1.validatorSet) same

theorem validatorSet_afterAll : (engine.afterAll crypto inputs).validatorSet = engine.validatorSet := by
  induction inputs generalizing engine with
  | nil => rfl
  | cons input rest ih => exact ih.trans (validatorSet_after input)

/-- Over any stream of authentic votes, where those for the block in hand are of the round of the
vote that comes: a certificate is made of the votes of distinct validators with more than two
thirds of the weight. -/
theorem certificates_are_sound (crypto : Crypto) (keypair : KeyPair) (validatorSet : List Address)
    (inputs : List Input) (engine : BftEngine) (vote : Vote) (qc : QuorumCertificate)
    (reached : (BftEngine.new crypto keypair validatorSet).afterAll crypto inputs = engine)
    (authentic : ∀ given ∈ deliveredVotes (inputs ++ [.vote vote]), given.Authentic crypto validatorSet)
    (oneRound : ∀ block, engine.currentRound.proposedBlock = some block →
      ∀ given ∈ deliveredVotes (inputs ++ [.vote vote]), given.blockHash = block.blockHash crypto →
        given.height = vote.height → given.round = vote.round)
    (small : engine.weights.sum ≤ maxU64)
    (formed : (engine.receiveVote crypto vote).2 = .ok (some qc)) :
    SoundCertificate crypto (engine.receiveVote crypto vote).1 qc
      ((engine.receiveVote crypto vote).1.votesFor qc.blockHash) := by
  have validators : engine.validatorSet = validatorSet := by
    rw [← reached]
    exact validatorSet_afterAll inputs
  have book : VoteBook (Delivered crypto (inputs ++ [.vote vote]))
      (engine.receiveVote crypto vote).1 := by
    rw [← reached]
    exact voteBook_after (voteBook_afterAll inputs rfl) (.vote vote)
  rcases engine.receiveVote_cases crypto vote with
    ⟨answer, failed, same⟩ | ⟨-, here, same | ⟨block, made, proposed, quorum, isNew, same⟩⟩
  · rw [same] at formed
    exact absurd formed (failed qc)
  · rw [same] at formed
    cases formed
  rw [same] at formed book ⊢
  obtain rfl : made = qc := by
    simpa using formed
  have hash : made.blockHash = block.blockHash crypto := by
    rw [isNew]
    rfl
  obtain ⟨distinct, each⟩ := book.votesFor made.blockHash
  rw [← hash] at isNew quorum
  constructor
  case certified =>
    rw [isNew]
    rfl
  case distinct => exact distinct
  case member =>
    intro given mem
    obtain ⟨⟨isDelivered, signed⟩, -, -⟩ := each given mem
    have known := (authentic given isDelivered signed).1
    rw [← validators] at known
    exact known
  case ownKey =>
    intro given mem
    obtain ⟨⟨isDelivered, signed⟩, -, -⟩ := each given mem
    exact (authentic given isDelivered signed).2
  case signed => exact fun given mem => (each given mem).1.2
  case target =>
    intro given mem
    obtain ⟨⟨isDelivered, -⟩, height, isFor⟩ := each given mem
    have atHeight := height.trans here.symm
    have atRound := oneRound block proposed given isDelivered (isFor.trans hash) atHeight
    rw [isNew]
    exact ⟨isFor, atHeight, atRound⟩
  case heavy => exact (engine.recordVote vote).heavy_of_isQuorum small quorum

/-! ### A network without secrets, for examples -/

/-- Digests are the texts themselves, and everybody's address is the key. -/
def plainCrypto : Crypto where
  hashData := id
  hashMultiple := List.flatten
  addressOf := id
  verifySignature key message signature := .ok (signature = key ++ message)

def plainKeys : KeyPair where
  publicKey := name
  sign message := name ++ message
  ed25519PublicKey := name
  signEd25519 message := name ++ message

def plainRoots : BlockRoots := ⟨[], [], [], [], [], [], []⟩

def fourValidators : List Address := [[1], [2], [3], [4]]

def plainEngine : BftEngine :=
  BftEngine.new plainCrypto (plainKeys name) fourValidators

def firstHeader : BlockHeader := ((plainEngine [1]).proposeBlock plainCrypto plainRoots 0).2

def plainVote : Vote :=
  Vote.new plainCrypto (firstHeader.blockHash plainCrypto) 0 0 0 (plainKeys name)

/-- The second validator, with the first block and the votes of two others. -/
def engineWith (first second : PublicKey) : BftEngine :=
  (plainEngine [2]).afterAll plainCrypto
    [.proposal firstHeader 0, .vote (plainVote first), .vote (plainVote second)]

def plainQc (names : List PublicKey) : QuorumCertificate :=
  QuorumCertificate.new plainCrypto (firstHeader.blockHash plainCrypto) 0 0 0 (names.map plainVote)

theorem certificate_of_three_validators :
    SoundCertificate plainCrypto ((engineWith [1] [2]).receiveVote plainCrypto (plainVote [3])).1
      (plainQc [[3], [2], [1]])
      (((engineWith [1] [2]).receiveVote plainCrypto (plainVote [3])).1.votesFor
        (firstHeader.blockHash plainCrypto)) := by
  have votes : ∀ vote ∈ [plainVote [1], plainVote [2], plainVote [3]], vote.voter ∈ fourValidators ∧
      plainCrypto.addressOf vote.voterPublicKey = vote.voter ∧ vote.round = 0 := by
    decide
  refine certificates_are_sound plainCrypto (plainKeys [2]) fourValidators
    [.proposal firstHeader 0, .vote (plainVote [1]), .vote (plainVote [2])] _ (plainVote [3])
    (plainQc [[3], [2], [1]]) rfl ?_ ?_ (by decide +kernel) (by decide +kernel)
  · intro vote mem _
    exact ⟨(votes vote mem).1, (votes vote mem).2.1⟩
  · intro block _ vote mem _ _
    exact (votes vote mem).2.2

/-- Without weights an outsider's vote counts like a validator's: three outsiders are a quorum of
a committee of four. -/
theorem outsiders_form_certificate : ((engineWith [5] [6]).receiveVote plainCrypto (plainVote [7])).2 =
        .ok (some (plainQc [[7], [6], [5]])) ∧
      (∀ vote ∈ ((engineWith [5] [6]).receiveVote plainCrypto (plainVote [7])).1.votesFor
        (firstHeader.blockHash plainCrypto), vote.voter ∉ fourValidators) ∧
      ¬ SoundCertificate plainCrypto
        ((engineWith [5] [6]).receiveVote plainCrypto (plainVote [7])).1 (plainQc [[7], [6], [5]])
        (((engineWith [5] [6]).receiveVote plainCrypto (plainVote [7])).1.votesFor
          (firstHeader.blockHash plainCrypto)) := by
  refine ⟨by decide +kernel, by decide +kernel, fun sound => ?_⟩
  have member := sound.member (plainVote [7]) (by decide)
  exact absurd member (by decide)

/-! ## Rounds -/

/-- Requests of distinct validators, each signed under its own key, for a round of a height. -/
structure AskedFor (crypto : Crypto) (validatorSet : List Address) (height round : Nat)
    (msgs : List ViewChangeMsg) : Prop where
  distinct : (msgs.map ViewChangeMsg.sender).Nodup
  member : ∀ msg ∈ msgs, msg.sender ∈ validatorSet
  ownKey : ∀ msg ∈ msgs, crypto.addressOf msg.senderPk = msg.sender
  signed : ∀ msg ∈ msgs, msg.verify crypto = .ok true
  target : ∀ msg ∈ msgs, msg.height = height ∧ msg.newRound = round

/-- The requests in hand are what `AskedFor` says, each under its height and round. -/
def ViewBook (crypto : Crypto) (validatorSet : List Address) (store : ForkChoiceStore) : Prop :=
  ∀ height round msgs, store.viewChanges.lookup (height, round) = some msgs →
    AskedFor crypto validatorSet height round msgs

variable {validatorSet} {height round : Nat} {msgs : List ViewChangeMsg} {msg : ViewChangeMsg}

theorem AskedFor.nil : AskedFor crypto validatorSet height round [] := by
  constructor <;> simp

theorem AskedFor.push (asked : AskedFor crypto validatorSet msg.height msg.newRound msgs)
    (authentic : msg.Authentic crypto validatorSet) (signed : msg.verify crypto = .ok true)
    (fresh : ∀ other ∈ msgs, other.sender ≠ msg.sender) :
    AskedFor crypto validatorSet msg.height msg.newRound (msgs ++ [msg]) := by
  obtain ⟨known, ownKey⟩ := authentic signed
  constructor
  case distinct =>
    rw [map_append, nodup_append]
    refine ⟨asked.distinct, nodup_singleton _, ?_⟩
    intro sender mem other last same
    obtain ⟨earlier, inMsgs, rfl⟩ := mem_map.mp mem
    rw [map_singleton, mem_singleton] at last
    exact fresh earlier inMsgs (same.trans last)
  all_goals refine forall_mem_append.mpr ⟨?_, forall_mem_singleton.mpr ?_⟩
  · exact asked.member
  · exact known
  · exact asked.ownKey
  · exact ownKey
  · exact asked.signed
  · exact signed
  · exact asked.target
  · exact ⟨rfl, rfl⟩

namespace ViewBook

variable {store after' : ForkChoiceStore}

theorem askedWith (book : ViewBook crypto validatorSet store) (msg : ViewChangeMsg) :
    AskedFor crypto validatorSet msg.height msg.newRound (store.askedWith msg) := by
  rw [ForkChoiceStore.askedWith]
  cases found : store.viewChanges.lookup _ with
  | none => exact AskedFor.nil
  | some msgs => exact book _ _ _ found

theorem insert (book : ViewBook crypto validatorSet store)
    (asked : AskedFor crypto validatorSet height round msgs)
    (same : after'.viewChanges = store.viewChanges.insert (height, round) msgs) :
    ViewBook crypto validatorSet after' := by
  intro otherHeight otherRound found stored
  rw [same] at stored
  rcases KeyedMap.lookup_of_insert stored with ⟨key, rfl⟩ | before
  · obtain ⟨rfl, rfl⟩ := Prod.mk.inj key
    exact asked
  · exact book _ _ _ before

theorem noted (book : ViewBook crypto validatorSet store)
    (authentic : msg.Authentic crypto validatorSet) (noted : store.Noted crypto msg after') :
    ViewBook crypto validatorSet after' := by
  cases noted with
  | same same =>
    intro height round msgs stored
    rw [same] at stored
    exact book _ _ _ stored
  | again same => exact book.insert (book.askedWith msg) same
  | added signed fresh more =>
    exact book.insert ((book.askedWith msg).push authentic signed fresh) more

section

variable (book : ViewBook crypto validatorSet engine.forkChoice)

include book

theorem framed (same : Framed engine next) : ViewBook crypto validatorSet next.forkChoice := by
  intro height round msgs stored
  rw [same.viewChanges] at stored
  exact book _ _ _ stored

theorem advance : ViewBook crypto validatorSet (engine.advance header qc).forkChoice := by
  intro height round msgs stored
  have before := KeyedMap.lookup_retain stored
  have same : (engine.forkChoice.updateLockedQc qc).viewChanges = engine.forkChoice.viewChanges := by
    rw [ForkChoiceStore.updateLockedQc]
    split <;> rfl
  rw [ForkChoiceStore.pruneBlocks, same] at before
  exact book _ _ _ before

theorem after (authentic : ∀ msg, input = .viewChange msg → msg.Authentic crypto validatorSet) :
    ViewBook crypto validatorSet (engine.after crypto input).forkChoice := by
  cases input with
  | proposal header now => exact book.framed (engine.framed_receiveProposal crypto header now)
  | vote vote =>
    rcases engine.receiveVote_cases crypto vote with
      ⟨answer, -, same⟩ | ⟨-, -, same | ⟨-, qc, -, -, -, same⟩⟩ <;>
      rw [BftEngine.after, same] <;> exact book
  | viewChange msg =>
    obtain ⟨store, noted, same | ⟨-, -, same⟩⟩ := engine.receiveViewChange_cases crypto msg <;>
      rw [BftEngine.after, same] <;> exact book.noted (authentic msg rfl) noted
  | propose roots now => exact book.framed (engine.framed_proposeBlock crypto roots now)
  | finalize header qc =>
    rcases engine.finalizeBlock_cases crypto header qc with ⟨error, same⟩ | ⟨-, -, same⟩ <;>
      rw [BftEngine.after, same]
    · exact book
    · exact book.advance header qc
  | setWeights weights | seed height round => exact book

end

theorem afterAll (inputs : List Input)
    (authentic : ∀ msg, Input.viewChange msg ∈ inputs → msg.Authentic crypto validatorSet)
    (start : engine.forkChoice.viewChanges = ∅) :
    ViewBook crypto validatorSet (engine.afterAll crypto inputs).forkChoice := by
  induction inputs using List.reverseRecOn with
  | nil =>
    intro height round msgs stored
    rw [BftEngine.afterAll, foldl_nil, start] at stored
    cases stored
  | append_singleton inputs input ih =>
    rw [BftEngine.afterAll, foldl_append]
    refine (ih fun msg mem => authentic msg (mem_append_left _ mem)).after input ?_
    rintro msg rfl
    exact authentic msg (mem_append_right _ (mem_singleton_self _))

end ViewBook

/-- The reasons for which a round may begin: its proposer has signed a header of it, or a quorum
of validators has asked for it. -/
inductive Granted (crypto : Crypto) (engine : BftEngine) (height round : Nat) : Prop where
  | proposed (header : BlockHeader) (here : header.height = height) (isRound : header.round = round)
      (elected : engine.proposerAt height round = some header.proposer)
      (member : header.proposer ∈ engine.validatorSet) (signed : header.Signed crypto)
  | asked (msgs : List ViewChangeMsg)
      (asked : AskedFor crypto engine.validatorSet height round msgs)
      (quorum : engine.quorumSize ≤ msgs.length)

/-- Over any stream of authentic headers and requests, in which the node itself does not set the
round: the round of a height rises only to one that the committee has granted. -/
theorem committee_moves_the_round (crypto : Crypto) (keypair : KeyPair)
    (validatorSet : List Address) (inputs : List Input) (input : Input) (engine : BftEngine)
    (reached : (BftEngine.new crypto keypair validatorSet).afterAll crypto inputs = engine)
    (headers : ∀ header now, input = .proposal header now → header.Authentic crypto validatorSet)
    (requests : ∀ msg, Input.viewChange msg ∈ inputs ++ [input] → msg.Authentic crypto validatorSet)
    (notSeeded : ∀ height round, input ≠ .seed height round)
    (sameHeight : (engine.after crypto input).currentRound.height = engine.currentRound.height)
    (rises : engine.currentRound.round < (engine.after crypto input).currentRound.round) :
    Granted crypto engine engine.currentRound.height
      (engine.after crypto input).currentRound.round := by
  have validators : engine.validatorSet = validatorSet := by
    rw [← reached]
    exact validatorSet_afterAll inputs
  have book : ViewBook crypto validatorSet engine.forkChoice := by
    rw [← reached]
    exact ViewBook.afterAll inputs (fun msg mem => requests msg (mem_append_left _ mem)) rfl
  cases input with
  | proposal header now =>
    rcases engine.round_receiveProposal crypto header now with same | ⟨here, elected, moved⟩
    · exact absurd rises (by rw [BftEngine.after, same]; exact lt_irrefl _)
    rw [BftEngine.after, moved]
    rw [here] at elected
    have member := engine.mem_of_proposerAt elected
    refine .proposed header here rfl elected member ?_
    apply headers header now rfl
    rw [← validators]
    exact member
  | viewChange msg =>
    have authentic := requests msg (mem_append_right _ (mem_singleton_self _))
    obtain ⟨store, noted, same | ⟨here, ⟨msgs, found, enough⟩, moved⟩⟩ :=
      engine.receiveViewChange_cases crypto msg
    · exact absurd rises (by rw [BftEngine.after, same]; exact lt_irrefl _)
    · rw [BftEngine.after, moved, ← here]
      have asked := book.noted authentic noted _ _ _ found
      rw [← validators] at asked
      exact .asked msgs asked enough
  | vote vote =>
    rcases engine.receiveVote_cases crypto vote with
      ⟨answer, -, same⟩ | ⟨-, -, same | ⟨-, qc, -, -, -, same⟩⟩ <;>
      exact absurd rises (by rw [BftEngine.after, same]; exact lt_irrefl _)
  | propose roots now | setWeights weights => exact absurd rises (lt_irrefl _)
  | finalize header qc =>
    rcases engine.finalizeBlock_cases crypto header qc with ⟨error, same⟩ | ⟨-, -, same⟩
    · exact absurd rises (by rw [BftEngine.after, same]; exact lt_irrefl _)
    · exact absurd rises (by rw [BftEngine.after, same]; exact Nat.not_lt_zero _)
  | seed height round => exact absurd rfl (notSeeded height round)

/-- The header of a later round, as its proposer would sign it. -/
def laterHeader : BlockHeader :=
  BlockHeader.sign plainCrypto { firstHeader with round := 5, proposer := [2] } (plainKeys [2])

theorem round_of_signed_header :
    ((plainEngine [1]).after plainCrypto (.proposal laterHeader 0)).currentRound.round = 5 ∧
      Granted plainCrypto (plainEngine [1]) 0
        ((plainEngine [1]).after plainCrypto (.proposal laterHeader 0)).currentRound.round := by
  refine ⟨by decide, committee_moves_the_round plainCrypto (plainKeys [1]) fourValidators []
    (.proposal laterHeader 0) (plainEngine [1]) rfl ?_ ?_ ?_ (by decide) (by decide)⟩
  · rintro header now same
    obtain ⟨rfl, -⟩ := Input.proposal.inj same
    exact fun _ => ⟨by decide, by decide⟩
  · intro msg mem
    simp at mem
  · intro height round same
    cases same

/-- The same network, in which nobody has signed anything. -/
def silentCrypto : Crypto := { plainCrypto with verifySignature := fun _ _ _ => .ok false }

/-- A header that nobody signed moves the round, for it names the proposer of its round. -/
theorem forged_header_moves_round :
    ((plainEngine [1]).after silentCrypto (.proposal laterHeader 0)).currentRound.round = 5 ∧
      ((plainEngine [1]).after silentCrypto (.proposal laterHeader 0)).currentRound.height = 0 ∧
      ¬ Granted silentCrypto (plainEngine [1]) 0 5 := by
  refine ⟨by decide, by decide, ?_⟩
  intro granted
  cases granted with
  | proposed header here isRound elected member signed => cases signed.verified
  | asked msgs asked quorum =>
    cases msgs with
    | nil => exact absurd quorum (by decide)
    | cons msg rest => cases asked.signed msg mem_cons_self

end EgoChain.Bft
