import EgoChain.Consensus.Tendermint
import EgoChain.Foundations.Merkle
import EgoChain.Foundations.Texts

/-!
# The older voting engine

One round of votes decides a block.  A member votes for the block of the round's
proposer, the votes are counted by the weight of their voters, and more than two
thirds make a certificate with which the block is finalized.  Members that wait
too long ask for the next round.

A call returns the engine after it together with its answer, because some calls
change the engine before they fail.  Clocks are arguments.  The weights and the
counters have the additions of the originals, which saturate or wrap.
-/

namespace EgoChain.Bft

open EgoChain.Foundations
open EgoChain.Consensus (satAdd64)

abbrev Hash := Text
abbrev Address := Text
abbrev PublicKey := Text
abbrev Signature := Text

/-! ## Keys and digests -/

/-- The functions of the cryptographic libraries. -/
structure Crypto where
  hashData : Text → Hash
  hashMultiple : List Text → Hash
  /-- `Address::from_public_key`. -/
  addressOf : PublicKey → Address
  verifySignature : PublicKey → Text → Signature → Except Text Bool

/-- A key pair, with the public key and the signatures of the network's scheme. -/
structure KeyPair where
  publicKey : PublicKey
  sign : Text → Signature
  ed25519PublicKey : PublicKey
  signEd25519 : Text → Signature

inductive PoCError where
  | signatureVerificationFailed (reason : Text)
  | validationFailed (reason : Text)
  deriving DecidableEq

def Crypto.check (crypto : Crypto) (key : PublicKey) (message : Text) (signature : Signature) :
    Except PoCError Bool :=
  (crypto.verifySignature key message signature).mapError .signatureVerificationFailed

def zeroHash : Hash := List.replicate 32 0

/-- `merkle_root`: the last digest of an odd layer is joined with itself. -/
def merkleRoot (crypto : Crypto) (hashes : List Hash) : Hash :=
  match climb (fun left right => crypto.hashMultiple [left, right]) hashes.length hashes with
  | [] => zeroHash
  | top :: _ => top

/-! ## Headers -/

structure BlockRoots where
  txRoot : Hash
  stateRoot : Hash
  receiptsRoot : Hash
  eventsRootPost : Hash
  eventsRootPoc : Hash
  rollupRoot : Hash
  daRoot : Hash
  deriving DecidableEq

structure BlockHeader where
  height : Nat
  epoch : Nat
  slot : Nat
  round : Nat
  prevHash : Hash
  proposer : Address
  roots : BlockRoots
  vrfOutput : Hash
  vrfProof : Text
  timestamp : Nat
  signature : Signature
  proposerPublicKey : PublicKey
  deriving DecidableEq

namespace BlockHeader

variable (crypto : Crypto) (header : BlockHeader)

/-- Neither the proof of the lot nor the signature and its key are hashed. -/
def blockHash : Hash :=
  crypto.hashMultiple [leBytes 8 header.height, leBytes 8 header.epoch, leBytes 8 header.slot,
      leBytes 4 header.round, header.prevHash, header.proposer, header.roots.txRoot,
      header.roots.stateRoot, header.roots.receiptsRoot, header.roots.eventsRootPost,
      header.roots.eventsRootPoc, header.roots.rollupRoot, header.roots.daRoot, header.vrfOutput,
      leBytes 8 header.timestamp]

def signingBytes : Text := utf8 "ego/block/v1:" ++ header.blockHash crypto

def sign (keypair : KeyPair) : BlockHeader :=
  { header with
    proposerPublicKey := keypair.publicKey
    signature := keypair.sign (header.signingBytes crypto) }

/-- The key is the header's own; nothing compares it with the proposer's address. -/
def verifySignature : Except PoCError Bool :=
  crypto.check header.proposerPublicKey (header.signingBytes crypto) header.signature

end BlockHeader

def computeVrfOutput (crypto : Crypto) (keypair : KeyPair) (epoch slot : Nat) : Hash × Text :=
  let input := crypto.hashMultiple [keypair.ed25519PublicKey, leBytes 8 epoch, leBytes 8 slot]
  let proof := keypair.signEd25519 input
  (crypto.hashMultiple [utf8 "ego/vrf/v1:", proof], proof)

/-! ## Votes and certificates -/

structure Vote where
  blockHash : Hash
  height : Nat
  epoch : Nat
  round : Nat
  voter : Address
  voterPublicKey : PublicKey
  signature : Signature
  deriving DecidableEq

namespace Vote

def msg (blockHash : Hash) (height epoch round : Nat) : Text :=
  utf8 "ego/vote/v1:" ++ blockHash ++ leBytes 8 height ++ leBytes 8 epoch ++ leBytes 4 round

def new (crypto : Crypto) (blockHash : Hash) (height epoch round : Nat) (keypair : KeyPair) : Vote where
  blockHash := blockHash
  height := height
  epoch := epoch
  round := round
  voter := crypto.addressOf keypair.publicKey
  voterPublicKey := keypair.publicKey
  signature := keypair.sign (msg blockHash height epoch round)

/-- The key is the vote's own; nothing compares it with the voter's address. -/
def verify (crypto : Crypto) (vote : Vote) : Except PoCError Bool :=
  crypto.check vote.voterPublicKey (msg vote.blockHash vote.height vote.epoch vote.round) vote.signature

end Vote

structure QuorumCertificate where
  blockHash : Hash
  height : Nat
  epoch : Nat
  round : Nat
  votersBitmap : List Bool
  sigsRoot : Hash
  deriving DecidableEq

namespace QuorumCertificate

def new (crypto : Crypto) (blockHash : Hash) (height epoch round : Nat) (votes : List Vote) :
    QuorumCertificate where
  blockHash := blockHash
  height := height
  epoch := epoch
  round := round
  votersBitmap := votes.map fun _ => true
  sigsRoot := merkleRoot crypto (votes.map fun vote => crypto.hashData vote.signature)

variable (qc : QuorumCertificate)

def voterCount : Nat := qc.votersBitmap.count true

/-- Of a later epoch, or of a later round in the same one, than what is kept. -/
def isHigher : Option QuorumCertificate → Bool
  | none => true
  | some kept => kept.epoch < qc.epoch || (qc.epoch == kept.epoch && kept.round < qc.round)

end QuorumCertificate

/-! ## Fork choice -/

structure ViewChangeMsg where
  newRound : Nat
  height : Nat
  epoch : Nat
  highQc : Option QuorumCertificate
  sender : Address
  senderPk : PublicKey
  signature : Signature
  deriving DecidableEq

namespace ViewChangeMsg

def signingBytes (newRound height epoch : Nat) : Text :=
  utf8 "ego/viewchange/v1:" ++ leBytes 4 newRound ++ leBytes 8 height ++ leBytes 8 epoch

def new (crypto : Crypto) (newRound height epoch : Nat) (highQc : Option QuorumCertificate)
    (keypair : KeyPair) : ViewChangeMsg where
  newRound := newRound
  height := height
  epoch := epoch
  highQc := highQc
  sender := crypto.addressOf keypair.publicKey
  senderPk := keypair.publicKey
  signature := keypair.sign (signingBytes newRound height epoch)

/-- The certificate it carries is not signed. -/
def verify (crypto : Crypto) (msg : ViewChangeMsg) : Except PoCError Bool :=
  crypto.check msg.senderPk (signingBytes msg.newRound msg.height msg.epoch) msg.signature

end ViewChangeMsg

structure ForkChoiceStore where
  blocks : KeyedMap Nat (KeyedMap Hash BlockHeader) := ∅
  qcs : KeyedMap Hash QuorumCertificate := ∅
  highQc : Option QuorumCertificate := none
  lockedQc : Option QuorumCertificate := none
  viewChanges : KeyedMap (Nat × Nat) (List ViewChangeMsg) := ∅
  canonicalHead : Option Hash := none

namespace ForkChoiceStore

variable (crypto : Crypto) (store : ForkChoiceStore)

def addBlock (header : BlockHeader) : ForkChoiceStore :=
  let level := (store.blocks.lookup header.height).getD ∅
  { store with
    blocks := store.blocks.insert header.height (level.insert (header.blockHash crypto) header) }

variable (block : BlockHeader) (qc : QuorumCertificate)

def addQc : ForkChoiceStore :=
  { store with
    highQc := if qc.isHigher store.highQc then some qc else store.highQc
    qcs := store.qcs.insert qc.blockHash qc }

def updateLockedQc : ForkChoiceStore :=
  if qc.isHigher store.lockedQc then
    { store with lockedQc := some qc, canonicalHead := some qc.blockHash }
  else store

/-- The header of a hash, at whatever height it stands. -/
def headerOf (hash : Hash) : Option BlockHeader :=
  store.blocks.entries.findSome? fun level => level.2.lookup hash

/-- So many steps back from a hash. -/
def leadsBackTo (ancestor : Hash) : Nat → Hash → Bool
  | 0, _ => false
  | steps + 1, hash =>
    if hash = ancestor then true
    else
      match store.headerOf hash with
      | some header => leadsBackTo ancestor steps header.prevHash
      | none => false

def extendsLocked (ancestor : Hash) : Bool :=
  if block.blockHash crypto = ancestor then true
  else store.leadsBackTo ancestor 64 block.prevHash

def isSafeToVote : Bool :=
  match store.lockedQc with
  | none => true
  | some locked =>
    if locked.epoch < block.epoch then true
    else if block.epoch = locked.epoch then store.extendsLocked crypto block locked.blockHash
    else false

def getCanonicalHead : Option BlockHeader :=
  store.canonicalHead.bind store.headerOf

/-- The certificate of the latest epoch and round, the last one of several. -/
def bestQc (qcs : List QuorumCertificate) : Option QuorumCertificate :=
  qcs.foldl (fun best qc =>
    match best with
    | none => some qc
    | some kept =>
      if kept.epoch < qc.epoch ∨ kept.epoch = qc.epoch ∧ kept.round ≤ qc.round then some qc
      else some kept) none

/-- One request of each sender counts; who the sender is plays no part. -/
def addViewChange (msg : ViewChangeMsg) (quorum : Nat) :
    ForkChoiceStore × Except PoCError (Option (Option QuorumCertificate)) :=
  match msg.verify crypto with
  | .error error => (store, .error error)
  | .ok false =>
    (store, .error (.signatureVerificationFailed (utf8 "ViewChangeMsg signature invalid")))
  | .ok true =>
    let msgs := (store.viewChanges.lookup (msg.height, msg.newRound)).getD []
    if msgs.any fun other => other.sender = msg.sender then
      ({ store with viewChanges := store.viewChanges.insert (msg.height, msg.newRound) msgs }, .ok none)
    else
      let msgs := msgs ++ [msg]
      let store :=
        { store with viewChanges := store.viewChanges.insert (msg.height, msg.newRound) msgs }
      if quorum ≤ msgs.length then
        match bestQc (msgs.filterMap (·.highQc)) with
        | some qc => (store.addQc qc, .ok (some (some qc)))
        | none => (store, .ok (some none))
      else (store, .ok none)

def pruneViewChanges (minHeight : Nat) : ForkChoiceStore :=
  { store with viewChanges := store.viewChanges.retain fun key => minHeight ≤ key.1 }

def highestViewChangeRound (height : Nat) : Nat :=
  ((store.viewChanges.keys.filter fun key => key.1 = height).map Prod.snd).foldl max 0

def pruneBlocks (keepFromHeight : Nat) : ForkChoiceStore :=
  { store with blocks := store.blocks.retain fun height => keepFromHeight ≤ height }

end ForkChoiceStore

/-! ## The engine -/

inductive RoundPhase where
  | propose
  | vote
  | commit
  | finalized
  | viewChange
  deriving DecidableEq

structure RoundState where
  height : Nat
  epoch : Nat
  round : Nat
  phase : RoundPhase := .propose
  proposedBlock : Option BlockHeader := none
  votes : KeyedMap Address Vote := ∅
  qc : Option QuorumCertificate := none
  /-- The block this member has voted for since the state was set up. -/
  votedFor : Option Hash := none

structure BftEngine where
  keypair : KeyPair
  address : Address
  /-- One weight for each validator, or none at all. -/
  weights : List Nat := []
  validatorSet : List Address
  finalizedBlocks : List (BlockHeader × QuorumCertificate) := []
  currentRound : RoundState := { height := 0, epoch := 0, round := 0 }
  currentEpoch : Nat := 0
  currentHeight : Nat := 0
  forkChoice : ForkChoiceStore := {}

def saturatingSum (weights : List Nat) : Nat := weights.foldl satAdd64 0

namespace BftEngine

def new (crypto : Crypto) (keypair : KeyPair) (validatorSet : List Address) : BftEngine where
  keypair := keypair
  address := crypto.addressOf keypair.publicKey
  validatorSet := validatorSet

variable (crypto : Crypto) (engine : BftEngine)

def seedHeightRound (height round : Nat) : BftEngine :=
  { engine with
    currentHeight := height
    currentEpoch := height
    currentRound := { height := height, epoch := height, round := round } }

def quorumSize : Nat := 2 * engine.validatorSet.length / 3 + 1

def setWeights (weights : List Nat) : BftEngine :=
  { engine with weights := if weights.length = engine.validatorSet.length then weights else [] }

/-- Without weights every address counts one, a validator's or not. -/
def weightOf (address : Address) : Nat :=
  if engine.weights.isEmpty then 1
  else ((engine.validatorSet.idxOf? address).bind fun seat => engine.weights[seat]?).getD 0

def totalWeight : Nat :=
  if engine.weights.isEmpty then engine.validatorSet.length else saturatingSum engine.weights

variable (voters : List Address)

/-- The voters seen and the weight they have brought. -/
def tally : List Address × Nat :=
  voters.foldl (fun counted voter =>
    if voter ∈ counted.1 then counted
    else (counted.1 ++ [voter], satAdd64 counted.2 (engine.weightOf voter))) ([], 0)

def isQuorum : Bool :=
  if engine.totalWeight = 0 then false
  else engine.totalWeight * 2 < (engine.tally voters).2 * 3

/-- Walk along the weights until the pick falls into one. -/
def walk : Nat → List (Nat × Address) → Option Address
  | _, [] => none
  | pick, (weight, validator) :: rest =>
    if pick < weight then some validator else walk (pick - weight) rest

def proposerAt (height round : Nat) : Option Address :=
  let turn := (height + round) % 2 ^ 64
  let inTurn := engine.validatorSet[turn % engine.validatorSet.length]?
  if engine.validatorSet.isEmpty then none
  else if engine.weights.length ≠ engine.validatorSet.length then inTurn
  else if saturatingSum engine.weights = 0 then inTurn
  else
    (walk (turn % saturatingSum engine.weights) (engine.weights.zip engine.validatorSet)).or
      engine.validatorSet.getLast?

/-- The parent is the canonical head, or else the last finalized block. -/
def proposeBlock (roots : BlockRoots) (now : Nat) : BftEngine × BlockHeader :=
  let slot := now / 100
  let prevHash :=
    match engine.forkChoice.getCanonicalHead with
    | some head => head.blockHash crypto
    | none =>
      match engine.finalizedBlocks.getLast? with
      | some (last, _) => last.blockHash crypto
      | none => zeroHash
  let (vrfOutput, vrfProof) := computeVrfOutput crypto engine.keypair engine.currentEpoch slot
  let header := BlockHeader.sign crypto
    { height := engine.currentHeight
      epoch := engine.currentEpoch
      slot := slot
      round := engine.currentRound.round
      prevHash := prevHash
      proposer := engine.address
      roots := roots
      vrfOutput := vrfOutput
      vrfProof := vrfProof
      timestamp := now
      signature := []
      proposerPublicKey := [] } engine.keypair
  ({ engine with
      forkChoice := engine.forkChoice.addBlock crypto header
      currentRound := { engine.currentRound with
        proposedBlock := some header
        phase := .vote } }, header)

variable (header : BlockHeader)

/-- Take over the round of a header that is ahead. -/
def joinRound : BftEngine :=
  if engine.currentRound.height = engine.currentHeight ∧ engine.currentRound.round < header.round then
    { engine with
      currentRound := { engine.currentRound with round := header.round, phase := .propose } }
  else engine

def keepBlock : BftEngine :=
  { engine with forkChoice := engine.forkChoice.addBlock crypto header }

def recordProposal : BftEngine :=
  { engine with
    currentRound := { engine.currentRound with
      proposedBlock := some header
      votedFor := some (header.blockHash crypto)
      phase := .vote } }

/-- The vote is of the engine's own round, whatever the round of the header. -/
def voteFor : Vote :=
  Vote.new crypto (header.blockHash crypto) header.height header.epoch engine.currentRound.round
    engine.keypair

/-- The end of `receive_proposal`: no second vote for another block. -/
def castVote : BftEngine × Option Vote :=
  if engine.currentRound.votedFor.any fun earlier => earlier ≠ header.blockHash crypto then
    (engine, none)
  else (engine.recordProposal crypto header, some (engine.voteFor crypto header))

def receiveProposal (now : Nat) : BftEngine × Except PoCError (Option Vote) :=
  if header.height ≠ engine.currentHeight then (engine, .ok none)
  else if header.round < engine.currentRound.round then (engine, .ok none)
  else if engine.proposerAt engine.currentHeight header.round ≠ some header.proposer then
    (engine, .ok none)
  else
    -- The round moves before the signature is looked at.
    let engine := engine.joinRound header
    match header.verifySignature crypto with
    | .error error => (engine, .error error)
    | .ok false => (engine, .ok none)
    | .ok true =>
      if 30000 < now - header.timestamp then (engine, .ok none)
      else
        let engine := engine.keepBlock crypto header
        if engine.forkChoice.isSafeToVote crypto header then
          ((engine.castVote crypto header).1, .ok (engine.castVote crypto header).2)
        else (engine, .ok none)

/-- The votes in hand for a block. -/
def votesFor (hash : Hash) : List Vote :=
  (engine.currentRound.votes.entries.map Sigma.snd).filter fun vote => vote.blockHash = hash

def holdQc (qc : QuorumCertificate) : BftEngine :=
  { engine with
    currentRound := { engine.currentRound with qc := some qc, phase := .commit }
    forkChoice := engine.forkChoice.addQc qc }

variable (qc : QuorumCertificate) (vote : Vote)

/-- Count the votes for the proposed block; the certificate takes its height, epoch and round
from the vote that came last. -/
def certify : BftEngine × Option QuorumCertificate :=
  match engine.currentRound.proposedBlock with
  | none => (engine, none)
  | some block =>
    let votes := engine.votesFor (block.blockHash crypto)
    if engine.currentRound.qc.isSome then (engine, none)
    else if engine.isQuorum (votes.map Vote.voter) then
      let qc := QuorumCertificate.new crypto (block.blockHash crypto) vote.height vote.epoch
        vote.round votes
      (engine.holdQc qc, some qc)
    else (engine, none)

def recordVote : BftEngine :=
  { engine with
    currentRound := { engine.currentRound with
      votes := engine.currentRound.votes.insert vote.voter vote } }

def receiveVote : BftEngine × Except PoCError (Option QuorumCertificate) :=
  match vote.verify crypto with
  | .error error => (engine, .error error)
  | .ok false => (engine, .ok none)
  | .ok true =>
    if vote.height ≠ engine.currentRound.height then (engine, .ok none)
    else
      (((engine.recordVote vote).certify crypto vote).1,
        .ok ((engine.recordVote vote).certify crypto vote).2)

/-- The next height, in round 0. -/
def advance : BftEngine :=
  let newHeight := (header.height + 1) % 2 ^ 64
  let newEpoch := (header.epoch + 1) % 2 ^ 64
  let finalized := engine.finalizedBlocks ++ [(header, qc)]
  { engine with
    finalizedBlocks := if 1024 < finalized.length then finalized.drop 1 else finalized
    forkChoice := ((engine.forkChoice.updateLockedQc qc).pruneBlocks
      (header.height - 64)).pruneViewChanges newHeight
    currentHeight := newHeight
    currentEpoch := newEpoch
    currentRound := { height := newHeight, epoch := newEpoch, round := 0 } }

def finalizeBlock : BftEngine × Except PoCError Unit :=
  if qc.blockHash ≠ header.blockHash crypto then
    (engine, .error (.validationFailed (utf8 "QC block_hash mismatch")))
  else if qc.voterCount < engine.quorumSize then
    (engine, .error (.validationFailed (utf8 "QC insufficient votes " ++
      Text.decimal qc.voterCount ++ utf8 "/" ++ Text.decimal engine.validatorSet.length)))
  else (engine.advance header qc, .ok ())

/-- Ask for the next round, or for the highest one that anybody has asked for. -/
def triggerViewChange : ViewChangeMsg :=
  ViewChangeMsg.new crypto (max ((engine.currentRound.round + 1) % 2 ^ 32)
      (engine.forkChoice.highestViewChangeRound engine.currentRound.height))
    engine.currentRound.height engine.currentRound.epoch engine.forkChoice.highQc engine.keypair

/-- The new round begins with a fresh state: no votes, and nothing voted for. -/
def enterRound (newRound : Nat) : BftEngine :=
  { engine with
    currentRound :=
      { height := engine.currentRound.height
        epoch := engine.currentRound.epoch
        round := newRound } }

def receiveViewChange (msg : ViewChangeMsg) : BftEngine × Except PoCError (Option Nat) :=
  if msg.height ≠ engine.currentRound.height ∨ msg.newRound ≤ engine.currentRound.round then
    (engine, .ok none)
  else
    let (store, result) := engine.forkChoice.addViewChange crypto msg engine.quorumSize
    let engine := { engine with forkChoice := store }
    match result with
    | .error error => (engine, .error error)
    | .ok none => (engine, .ok none)
    | .ok (some none) => (engine.enterRound msg.newRound, .ok (some msg.newRound))
    | .ok (some (some qc)) =>
      ({ engine.enterRound msg.newRound with forkChoice := store.addQc qc }, .ok (some msg.newRound))

end BftEngine

/-! ## Streams -/

/-- What reaches an engine: the messages of peers and the calls of its own node. -/
inductive Input where
  | proposal (header : BlockHeader) (now : Nat)
  | vote (vote : Vote)
  | viewChange (msg : ViewChangeMsg)
  | propose (roots : BlockRoots) (now : Nat)
  | finalize (header : BlockHeader) (qc : QuorumCertificate)
  | setWeights (weights : List Nat)
  | seed (height round : Nat)

namespace BftEngine

variable (crypto : Crypto) (engine : BftEngine)

def after : Input → BftEngine
  | .proposal header now => (engine.receiveProposal crypto header now).1
  | .vote vote => (engine.receiveVote crypto vote).1
  | .viewChange msg => (engine.receiveViewChange crypto msg).1
  | .propose roots now => (engine.proposeBlock crypto roots now).1
  | .finalize header qc => (engine.finalizeBlock crypto header qc).1
  | .setWeights weights => engine.setWeights weights
  | .seed height round => engine.seedHeightRound height round

def afterAll (inputs : List Input) : BftEngine :=
  inputs.foldl (after crypto) engine

end BftEngine

end EgoChain.Bft
