import EgoChain.Ledger.BlockRules
import EgoChain.Ledger.EscrowReleases

/-!
# Validation of a block from a peer

The checks a block goes through before it is written.  The rules of the other
modules (check-in batches, state certificates, the organisation, the vault, the
holds, post-quantum keys, storage, the shielded pool, the market, committees) are
taken as functions of the block and its transactions; the order of the checks,
and everything the ledger itself checks, is that of the source.
-/

namespace EgoChain.Ledger

open EgoChain.Foundations

def genesisHash : Text := utf8 "ego00000000000000000000000000000000000000000000000000000000genesis2"
def maxProposalClockSkewSecs : Int := 120
def legacyCheckinFromHeight : Nat := 31000
def drsFromHeight : Nat := 32601
def storagePayFromHeight : Nat := 35000
def maxFreeTxsPerBlock : Nat := 256

/-- A rule of another module. -/
abbrev BlockCheck := LedgerBlock → List LedgerTx → Except Text Unit

structure PeerRules where
  tx : TxEnv
  rewards : RewardRules
  /-- The clock of the node. -/
  now : Int
  /-- The blocks the node has stored, and the height of the last one. -/
  blockAt : Nat → Option LedgerBlock
  localTip : Nat
  state : ChainState
  escrowRuleActive : Nat → Bool
  deals : DealBook
  released : ReleaseIndex
  creditsView : CreditsView
  credits : CreditsLedger
  checkBlockProducer : LedgerBlock → Except Text Unit
  uptimeCheckinFresh : LedgerTx → Nat → Except Text Unit
  validateBatches : BlockCheck
  validateStateCert : BlockCheck
  validateDao : BlockCheck
  validateVault : BlockCheck
  validateHolds : BlockCheck
  validatePq : BlockCheck
  /-- The reveal, the committee and the certificate of a block at heights with drawn committees. -/
  checkCommittee : LedgerBlock → Bool → Option (List Text) → Except Text Unit
  checkStoragePay : LedgerTx → Nat → Except Text Unit
  validateStorageProof : LedgerTx → Nat → Except Text Unit
  validateCoverageProof : LedgerTx → Nat → Except Text Unit
  validateShielded : BlockCheck
  validateMarket : BlockCheck
  /-- The quorum certificate, given the number of votes of the parent. -/
  checkQuorum : LedgerBlock → Nat → Bool → Except Text Unit

/-! ## The hash of a block -/

def merkleLayer (hash : Text → Text) : List Text → List Text
  | [] => []
  | [last] => [hash (last ++ last)]
  | first :: second :: rest => hash (first ++ second) :: merkleLayer hash rest

/-- Halve the layer until one text is left; the length of the first layer is fuel enough. -/
def merkleTop (hash : Text → Text) : Nat → List Text → List Text
  | 0, layer => layer
  | fuel + 1, layer =>
    if 1 < layer.length then merkleTop hash fuel (merkleLayer hash layer) else layer

def computeMerkleRoot (hash : Text → Text) (hashes : List Text) : Text :=
  (merkleTop hash hashes.length (hashes.map hash)).headD (List.replicate 64 48)

def sortedTxRoot (env : TxEnv) (txs : List LedgerTx) : Text :=
  computeMerkleRoot env.blake3Hex ((txs.map LedgerTx.hash).mergeSort fun first second => first ≤ second)

def blockHashText (version : Text) (block : LedgerBlock) : Text :=
  version ++ block.prevHash ++ colon :: Text.decimal block.height ++ colon :: block.miner ++
    colon :: Text.signedDecimal block.timestamp ++ colon :: block.txMerkleRoot ++
    colon :: block.pocTicket

variable (env : TxEnv) (block : LedgerBlock)

def blockHashFor : Text :=
  env.blake3Hex (blockHashText (utf8 "ego/block/v2:") block)

def blockHashV3 : Text :=
  env.blake3Hex (blockHashText (utf8 "ego/block/v3:") block ++ colon :: block.stateRoot)

def verifyBlockHash : Bool :=
  block.hash = blockHashFor env block || block.stateRoot ≠ [] && block.hash = blockHashV3 env block

/-! ## Rules of the ledger -/

def satI64 (number : Int) : Int := max (-(2 ^ 63)) (min number (2 ^ 63 - 1))

def generatedWithBlock (tx : LedgerTx) : Bool :=
  tx.signature = utf8 "coinbase" && isReservedSystemSource tx.sender

variable (tx : LedgerTx)

def txAgeOk (blockTime : Int) : Bool :=
  generatedWithBlock tx ||
    satI64 (blockTime - 7 * 86400) ≤ tx.timestamp && tx.timestamp ≤ satI64 (blockTime + 86400)

def checkAges : Except Text Unit :=
  ensure (txAgeOk tx block.timestamp = true)
    (utf8 "tx " ++ tx.hash ++ utf8 " is dated " ++ Text.signedDecimal tx.timestamp ++
      utf8 ", outside the 7-day window around its block")

/-- Only the first check-in of a block is looked at. -/
def checkUptime (rules : PeerRules) (block : LedgerBlock) (txs : List LedgerTx) : Except Text Unit :=
  match txs.find? fun tx => tx.txType = utf8 "uptime" || tx.txType = utf8 "uptime_reward" with
  | none => .ok ()
  | some tx => do
      ensure (block.height < legacyCheckinFromHeight) (tx.txType ++ utf8 " " ++ tx.hash ++
          utf8 " refused: check-ins are signed with BLS and paid in check-in batches now")
      provided (tx.txType = utf8 "uptime")
        ((rules.uptimeCheckinFresh tx (block.height - 1)).mapError fun error =>
          utf8 "uptime check-in " ++ tx.hash ++ utf8 " rejected: " ++ error)

/-- No transaction of the type is in the block. -/
def refuseType (txType before after : Text) (txs : List LedgerTx) : Except Text Unit :=
  match txs.find? fun tx => tx.txType = txType with
  | none => .ok ()
  | some tx => .error (before ++ tx.hash ++ after)

def checkRegistrants (block : LedgerBlock) : List Text → List LedgerTx → Except Text Unit
  | _, [] => .ok ()
  | seen, tx :: rest => do
      ensure (tx.sender ∉ seen)
        (utf8 "block " ++ Text.decimal block.height ++ utf8 " registers " ++ tx.sender ++
          utf8 " more than once")
      checkRegistrants block (tx.sender :: seen) rest

def isFreeHousekeeping : Bool :=
  let toItself := !tx.sender.isEmpty && tx.recipient = tx.sender && tx.amount = 0
  tx.feeUegoc = 0 && !tx.sender.isEmpty && !isReservedSystemSource tx.sender &&
    (tx.txType = utf8 "validator_register" || tx.txType = utf8 "uptime" && toItself ||
      tx.txType = utf8 "post_proof" || tx.txType = utf8 "price_report" && toItself)

def checkHousekeeping (txs : List LedgerTx) : Except Text Unit := do
  refuseType (utf8 "poc_proof") (utf8 "coverage proof ")
    (utf8 " refused: coverage is proven in coverage batches now") txs
  checkRegistrants block [] (txs.filter fun tx => tx.txType = utf8 "validator_register")
  let free := (txs.filter isFreeHousekeeping).length
  ensure (free ≤ maxFreeTxsPerBlock)
    (utf8 "block " ++ Text.decimal block.height ++ utf8 " carries " ++ Text.decimal free ++
      utf8 " fee-free txs, more than " ++ Text.decimal maxFreeTxsPerBlock)

variable (rules : PeerRules) (block : LedgerBlock)
  (txs : List LedgerTx) (isProposal : Bool) (proposalMiners : Option (List Text))

def drsBlockRules : Except Text Unit := do
  ensure (block.txMerkleRoot = sortedTxRoot rules.tx txs)
    (utf8 "block " ++ Text.decimal block.height ++ utf8 " tx root does not match its transactions")
  rules.checkCommittee block isProposal proposalMiners

/-- The votes of the parent, if the block continues what the node has stored. -/
def checkParent : Except Text Nat :=
  if 1 < block.height then do
    let parent ← need (rules.blockAt (block.height - 1)) (utf8 "missing local parent")
    ensure (parent.hash = block.prevHash) (utf8 "prev_hash mismatch against local parent")
    return parent.voteCount
  else do
    ensure (block.prevHash = genesisHash) (utf8 "height-1 block does not point at genesis")
    return 0

/-! ## All checks -/

/-- The rules of the modules between the ledger's own. -/
def checkModules : Except Text Unit := do
  refuseType (utf8 "storage_reward") (utf8 "storage_reward ")
    (utf8 " refused: hosts are paid when their proofs land") txs
  rules.validateBatches block txs
  rules.validateStateCert block txs
  rules.validateDao block txs
  rules.validateVault block txs
  rules.validateHolds block txs
  rules.validatePq block txs
  provided (checkinFromHeight ≤ block.height) (checkHousekeeping block txs)
  provided (drsFromHeight ≤ block.height) (drsBlockRules rules block txs isProposal proposalMiners)
  provided (storagePayFromHeight ≤ block.height)
    (checkAll (fun tx => rules.checkStoragePay tx block.height) txs)
  checkAll (fun tx => rules.validateStorageProof tx (block.height - 1))
    (txs.filter fun tx => tx.txType = utf8 "post_proof")
  checkAll (fun tx => rules.validateCoverageProof tx (block.height - 1))
    (txs.filter fun tx => tx.txType = utf8 "poc_proof")
  rules.validateShielded block txs
  rules.validateMarket block txs

def validatePeerBlock (checkClock : Bool) (proposalMiners : Option (List Text)) : Except Text Unit :=
  if block.height = 0 then
    ensure (block.hash = genesisHash) (utf8 "invalid genesis hash")
  else do
    provided isProposal (refuseType (utf8 "faucet") (utf8 "faucet tx ")
        (utf8 " refused: the testnet faucet is closed") txs)
    ensure (verifyBlockHash rules.tx block = true) (utf8 "block hash/merkle verification failed")
    let skew := block.timestamp - rules.now
    ensure (checkClock = true → skew.natAbs ≤ maxProposalClockSkewSecs)
      (utf8 "proposal #" ++ Text.decimal block.height ++ utf8 " from " ++ block.miner ++
        utf8 " is stamped " ++ Text.decimal skew.natAbs ++ utf8 "s " ++
        (if 0 < skew then utf8 "ahead of" else utf8 "behind") ++
        utf8 " this node's clock; its producer's clock is wrong or the proposal is stale")
    rules.checkBlockProducer block
    provided (rules.escrowRuleActive block.height)
      ((validateEscrowReleases rules.deals rules.released block.timestamp txs).mapError
        EscrowError.message)
    (validateAllCredits rules.creditsView rules.credits block.height block.timestamp txs).mapError
      CreditsError.message
    provided (checkinFromHeight ≤ block.height) (checkAll (checkAges block) txs)
    checkUptime rules block txs
    checkModules rules block txs isProposal proposalMiners
    let parentVotes ← checkParent rules block
    rules.checkQuorum block parentVotes isProposal
    -- Only a block on top of the tip is checked against the balances.
    provided (rules.localTip + 1 = block.height)
      (validateBlockProtocolTxs rules.tx rules.rewards rules.state block txs)

/-! ## A plain node -/

/-- Hashes and addresses that spell out what they are made of. -/
def plainTxEnv : TxEnv where
  hashData bytes := bytes
  blake3 bytes := bytes
  escrowRuleAtTip := true
  checkKey _ := .ok ()
  verify key message signature := signature.take 1 = key.take 1 && message ≠ []
  addressOf _ key := utf8 "user" ++ key.take 1
  dilithiumAddressOf _ _ := []
  verifyDilithium _ _ _ := .ok false
  dilithiumDisabled := true
  unshieldBodyHash _ := none
  marketSettleShapeOk _ := false

def plainRewards : RewardRules where
  faucetAddress := utf8 "faucet"
  emissionV2Active _ := true
  emission _ := 0

/-- A node at block 40000 whose other modules have nothing to check. -/
def plainNode (state : ChainState) (deals : DealBook) : PeerRules where
  tx := plainTxEnv
  rewards := plainRewards
  now := 1000
  blockAt height := some { height := height, hash := utf8 "parent" }
  localTip := 40000
  state := state
  escrowRuleActive _ := true
  deals := deals
  released := ∅
  creditsView := ⟨deals.reservations, 0, fun _ => none⟩
  credits := ⟨∅, ∅⟩
  checkBlockProducer _ := .ok ()
  uptimeCheckinFresh _ _ := .ok ()
  validateBatches _ _ := .ok ()
  validateStateCert _ _ := .ok ()
  validateDao _ _ := .ok ()
  validateVault _ _ := .ok ()
  validateHolds _ _ := .ok ()
  validatePq _ _ := .ok ()
  checkCommittee _ _ _ := .ok ()
  checkStoragePay _ _ := .ok ()
  validateStorageProof _ _ := .ok ()
  validateCoverageProof _ _ := .ok ()
  validateShielded _ _ := .ok ()
  validateMarket _ _ := .ok ()
  checkQuorum _ _ _ := .ok ()

/-- The next block of the plain node, without rewards. -/
def plainBlock : LedgerBlock :=
  let block : LedgerBlock := {
    height := 40001, hash := [], prevHash := utf8 "parent", timestamp := 1000
    txCount := txs.length, txMerkleRoot := sortedTxRoot plainTxEnv txs }
  { block with hash := blockHashFor plainTxEnv block }

end EgoChain.Ledger
