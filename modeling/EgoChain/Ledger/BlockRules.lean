import EgoChain.Ledger.BlockWrite
import EgoChain.Ledger.TxSignatures

/-!
# The rules for the transactions of a block

A block is checked on the state it is to be written on.  Its transactions are
taken in the order of their nonces: their hashes are compared, the rewards are
bounded by the fees, every transaction has to be of a kind its source may send,
and a simulation makes sure that nothing is spent twice.
-/

namespace EgoChain.Ledger

open EgoChain.Foundations

structure LedgerBlock where
  height : Nat
  hash : Text
  prevHash : Text := []
  timestamp : Int := 0
  miner : Text := []
  txCount : Nat := 0
  reward : UInt64 := 0
  coinbaseTx : Option Text := none
  voteCount : Nat := 0
  txMerkleRoot : Text := []
  pocTicket : Text := []
  stateRoot : Text := []
  producerPubkey : Text := []
  producerSig : Text := []
  aggBlsSig : Text := []
  blsPubkeys : List Text := []
  commitCert : Text := []
  randaoReveal : Text := []

/-- What the rules read of the state before the block. -/
structure ChainState where
  balances : KeyedMap Text UInt64
  lastConfirmedNonce : Text → Nat := fun _ => 0
  validatorStake : Text → Nat := fun _ => 0
  /-- The part of a balance that came from the faucet. -/
  faucetMark : Text → Nat := fun _ => 0
  /-- All that an address ever got from the faucet. -/
  faucetTotalTo : Text → Nat := fun _ => 0

def ChainState.balance (state : ChainState) (addr : Text) : Nat := balanceIn state.balances addr

/-! ## Rewards -/

def totalSupplyUegoc : Nat := 1000000000 * 1000000
def faucetUegoc : Nat := 10000000 * 1000000

/-- The share of the fees that goes to the producer; the product wraps around. -/
def minerFeeShare (fees : Nat) : Nat := fees * 60 % 2 ^ 64 / 100

def contributorFeeShare (fees : Nat) : Nat := fees - minerFeeShare fees

/-- The settings of the reward rules. -/
structure RewardRules where
  faucetAddress : Text
  /-- Rewards are capped and not fixed. -/
  emissionV2Active : Nat → Bool
  /-- The new coins of a block, before the fees. -/
  emission : LedgerBlock → Nat

def circulatingSupply (rules : RewardRules) (state : ChainState) : Nat :=
  satAdd totalSupplyUegoc faucetUegoc - state.balance nodePoolAddr - state.balance ecosystemAddr -
    state.balance foundationAddr - state.balance stakingPoolAddr - state.balance rules.faucetAddress

variable (env : TxEnv) (rules : RewardRules) (block : LedgerBlock) (expected : Nat)
  (txs : List LedgerTx)

def expectedBlockReward (fees : Nat) : Nat :=
  satAdd (rules.emission block) (minerFeeShare fees)

def txFeesSum : Nat :=
  ((txs.filter fun tx => !isProtocolSystemTx env tx).map fun tx => tx.feeUegoc.toNat).sum % 2 ^ 64

def coinbaseHash (reward : Nat) : Text :=
  utf8 "0x" ++ env.blake3Hex (utf8 "coinbase:" ++ Text.decimal block.height ++ colon :: block.miner ++
    colon :: Text.decimal reward ++ colon :: Text.signedDecimal block.timestamp)

def contributorFeeHash (fee : Nat) : Text :=
  utf8 "0x" ++ env.blake3Hex (utf8 "contributorfee:" ++ Text.decimal block.height ++
    colon :: Text.decimal fee ++ colon :: Text.signedDecimal block.timestamp)

def checkReward : Except Text Unit :=
  if rules.emissionV2Active block.height then
    ensure (block.reward.toNat ≤ expected)
      (utf8 "invalid block reward: got " ++ Text.decimal block.reward.toNat ++ utf8 ", v2 cap is " ++
        Text.decimal expected)
  else
    ensure (block.reward.toNat = expected ∨ block.reward = 0)
      (utf8 "invalid block reward: got " ++ Text.decimal block.reward.toNat ++ utf8 ", expected " ++
        Text.decimal expected)

def isCoinbase (tx : LedgerTx) : Bool := block.coinbaseTx = some tx.hash

def checkCoinbase : Except Text Unit :=
  let coinbases := txs.filter (isCoinbase block)
  if 0 < block.reward then do
    let coinbase ← need coinbases.head? (utf8 "coinbase tx missing")
    let reward := if rules.emissionV2Active block.height then block.reward.toNat else expected
    ensure (coinbase.sender = nodePoolAddr ∧ coinbase.recipient = block.miner ∧
        coinbase.amount.toNat = reward ∧ coinbase.signature = utf8 "coinbase" ∧
        coinbase.txType = utf8 "reward" ∧ coinbase.hash = coinbaseHash env block reward)
      (utf8 "invalid coinbase tx")
  else
    ensure (block.coinbaseTx = none ∧ coinbases = [])
      (utf8 "coinbase present when expected reward is zero")

def checkContributorFee : Except Text Unit :=
  let fees := txs.filter fun tx => tx.txType = utf8 "fee_distribution"
  if 0 < expected then
    match fees with
    | [fee] =>
      ensure (fee.sender = [] ∧ fee.recipient = nodePoolAddr ∧ fee.amount.toNat = expected ∧
          fee.signature = utf8 "coinbase" ∧ fee.hash = contributorFeeHash env block expected)
        (utf8 "invalid contributor fee tx")
    | _ => .error (utf8 "expected exactly one contributor fee tx, got " ++ Text.decimal fees.length)
  else ensure (fees = []) (utf8 "unexpected contributor fee tx")

/-! ## Hashes -/

def checkHashes (block : LedgerBlock) : List Text → List LedgerTx → Except Text Unit
  | _, [] => .ok ()
  | seen, tx :: rest => do
      ensure (tx.hash ≠ [])
        (utf8 "empty tx hash in block #" ++ Text.decimal block.height ++ utf8 " (type=" ++ tx.txType ++
          utf8 " from=" ++ tx.sender ++ utf8 ")")
      ensure (tx.hash ∉ seen) (utf8 "duplicate tx hash " ++ tx.hash.take 12 ++ utf8 " in block #" ++
          Text.decimal block.height)
      checkHashes block (tx.hash :: seen) rest

/-! ## Kinds -/

def isSystemEmissionType (txType : Text) : Bool :=
  txType ∈ [utf8 "cluster_escrow", utf8 "compute_escrow", utf8 "storage_escrow",
      utf8 "reservation_escrow", utf8 "early_termination_penalty", utf8 "early_termination_refund",
      utf8 "slash_storage", utf8 "burn_collateral", utf8 "unlock_collateral", utf8 "lock_collateral",
      utf8 "fee_distribution", utf8 "post_reward"] ||
    txType.contains (utf8 "escrow")

def faucetStepUegoc : Nat := 1000 * 1000000
def faucetCapUegoc : Nat := 5000 * 1000000
def seatRulesFromHeight : Nat := 29306

def seatRulesActive (height : Nat) : Bool := seatRulesFromHeight ≤ height

variable (state : ChainState) (block : LedgerBlock) (txs : List LedgerTx) (tx : LedgerTx)

/-- A faucet grant is within the step, and with all others to the address within the total. -/
def checkFaucet : Except Text Unit := do
  ensure (0 < tx.amount.toNat ∧ tx.amount.toNat ≤ faucetStepUegoc)
    (utf8 "faucet tx " ++ tx.hash ++ utf8 ": faucet grant of " ++ Text.decimal tx.amount.toNat ++
      utf8 " uEGOC is outside 1..=" ++ Text.decimal faucetStepUegoc ++ utf8 " uEGOC")
  let inBlock := ((txs.filter fun other =>
    other.txType = utf8 "faucet" && other.sender = nodePoolAddr &&
      other.recipient = tx.recipient).map fun other => other.amount.toNat).sum % 2 ^ 64
  ensure (seatRulesActive block.height = true →
      satAdd (state.faucetTotalTo tx.recipient) inBlock ≤ faucetCapUegoc)
    (utf8 "faucet tx " ++ tx.hash ++ utf8 " would take " ++ tx.recipient ++ utf8 " past the " ++
      Text.decimal faucetCapUegoc ++ utf8 " uEGOC faucet total")

def checkSystemTx : Except Text Unit := do
  ensure (isCoinbase block tx = true ∨ tx.txType = utf8 "faucet" ∨
      isSystemEmissionType tx.txType = true)
    (utf8 "unexpected protocol system tx " ++ tx.hash ++ utf8 " (type: '" ++ tx.txType ++ utf8 "')")
  ensure (tx.txType ≠ utf8 "post_reward")
    (utf8 "post_reward tx " ++ tx.hash ++ utf8 " refused: nothing in the protocol issues one, " ++
      utf8 "and it would pay any amount from the node pool")
  provided (tx.txType = utf8 "faucet") (checkFaucet state block txs tx)

/-- The payments out of a system pool whose amount and recipient other rules check. -/
def mayLeavePool (tx : LedgerTx) : Bool :=
  tx.txType = utf8 "unshield" && tx.sender = shieldedPoolAddr ||
    tx.txType = utf8 "market_settle" && tx.sender = marketEscrowAddr ||
    isContributorFeeTx tx || isBatchTx tx

def checkKind (state : ChainState) (block : LedgerBlock) (txs : List LedgerTx) (tx : LedgerTx) :
    Except Text Unit :=
  if isProtocolSystemTx env tx then checkSystemTx state block txs tx
  else if isReservedSystemSource tx.sender then
    ensure (mayLeavePool tx = true)
      (utf8 "forbidden system-source tx " ++ tx.hash ++ utf8 " (type: '" ++ tx.txType ++ utf8 "')")
  else do
    (checkTxVersionAt tx block.height).mapError fun error =>
      utf8 "tx " ++ tx.hash ++ utf8 " rejected: " ++ error
    (verifyConfirmedTxSig env tx).mapError fun error =>
      utf8 "tx " ++ tx.hash ++ utf8 " rejected: " ++ error

/-! ## The simulation -/

structure Simulated where
  balances : KeyedMap Text Nat
  nonces : KeyedMap Text Nat
  stakes : KeyedMap Text Nat
  marks : KeyedMap Text Nat

namespace Simulated

def start : Simulated where
  balances := ∅
  nonces := ∅
  stakes := ∅
  marks := ∅

variable (sim : Simulated) (addr : Text)

def balance : Nat :=
  (sim.balances.lookup addr).getD (state.balance addr)

def nonce : Nat :=
  (sim.nonces.lookup addr).getD (state.lastConfirmedNonce addr)

def stake : Nat :=
  (sim.stakes.lookup addr).getD (state.validatorStake addr)

def mark : Nat :=
  (sim.marks.lookup addr).getD (state.faucetMark addr)

def setBalance (sim : Simulated) (addr : Text) (amount : Nat) : Simulated :=
  { sim with balances := sim.balances.insert addr amount }

def setMark (sim : Simulated) (addr : Text) (amount : Nat) : Simulated :=
  { sim with marks := sim.marks.insert addr amount }

/-- Add to a balance as far as a number holds it. -/
def credit (addr : Text) (amount : Nat) : Simulated :=
  sim.setBalance addr (satAdd (sim.balance state addr) amount)

variable (tx : LedgerTx)

/-- Coins of the faucet stay marked when they are spent. -/
def applyFaucetMarks : Simulated :=
  if tx.txType = utf8 "faucet" ∧ tx.sender = nodePoolAddr then
    sim.setMark tx.recipient (satAdd (sim.mark state tx.recipient) tx.amount.toNat)
  else if tx.sender = [] ∨ isUnstakeTx tx = true then sim
  else
    let (spent, delivered) :=
      if paysFeeFromAmount tx then (tx.amount.toNat, tx.amount.toNat - tx.feeUegoc.toNat)
      else if isStakeTx tx then (tx.feeUegoc.toNat, 0)
      else (satAdd tx.amount.toNat tx.feeUegoc.toNat, tx.amount.toNat)
    let used := min spent (sim.mark state tx.sender)
    let sim := sim.setMark tx.sender (sim.mark state tx.sender - used)
    let carried := min used delivered
    if 0 < carried ∧ tx.recipient ≠ [] then
      sim.setMark tx.recipient (satAdd (sim.mark state tx.recipient) carried)
    else sim

def checkMarks : Except Text Unit :=
  ensure (isStakeTx tx = true → satAdd tx.amount.toNat tx.feeUegoc.toNat ≤
      sim.balance state tx.sender - sim.mark state tx.sender)
    (utf8 "stake tx " ++ tx.hash ++ utf8 " would stake faucet coins")

def emit : Except Text Simulated := do
  let pool := sim.balance state tx.sender
  ensure (tx.amount.toNat ≤ pool)
    (utf8 "system-emission tx " ++ tx.hash ++ utf8 " (type '" ++ tx.txType ++
      utf8 "') overdraws pool " ++ tx.sender ++ utf8 " (" ++ Text.decimal pool ++ utf8 " < " ++
      Text.decimal tx.amount.toNat ++ utf8 ")")
  let sim := sim.setBalance tx.sender (pool - tx.amount.toNat)
  return if tx.recipient = [] then sim else sim.credit state tx.recipient (creditedToRecipient tx)

def unstake : Except Text Simulated := do
  ensure (tx.amount ≠ 0 ∧ tx.amount.toNat ≤ sim.stake state tx.sender)
    (utf8 "unstake tx " ++ tx.hash ++ utf8 " exceeds active stake")
  let amount := unstakeCreditAmount tx
  ensure (tx.feeUegoc.toNat ≤ amount) (utf8 "unstake tx " ++ tx.hash ++ utf8 " credit below fee")
  ensure (amount ≤ sim.balance state stakingAddr)
    (utf8 "unstake tx " ++ tx.hash ++ utf8 " exceeds staking contract balance")
  let sim := sim.setBalance stakingAddr (sim.balance state stakingAddr - amount)
  let sim := { sim with
    stakes := sim.stakes.insert tx.sender (sim.stake state tx.sender - tx.amount.toNat) }
  return sim.setBalance tx.sender (satAdd (sim.balance state tx.sender) amount - tx.feeUegoc.toNat)

def spend : Except Text Simulated := do
  let balance := sim.balance state tx.sender
  let required := satAdd tx.amount.toNat tx.feeUegoc.toNat
  ensure (required ≤ balance)
    (utf8 "insufficient balance for tx " ++ tx.hash ++ utf8 ": has " ++ Text.decimal balance ++
      utf8 ", needs " ++ Text.decimal required)
  let sim := sim.setBalance tx.sender (balance - required)
  return if tx.recipient ≠ [] ∧ (isReservedSystemSource tx.recipient = false ∨
      tx.recipient = shieldedPoolAddr ∨ tx.recipient = marketEscrowAddr) then
    sim.credit state tx.recipient tx.amount.toNat
  else sim

def useNonce : Except Text Simulated :=
  if tx.nonce = 0 then .ok sim
  else do
    let last := sim.nonce state tx.sender
    ensure (last < tx.nonce.toNat)
      (utf8 "stale nonce for tx " ++ tx.hash ++ utf8 ": " ++ Text.decimal tx.nonce.toNat ++
        utf8 " <= " ++ Text.decimal last)
    return { sim with nonces := sim.nonces.insert tx.sender tx.nonce.toNat }

/-- One transaction without the faucet marks. -/
def move (sim : Simulated) (tx : LedgerTx) : Except Text Simulated :=
  if isProtocolSystemTx env tx then .ok sim
  else if tx.sender ≠ [] ∧ isReservedSystemSource tx.sender = true then sim.emit state tx
  else if tx.sender = [] then .ok sim
  else do
    let sim ← if isUnstakeTx tx then sim.unstake state tx else sim.spend state tx
    sim.useNonce state tx

def step (block : LedgerBlock) (sim : Simulated) (tx : LedgerTx) : Except Text Simulated :=
  if seatRulesActive block.height then do
    sim.checkMarks state tx
    (sim.applyFaucetMarks state tx).move env state tx
  else sim.move env state tx

def run (env : TxEnv) (state : ChainState) (block : LedgerBlock) :
    Simulated → List LedgerTx → Except Text Simulated
  | sim, [] => .ok sim
  | sim, tx :: rest => do
      let next ← sim.step env state block tx
      next.run env state block rest

end Simulated

/-! ## All rules -/

def sortByNonce (txs : List LedgerTx) : List LedgerTx :=
  txs.mergeSort fun first second => first.nonce ≤ second.nonce

def validateBlockProtocolTxs (state : ChainState) (block : LedgerBlock) (txs : List LedgerTx) :
    Except Text Unit := do
  ensure (0 < block.height → block.txCount = txs.length)
    (utf8 "tx_count mismatch: block says " ++ Text.decimal block.txCount ++ utf8 ", received " ++
      Text.decimal txs.length)
  let sorted := sortByNonce txs
  checkHashes block [] sorted
  let fees := txFeesSum env sorted
  let remaining := totalSupplyUegoc - circulatingSupply rules state
  let expected := min (expectedBlockReward rules block fees) remaining
  checkReward rules block expected
  checkCoinbase env rules block expected sorted
  checkContributorFee env block (contributorFeeShare fees) sorted
  checkAll (checkKind env state block sorted) sorted
  let _ ← Simulated.start.run env state block sorted

end EgoChain.Ledger
