import EgoChain.Ledger.PeerBlock
import EgoChain.Market.Payouts

/-!
# Writing a block

What the writer changes besides balances and the market: the nonces and stakes in
the database, their copies in memory, the terms of stakes, and the state of the
other modules.  The modules are taken as functions of the transactions they look
at.
-/

namespace EgoChain.Chain

open EgoChain.Foundations EgoChain.Ledger EgoChain.Market

/-! ## What the modules look at -/

/-- The fields of a block that the modules read. -/
structure BlockStamp where
  height : Nat
  timestamp : Int
  miner : Text
  hash : Text

def stampOf (block : LedgerBlock) : BlockStamp where
  height := block.height
  timestamp := block.timestamp
  miner := block.miner
  hash := block.hash

/-- A deposit into the shielded pool; no memo reads like an empty one. -/
structure Deposit where
  hash : Text
  memo : Text
  amount : UInt64

variable (height : Nat) (tx : LedgerTx)

def isDeposit : Bool := tx.recipient = shieldedPoolAddr

def depositOf : Deposit where
  hash := tx.hash
  memo := tx.memo.getD []
  amount := tx.amount

def daoTypes : List Text :=
  [utf8 "dao_propose", utf8 "dao_vote", utf8 "dao_know", utf8 "dao_reveal", utf8 "dao_withdraw",
    utf8 "dao_know_reveal", utf8 "dao_report"]

def holdTypes : List Text :=
  [utf8 "hold_request", utf8 "hold_vote", utf8 "hold_node_vote", utf8 "hold_appeal",
    utf8 "hold_return", utf8 "hold_cert", utf8 "hold_settle"]

/-- The vault looks at every payment of a user while its rule is active. -/
def vaultRuleActive : Bool := 67922 ≤ height && height < 72580

def isVaultSubject : Bool :=
  !tx.sender.isEmpty && !isReservedSystemSource tx.sender && tx.signature ≠ utf8 "coinbase" &&
    tx.txType ≠ utf8 "hold_settle"

/-- The transactions that the shielded pool (deposits apart), the organisation, the vault and the
holds look at. -/
def isModuleTx : Bool :=
  isUnshield tx || tx.txType ∈ daoTypes || tx.txType ∈ holdTypes ||
    vaultRuleActive height && isVaultSubject tx

/-! ## The node -/

/-- What a node keeps; the modules' own state is arbitrary. -/
structure Node (σ : Type) where
  market : MarketChain
  /-- The nonces in the database. -/
  nonces : KeyedMap Text Nat
  /-- The nonces in memory. -/
  confirmedNonces : KeyedMap Text Nat
  /-- The stakes in the database. -/
  stakes : KeyedMap Text Nat
  /-- The stakes in memory. -/
  stakeStore : KeyedMap Text Nat
  /-- When an account staked, and for how many days. -/
  stakeMeta : KeyedMap Text (Int × Nat)
  slashed : List Text
  modules : σ

/-- What the writer takes from elsewhere. -/
structure NodeRules (σ : Type) where
  env : Env
  /-- The median time of the blocks before a height. -/
  chainTime : Nat → Int
  vestedUegoc : Nat
  accusedOf : LedgerTx → Option Text
  /-- The pay of a block with check-ins, from what the pool holds. -/
  checkinPay : BlockStamp → List LedgerTx → Nat → List (Text × Nat)
  /-- The pay of a block with storage proofs. -/
  storagePay : BlockStamp → List LedgerTx → List (Text × Nat)
  /-- The modules, with the stake that was locked before the block. -/
  applyModules : σ → BlockStamp → Nat → List Deposit → List LedgerTx → σ

variable {σ : Type}

namespace NodeRules

variable (rules : NodeRules σ) (block : LedgerBlock) (txs : List LedgerTx)

/-- Only a block with a batch of check-ins pays for them. -/
def nodeCredits : Nat → List (Text × Nat) :=
  if txs.any fun tx => tx.txType = utf8 "checkin_batch" then rules.checkinPay (stampOf block) txs
  else fun _ => []

/-- Only a block with a storage proof pays for storage. -/
def storageCredits : List (Text × Nat) :=
  if storagePayFromHeight ≤ block.height ∧ (txs.any fun tx => tx.txType = utf8 "post_proof") = true then
    rules.storagePay (stampOf block) txs
  else []

end NodeRules

def parseStakeLockDays : Nat :=
  ((tx.memo.bind fun memo => memo.afterStart (utf8 "stake:")).bind fun days =>
    days.trim.parseU32).getD 0

namespace Node

/-- The block as the market and the balances take it. -/
def chainBlock (rules : NodeRules σ) (node : Node σ) (block : LedgerBlock) (txs : List LedgerTx) :
    ChainBlock where
  height := block.height
  now := rules.chainTime block.height
  txs := txs
  stakeOf addr := (node.stakeStore.lookup addr).getD 0
  stakeMeta addr := node.stakeMeta.lookup addr
  vestedUegoc := rules.vestedUegoc
  accusedOf := rules.accusedOf
  slashed := node.slashed
  nodeCredits := rules.nodeCredits block txs
  storagePay := rules.storageCredits block txs

/-- `persist_nonce_in_batch`: the nonce is compared with the database, not with what the block has
already put into the batch. -/
def persistNonce (before : KeyedMap Text Nat) (nonces : KeyedMap Text Nat) (tx : LedgerTx) :
    KeyedMap Text Nat :=
  if tx.sender ≠ nodePoolAddr ∧ tx.sender ≠ [] ∧ (before.lookup tx.sender).getD 0 < tx.nonce.toNat then
    nonces.insert tx.sender tx.nonce.toNat
  else nonces

def recordConfirmedNonce (nonces : KeyedMap Text Nat) (tx : LedgerTx) : KeyedMap Text Nat :=
  if tx.sender ≠ [] then
    nonces.insert tx.sender (max ((nonces.lookup tx.sender).getD 0) tx.nonce.toNat)
  else nonces

variable (stakes : KeyedMap Text Nat) (addr : Text) (amount : Nat)

def addStake : KeyedMap Text Nat :=
  if addr = [] then stakes
  else stakes.insert addr (satAdd ((stakes.lookup addr).getD 0) amount)

def subStake : KeyedMap Text Nat :=
  if addr = [] then stakes else stakes.insert addr ((stakes.lookup addr).getD 0 - amount)

def recordValidatorStake (newlySlashed : List (Text × Nat)) (stakes : KeyedMap Text Nat)
    (tx : LedgerTx) : KeyedMap Text Nat :=
  if isStakeTx tx then addStake stakes tx.sender tx.amount.toNat
  else if isUnstakeTx tx then subStake stakes tx.sender tx.amount.toNat
  else if tx.txType = utf8 "equivocation_proof" then
    match newlySlashed.find? fun entry => entry.1 = tx.recipient with
    | some (accused, slash) => subStake stakes accused slash
    | none => stakes
  else stakes

def persistStakeMeta (terms : KeyedMap Text (Int × Nat)) (tx : LedgerTx) : KeyedMap Text (Int × Nat) :=
  if isStakeTx tx then terms.insert tx.sender (tx.timestamp, parseStakeLockDays tx)
  else if isUnstakeTx tx then terms.erase tx.sender
  else terms

variable (rules : NodeRules σ) (node : Node σ) (block : LedgerBlock) (txs : List LedgerTx)

/-- The sums of the writer for the block. -/
def sums : WriteSums :=
  blockSums (node.market.view rules.env (node.chainBlock rules block txs))
    (rules.nodeCredits block txs) (rules.storageCredits block txs) txs

def write : Node σ where
  market := node.market.write rules.env (node.chainBlock rules block txs)
  nonces := txs.foldl (persistNonce node.nonces) node.nonces
  confirmedNonces := txs.foldl recordConfirmedNonce node.confirmedNonces
  stakes := (node.sums rules block txs).stakes.entries.foldl
    (fun stakes entry => stakes.insert entry.1 entry.2) node.stakes
  stakeStore := txs.foldl (recordValidatorStake (node.sums rules block txs).newlySlashed)
    node.stakeStore
  stakeMeta := txs.foldl persistStakeMeta node.stakeMeta
  slashed := (node.sums rules block txs).slashed
  modules := rules.applyModules node.modules (stampOf block)
    (balanceIn node.market.balances stakingAddr)
    ((txs.filter fun tx => tx.hash ∉ node.market.committed && isDeposit tx).map depositOf)
    (txs.filter (isModuleTx block.height))

end Node

end EgoChain.Chain
