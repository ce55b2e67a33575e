import EgoChain.Chain.Node
import EgoChain.Shielded.Trees

/-!
# The shielded pool

The pool holds notes of five sizes.  A deposit puts a commitment into the tree; a
withdrawal spends notes by their nullifiers.  A block is validated by one loop over
its transactions and applied by another, and each loop carries its own copy of the
pool's state and of what it has seen; both read the stored keys as they were before
the block.  After a block that changes it, the state is also kept under the block's
height, and a rollback takes the newest one that is left.

The digests, the readers of JSON and the proof verifier are arbitrary functions.
-/

namespace EgoChain.Shielded

open EgoChain.Foundations EgoChain.Ledger
open EgoChain.Chain (isDeposit)

abbrev Bytes32 := Text

def denominationsUegoc : List Nat :=
  [1000000, 10000000, 100000000, 1000000000, 10000000000]

def isDenomination (value : Nat) : Bool := value ∈ denominationsUegoc

def poolTreeDepth : Nat := 29
def rootHistory : Nat := 100
def maxUnshieldSpends : Nat := 16
def minFeeUegoc : Nat := 1000

/-! ## Withdrawals as they are written -/

structure UnshieldSpend where
  root : Text
  nullifier : Text
  amountUegoc : UInt64
  feeUegoc : UInt64
  proof : Text
  deriving DecidableEq

structure UnshieldBody where
  spends : List UnshieldSpend
  recipient : Text
  amountUegoc : UInt64
  feeUegoc : UInt64
  deriving DecidableEq

def bytes32 (field value : Text) : Except Text Bytes32 :=
  need (Text.fromHexOf 32 value) (utf8 "unshield " ++ field ++ utf8 " is not 32 hex bytes")

namespace UnshieldSpend

variable (spend : UnshieldSpend)

def rootBytes : Except Text Bytes32 := bytes32 (utf8 "root") spend.root

def nullifierBytes : Except Text Bytes32 :=
  bytes32 (utf8 "nullifier") spend.nullifier

def proofBytes : Except Text Text :=
  need (Text.fromHex spend.proof) (utf8 "unshield proof is not hex")

end UnshieldSpend

/-- The amounts and the fee shares, each with saturation. -/
def UnshieldBody.totals (body : UnshieldBody) : Nat × Nat :=
  body.spends.foldl (fun sums spend =>
      (satAdd sums.1 spend.amountUegoc.toNat, satAdd sums.2 spend.feeUegoc.toNat)) (0, 0)

/-- The functions of other libraries. -/
structure PoolEnv (α : Type) where
  hash : NodeHash α
  /-- `digest_from_bytes`: only canonical bytes are a digest. -/
  digestFromBytes : Bytes32 → Option α
  fromDigest : α → Bytes32
  /-- The leaf of a note, if the amount fits the field. -/
  starkLeafFor : α → Nat → Option α
  hashData : Text → Bytes32
  readBody : Text → Except Text UnshieldBody
  canonicalJson : UnshieldBody → Text
  ruleActive : Nat → Bool

/-- `verify_proof_bytes` on the proof, the root, the nullifier, the amount, the recipient's digest
and the fee. -/
abbrev ProofVerifier := Text → Bytes32 → Bytes32 → Nat → Bytes32 → Nat → Bool

variable {α : Type}

namespace PoolEnv

variable (env : PoolEnv α)

def toDigest (bytes : Bytes32) : Except Text α :=
  need (env.digestFromBytes bytes) (utf8 "not a canonical field digest")

/-- `leaf_for`; nothing where the code panics. -/
def leafFor (commitment : Bytes32) (amount : Nat) : Option Bytes32 :=
  (env.digestFromBytes commitment).bind fun digest =>
    (env.starkLeafFor digest amount).map env.fromDigest

def txHash (body : UnshieldBody) : Text :=
  utf8 "0x" ++ Text.toHex (env.hashData (utf8 "ego/unshield/v1:" ++ env.canonicalJson body))

def parseUnshieldBody (callArgs : Text) : Except Text UnshieldBody :=
  (env.readBody callArgs).mapError fun error => utf8 "unshield body: " ++ error

/-- The nullifiers that can be read, of a transaction from the pool. -/
def unshieldNullifiers (tx : LedgerTx) : List Bytes32 :=
  if isUnshield tx then
    match env.parseUnshieldBody tx.callArgs with
    | .ok body => body.spends.filterMap fun spend => spend.nullifierBytes.toOption
    | .error _ => []
  else []

end PoolEnv

def parseShieldMemo (memo : Option Text) : Option Bytes32 :=
  (memo.bind fun text => text.afterStart (utf8 "shield:")).bind fun hex =>
    if hex.length = 64 then Text.fromHexOf 32 hex else none

def touchesPool (tx : LedgerTx) : Bool := isDeposit tx || isUnshield tx

/-! ## The state -/

structure PoolState where
  depth : Nat
  nextIndex : Nat
  frontier : List Bytes32
  root : Bytes32
  recentRoots : List Bytes32
  balanceUegoc : Nat
  /-- The unspent notes of each denomination. -/
  outstanding : List Nat
  /-- What came without a note. -/
  strayUegoc : Nat
  deriving DecidableEq

def denominationIndex (amount : Nat) : Option Nat := denominationsUegoc.idxOf? amount

namespace PoolState

def empty (env : PoolEnv α) : PoolState :=
  let tree := IncrementalTree.new env.hash poolTreeDepth
  { depth := poolTreeDepth
    nextIndex := 0
    frontier := tree.frontier.map env.fromDigest
    root := env.fromDigest tree.root
    recentRoots := [env.fromDigest tree.root]
    balanceUegoc := 0
    outstanding := List.replicate denominationsUegoc.length 0
    strayUegoc := 0 }

variable (state : PoolState)

def normalise : PoolState :=
  if state.outstanding.length = denominationsUegoc.length then state
  else
    { state with
      outstanding :=
        (state.outstanding ++ List.replicate denominationsUegoc.length 0).take
          denominationsUegoc.length }

variable (amount : Nat)

def noteAdded : PoolState :=
  match denominationIndex amount with
  | some i =>
    { state.normalise with
      outstanding := state.normalise.outstanding.modify i fun count => satAdd count 1 }
  | none => state.normalise

/-- The state after a note is spent; a note that is not held changes nothing. -/
def noteSpent : PoolState :=
  match denominationIndex amount with
  | some i =>
    if 0 < state.normalise.outstanding[i]?.getD 0 then
      { state.normalise with
        outstanding := state.normalise.outstanding.modify i fun count => count - 1 }
    else state.normalise
  | none => state.normalise

/-- How many notes of a size are held. -/
def held : Nat :=
  ((denominationIndex amount).bind fun i => state.outstanding[i]?).getD 0

def strand : PoolState :=
  { state with strayUegoc := satAdd state.strayUegoc amount }

def credit : PoolState :=
  { state with balanceUegoc := satAdd state.balanceUegoc amount }

def debit : PoolState :=
  { state with balanceUegoc := state.balanceUegoc - amount }

def countedUegoc : Nat :=
  ((state.outstanding.zip denominationsUegoc).map fun pair => pair.1 * pair.2).sum

def isFull : Bool := capacity state.depth ≤ state.nextIndex

def isKnownRoot (root : Bytes32) : Bool := root ∈ state.recentRoots

variable (env : PoolEnv α)

def tree : Except Text (IncrementalTree α) := do
  let frontier ← state.frontier.mapM env.toDigest
  let root ← env.toDigest state.root
  IncrementalTree.fromParts env.hash ⟨state.depth, state.nextIndex, frontier, root⟩

/-- The state with a tree after an insertion. -/
def withTree (tree : IncrementalTree α) : PoolState :=
  let roots := state.recentRoots ++ [env.fromDigest tree.root]
  { state with
    nextIndex := tree.nextIndex
    frontier := tree.frontier.map env.fromDigest
    root := env.fromDigest tree.root
    recentRoots := if rootHistory < roots.length then roots.drop 1 else roots }

def insert (leaf : Bytes32) : Except Text (Nat × PoolState) := do
  let tree ← state.tree env
  let digest ← env.toDigest leaf
  let (index, tree) ← tree.insert env.hash digest
  return (index, state.withTree env tree)

end PoolState

/-! ## The stored keys -/

structure PoolDb where
  state : Option PoolState := none
  leaves : KeyedMap Nat Bytes32 := ∅
  /-- Where a commitment stands in the tree. -/
  cidx : KeyedMap Bytes32 Nat := ∅
  /-- The heights at which nullifiers were spent. -/
  nf : KeyedMap Bytes32 Nat := ∅
  /-- The state after the blocks that changed it. -/
  hist : KeyedMap Nat PoolState := ∅

namespace PoolDb

def readState (env : PoolEnv α) (db : PoolDb) : PoolState :=
  (db.state.getD (PoolState.empty env)).normalise

def knows (db : PoolDb) (commitment : Bytes32) : Bool := (db.cidx.lookup commitment).isSome

def nullifierSpent (db : PoolDb) (nullifier : Bytes32) : Bool := (db.nf.lookup nullifier).isSome

end PoolDb

/-! ## Validation -/

/-- What the loop of validation carries. -/
structure Validating where
  state : PoolState
  seenNullifiers : List Bytes32
  seenCommitments : List Bytes32

/-- The commitments seen after the deposit. -/
def validateDepositIn (db : PoolDb) (state : PoolState) (tx : LedgerTx) (seen : List Bytes32) :
    Except Text (List Bytes32) := do
  let commitment ← need (parseShieldMemo tx.memo)
    (utf8 "transfer " ++ tx.hash ++ utf8 " to the shielded pool carries no shield:<commitment> memo")
  ensure (isDenomination tx.amount.toNat = true)
    (utf8 "shield " ++ tx.hash ++ utf8 " of " ++ Text.decimal tx.amount.toNat ++
      utf8 " uEGOC is not a denomination")
  ensure (state.isFull = false)
    (utf8 "shield " ++ tx.hash ++ utf8 " refused: the commitment tree is full")
  ensure (db.knows commitment = false ∧ commitment ∉ seen)
    (utf8 "shield " ++ tx.hash ++ utf8 " repeats a commitment already in the tree")
  return commitment :: seen

def recipientIsAcceptable (addr : Text) : Except Text Unit := do
  ensure (addr = addr.trim ∧ addr ≠ []) (utf8 "unshield recipient is empty or padded")
  ensure (addr.startsWith (utf8 "egot1") = true ∧ 10 ≤ addr.length ∧ addr.length ≤ 100)
    (utf8 "unshield recipient is not a testnet address")
  ensure ((addr.all fun byte => Text.isAsciiLowercase byte || Text.isAsciiDigit byte) = true)
    (utf8 "unshield recipient has characters outside bech32")
  ensure (isReservedSystemSource addr = false) (utf8 "unshield recipient is a system address")

/-- What the loop over the spends carries: the nullifiers seen in the block, and how many notes of
each size the transaction has asked for. -/
structure Spending where
  seen : List Bytes32
  wanted : KeyedMap Nat Nat

def checkSpend (verify : ProofVerifier) (db : PoolDb) (state : PoolState) (tx : LedgerTx)
    (recipient : Bytes32) (spending : Spending) (spend : UnshieldSpend) : Except Text Spending := do
  let amount := spend.amountUegoc.toNat
  ensure (isDenomination amount = true)
    (utf8 "unshield " ++ tx.hash ++ utf8 " spends " ++ Text.decimal amount ++
      utf8 " uEGOC, which is not a denomination")
  let root ← spend.rootBytes
  ensure (state.isKnownRoot root = true)
    (utf8 "unshield " ++ tx.hash ++ utf8 " proves against a root the pool does not have")
  let nullifier ← spend.nullifierBytes
  ensure (db.nullifierSpent nullifier = false ∧ nullifier ∉ spending.seen)
    (utf8 "unshield " ++ tx.hash ++ utf8 " spends a note that is already spent")
  let want := (spending.wanted.lookup amount).getD 0 + 1
  ensure (want ≤ state.held amount) (if state.held amount = 0 then
      utf8 "unshield " ++ tx.hash ++ utf8 " claims a " ++ Text.decimal amount ++
        utf8 " uEGOC note but the pool holds none of that size"
    else
      utf8 "unshield " ++ tx.hash ++ utf8 " spends " ++ Text.decimal want ++ utf8 " notes of " ++
        Text.decimal amount ++ utf8 " uEGOC but the pool holds only " ++
        Text.decimal (state.held amount))
  let proof ← spend.proofBytes
  ensure (verify proof root nullifier amount recipient spend.feeUegoc.toNat = true)
    (utf8 "unshield " ++ tx.hash ++ utf8 " proof does not verify")
  return ⟨nullifier :: spending.seen, spending.wanted.insert amount want⟩

variable (hist : KeyedMap Nat PoolState) (env : PoolEnv α) (verify : ProofVerifier)
  (db : PoolDb) (height floor : Nat) (txs : List LedgerTx) (state : PoolState) (tx : LedgerTx)
  (body : UnshieldBody) (seen : List Bytes32)

/-- The fields of the transaction and of its body, before the spends are looked at. -/
def checkBody : Except Text Unit := do
  ensure (tx.hash = env.txHash body) (utf8 "unshield " ++ tx.hash ++ utf8 " body/hash mismatch")
  ensure (tx.recipient = body.recipient ∧ tx.amount = body.amountUegoc ∧ tx.feeUegoc = body.feeUegoc)
    (utf8 "unshield " ++ tx.hash ++ utf8 " fields disagree with its body")
  ensure (tx.signature = [] ∧ tx.publicKeyEd25519 = [] ∧ tx.nonce = 0)
    (utf8 "unshield " ++ tx.hash ++ utf8 " must carry no signature and no nonce")
  ensure (body.spends ≠ []) (utf8 "unshield " ++ tx.hash ++ utf8 " spends nothing")
  ensure (body.spends.length ≤ maxUnshieldSpends)
    (utf8 "unshield " ++ tx.hash ++ utf8 " spends " ++ Text.decimal body.spends.length ++
      utf8 " notes, over the " ++ Text.decimal maxUnshieldSpends ++ utf8 " limit")
  ensure (body.totals.1 = tx.amount.toNat)
    (utf8 "unshield " ++ tx.hash ++ utf8 " spends " ++ Text.decimal body.totals.1 ++
      utf8 " uEGOC but claims " ++ Text.decimal tx.amount.toNat)
  ensure (body.totals.2 = tx.feeUegoc.toNat)
    (utf8 "unshield " ++ tx.hash ++ utf8 " fee shares total " ++ Text.decimal body.totals.2 ++
      utf8 " uEGOC but the tx charges " ++ Text.decimal tx.feeUegoc.toNat)
  ensure (minFeeUegoc ≤ tx.feeUegoc.toNat ∧ tx.feeUegoc < tx.amount)
    (utf8 "unshield " ++ tx.hash ++ utf8 " fee " ++ Text.decimal tx.feeUegoc.toNat ++
      utf8 " uEGOC is out of range")
  recipientIsAcceptable tx.recipient

/-- The nullifiers seen after the withdrawal. -/
def validateUnshieldIn : Except Text (List Bytes32) := do
  ensure (tx.txType = utf8 "unshield")
    (utf8 "tx " ++ tx.hash ++ utf8 " from the shielded pool is not an unshield")
  let body ← env.parseUnshieldBody tx.callArgs
  checkBody env tx body
  let spending ← body.spends.foldlM
    (checkSpend verify db state tx (env.hashData tx.recipient)) ⟨seen, ∅⟩
  ensure (tx.amount.toNat ≤ state.balanceUegoc)
    (utf8 "unshield " ++ tx.hash ++ utf8 " of " ++ Text.decimal tx.amount.toNat ++
      utf8 " uEGOC exceeds the pool's " ++ Text.decimal state.balanceUegoc ++ utf8 " uEGOC")
  return spending.seen

/-- The notes of a withdrawal leave the pool. -/
def PoolState.spendAll (spends : List UnshieldSpend) : PoolState :=
  spends.foldl (fun state spend => state.noteSpent spend.amountUegoc.toNat) state

/-- A note enters the pool. -/
def PoolState.enter (leaf : Bytes32) (amount : Nat) : Except Text (Nat × PoolState) := do
  let (index, inserted) ← state.insert env leaf
  return (index, (inserted.credit amount).noteAdded amount)

/-- One transaction; a panic refuses the block like an error. -/
def validateTx (run : Validating) (tx : LedgerTx) : Except Text Validating :=
  if isDeposit tx then do
    let seen ← validateDepositIn db run.state tx run.seenCommitments
    let commitment ← need (parseShieldMemo tx.memo)
      (utf8 "shield " ++ tx.hash ++ utf8 " lost its commitment")
    let leaf ← need (env.leafFor commitment tx.amount.toNat) (utf8 "a stored commitment is canonical")
    let (_, state) ← (run.state.enter env leaf tx.amount.toNat).mapError fun error =>
      utf8 "shield " ++ tx.hash ++ utf8 " could not enter the tree: " ++ error
    return { run with state := state, seenCommitments := seen }
  else if isUnshield tx then do
    let seen ← validateUnshieldIn env verify db run.state tx run.seenNullifiers
    let state := run.state.debit tx.amount.toNat
    let state :=
      match env.parseUnshieldBody tx.callArgs with
      | .ok body => state.spendAll body.spends
      | .error _ => state
    return { run with state := state, seenNullifiers := seen }
  else .ok run

def validateBlockShieldedTxs : Except Text Unit :=
  if (txs.any touchesPool) = false then .ok ()
  else do
    ensure (env.ruleActive height = true) (utf8 "block " ++ Text.decimal height ++
        utf8 " carries shielded transactions but the shielded pool is not active")
    let _ ← txs.foldlM (validateTx env verify db) ⟨db.readState env, [], []⟩
    return ()

/-! ## Application -/

/-- What the loop of application carries, with the keys it has written. -/
structure Applying where
  state : PoolState
  seenNullifiers : List Bytes32
  seenCommitments : List Bytes32
  leaves : KeyedMap Nat Bytes32
  cidx : KeyedMap Bytes32 Nat
  nf : KeyedMap Bytes32 Nat
  changed : Bool

variable (run : Applying)

structure RecordedDeposit where
  index : Nat
  commitment : Bytes32
  leaf : Bytes32
  state : PoolState

/-- The commitments seen and the deposit, or the reason it is stranded; nothing where the code
panics. -/
def recordDeposit (tx : LedgerTx) : Option (List Bytes32 × Except Text RecordedDeposit) :=
  match parseShieldMemo tx.memo with
  | none => some (seen, .error (utf8 "the memo carries no readable commitment"))
  | some commitment =>
    if isDenomination tx.amount.toNat = false then
      some (seen, .error (Text.decimal tx.amount.toNat ++ utf8 " uEGOC is not a note denomination"))
    else if db.knows commitment = true ∨ commitment ∈ seen then
      some (seen, .error (utf8 "the commitment is already in the tree"))
    else
      (env.leafFor commitment tx.amount.toNat).map fun leaf =>
        (commitment :: seen, (state.enter env leaf tx.amount.toNat).map fun entered =>
            ⟨entered.1, commitment, leaf, entered.2⟩)

def Applying.record (recorded : RecordedDeposit) : Applying :=
  { run with
    state := recorded.state
    seenCommitments := seen
    leaves := run.leaves.insert recorded.index recorded.leaf
    cidx := run.cidx.insert recorded.commitment recorded.index
    changed := true }

def Applying.spend (nullifiers : List Bytes32) : Applying :=
  { run with
    state := (run.state.debit tx.amount.toNat).spendAll body.spends
    seenNullifiers := nullifiers.reverse ++ run.seenNullifiers
    nf := nullifiers.foldl (fun nf nullifier => nf.insert nullifier height) run.nf
    changed := true }

def applyTx (run : Applying) (tx : LedgerTx) : Option Applying :=
  if isDeposit tx then
    (recordDeposit env db run.state run.seenCommitments tx).map fun outcome =>
      match outcome.2 with
      | .ok recorded => run.record outcome.1 recorded
      | .error _ =>
        if 0 < tx.amount.toNat then
          { run with
            state := run.state.strand tx.amount.toNat
            seenCommitments := outcome.1
            changed := true }
        else { run with seenCommitments := outcome.1 }
  else if isUnshield tx then
    match env.parseUnshieldBody tx.callArgs with
    | .error _ => some run
    | .ok body =>
      let nullifiers := env.unshieldNullifiers tx
      if nullifiers.length ≠ body.spends.length then some run
      else if nullifiers.any fun nullifier =>
          db.nullifierSpent nullifier || nullifier ∈ run.seenNullifiers then some run
      else some (run.spend height tx body nullifiers)
  else some run

/-- `prune_history`: of the states up to the floor only the newest stays.  The keys are those that
were stored before the block. -/
def pruneHistory (stored : KeyedMap Nat PoolState) (floor : Nat) (hist : KeyedMap Nat PoolState) :
    KeyedMap Nat PoolState :=
  if floor = 0 then hist
  else
    (stored.ascending.filter fun entry => entry.1 ≤ floor).dropLast.foldl
      (fun hist entry => hist.erase entry.1) hist

/-- A block with the finality floor at which it is applied. -/
def applyBlock : Option PoolDb :=
  (txs.foldlM (applyTx env db height)
    ⟨db.readState env, [], [], db.leaves, db.cidx, db.nf, false⟩).map fun run =>
      { state := if run.changed then some run.state else db.state
        leaves := run.leaves
        cidx := run.cidx
        nf := run.nf
        hist :=
          if run.changed then pruneHistory db.hist floor (db.hist.insert height run.state)
          else db.hist }

/-! ## Rollback -/

/-- The newest state kept up to a height. -/
def newestUpTo : Option PoolState :=
  ((hist.ascending.filter fun entry => entry.1 ≤ height).getLast?).map Prod.snd

def eraseAll {κ ν : Type} [DecidableEq κ] (map : KeyedMap κ ν) (keys : List κ) : KeyedMap κ ν :=
  keys.foldl (fun map key => map.erase key) map

def rollback (fromHeight : Nat) (removed : List LedgerTx) : PoolDb :=
  let current := db.readState env
  let restored :=
    (if 0 < fromHeight then newestUpTo db.hist (fromHeight - 1) else none).getD (PoolState.empty env)
  { state := if current = restored then db.state else some restored
    leaves := eraseAll db.leaves
      (List.range' restored.nextIndex (current.nextIndex - restored.nextIndex))
    cidx := eraseAll db.cidx ((removed.filter isDeposit).filterMap fun tx => parseShieldMemo tx.memo)
    nf := eraseAll db.nf (removed.flatMap env.unshieldNullifiers)
    hist := db.hist.retain fun height => height < fromHeight }

end EgoChain.Shielded
