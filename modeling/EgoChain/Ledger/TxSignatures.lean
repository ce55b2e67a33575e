import EgoChain.Foundations.Checks
import EgoChain.Ledger.Transactions

/-!
# Signatures of transactions

What a transaction's owner signs, which transactions carry no signature of an
owner, and how far the hash of a transaction is bound to what was signed.
-/

namespace EgoChain.Ledger

open EgoChain.Foundations

/-- The library functions and settings that the rules for one transaction use. -/
structure TxEnv where
  /-- `ego_core::hash_data`. -/
  hashData : Text → Text
  blake3 : Text → Text
  /-- The escrow rule is active for the block after the tip. -/
  escrowRuleAtTip : Bool
  checkKey : Text → Except Text Unit
  /-- Key, message and signature of an Ed25519 signature. -/
  verify : Text → Text → Text → Bool
  /-- The address of an Ed25519 key on a chain, and nothing if it has none. -/
  addressOf : UInt8 → Text → Text
  dilithiumAddressOf : UInt8 → Text → Text
  verifyDilithium : Text → Text → Text → Except Text Bool
  dilithiumDisabled : Bool
  /-- The hash that the body of a withdrawal from the shielded pool stands for. -/
  unshieldBodyHash : Text → Option Text
  /-- The body of a market settlement has the shape that the market asks for. -/
  marketSettleShapeOk : LedgerTx → Bool

variable (env : TxEnv) (bytes : Text) (tx : LedgerTx)

def TxEnv.hashHex : Text := utf8 "0x" ++ (env.hashData bytes).toHex

def TxEnv.blake3Hex : Text := (env.blake3 bytes).toHex

/-! ## Kinds of transactions -/

def isProtocolSystemTx : Bool :=
  tx.txType = utf8 "faucet" && tx.sender = nodePoolAddr || isEscrowSource tx.sender &&
      (tx.signature.endsWith (utf8 "_escrow_system") || tx.signature = utf8 "provider") &&
      env.escrowRuleAtTip ||
    tx.sender = nodePoolAddr && tx.signature = utf8 "coinbase" &&
      tx.txType ∈ [utf8 "reward", utf8 "coinbase", utf8 "fee_distribution", utf8 "post_reward",
        utf8 "uptime_reward", utf8 "storage_reward"]

def isBatchTx : Bool :=
  tx.txType ∈ [utf8 "checkin_batch", utf8 "ready_batch", utf8 "tm_ready_batch",
      utf8 "coverage_batch", utf8 "state_cert", utf8 "hold_cert"] &&
    tx.sender.isEmpty && tx.recipient = nodePoolAddr && tx.amount = 0 &&
    tx.signature = utf8 "coinbase"

def isContributorFeeTx : Bool :=
  tx.txType = utf8 "fee_distribution" && tx.sender.isEmpty && tx.recipient = nodePoolAddr &&
    tx.signature = utf8 "coinbase"

def unshieldIsWellFormed : Bool :=
  tx.sender = shieldedPoolAddr && tx.txType = utf8 "unshield" && tx.signature.isEmpty &&
    tx.publicKeyEd25519.isEmpty && env.unshieldBodyHash tx.callArgs = some tx.hash

def marketSettleIsWellFormed : Bool :=
  tx.sender = marketEscrowAddr && env.marketSettleShapeOk tx

/-- The hold and the place in it that a settlement names. -/
def holdSettleParts : Option (Text × Nat) := do
  let memo ← tx.memo
  let rest ← memo.afterStart (utf8 "hold:settle:")
  let (id, place) ← rest.rsplitOnce colon
  let index ← place.parseU64
  return (id, index)

def holdSettleHash (id : Text) (index : Nat) (sender recipient : Text) (amount : UInt64) : Text :=
  utf8 "0x" ++ env.blake3Hex (utf8 "ego/hold/settle/v1:" ++ id ++ colon :: Text.decimal index ++
    colon :: sender ++ colon :: recipient ++ colon :: Text.decimal amount.toNat)

def holdSettleIsWellFormed : Bool :=
  tx.txType = utf8 "hold_settle" && tx.signature = utf8 "hold" && tx.txVersion = 3 &&
    tx.nonce = 0 && tx.feeUegoc = 0 && tx.priorityFeeUegoc = 0 && 0 < tx.amount &&
    (holdSettleParts tx).any fun part =>
      tx.hash = holdSettleHash env part.1 part.2 tx.sender tx.recipient tx.amount

/-! ## What is signed -/

def i64Bytes (number : Int) : Text := leBytes 8 (number % 2 ^ 64).toNat

def txSigningBytes : Text :=
  utf8 "ego/tx/v1:" ++ tx.sender ++ colon :: tx.recipient ++ colon :: u64Bytes tx.amount ++
    colon :: u64Bytes tx.nonce ++ colon :: i64Bytes tx.timestamp

def txSigningBytesV2 : Text :=
  let memo := (tx.memo.getD []).take 256
  utf8 "ego/tx/v2:" ++ tx.chainId :: colon :: tx.sender ++ colon :: tx.recipient ++
    colon :: u64Bytes tx.amount ++ colon :: u64Bytes tx.nonce ++ colon :: i64Bytes tx.timestamp ++
    colon :: leBytes 4 memo.length ++ memo

def txSigningBytesV3 : Text :=
  let memo := tx.memo.getD []
  utf8 "ego/tx/v3:" ++ tx.chainId :: colon :: tx.sender ++ colon :: tx.recipient ++
    colon :: u64Bytes tx.amount ++ colon :: u64Bytes tx.nonce ++ colon :: i64Bytes tx.timestamp ++
    colon :: u64Bytes tx.feeUegoc ++ colon :: u64Bytes tx.priorityFeeUegoc ++
    colon :: leBytes 4 tx.txType.length ++ tx.txType ++ colon :: leBytes 4 memo.length ++ memo

def txSigningBytesFor : Text :=
  if tx.txVersion = 3 then txSigningBytesV3 tx
  else if 2 ≤ tx.txVersion then txSigningBytesV2 tx
  else txSigningBytes tx

def expectedStandardTxHash : Text :=
  env.hashHex (txSigningBytesFor tx)

/-- The types whose hash has to be that of the bytes that were signed. -/
def standardTypes : List Text :=
  [utf8 "transfer", utf8 "stake", utf8 "unstake", utf8 "governance", utf8 "cluster_escrow",
    utf8 "storage_escrow", utf8 "hosting_plan", utf8 "credits_mint", utf8 "credits_pay",
    utf8 "shield", utf8 "market_offer", utf8 "market_offer_close", utf8 "market_trade_open",
    utf8 "market_lock", utf8 "market_trade_cancel", utf8 "market_paid", utf8 "market_dispute",
    utf8 "market_feedback"]

def txHashMustMatchStandardSigning : Bool := tx.txType ∈ standardTypes

/-! ## Versions -/

def txV3FromHeight : Nat := 30000
def txV2UntilHeight : Nat := 40000
def maxMemoBytes : Nat := 256

def checkTxVersionKnown : Except Text Unit := do
  ensure (tx.txVersion ≤ 3) (utf8 "unknown transaction version " ++ Text.decimal tx.txVersion.toNat)
  ensure (tx.txVersion = 3 → (tx.memo.getD []).length ≤ maxMemoBytes)
    (utf8 "memo longer than " ++ Text.decimal maxMemoBytes ++ utf8 " bytes")

def checkTxVersionAt (height : Nat) : Except Text Unit := do
  checkTxVersionKnown tx
  ensure (tx.txVersion = 3 → txV3FromHeight ≤ height)
    (utf8 "version 3 transactions are valid from block " ++ Text.decimal txV3FromHeight)
  ensure (tx.txVersion < 3 → height < txV2UntilHeight)
    (utf8 "version " ++ Text.decimal tx.txVersion.toNat ++
      utf8 " transactions do not sign their fee and were retired at block " ++
      Text.decimal txV2UntilHeight ++ utf8 "; update the wallet")

/-- The version rule of the height that the transaction was stamped with. -/
def checkTxVersion : Except Text Unit :=
  match tx.blockHeight with
  | some height => checkTxVersionAt tx height
  | none => checkTxVersionKnown tx

/-! ## Signatures -/

/-- The sender is the address of the key that signed, or of the second key with its own
signature. -/
def verifySenderBinding (key message : Text) : Except Text Unit :=
  let owner := env.addressOf tx.chainId key
  if owner ≠ [] ∧ tx.sender = owner then .ok ()
  else do
    ensure (env.dilithiumDisabled = false ∧ tx.dilithiumPubkey ≠ [] ∧ tx.dilithiumSignature ≠ [])
      (utf8 "Spoofing detected: TX from " ++ tx.sender ++ utf8 " is not signed by the key that owns it")
    let second ← need tx.dilithiumPubkey.fromHex (utf8 "invalid dilithium pubkey hex")
    let secondOwner := env.dilithiumAddressOf tx.chainId second
    ensure (secondOwner ≠ [] ∧ tx.sender = secondOwner)
      (utf8 "Spoofing detected: TX from " ++ tx.sender ++ utf8 " does not match attached pubkeys")
    let signature ← need tx.dilithiumSignature.fromHex (utf8 "invalid dilithium signature hex")
    let valid ← (env.verifyDilithium second message signature).mapError fun error =>
      utf8 "ML-DSA-44 error for TX from " ++ tx.sender ++ utf8 ": " ++ error
    ensure (valid = true) (utf8 "ML-DSA-44 signature invalid for TX from " ++ tx.sender)

/-- A transaction whose authority does not come from a signature of its sender. -/
def needsNoSignature : Bool :=
  isProtocolSystemTx env tx || isBatchTx tx || isContributorFeeTx tx ||
    unshieldIsWellFormed env tx || marketSettleIsWellFormed env tx || holdSettleIsWellFormed env tx

def verifyConfirmedTxSig : Except Text Unit :=
  if needsNoSignature env tx then .ok ()
  else do
    ensure (tx.publicKeyEd25519 ≠ [] ∧ tx.signature ≠ [])
      (utf8 "confirmed tx " ++ tx.hash ++ utf8 " missing Ed25519 pubkey/signature")
    let key ← need tx.publicKeyEd25519.fromHex (utf8 "invalid pubkey hex")
    let signature ← need tx.signature.fromHex (utf8 "invalid signature hex")
    ensure (key.length = 32) (utf8 "pubkey must be 32 bytes")
    ensure (signature.length = 64) (utf8 "signature must be 64 bytes")
    (env.checkKey key).mapError fun error => utf8 "invalid pubkey: " ++ error
    checkTxVersion tx
    let message := txSigningBytesFor tx
    ensure (env.verify key message signature = true) (utf8 "Ed25519 signature invalid")
    verifySenderBinding env tx key message
    let expected := expectedStandardTxHash env tx
    ensure (txHashMustMatchStandardSigning tx = true → tx.hash = expected)
      (utf8 "tx hash mismatch: claimed " ++ tx.hash ++ utf8 " expected " ++ expected)

/-- The key that signed a transaction, with what its signature stands for. -/
structure SignedBy (env : TxEnv) (tx : LedgerTx) (key : Text) : Prop where
  verified : ∃ signature, tx.signature.fromHex = some signature ∧
    env.verify key (txSigningBytesFor tx) signature = true
  bound : verifySenderBinding env tx key (txSigningBytesFor tx) = .ok ()
  hash : txHashMustMatchStandardSigning tx = true → tx.hash = expectedStandardTxHash env tx

variable {env} {tx}

theorem verifyConfirmedTxSig_ok (passed : verifyConfirmedTxSig env tx = .ok ()) :
    needsNoSignature env tx = true ∨ ∃ key, SignedBy env tx key := by
  unfold verifyConfirmedTxSig at passed
  split at passed
  case isTrue unsigned => exact Or.inl unsigned
  case isFalse =>
  right
  obtain ⟨-, passed⟩ := unit_bind_eq_ok_iff.mp passed
  obtain ⟨key, -, passed⟩ := bind_eq_ok_iff.mp passed
  obtain ⟨signature, decoded, passed⟩ := bind_eq_ok_iff.mp passed
  simp only [unit_bind_eq_ok_iff, ensure_eq_ok_iff] at passed
  obtain ⟨-, -, -, -, verified, bound, hash⟩ := passed
  exact ⟨key, ⟨signature, need_eq_ok_iff.mp decoded, verified⟩, bound, hash⟩

/-- The sender's address is that of the key, or that of a second key. -/
theorem verifySenderBinding_ok {key message : Text}
    (bound : verifySenderBinding env tx key message = .ok ()) :
    tx.sender = env.addressOf tx.chainId key ∨
      ∃ second, tx.sender = env.dilithiumAddressOf tx.chainId second := by
  unfold verifySenderBinding at bound
  dsimp only at bound
  split at bound
  case isTrue owned => exact Or.inl owned.2
  case isFalse =>
  simp only [bind_eq_ok_iff, ensure_eq_ok_iff, need_eq_ok_iff, mapError_eq_ok_iff,
    exists_const] at bound
  obtain ⟨-, second, -, owned, -⟩ := bound
  exact Or.inr ⟨second, owned.2⟩

end EgoChain.Ledger
