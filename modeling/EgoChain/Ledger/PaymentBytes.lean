import EgoChain.Foundations.Texts
import EgoChain.Ledger.PeerBlock

/-!
# Reading the signed bytes of a payment

The signed bytes of version 3 name the recipient without its length, in front of
fields of fixed width.  They can be taken apart in one way only once the end of the
recipient is known; a recipient that goes on with the fields of another payment makes
one signature stand for two.
-/

namespace EgoChain.Ledger

open EgoChain.Foundations List

/-! ## Signed bytes -/

/-- The number fits 64 bits with a sign. -/
def IsI64 (number : Int) : Prop := -(2 ^ 63) ≤ number ∧ number < 2 ^ 63

/-- The two agree on all that is signed; no memo is the empty one. -/
structure SignedAlike (tx other : LedgerTx) : Prop where
  chainId : tx.chainId = other.chainId
  sender : tx.sender = other.sender
  recipient : tx.recipient = other.recipient
  amount : tx.amount = other.amount
  nonce : tx.nonce = other.nonce
  timestamp : tx.timestamp = other.timestamp
  fee : tx.feeUegoc = other.feeUegoc
  priorityFee : tx.priorityFeeUegoc = other.priorityFeeUegoc
  txType : tx.txType = other.txType
  memo : tx.memo.getD [] = other.memo.getD []

variable {tx other : LedgerTx}

/-- What stands behind the recipient in the signed bytes. -/
def LedgerTx.signedTail (tx : LedgerTx) : Text :=
  colon :: u64Bytes tx.amount ++ colon :: u64Bytes tx.nonce ++ colon :: i64Bytes tx.timestamp ++
    colon :: u64Bytes tx.feeUegoc ++ colon :: u64Bytes tx.priorityFeeUegoc ++
    colon :: leBytes 4 tx.txType.length ++ tx.txType ++
    colon :: leBytes 4 (tx.memo.getD []).length ++ tx.memo.getD []

/-- The signed bytes fix the chain and the sender. -/
theorem signingBytes_front (senders : colon ∉ tx.sender) (sendersToo : colon ∉ other.sender)
    (same : txSigningBytesV3 tx = txSigningBytesV3 other) :
    tx.chainId = other.chainId ∧ tx.sender = other.sender ∧
      tx.recipient ++ tx.signedTail = other.recipient ++ other.signedTail := by
  simp only [txSigningBytesV3, append_assoc, cons_append] at same
  obtain ⟨chain, same⟩ := List.cons.inj (append_cancel_left same)
  obtain ⟨sender, same⟩ := append_mark_inj senders sendersToo (List.cons.inj same).2
  simp only [LedgerTx.signedTail, append_assoc, cons_append]
  exact ⟨chain, sender, same⟩

/-- What stands behind a recipient can be read, given the length of the type. -/
theorem signedAlike_of_tail (times : IsI64 tx.timestamp) (timesToo : IsI64 other.timestamp)
    (front : tx.chainId = other.chainId ∧ tx.sender = other.sender ∧ tx.recipient = other.recipient)
    (types : leBytes 4 tx.txType.length = leBytes 4 other.txType.length →
      tx.txType.length = other.txType.length)
    (same : tx.signedTail = other.signedTail) : SignedAlike tx other := by
  simp only [LedgerTx.signedTail, append_assoc, cons_append] at same
  obtain ⟨amount, same⟩ := u64Bytes_append_inj.mp (List.cons.inj same).2
  obtain ⟨nonce, same⟩ := u64Bytes_append_inj.mp (List.cons.inj same).2
  obtain ⟨numbers, same⟩ := leBytes_append_inj (by omega) (by omega) (List.cons.inj same).2
  unfold IsI64 at times timesToo
  have time : tx.timestamp = other.timestamp := by omega
  obtain ⟨fee, same⟩ := u64Bytes_append_inj.mp (List.cons.inj same).2
  obtain ⟨priority, same⟩ := u64Bytes_append_inj.mp (List.cons.inj same).2
  obtain ⟨typeLength, same⟩ := append_inj (List.cons.inj same).2 (by simp)
  obtain ⟨type, same⟩ := append_inj same (types typeLength)
  obtain ⟨-, memo⟩ := append_inj (List.cons.inj same).2 (by simp)
  exact ⟨front.1, front.2.1, front.2.2, amount, nonce, time, fee, priority, type, memo⟩

/-! ## Addresses of keys -/

def bech32Charset : Text := utf8 "qpzry9x8gf2tvdw0s3jn54khce6mua7l"

/-- The checksum of Bech32m, one group of five bits after the other. -/
def bech32Polymod (groups : List Nat) : Nat :=
  groups.foldl (fun check group =>
    [0x3b6a57b2, 0x26508e6d, 0x1ea119fa, 0x3d4233dd, 0x2a1462b3].zipIdx.foldl
      (fun sum (generator, place) =>
        if (check >>> 25).testBit place then sum ^^^ generator else sum)
      (((check &&& 0x1ffffff) <<< 5) ^^^ group)) 1

/-- The name of the network in front of the groups. -/
def bech32Expand (network : Text) : List Nat :=
  network.map (fun byte => byte.toNat / 32) ++ 0 :: network.map fun byte => byte.toNat % 32

/-- Groups for 21 bytes and a checksum. -/
def isBech32On (network address : Text) : Bool :=
  match address.afterStart (network ++ utf8 "1") with
  | none => false
  | some groups => groups.length = 40 && groups.all (· ∈ bech32Charset) &&
      bech32Polymod (bech32Expand network ++ groups.map bech32Charset.idxOf) = 0x2bc830a3

def isBech32Address (address : Text) : Bool :=
  isBech32On (utf8 "ego") address || isBech32On (utf8 "egot") address

theorem colon_notMem_of_isBech32On {network address : Text}
    (plain : colon ∉ network ++ utf8 "1") (valid : isBech32On network address = true) :
    colon ∉ address := by
  rw [isBech32On, Text.afterStart] at valid
  split at valid
  · cases valid
  case h_2 groups found =>
  split at found
  case isFalse => cases found
  case isTrue starts =>
  obtain ⟨rest, rfl⟩ := List.isPrefixOf_iff_prefix.mp starts
  obtain rfl : rest = groups := by simpa using found
  simp only [Bool.and_eq_true, all_eq_true, decide_eq_true_eq] at valid
  intro mem
  rcases mem_append.mp mem with front | back
  · exact plain front
  · exact absurd (valid.1.2 colon back) (by decide)

theorem colon_notMem_of_isBech32Address {address : Text} (valid : isBech32Address address = true) :
    colon ∉ address := by
  rcases Bool.or_eq_true_iff.mp valid with short | long
  · exact colon_notMem_of_isBech32On (by decide) short
  · exact colon_notMem_of_isBech32On (by decide) long

/-! ## One way to read -/

theorem length_signedTail (tx : LedgerTx) :
    tx.signedTail.length = 55 + tx.txType.length + (tx.memo.getD []).length := by
  simp only [LedgerTx.signedTail, i64Bytes, u64Bytes, length_append, length_cons,
    length_leBytes]
  omega

/-- Under the rules for the memo, the tails of equal length agree on the length of the type. -/
theorem typeLength_eq (version : tx.txVersion = 3)
    (versionToo : other.txVersion = 3) (known : checkTxVersionKnown tx = .ok ())
    (knownToo : checkTxVersionKnown other = .ok ()) (tails : tx.signedTail = other.signedTail)
    (same : leBytes 4 tx.txType.length = leBytes 4 other.txType.length) :
    tx.txType.length = other.txType.length := by
  simp only [checkTxVersionKnown, unit_bind_eq_ok_iff, ensure_eq_ok_iff] at known knownToo
  have memo : (tx.memo.getD []).length ≤ 256 := known.2 version
  have memoToo : (other.memo.getD []).length ≤ 256 := knownToo.2 versionToo
  have total := congrArg List.length tails
  rw [length_signedTail, length_signedTail] at total
  have low := congrArg leNat same
  rw [leNat_leBytes, leNat_leBytes] at low
  omega

/-- Payments with the same signed bytes are alike exactly if their recipients have one length, and
they are if no recipient holds a colon. -/
theorem signing_bytes_alike_iff (tx other : LedgerTx) (version : tx.txVersion = 3)
    (versionToo : other.txVersion = 3) (sender : isBech32Address tx.sender = true)
    (senderToo : isBech32Address other.sender = true) (known : checkTxVersionKnown tx = .ok ())
    (knownToo : checkTxVersionKnown other = .ok ()) (times : IsI64 tx.timestamp)
    (timesToo : IsI64 other.timestamp) (same : txSigningBytesV3 tx = txSigningBytesV3 other) :
    (SignedAlike tx other ↔ tx.recipient.length = other.recipient.length) ∧
      (colon ∉ tx.recipient → colon ∉ other.recipient → SignedAlike tx other) := by
  obtain ⟨chain, senders, same⟩ := signingBytes_front (colon_notMem_of_isBech32Address sender)
    (colon_notMem_of_isBech32Address senderToo) same
  have alike (recipients : tx.recipient = other.recipient) : SignedAlike tx other := by
    rw [recipients] at same
    have tails := append_cancel_left same
    exact signedAlike_of_tail times timesToo ⟨chain, senders, recipients⟩
      (typeLength_eq version versionToo known knownToo tails) tails
  refine ⟨⟨fun all => congrArg List.length all.recipient, fun lengths => ?_⟩, fun plain plainToo => ?_⟩
  · exact alike (append_inj same lengths).1
  · exact alike (append_mark_inj plain plainToo same).1

/-! ## One signature for two payments -/

def payer : Text := utf8 "egot1yzwkx349luk82ksl0xe2tm6rfwj26t7pg5apncg2"

def payerEnv : TxEnv := { plainTxEnv with addressOf := fun _ _ => payer }

/-- A node on which the payer has coins. -/
def payerNode : PeerRules :=
  { plainNode ⟨(∅ : KeyedMap Text UInt64).insert payer 1000, fun _ => 0, fun _ => 0, fun _ => 0,
      fun _ => 0⟩ ⟨fun _ => none, fun _ => none⟩ with tx := payerEnv }

/-- A signed transfer. -/
def payment (recipient : Text) (amount : UInt64) (memo : Option Text) : LedgerTx :=
  let tx : LedgerTx := {
    hash := [], sender := payer, recipient := recipient, amount := amount, memo := memo
    timestamp := 880, signature := Text.toHex (replicate 64 1), nonce := 1
    publicKeyEd25519 := Text.toHex (replicate 32 1), txVersion := 3, chainId := 1 }
  { tx with hash := expectedStandardTxHash payerEnv tx }

/-- One coin to a friend, with a memo that spells the fields of a larger payment. -/
def smallPayment : LedgerTx := payment (utf8 "friend") 1 (some (payment [] 100 none).signedTail)

/-- That larger payment, to the rest of the bytes in front of the memo. -/
def largePayment : LedgerTx :=
  payment (utf8 "friend" ++ smallPayment.signedTail.take 63) 100 none

/-- No memo and an empty one are signed alike. -/
theorem empty_memo_signed_alike :
    SignedAlike (payment (utf8 "friend") 1 none) (payment (utf8 "friend") 1 (some [])) :=
  (signing_bytes_alike_iff _ _ rfl rfl (by decide +kernel) (by decide +kernel) (by decide +kernel)
    (by decide) (by unfold IsI64; decide) (by unfold IsI64; decide)
    (by decide)).2 (by decide) (by decide)

/-- Two payments of one address, in plain characters and accepted in a block each, have the same
signed bytes and different amounts. -/
theorem one_signature_two_payments :
    (∀ tx ∈ [smallPayment, largePayment], tx.txVersion = 3 ∧ isBech32Address tx.sender = true ∧
      (∀ byte ∈ tx.recipient ++ tx.memo.getD [], byte < 128) ∧
      validatePeerBlock payerNode (plainBlock [tx]) [tx] true true (some []) = .ok ()) ∧
    txSigningBytesV3 smallPayment = txSigningBytesV3 largePayment ∧
      smallPayment.signature = largePayment.signature ∧ ¬ SignedAlike smallPayment largePayment := by
  refine ⟨by decide +kernel, by decide +kernel, rfl, fun alike => ?_⟩
  exact absurd alike.amount (by decide)

end EgoChain.Ledger
