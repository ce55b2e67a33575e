import EgoChain.Ledger.AcceptedBlocks
import EgoChain.Ledger.EscrowBounds
import EgoChain.Ledger.PeerBlock

/-!
# What leaves the escrow addresses

Payments out of an escrow address carry no signature.  The release rule ties them
to a deal, but only for two of the addresses, only if they move an amount, and
without asking what the deal was paid in.
-/

namespace EgoChain.Ledger

open EgoChain.Foundations

/-! ## Ways to the writer -/

/-- No key has the address of an escrow. -/
structure NoEscrowKeys (env : TxEnv) : Prop where
  first : ∀ chain key, isEscrowSource (env.addressOf chain key) = false
  second : ∀ chain key, isEscrowSource (env.dilithiumAddressOf chain key) = false

/-- None of the other addresses that the rules name is an escrow. -/
theorem isEscrowSource_named : ∀ addr ∈ [[], shieldedPoolAddr, marketEscrowAddr, foundationAddr,
    nodePoolAddr], isEscrowSource addr = false := by
  decide

variable {block : LedgerBlock} {txs : List LedgerTx} {view : ChainView}

section Source

variable {tx : LedgerTx} (source : isEscrowSource tx.sender = true)

include source

variable {addr : Text} {env : TxEnv}

theorem escrowSource_ne (other : isEscrowSource addr = false) : tx.sender ≠ addr := by
  rintro rfl
  rw [source] at other
  cases other

theorem escrowSource_ne_named
    (named : addr ∈ [[], shieldedPoolAddr, marketEscrowAddr, foundationAddr, nodePoolAddr]) :
    tx.sender ≠ addr :=
  escrowSource_ne source (isEscrowSource_named addr named)

theorem escrowSource_apart : tx.sender ≠ [] ∧ tx.sender ≠ shieldedPoolAddr ∧
    tx.sender ≠ marketEscrowAddr ∧ tx.sender ≠ foundationAddr := by
  refine ⟨?_, ?_, ?_, ?_⟩ <;> exact escrowSource_ne_named source (by simp)

/-- A payment out of an escrow address that a signature stands for is the settlement of a hold. -/
theorem escrowSource_signed (noKeys : NoEscrowKeys env) (notSystem : isProtocolSystemTx env tx = false)
    (passed : verifyConfirmedTxSig env tx = .ok ()) : tx.txType = utf8 "hold_settle" := by
  obtain ⟨other, noShielded, noMarket, -⟩ := escrowSource_apart source
  have noSender : tx.sender.isEmpty = false := by simpa using other
  rcases verifyConfirmedTxSig_ok passed with unsigned | ⟨key, signed⟩
  · simp only [needsNoSignature, notSystem, isBatchTx, isContributorFeeTx, unshieldIsWellFormed,
      marketSettleIsWellFormed, noSender, noShielded, noMarket, decide_false, Bool.and_false,
      Bool.false_and, Bool.or_false, Bool.false_or] at unsigned
    simp only [holdSettleIsWellFormed, Bool.and_eq_true, decide_eq_true_eq] at unsigned
    exact unsigned.1.1.1.1.1.1.1
  · exfalso
    rcases verifySenderBinding_ok signed.bound with owned | ⟨second, owned⟩
    · exact escrowSource_ne source (noKeys.first _ _) owned
    · exact escrowSource_ne source (noKeys.second _ _) owned

/-- No accepted payment out of an escrow address is an unstaking or a proof of equivocation. -/
theorem escrowSource_kind (noKeys : NoEscrowKeys env) {state : ChainState}
    (notCoinbase : isCoinbase block tx = false)
    (passed : checkKind env state block txs tx = .ok ()) :
    tx.txType ≠ utf8 "unstake" ∧ tx.txType ≠ utf8 "equivocation_proof" := by
  unfold checkKind at passed
  split at passed
  case isTrue =>
    simp only [checkSystemTx, unit_bind_eq_ok_iff, ensure_eq_ok_iff] at passed
    have emission := passed.1.resolve_left (by simp [notCoinbase])
    have others : isSystemEmissionType (utf8 "unstake") = false ∧
        isSystemEmissionType (utf8 "equivocation_proof") = false := by
      decide
    refine ⟨fun isType => ?_, fun isType => ?_⟩ <;> simp [isType, others] at emission
  case isFalse notSystem =>
  split at passed
  case isTrue =>
    rw [ensure_eq_ok_iff] at passed
    obtain ⟨noSender, noShielded, noMarket, -⟩ := escrowSource_apart source
    simp [mayLeavePool, isContributorFeeTx, isBatchTx, noSender, noShielded, noMarket] at passed
  case isFalse =>
    simp only [unit_bind_eq_ok_iff, mapError_eq_ok_iff] at passed
    have hold := escrowSource_signed source noKeys (by simpa using notSystem) passed.2
    rw [hold]
    simp

end Source

/-! ## What is moved -/

/-- The sums of the writer after the first transactions of a block. -/
def sumsAfter (view : ChainView) (txs : List LedgerTx) : WriteSums :=
  (WriteSums.start view).applyTxs view txs

/-- Writing the transaction after the ones before it takes coins from its sender. -/
def MovesOut (view : ChainView) (first : List LedgerTx) (tx : LedgerTx) : Prop :=
  (sumsAfter view (first ++ [tx])).deltaAt tx.sender < (sumsAfter view first).deltaAt tx.sender

/-- The transaction is new, and it spends a fee or sends an amount to another address. -/
def Spends (view : ChainView) (first : List LedgerTx) (tx : LedgerTx) : Prop :=
  view.committed tx.hash = false ∧ view.takesEffect tx.hash = true ∧
    if isReservedSystemSource tx.sender then
      tx.recipient ≠ tx.sender ∧ tx.amount ≠ 0 ∧ (sumsAfter view first).effective view tx.sender ≠ 0
    else tx.feeUegoc ≠ 0 ∨ tx.recipient ≠ tx.sender ∧ tx.amount ≠ 0

theorem toNat_eq_zero_iff {number : UInt64} : number.toNat = 0 ↔ number = 0 :=
  ⟨fun zero => UInt64.toNat_inj.mp zero, fun zero => by rw [zero]; rfl⟩

variable {tx : LedgerTx}

/-- A new payment out of an escrow address is applied as a plain payment. -/
theorem applyTx_of_escrowSource {sums : WriteSums} (source : isEscrowSource tx.sender = true)
    (notUnstake : tx.txType ≠ utf8 "unstake") (notProof : tx.txType ≠ utf8 "equivocation_proof") :
    sums.applyTx view tx = if view.committed tx.hash = false ∧ view.takesEffect tx.hash = true then
        sums.applyPayment view tx
      else sums := by
  obtain ⟨-, noShielded, noMarket, noFoundation⟩ := escrowSource_apart source
  have unstake : isUnstakeTx tx = false := by simp [isUnstakeTx, notUnstake]
  have plain : paysFeeFromAmount tx = false := by
    simp [paysFeeFromAmount, isUnshield, noShielded, noMarket]
  have skips : sums.skips view tx = (view.committed tx.hash || !view.takesEffect tx.hash) := by
    simp [WriteSums.skips, WriteSums.vestingRefuses, noFoundation]
  unfold WriteSums.applyTx WriteSums.applyKind
  rw [skips, unstake, plain, if_neg notProof]
  cases view.committed tx.hash <;> cases view.takesEffect tx.hash <;> simp

/-- A payment out of an escrow address takes coins from it exactly if it spends some. -/
theorem movesOut_iff {first : List LedgerTx} (source : isEscrowSource tx.sender = true)
    (notUnstake : tx.txType ≠ utf8 "unstake") (notProof : tx.txType ≠ utf8 "equivocation_proof") :
    MovesOut view first tx ↔ Spends view first tx := by
  have noSender : tx.sender ≠ [] := escrowSource_ne_named source (by simp)
  unfold MovesOut Spends
  rw [show sumsAfter view (first ++ [tx]) = (sumsAfter view first).applyTx view tx from
    WriteSums.applyTxs_append _ _ _ _, applyTx_of_escrowSource source notUnstake notProof]
  rw [← and_assoc]
  split
  case isFalse stored => simp [stored]
  case isTrue new =>
  rw [WriteSums.deltaAt_applyPayment, and_iff_right new]
  unfold WriteSums.takenFromSender WriteSums.creditedAmount
  simp only [ne_eq, ← toNat_eq_zero_iff, noSender, not_false_eq_true, true_and, if_false,
    eq_comm (a := tx.sender)]
  by_cases same : tx.recipient = tx.sender
  · cases isReservedSystemSource tx.sender
    · simp [same]
      omega
    · simp [same]
  · cases isReservedSystemSource tx.sender
    · simp [same]
      omega
    · simp only [same, if_true, if_false, true_and, not_false_eq_true]
      split <;> omega

/-! ## Deals -/

variable (deals : DealBook)

/-- The deals that an escrow address holds coins for: a reservation that was paid in coins, or a
storage deal. -/
def heldDeal (escrow dealId : Text) : Option EscrowDeal :=
  if escrow = reservationEscrowAddr then
    ((deals.reservations dealId).filter fun record => !record.paidInEgusd).map ComputeReservation.deal
  else if escrow = storageEscrowAddr then (deals.storageDeals dealId).map StorageDeal.deal
  else none

/-- The payment names a deal that its source holds, and pays one of the two parties. -/
def PaysHeldDeal (tx : LedgerTx) : Prop :=
  tx.amount ≠ 0 ∧ ∃ action dealId deal, escrowDealIdFromMemo tx.memo = some (action, dealId) ∧
    heldDeal deals tx.sender dealId = some deal ∧
    (tx.recipient = deal.buyer ∨ tx.recipient = deal.provider)

/-- The memo names a reservation that was paid in EGUSD. -/
def namesEgusdReservation (tx : LedgerTx) : Bool :=
  (escrowDealIdFromMemo tx.memo).any fun named =>
    (deals.reservations named.2).any ComputeReservation.paidInEgusd

/-- The release rule compares the payment with a deal, and the deal was paid in coins. -/
def IsWatched (tx : LedgerTx) : Prop :=
  tx.amount ≠ 0 ∧ (tx.sender = storageEscrowAddr ∨
    tx.sender = reservationEscrowAddr ∧ namesEgusdReservation deals tx = false)

/-- A payment that passes the release rule pays a deal its source holds exactly if the rule
watches it. -/
theorem paysHeldDeal_iff {deals : DealBook} {index : ReleaseIndex} {blockTime : Int}
    (passed : validateEscrowReleaseTx deals index tx blockTime = .ok ()) :
    PaysHeldDeal deals tx ↔ IsWatched deals tx := by
  refine and_congr_right fun moves => ?_
  have apart : reservationEscrowAddr ≠ storageEscrowAddr := by
    simp [reservationEscrowAddr, storageEscrowAddr]
  rw [validateEscrowReleaseTx, if_neg moves] at passed
  cases named : escrowDealIdFromMemo tx.memo with
  | none => simp [named] at passed
  | some pair =>
  obtain ⟨action, dealId⟩ := pair
  simp only [named] at passed
  have egusd : namesEgusdReservation deals tx =
      (deals.reservations dealId).any ComputeReservation.paidInEgusd := by
    simp [namesEgusdReservation, named]
  rw [egusd]
  by_cases isReservation : tx.sender = reservationEscrowAddr
  · cases found : deals.reservations dealId with
    | none => simp [releasedDeal, isReservation, found] at passed
    | some record =>
      simp only [releasedDeal, isReservation, found] at passed
      have party := (checkRelease_ok passed).1
      cases funded : record.paidInEgusd <;>
        simp [heldDeal, isReservation, found, apart, party]
  · by_cases isStorage : tx.sender = storageEscrowAddr
    · cases found : deals.storageDeals dealId with
      | none => simp [releasedDeal, isStorage, Ne.symm apart, found] at passed
      | some record =>
        simp only [releasedDeal, isStorage, found] at passed
        have party := (checkRelease_ok passed).1
        simp [heldDeal, isStorage, Ne.symm apart, found, party]
    · simp [heldDeal, isReservation, isStorage]

/-! ## Blocks -/

/-- What a block on top of the tip has passed while the escrow rule is active. -/
theorem validatePeerBlock_ok {rules : PeerRules} {isProposal checkClock : Bool}
    {miners : Option (List Text)}
    (passed : validatePeerBlock rules block txs isProposal checkClock miners = .ok ())
    (onTip : rules.localTip + 1 = block.height)
    (active : rules.escrowRuleActive block.height = true) :
    validateEscrowReleases rules.deals rules.released block.timestamp txs = .ok () ∧
      validateBlockProtocolTxs rules.tx rules.rewards rules.state block txs = .ok () := by
  unfold validatePeerBlock at passed
  rw [if_neg (by omega)] at passed
  simp only [unit_bind_eq_ok_iff, provided_eq_ok_iff, mapError_eq_ok_iff] at passed
  obtain ⟨-, -, -, -, releases, -, -, -, -, passed⟩ := passed
  obtain ⟨votes, -, passed⟩ := bind_eq_ok_iff.mp passed
  simp only [unit_bind_eq_ok_iff, provided_eq_ok_iff] at passed
  exact ⟨releases active, passed.2 onTip⟩

/-- In an accepted block, whatever leaves an escrow address pays a deal that the address holds
exactly if every payment that spends coins of such an address is one the release rule watches. -/
theorem escrow_pays_held_deals_iff (rules : PeerRules) (noKeys : NoEscrowKeys rules.tx)
    (block : LedgerBlock) (txs : List LedgerTx) (isProposal checkClock : Bool)
    (miners : Option (List Text))
    (passed : validatePeerBlock rules block txs isProposal checkClock miners = .ok ())
    (onTip : rules.localTip + 1 = block.height)
    (active : rules.escrowRuleActive block.height = true) (view : ChainView) :
    (∀ first tx last, txs = first ++ tx :: last → isEscrowSource tx.sender = true →
        MovesOut view first tx → PaysHeldDeal rules.deals tx) ↔
      ∀ first tx last, txs = first ++ tx :: last → isEscrowSource tx.sender = true →
        Spends view first tx → IsWatched rules.deals tx := by
  obtain ⟨releases, protocol⟩ := validatePeerBlock_ok passed onTip active
  have accepted := validateBlockProtocolTxs_ok protocol
  have each (first : List LedgerTx) (tx : LedgerTx) (last : List LedgerTx)
      (place : txs = first ++ tx :: last) (source : isEscrowSource tx.sender = true) :
      (MovesOut view first tx → PaysHeldDeal rules.deals tx) ↔
        (Spends view first tx → IsWatched rules.deals tx) := by
    have mem : tx ∈ txs := by
      rw [place]
      exact List.mem_append_right _ List.mem_cons_self
    have notCoinbase : isCoinbase block tx = false := by
      refine Bool.eq_false_iff.mpr fun isCoin => ?_
      exact escrowSource_ne_named source (by simp) (accepted.coinbase tx mem isCoin)
    obtain ⟨notUnstake, notProof⟩ :=
      escrowSource_kind source noKeys notCoinbase (accepted.kinds tx mem)
    rw [movesOut_iff source notUnstake notProof,
      paysHeldDeal_iff (validateEscrowReleases_ok releases mem source)]
  constructor
  · exact fun pays first tx last place source =>
      (each first tx last place source).mp (pays first tx last place source)
  · exact fun watched first tx last place source =>
      (each first tx last place source).mpr (watched first tx last place source)

/-! ## A watched payment and an unwatched one -/

theorem plainTxEnv_noEscrowKeys : NoEscrowKeys plainTxEnv where
  first chain key := by
    have letters : ∀ letter : Fin 256,
        isEscrowSource (utf8 "user" ++ [UInt8.ofFin letter]) = false := by
      decide +kernel
    cases key with
    | nil => exact (by decide : isEscrowSource (utf8 "user" ++ []) = false)
    | cons letter rest => exact letters letter.toFin
  second chain key := (by decide : isEscrowSource [] = false)

/-- A million coins in each of two escrows. -/
def escrowState : ChainState where
  balances := ((∅ : KeyedMap Text UInt64).insert reservationEscrowAddr 1000000000000).insert
    computeEscrowAddr 1000000000000

def escrowView : ChainView where
  balances := escrowState.balances
  stakeOf _ := 0
  stakeMeta _ := none
  vestedUegoc := 0
  committed _ := false
  takesEffect _ := true
  accusedOf _ := none
  slashed := []

/-- One coin out of an escrow. -/
def escrowPayment (escrow recipient memo : Text) : LedgerTx where
  hash := utf8 "0xpayment"
  sender := escrow
  recipient := recipient
  amount := 1000000
  memo := some memo
  timestamp := 1000
  signature := utf8 "any_escrow_system"
  txType := utf8 "reservation_escrow"

/-- A refund to the buyer of the reservation that it names. -/
def watchedPayment : LedgerTx :=
  escrowPayment reservationEscrowAddr (utf8 "buyer") (utf8 "refund:deal")

/-- A payment to anyone that names nothing. -/
def unwatchedPayment : LedgerTx :=
  escrowPayment computeEscrowAddr (utf8 "stranger") (utf8 "no:deal")

theorem reservation_refund_pays_its_deal :
    MovesOut escrowView [] watchedPayment ∧ PaysHeldDeal oneReservation watchedPayment := by
  have moves : MovesOut escrowView [] watchedPayment := by
    unfold MovesOut
    decide
  refine ⟨moves, (escrow_pays_held_deals_iff (plainNode escrowState oneReservation)
    plainTxEnv_noEscrowKeys (plainBlock [watchedPayment]) [watchedPayment] true true (some [])
    (by decide +kernel) rfl rfl escrowView).mpr ?_ [] watchedPayment [] rfl (by decide +kernel) moves⟩
  intro first tx last place source spends
  obtain rfl : tx = watchedPayment := by
    have mem : tx ∈ [watchedPayment] := by
      rw [place]
      exact List.mem_append_right _ List.mem_cons_self
    exact List.mem_singleton.mp mem
  exact ⟨by decide, Or.inr ⟨rfl, by decide⟩⟩

/-- A payment out of the compute escrow needs no deal: the text after the colon may be anything. -/
theorem compute_escrow_pays_anyone :
    ¬ ∀ (rules : PeerRules) (block : LedgerBlock) (txs : List LedgerTx) (isProposal checkClock : Bool)
      (miners : Option (List Text)) (view : ChainView), NoEscrowKeys rules.tx →
      validatePeerBlock rules block txs isProposal checkClock miners = .ok () →
      rules.localTip + 1 = block.height → rules.escrowRuleActive block.height = true →
      ∀ first tx last, txs = first ++ tx :: last → isEscrowSource tx.sender = true →
        MovesOut view first tx → PaysHeldDeal rules.deals tx := by
  intro always
  have paid := always (plainNode escrowState oneReservation) (plainBlock [unwatchedPayment])
    [unwatchedPayment] true true (some []) escrowView plainTxEnv_noEscrowKeys (by decide +kernel) rfl
    rfl [] unwatchedPayment [] rfl (by decide) (by unfold MovesOut; decide)
  obtain ⟨-, action, dealId, deal, -, held, -⟩ := paid
  rw [heldDeal, if_neg (by decide), if_neg (by decide)] at held
  cases held

end EgoChain.Ledger
