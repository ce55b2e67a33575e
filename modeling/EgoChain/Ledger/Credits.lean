import EgoChain.Foundations.Totals
import EgoChain.Ledger.Transactions

/-!
# The credits ledger

EGUSD credits are minted by burning EGOC, paid from account to account, and
released from escrow.  A block's credit transactions are checked one by one
against the ledger before the block; its updates are then summed up for each
account and written with a clamp.  From a fixed height on, a transaction that is on
the chain already is left out.
-/

namespace EgoChain.Ledger

open EgoChain.Foundations

def checkinFromHeight : Nat := 32000
def microUsdPerCredit : Nat := 10000
def creditsPriceTolerancePct : Nat := 25
def creditsOnchainPriceFromHeight : Nat := 32901

/-! ## Memos -/

def creditsMintAmount (amountUegoc priceMicroUsd : Nat) : Nat :=
  amountUegoc * priceMicroUsd / (1000000 * microUsdPerCredit) % 2 ^ 64

def parseCreditsMintMemo (memo : Option Text) : Option Nat :=
  memo.bind fun memo => (memo.afterStart (utf8 "credits_mint:")).bind Text.parseU64

def parseCreditsPayMemo (memo : Option Text) : Option Nat :=
  memo.bind fun memo => (memo.afterStart (utf8 "credits_pay:")).bind fun rest =>
    Text.parseU64 (rest.splitFirst colon).1

def parseCreditsReleaseMemo (memo : Option Text) : Option (Nat × Text) :=
  memo.bind fun memo => (memo.afterStart (utf8 "credits_release:")).bind fun rest =>
    match rest.splitOnce colon with
    | none => none
    | some (credits, rest) =>
      match Text.parseU64 credits, rest.splitOnce colon with
      | some credits, some (_, dealId) => if dealId.isEmpty then none else some (credits, dealId)
      | _, _ => none

/-! ## Records -/

/-- What the escrow rules read of a rented machine's reservation. -/
structure ComputeReservation where
  buyerAddress : Text
  providerAddress : Text
  totalCostUegoc : UInt64
  collateralUegoc : UInt64 := 0
  createdAt : Int
  expiresAt : Int
  startedAt : Option Int := none
  paidInEgusd : Bool
  deriving DecidableEq

def ComputeReservation.start (reservation : ComputeReservation) : Int :=
  reservation.startedAt.getD reservation.createdAt

def escrowCreditsReleasedKey (dealId recipient : Text) : Text :=
  utf8 "escrow_relc:" ++ dealId ++ colon :: recipient

/-- The recipient under which all releases of a deal are summed up. -/
def everyone : Text := utf8 "*"

structure CreditsLedger where
  credits : KeyedMap Text UInt64
  /-- What was released so far, by deal and recipient. -/
  released : KeyedMap Text UInt64

def CreditsLedger.balance (ledger : CreditsLedger) (addr : Text) : Nat :=
  ((ledger.credits.lookup addr).getD 0).toNat

def CreditsLedger.releasedSoFar (ledger : CreditsLedger) (dealId recipient : Text) : Nat :=
  ((ledger.released.lookup (escrowCreditsReleasedKey dealId recipient)).getD 0).toNat

/-- What a node reads beside the ledger: the reservations, its own price and the agreed one. -/
structure CreditsView where
  reservations : Text → Option ComputeReservation
  localMicro : Nat
  agreedMicro : Nat → Option Nat

/-! ## Errors -/

inductive CreditsError where
  | mintNotBurnt (hash : Text)
  | mintZero (hash : Text)
  | mintMemo (hash : Text)
  | mintZeroPrice (hash : Text)
  | mintPrice (hash : Text) (price : Nat) (reference : Nat) (origin : Text)
  | mintNoPrice (hash : Text)
  | payAmount (hash : Text)
  | payRecipient (hash : Text)
  | payMemo (hash : Text)
  | payZero (hash : Text)
  | payOverspends (hash sender : Text) (has needs : Nat)
  | escrowSource (hash sender : Text)
  | escrowAmount (hash : Text)
  | escrowMemo (hash : Text)
  | escrowZero (hash : Text)
  | escrowUnknown (hash dealId : Text)
  | escrowFunding (hash dealId : Text)
  | escrowParty (hash recipient : Text)
  | escrowOverRelease (hash dealId : Text) (released credits deposit : Nat)
  | escrowProRata (hash dealId : Text) (released credits cap : Nat)
  deriving DecidableEq

open Text in
def CreditsError.message : CreditsError → Text
  | .mintNotBurnt hash => utf8 "credits_mint " ++ hash ++ utf8 " must burn to " ++ creditsBurnAddr
  | .mintZero hash => utf8 "credits_mint " ++ hash ++ utf8 " burns zero EGOC"
  | .mintMemo hash =>
    utf8 "credits_mint " ++ hash ++ utf8 " missing credits_mint:\x7bprice\x7d memo"
  | .mintZeroPrice hash => utf8 "credits_mint " ++ hash ++ utf8 " has zero price"
  | .mintPrice hash price reference origin =>
    utf8 "credits_mint " ++ hash ++ utf8 " price " ++ decimal price ++ utf8 "µ$ outside ±" ++
      decimal creditsPriceTolerancePct ++ utf8 "% of " ++ origin ++ utf8 " " ++
      decimal reference ++ utf8 "µ$"
  | .mintNoPrice hash =>
    utf8 "credits_mint " ++ hash ++ utf8 " refused: the chain holds no agreed EGOC price yet"
  | .payAmount hash => utf8 "credits_pay " ++ hash ++ utf8 " must carry zero EGOC amount"
  | .payRecipient hash => utf8 "credits_pay " ++ hash ++ utf8 " has invalid recipient"
  | .payMemo hash => utf8 "credits_pay " ++ hash ++ utf8 " missing credits_pay:\x7bamount\x7d memo"
  | .payZero hash => utf8 "credits_pay " ++ hash ++ utf8 " pays zero credits"
  | .payOverspends hash sender has needs =>
    utf8 "credits_pay " ++ hash ++ utf8 " overspends: " ++ sender ++ utf8 " has " ++
      decimal has ++ utf8 " credits, needs " ++ decimal needs
  | .escrowSource hash sender =>
    utf8 "credits_escrow " ++ hash ++ utf8 " from non-escrow source " ++ sender
  | .escrowAmount hash => utf8 "credits_escrow " ++ hash ++ utf8 " must carry zero EGOC amount"
  | .escrowMemo hash => utf8 "credits_escrow " ++ hash ++ utf8 " missing credits_release memo"
  | .escrowZero hash => utf8 "credits_escrow " ++ hash ++ utf8 " releases zero credits"
  | .escrowUnknown hash dealId =>
    utf8 "credits_escrow " ++ hash ++ utf8 " references unknown deal " ++ dealId
  | .escrowFunding hash dealId =>
    utf8 "credits_escrow " ++ hash ++ utf8 " but reservation " ++ dealId ++ utf8 " is EGOC-funded"
  | .escrowParty hash recipient =>
    utf8 "credits_escrow " ++ hash ++ utf8 " pays non-party " ++ recipient
  | .escrowOverRelease hash dealId released credits deposit =>
    utf8 "credits_escrow " ++ hash ++ utf8 " over-releases deal " ++ dealId ++ utf8 ": " ++
      decimal released ++ utf8 " + " ++ decimal credits ++ utf8 " > deposit " ++ decimal deposit
  | .escrowProRata hash dealId released credits cap =>
    utf8 "credits_escrow " ++ hash ++ utf8 " exceeds provider pro-rata for " ++ dealId ++
      utf8 ": " ++ decimal released ++ utf8 " + " ++ decimal credits ++ utf8 " > cap " ++
      decimal cap

/-! ## Checks -/

variable (view : CreditsView) (ledger : CreditsLedger) (txs : List LedgerTx) (tx : LedgerTx)
  (height : Nat) (blockTime : Int)

def creditsMintBasics : Except CreditsError Nat :=
  if tx.recipient ≠ creditsBurnAddr then .error (.mintNotBurnt tx.hash)
  else if tx.amount = 0 then .error (.mintZero tx.hash)
  else
    match parseCreditsMintMemo tx.memo with
    | none => .error (.mintMemo tx.hash)
    | some price => if price = 0 then .error (.mintZeroPrice tx.hash) else .ok price

def creditsMintPriceOk (price reference : Nat) (origin : Text) : Except CreditsError Unit :=
  let tol := satMul reference creditsPriceTolerancePct / 100
  if price > satAdd reference tol ∨ price < reference - tol then
    .error (.mintPrice tx.hash price reference origin)
  else .ok ()

def validateCreditsMintAgainst (agreed : Option Nat) : Except CreditsError Unit :=
  match creditsMintBasics tx with
  | .error error => .error error
  | .ok price =>
    match agreed with
    | none => .error (.mintNoPrice tx.hash)
    | some agreed => creditsMintPriceOk tx price agreed (utf8 "the agreed on-chain price")

def validateCreditsPay : Except CreditsError Unit :=
  if tx.amount ≠ 0 then .error (.payAmount tx.hash)
  else if tx.recipient.isEmpty ∨ tx.recipient = tx.sender ∨
      isReservedSystemSource tx.recipient = true then
    .error (.payRecipient tx.hash)
  else
    match parseCreditsPayMemo tx.memo with
    | none => .error (.payMemo tx.hash)
    | some credits =>
      if credits = 0 then .error (.payZero tx.hash)
      else if ledger.balance tx.sender < credits then
        .error (.payOverspends tx.hash tx.sender (ledger.balance tx.sender) credits)
      else .ok ()

def validateCreditsTx : Except CreditsError Unit :=
  if tx.txType = utf8 "credits_mint" then
    match creditsMintBasics tx with
    | .error error => .error error
    | .ok price =>
      if view.localMicro > 0 then creditsMintPriceOk tx price view.localMicro (utf8 "oracle")
      else .ok ()
  else if tx.txType = utf8 "credits_pay" then validateCreditsPay ledger tx
  else .ok ()

def validateCreditsTxAt : Except CreditsError Unit :=
  if tx.txType = utf8 "credits_mint" ∧ creditsOnchainPriceFromHeight ≤ height then
    validateCreditsMintAgainst tx (view.agreedMicro height)
  else validateCreditsTx view ledger tx

/-- The share of a total that is earned at a time. -/
def proRata (total : Nat) (start stop time : Int) : Nat :=
  if stop ≤ start then total
  else total * (min (max (time - start) 0) (stop - start)).toNat / (stop - start).toNat

def validateCreditsEscrowTx : Except CreditsError Unit :=
  if isEscrowSource tx.sender = false then .error (.escrowSource tx.hash tx.sender)
  else if tx.amount ≠ 0 then .error (.escrowAmount tx.hash)
  else
    match parseCreditsReleaseMemo tx.memo with
    | none => .error (.escrowMemo tx.hash)
    | some (credits, dealId) =>
      if credits = 0 then .error (.escrowZero tx.hash)
      else
        match view.reservations dealId with
        | none => .error (.escrowUnknown tx.hash dealId)
        | some deal =>
          if deal.paidInEgusd = false then .error (.escrowFunding tx.hash dealId)
          else if tx.recipient ≠ deal.buyerAddress ∧ tx.recipient ≠ deal.providerAddress then
            .error (.escrowParty tx.hash tx.recipient)
          else
            let deposit := deal.totalCostUegoc.toNat
            let released := ledger.releasedSoFar dealId everyone
            if satAdd released credits > deposit then
              .error (.escrowOverRelease tx.hash dealId released credits deposit)
            else if tx.recipient = deal.providerAddress ∧ deal.providerAddress ≠ deal.buyerAddress then
              let cap := proRata deposit deal.start deal.expiresAt blockTime
              let released := ledger.releasedSoFar dealId deal.providerAddress
              if satAdd released credits > cap then
                .error (.escrowProRata tx.hash dealId released credits cap)
              else .ok ()
            else .ok ()

/-- The credit rules of peer-block validation for one transaction. -/
def validateCredits (tx : LedgerTx) : Except CreditsError Unit :=
  if tx.txType = utf8 "credits_mint" ∨ tx.txType = utf8 "credits_pay" then
    validateCreditsTxAt view ledger tx height
  else if tx.txType = utf8 "credits_escrow" then validateCreditsEscrowTx view ledger tx blockTime
  else .ok ()

def validateAllCredits (view : CreditsView) (ledger : CreditsLedger) (height : Nat)
    (blockTime : Int) : List LedgerTx → Except CreditsError Unit
  | [] => .ok ()
  | tx :: rest =>
    match validateCredits view ledger height blockTime tx with
    | .error error => .error error
    | .ok () => validateAllCredits view ledger height blockTime rest

/-! ## Updates -/

structure CreditUpdates where
  deltas : KeyedMap Text Int
  released : KeyedMap (Text × Text) Nat

def CreditUpdates.empty : CreditUpdates where
  deltas := ∅
  released := ∅

/-- `*index.entry(key).or_default() += credits` on 64 bits. -/
def addReleased (index : KeyedMap (Text × Text) Nat) (key : Text × Text) (credits : Nat) :
    KeyedMap (Text × Text) Nat :=
  index.insert key (((index.lookup key).getD 0 + credits) % 2 ^ 64)

def creditUpdate (updates : CreditUpdates) (tx : LedgerTx) : CreditUpdates :=
  if tx.txType = utf8 "credits_mint" then
    match parseCreditsMintMemo tx.memo with
    | none => updates
    | some price =>
      let minted := creditsMintAmount tx.amount.toNat price
      if minted = 0 then updates
      else { updates with deltas := updates.deltas.addTo tx.sender minted }
  else if tx.txType = utf8 "credits_pay" then
    match parseCreditsPayMemo tx.memo with
    | none => updates
    | some credits =>
      if credits = 0 then updates
      else
        { updates with
          deltas := (updates.deltas.addTo tx.sender (-credits)).addTo tx.recipient credits }
  else if tx.txType = utf8 "credits_escrow" then
    match parseCreditsReleaseMemo tx.memo with
    | none => updates
    | some (credits, dealId) =>
      if credits = 0 then updates
      else
        { deltas := (updates.deltas.addTo tx.sender (-credits)).addTo tx.recipient credits
          released :=
            addReleased (addReleased updates.released (dealId, tx.recipient) credits)
              (dealId, everyone) credits }
  else updates

def creditUpdates : CreditUpdates := txs.foldl creditUpdate .empty

/-- The transactions of a block that are not on the chain yet. -/
def freshTxs (stored : List Text) : List LedgerTx := txs.filter fun tx => tx.hash ∉ stored

/-- The transactions of a block that the credits are moved by. -/
def creditTxs (stored : List Text) : List LedgerTx :=
  if checkinFromHeight ≤ height then freshTxs txs stored else txs

/-- `clamp(0, u64::MAX)`. -/
def clampU64 (value : Int) : UInt64 := UInt64.ofNat (min value.toNat maxU64)

def writeCredits (credits : KeyedMap Text UInt64) (entry : Sigma fun _ : Text => Int) :
    KeyedMap Text UInt64 :=
  credits.insert entry.1 (clampU64 (((credits.lookup entry.1).getD 0).toNat + entry.2))

/-- Adds to the sum that the index had before. -/
def writeReleasedTo (before released : KeyedMap Text UInt64)
    (entry : Sigma fun _ : Text × Text => Nat) : KeyedMap Text UInt64 :=
  let key := escrowCreditsReleasedKey entry.1.1 entry.1.2
  released.insert key (UInt64.ofNat (satAdd ((before.lookup key).getD 0).toNat entry.2))

def writeReleased (released : KeyedMap Text UInt64) :
    (Sigma fun _ : Text × Text => Nat) → KeyedMap Text UInt64 :=
  writeReleasedTo released released

/-- The ledger after a block.  The writes of one account do not depend on those of another, and
saturating sums at one key can be written in any order, so the order of the maps is free.  It is
not in `apply_credit_txs`, which reads every sum before its batch and writes the last one. -/
def CreditsLedger.applyBlock (stored : List Text) : CreditsLedger :=
  let updates := creditUpdates (creditTxs txs height stored)
  { credits := updates.deltas.entries.foldl writeCredits ledger.credits
    released :=
      if checkinFromHeight ≤ height then updates.released.entries.foldl writeReleased ledger.released
      else
        (updates.released.entries.insertionSort fun a b =>
          a.1.1 < b.1.1 ∨ a.1.1 = b.1.1 ∧ a.1.2 ≤ b.1.2).foldl
          (writeReleasedTo ledger.released) ledger.released }

end EgoChain.Ledger
