import EgoChain.Ledger.Transactions

/-!
# Records of the peer-to-peer market

Offers are published by a maker and taken by a taker; a trade holds the terms of
one deal and its state.  The coins of an EGOC trade are locked in the market's
escrow, those of the other assets in a contract on their own network.
-/

namespace EgoChain.Market

open EgoChain.Foundations EgoChain.Ledger

def marketChainId : UInt8 := 1

def txOffer : Text := utf8 "market_offer"
def txOfferClose : Text := utf8 "market_offer_close"
def txTradeOpen : Text := utf8 "market_trade_open"
def txLock : Text := utf8 "market_lock"
def txTradeCancel : Text := utf8 "market_trade_cancel"
def txPaid : Text := utf8 "market_paid"
def txDispute : Text := utf8 "market_dispute"
def txFeedback : Text := utf8 "market_feedback"
def txSettle : Text := utf8 "market_settle"
def txArbiter : Text := utf8 "market_arbiter"

def signedOps : List Text :=
  [txOffer, txOfferClose, txTradeOpen, txLock, txTradeCancel, txPaid, txDispute, txFeedback, txArbiter]

def makerFeeBps : Nat := 100
def minTradeUegoc : Nat := 1000000
def maxTradeUegoc : Nat := 10000000000000
def maxOpenOffersPerMaker : Nat := 20
def maxPendingTradesPerTaker : Nat := 5
def maxMethods : Nat := 8
def maxMethodLen : Nat := 32
def maxTermsBytes : Nat := 1000
def maxNoteBytes : Nat := 280
def maxBodyBytes : Nat := 4096
def minPaymentWindowSecs : Int := 15 * 60
def maxPaymentWindowSecs : Int := 24 * 60 * 60
def acceptWindowSecs : Int := 30 * 60
def buyerDisputeDelaySecs : Int := 60 * 60
def offerTtlSecs : Int := 30 * 24 * 60 * 60
def feedbackWindowSecs : Int := 30 * 24 * 60 * 60
def maxMarginBps : Int := 5000
def maxPriceMicro : Nat := 1000000000000
def maxTradeMicro : Nat := 1000000000000000
def cardanoMinFeeMicro : Nat := 1000000
def ownerScanLimit : Nat := 512
def pendingScanLimit : Nat := 64

/-! ## Times -/

def maxI64 : Int := 9223372036854775807

def minI64 : Int := -9223372036854775808

/-- `saturating_add` on `i64`. -/
def satAddTime (time seconds : Int) : Int := max minI64 (min maxI64 (time + seconds))

/-! ## Assets -/

inductive Family where
  | ego
  | evm
  | tron
  | solana
  | cardano
  deriving DecidableEq

def Family.asStr : Family → Text
  | .ego => utf8 "ego"
  | .evm => utf8 "evm"
  | .tron => utf8 "tron"
  | .solana => utf8 "solana"
  | .cardano => utf8 "cardano"

structure AssetInfo where
  id : Text
  symbol : Text
  network : Text
  family : Family
  minMicro : Nat

def egoc : Text := utf8 "EGOC"

def assets : List AssetInfo :=
  [⟨utf8 "EGOC", utf8 "EGOC", utf8 "ego", .ego, minTradeUegoc⟩,
    ⟨utf8 "USDT-TRC20", utf8 "USDT", utf8 "tron", .tron, 1⟩,
    ⟨utf8 "TRX", utf8 "TRX", utf8 "tron", .tron, 1⟩,
    ⟨utf8 "USDT-ERC20", utf8 "USDT", utf8 "ethereum", .evm, 1⟩,
    ⟨utf8 "USDC-ERC20", utf8 "USDC", utf8 "ethereum", .evm, 1⟩,
    ⟨utf8 "ETH", utf8 "ETH", utf8 "ethereum", .evm, 1⟩,
    ⟨utf8 "USDT-BEP20", utf8 "USDT", utf8 "bsc", .evm, 1⟩,
    ⟨utf8 "USDC-BEP20", utf8 "USDC", utf8 "bsc", .evm, 1⟩,
    ⟨utf8 "BNB", utf8 "BNB", utf8 "bsc", .evm, 1⟩,
    ⟨utf8 "USDT-POLYGON", utf8 "USDT", utf8 "polygon", .evm, 1⟩,
    ⟨utf8 "USDC-POLYGON", utf8 "USDC", utf8 "polygon", .evm, 1⟩,
    ⟨utf8 "POL", utf8 "POL", utf8 "polygon", .evm, 1⟩,
    ⟨utf8 "USDC-SPL", utf8 "USDC", utf8 "solana", .solana, 1⟩,
    ⟨utf8 "USDT-SPL", utf8 "USDT", utf8 "solana", .solana, 1⟩,
    ⟨utf8 "SOL", utf8 "SOL", utf8 "solana", .solana, 10000⟩,
    ⟨utf8 "ADA", utf8 "ADA", utf8 "cardano", .cardano, 10000000⟩]

def assetInfo (id : Text) : Option AssetInfo := assets.find? fun info => info.id = id

def isEgoc (asset : Text) : Bool := asset = egoc

def tradeLimits (asset : Text) : Nat × Nat :=
  if isEgoc asset then (minTradeUegoc, maxTradeUegoc)
  else (((assetInfo asset).map AssetInfo.minMicro).getD 1, maxTradeMicro)

/-- EGOC is the one asset of its family. -/
theorem isEgoc_iff {asset : Text} {info : AssetInfo} (listed : assetInfo asset = some info) :
    isEgoc asset = true ↔ info.family = .ego := by
  have named : info.id = asset := by simpa using List.find?_some listed
  have all : ∀ info ∈ assets, isEgoc info.id = true ↔ info.family = .ego := by decide
  rw [← named]
  exact all info (List.mem_of_find?_eq_some listed)

/-! ## Enumerations -/

inductive Side where
  | sell
  | buy
  deriving DecidableEq

def Side.asStr : Side → Text
  | .sell => utf8 "sell"
  | .buy => utf8 "buy"

inductive Price where
  | fixed (micro : Nat)
  | marginBps (bps : Int)
  deriving DecidableEq

inductive Role where
  | buyer
  | seller
  | arbiter
  deriving DecidableEq

def Role.asStr : Role → Text
  | .buyer => utf8 "buyer"
  | .seller => utf8 "seller"
  | .arbiter => utf8 "arbiter"

inductive Outcome where
  | release
  | refund
  deriving DecidableEq

def Outcome.asStr : Outcome → Text
  | .release => utf8 "release"
  | .refund => utf8 "refund"

def Outcome.past : Outcome → Text
  | .release => utf8 "released"
  | .refund => utf8 "refunded"

inductive Rating where
  | positive
  | neutral
  | negative
  deriving DecidableEq

inductive TradeState where
  | awaitingLock
  | locked
  | paid
  | disputed
  | cancelled
  | released
  | refunded
  deriving DecidableEq

/-! ## Bodies -/

structure OfferBody where
  side : Side
  asset : Text
  fiat : Text
  price : Price
  minMicro : Nat
  maxMicro : Nat
  methods : List Text
  country : Option Text
  terms : Text
  paymentWindowSecs : Int
  payoutAddress : Option Text
  deriving DecidableEq

structure OfferRef where
  offerId : Text
  deriving DecidableEq

structure TradeOpenBody where
  offerId : Text
  amountMicro : Nat
  priceMicro : Nat
  fiatMicro : Nat
  method : Text
  payoutAddress : Option Text
  deriving DecidableEq

structure TradeRef where
  tradeId : Text
  deriving DecidableEq

structure EscrowRef where
  contract : Text
  funder : Text
  tx : Text
  deriving DecidableEq

structure LockBody where
  tradeId : Text
  escrow : Option EscrowRef
  deriving DecidableEq

structure ArbiterBody where
  evm : Option Text
  tron : Option Text
  sol : Option Text
  ada : Option Text
  deriving DecidableEq

structure DisputeBody where
  tradeId : Text
  reason : Text
  deriving DecidableEq

structure FeedbackBody where
  tradeId : Text
  rating : Rating
  comment : Text
  deriving DecidableEq

structure SettleBody where
  tradeId : Text
  outcome : Outcome
  by' : Role
  pubkey : Text
  signature : Text
  nativeSig : Option Text
  deriving DecidableEq

/-! ## Records -/

structure ArbiterAddresses where
  evm : Option Text
  tron : Option Text
  sol : Option Text
  ada : Option Text
  height : Nat
  deriving DecidableEq

def ArbiterAddresses.forFamily (addresses : ArbiterAddresses) : Family → Option Text
  | .evm => addresses.evm
  | .tron => addresses.tron
  | .solana => addresses.sol
  | .cardano => addresses.ada
  | .ego => none

structure Offer where
  id : Text
  maker : Text
  side : Side
  asset : Text
  fiat : Text
  price : Price
  minMicro : Nat
  maxMicro : Nat
  methods : List Text
  country : Option Text
  terms : Text
  paymentWindowSecs : Int
  createdHeight : Nat
  createdAt : Int
  expiresAt : Int
  closedHeight : Option Nat
  makerKey : Text
  payoutAddress : Option Text
  deriving DecidableEq

def Offer.isOpen (offer : Offer) (now : Int) : Bool :=
  offer.closedHeight.isNone && now < offer.expiresAt

structure Trade where
  id : Text
  offerId : Text
  maker : Text
  taker : Text
  seller : Text
  buyer : Text
  sellerKey : Text
  buyerKey : Text
  asset : Text
  amountMicro : Nat
  makerFeeMicro : Nat
  lockedMicro : Nat
  fiat : Text
  fiatMicro : Nat
  priceMicro : Nat
  method : Text
  paymentWindowSecs : Int
  state : TradeState
  openedHeight : Nat
  openedAt : Int
  lockedAt : Option Int
  paidAt : Option Int
  disputedAt : Option Int
  disputedBy : Option Role
  disputeReason : Text
  arbiter : Option Text
  closedAt : Option Int
  closedHeight : Option Nat
  closedBy : Option Role
  settleTx : Option Text
  buyerPayout : Option Text
  arbiterPayout : Option Text
  escrow : Option EscrowRef
  nativeSig : Option Text
  deriving DecidableEq

namespace Trade

variable (trade : Trade) (now : Int)

def isEgoc : Bool := Market.isEgoc trade.asset

def payoutTo : Outcome → Text
  | .release => trade.buyer
  | .refund => trade.seller

def payoutFee : Outcome → Nat
  | .release => trade.makerFeeMicro
  | .refund => 0

/-- What a settlement moves on this chain. -/
def settleAmount : Nat := if trade.isEgoc then trade.lockedMicro else 0

def settleFee (outcome : Outcome) : Nat :=
  if trade.isEgoc then trade.payoutFee outcome else 0

def roleOf (addr : Text) : Option Role :=
  if addr = trade.buyer then some .buyer
  else if addr = trade.seller then some .seller
  else none

def counterparty : Role → Text
  | .buyer => trade.seller
  | _ => trade.buyer

def lockExpiresAt : Int := satAddTime trade.openedAt acceptWindowSecs

def paymentDueAt : Option Int :=
  trade.lockedAt.map fun time => satAddTime time trade.paymentWindowSecs

def buyerMayDisputeAt : Option Int :=
  trade.paidAt.map fun time => satAddTime time buyerDisputeDelaySecs

def isLockExpired : Bool :=
  trade.state = .awaitingLock && trade.lockExpiresAt ≤ now

def status : Text :=
  match trade.state with
  | .awaitingLock => if trade.isLockExpired now then utf8 "expired" else utf8 "awaiting_lock"
  | .locked =>
    if trade.paymentDueAt.any fun due => due ≤ now then utf8 "payment_overdue" else utf8 "locked"
  | .paid => utf8 "paid"
  | .disputed => utf8 "disputed"
  | .cancelled => utf8 "cancelled"
  | .released => utf8 "released"
  | .refunded => utf8 "refunded"

end Trade

structure Feedback where
  tradeId : Text
  sender : Text
  about : Text
  rating : Rating
  comment : Text
  height : Nat
  at' : Int
  deriving DecidableEq

structure Profile where
  completed : Nat := 0
  asBuyer : Nat := 0
  asSeller : Nat := 0
  volumeUegoc : Nat := 0
  partners : Nat := 0
  cancelled : Nat := 0
  timedOut : Nat := 0
  disputesOpened : Nat := 0
  disputesWon : Nat := 0
  disputesLost : Nat := 0
  positive : Nat := 0
  neutral : Nat := 0
  negative : Nat := 0
  firstTradeAt : Option Int := none
  lastTradeAt : Option Int := none
  deriving DecidableEq

namespace Profile

/-- Both times if both are there, and the one that is there otherwise. -/
def joinTimes (join : Int → Int → Int) : Option Int → Option Int → Option Int
  | some first, some second => some (join first second)
  | first, second => first.or second

def absorb (profile delta : Profile) : Profile where
  completed := satAdd profile.completed delta.completed
  asBuyer := satAdd profile.asBuyer delta.asBuyer
  asSeller := satAdd profile.asSeller delta.asSeller
  volumeUegoc := satAdd profile.volumeUegoc delta.volumeUegoc
  partners := satAdd profile.partners delta.partners
  cancelled := satAdd profile.cancelled delta.cancelled
  timedOut := satAdd profile.timedOut delta.timedOut
  disputesOpened := satAdd profile.disputesOpened delta.disputesOpened
  disputesWon := satAdd profile.disputesWon delta.disputesWon
  disputesLost := satAdd profile.disputesLost delta.disputesLost
  positive := satAdd profile.positive delta.positive
  neutral := satAdd profile.neutral delta.neutral
  negative := satAdd profile.negative delta.negative
  firstTradeAt := joinTimes min profile.firstTradeAt delta.firstTradeAt
  lastTradeAt := joinTimes max profile.lastTradeAt delta.lastTradeAt

def traded (volume : Nat) (time : Int) (asBuyer : Bool) : Profile where
  completed := 1
  asBuyer := if asBuyer then 1 else 0
  asSeller := if asBuyer then 0 else 1
  volumeUegoc := volume
  firstTradeAt := some time
  lastTradeAt := some time

end Profile

structure EscrowTotals where
  heldUegoc : Nat
  activeTrades : Nat
  deriving DecidableEq

def EscrowTotals.zero : EscrowTotals := ⟨0, 0⟩

inductive Refusal where
  | invalid (reason : Text)
  | unknown (reason : Text)
  | conflict (reason : Text)
  deriving DecidableEq

def Refusal.reason : Refusal → Text
  | .invalid reason => reason
  | .unknown reason => reason
  | .conflict reason => reason

/-! ## Amounts -/

def makerFee (amountMicro : Nat) : Nat := (amountMicro * makerFeeBps + 9999) / 10000

variable (asset : Text) (amountMicro : Nat)

def tradeFee : Nat :=
  let fee := makerFee amountMicro
  let cardano := (assetInfo asset).any fun info => info.family = .cardano
  if cardano ∧ fee < cardanoMinFeeMicro then 0 else fee

def fiatFor (priceMicro : Nat) : Option Nat :=
  let value := (amountMicro * priceMicro + 500000) / 1000000
  if value < 2 ^ 64 then some value else none

theorem tradeFee_le {amountMicro : Nat} (positive : 0 < amountMicro) :
    tradeFee asset amountMicro ≤ amountMicro := by
  have fee : makerFee amountMicro ≤ amountMicro := by
    unfold makerFee makerFeeBps
    omega
  simp only [tradeFee]
  split <;> omega

end EgoChain.Market
