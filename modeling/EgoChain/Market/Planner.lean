import EgoChain.Market.Rules

/-!
# The market planner

The transactions of a block that touch the market are taken in the order of
their hashes.  Each is judged against the store as it stood before the block, and
its effects are merged unless an earlier transaction of the block changed the
same record.  The plan is written when the block is.
-/

namespace EgoChain.Market

open EgoChain.Foundations EgoChain.Ledger

/-- What the store holds at a key. -/
inductive Stored where
  | offer (offer : Offer)
  | trade (trade : Trade)
  | profile (profile : Profile)
  | feedback (feedback : Feedback)
  | arbiter (addresses : ArbiterAddresses)
  | totals (totals : EscrowTotals)
  | height (height : Nat)
  | mark
  deriving DecidableEq

abbrev Store := KeyedMap Text Stored

/-- A key to write, or to delete. -/
abbrev StoreWrite := Text × Option Stored

namespace Store

variable (store : Store)

def offer (id : Text) : Option Offer :=
  match store.lookup (offerKey id) with
  | some (.offer offer) => some offer
  | _ => none

def trade (id : Text) : Option Trade :=
  match store.lookup (tradeKey id) with
  | some (.trade trade) => some trade
  | _ => none

def profile (addr : Text) : Profile :=
  match store.lookup (profileKey addr) with
  | some (.profile profile) => profile
  | _ => {}

def arbiter (addr : Text) : Option ArbiterAddresses :=
  match store.lookup (arbiterAddrKey addr) with
  | some (.arbiter addresses) => some addresses
  | _ => none

def totals : EscrowTotals :=
  match store.lookup escrowKey with
  | some (.totals totals) => totals
  | _ => .zero

def scan (start : Text) (newestFirst : Bool) (limit : Nat) : List Text :=
  let keys := (store.ascending.map Prod.fst).filter fun key => key.startsWith start
  if newestFirst then
    ((keys.filter fun key => key ≤ start ++ List.replicate 64 255).reverse).take limit
  else keys.take limit

def write (write : StoreWrite) : Store :=
  match write.2 with
  | some value => store.insert write.1 value
  | none => store.erase write.1

end Store

structure Effects where
  touches : List Text := []
  writes : List StoreWrite := []
  profiles : List (Text × Profile) := []
  newOffer : Option (Text × Nat) := none
  newPending : Option (Text × Nat) := none
  pairs : List (Text × Text × Text) := []
  escrowIn : Nat := 0
  escrowOut : Nat := 0
  opened : Nat := 0
  closed : Nat := 0

/-- What the planner reads while it judges the transactions of a block. -/
structure PlanContext where
  store : Store
  height : Nat
  now : Int
  arbiters : List Text

namespace PlanContext

variable (context : PlanContext)

def knownTrade (id : Text) : Except Refusal Trade := do
  ensure (validId id) (.invalid (id.clip 80 ++ utf8 " is not a trade id"))
  need (context.store.trade id) (.unknown (utf8 "trade " ++ id ++ utf8 " is not on this chain"))

def knownOffer (id : Text) : Except Refusal Offer :=
  need (context.store.offer id) (.unknown (utf8 "offer " ++ id ++ utf8 " is not on this chain"))

def openOfferCount (maker : Text) : Nat :=
  let start := makerOffersPrefix maker
  (((context.store.scan start false ownerScanLimit).filterMap fun key =>
    context.store.offer (key.drop start.length)).filter fun offer =>
      offer.isOpen context.now).length

def pendingCount (taker : Text) : Nat :=
  let start := userTradesPrefix taker
  (((context.store.scan start true pendingScanLimit).filterMap fun key =>
    if start.length + 8 ≤ key.length then context.store.trade (key.drop (start.length + 8))
    else none).filter fun trade =>
      trade.taker = taker && trade.state = .awaitingLock && !trade.isLockExpired context.now).length

variable (env : Env) (context : PlanContext) (info : AssetInfo) (tx : LedgerTx)

/-- The arbiter of a trade, picked by the hash of its id, with their address on its network. -/
def assignArbiter (trade : Trade) : Option (Text × Option Text) :=
  let family := ((assetInfo trade.asset).map AssetInfo.family).getD .ego
  let candidates := (context.arbiters.filter fun arbiter =>
      arbiter ≠ trade.buyer && arbiter ≠ trade.seller).filterMap fun arbiter =>
    if family = .ego then some (arbiter, none)
    else
      match context.store.arbiter arbiter with
      | none => none
      | some record => (record.forFamily family).map fun payout => (arbiter, some payout)
  if candidates.isEmpty then none
  else
    let digest := env.hashData (utf8 "ego/market/arbiter/v1:" ++ trade.id)
    let pick := (digest.take 8).foldr (fun byte sum => byte.toNat + 256 * sum) 0
    candidates[pick % candidates.length]?

def readBody {α : Type} (parse : Text → Except Text α) (tx : LedgerTx) : Except Refusal α :=
  (parse tx.callArgs).mapError fun error => .invalid (tx.txType ++ utf8 " body: " ++ error)

def offerEffects : Except Refusal Effects := do
  let body ← readBody env.offerBody tx
  (validateOfferBody env body).mapError .invalid
  ensure (tx.amount = 0) (.invalid (utf8 "publishing an offer moves no funds"))
  let id := tx.hash
  ensure (context.store.lookup (offerKey id) = none)
    (.invalid (utf8 "offer " ++ id ++ utf8 " already exists"))
  let maker := tx.sender
  let existing := context.openOfferCount maker
  ensure (existing < maxOpenOffersPerMaker)
    (.invalid (maker ++ utf8 " already has " ++ Text.decimal maxOpenOffersPerMaker ++
      utf8 " open offers; close one first"))
  let offer : Offer := {
    id := id
    maker := maker
    side := body.side
    asset := body.asset
    fiat := body.fiat
    price := body.price
    minMicro := body.minMicro
    maxMicro := body.maxMicro
    methods := body.methods
    country := body.country
    terms := body.terms
    paymentWindowSecs := body.paymentWindowSecs
    createdHeight := context.height
    createdAt := context.now
    expiresAt := satAddTime context.now offerTtlSecs
    closedHeight := none
    makerKey := tx.publicKeyEd25519
    payoutAddress := body.payoutAddress }
  return {
    touches := [utf8 "offer:" ++ id]
    writes := [(bookKey offer.asset offer.fiat offer.side context.height id, some .mark),
      (makerOfferKey maker id, some .mark), (offerKey id, some (.offer offer))]
    newOffer := some (maker, existing) }

def offerCloseEffects : Except Refusal Effects := do
  let body ← readBody env.offerRef tx
  ensure (validId body.offerId) (.invalid (utf8 "that is not an offer id"))
  ensure (tx.amount = 0) (.invalid (utf8 "closing an offer moves no funds"))
  let offer ← context.knownOffer body.offerId
  ensure (offer.maker = tx.sender) (.invalid (utf8 "only the maker can close an offer"))
  ensure (offer.closedHeight = none) (.invalid (utf8 "offer " ++ offer.id ++ utf8 " is already closed"))
  return {
    touches := [utf8 "offer:" ++ offer.id]
    writes := [(offerKey offer.id, some (.offer { offer with closedHeight := some context.height })),
      (makerOfferKey offer.maker offer.id, none),
      (bookKey offer.asset offer.fiat offer.side offer.createdHeight offer.id, none)] }

/-! ## Opening a trade -/

/-- The price a taker quotes is the offer's, or in range if the offer follows the market. -/
def checkPrice (offer : Offer) (priceMicro : Nat) : Except Refusal Unit :=
  match offer.price with
  | .fixed price =>
    ensure (priceMicro = price)
      (.invalid (utf8 "the offer's price is " ++ Text.decimal price ++ utf8 ", not " ++
        Text.decimal priceMicro))
  | .marginBps _ =>
    ensure (priceMicro ≠ 0 ∧ priceMicro ≤ maxPriceMicro)
      (.invalid (utf8 "the quoted price is out of range"))

/-- Where the buyer receives an asset of another network. -/
def buyerPayout (offer : Offer) (payoutAddress : Option Text) : Except Refusal (Option Text) := do
  if info.family = .ego then
    ensure (payoutAddress = none)
      (.invalid (utf8 "EGOC trades pay out on the Ego chain, so they take no payout address"))
    return none
  else
    let address ←
      match offer.side with
      | .sell => .ok payoutAddress
      | .buy => do
          ensure (payoutAddress = none)
            (.invalid (utf8 "the buyer of this offer already named their payout address"))
          return offer.payoutAddress
    let address ← need address
      (.invalid (utf8 "the buyer must say where to receive " ++ info.symbol ++ utf8 " on " ++
        info.network))
    ensure (validChainAddress env info.family address)
      (.invalid (address.clip 64 ++ utf8 " is not a " ++ info.network ++ utf8 " address"))
    return some address

/-- The trade that taking an offer opens, before an arbiter is assigned. -/
def newTrade (offer : Offer) (info : AssetInfo) (body : TradeOpenBody) (payout : Option Text) :
    Trade :=
  let fee := tradeFee offer.asset body.amountMicro
  let state := if info.family = .ego ∧ offer.side = .buy then .locked else .awaitingLock
  { id := tx.hash
    offerId := offer.id
    maker := offer.maker
    taker := tx.sender
    seller := match offer.side with
      | .sell => offer.maker
      | .buy => tx.sender
    buyer := match offer.side with
      | .sell => tx.sender
      | .buy => offer.maker
    sellerKey := match offer.side with
      | .sell => offer.makerKey
      | .buy => tx.publicKeyEd25519
    buyerKey := match offer.side with
      | .sell => tx.publicKeyEd25519
      | .buy => offer.makerKey
    asset := offer.asset
    amountMicro := body.amountMicro
    makerFeeMicro := fee
    lockedMicro := match offer.side with
      | .sell => satAdd body.amountMicro fee
      | .buy => body.amountMicro
    fiat := offer.fiat
    fiatMicro := body.fiatMicro
    priceMicro := body.priceMicro
    method := body.method
    paymentWindowSecs := offer.paymentWindowSecs
    state := state
    openedHeight := context.height
    openedAt := context.now
    lockedAt := if state = .locked then some context.now else none
    paidAt := none
    disputedAt := none
    disputedBy := none
    disputeReason := []
    arbiter := none
    closedAt := none
    closedHeight := none
    closedBy := none
    settleTx := none
    buyerPayout := payout
    arbiterPayout := none
    escrow := none
    nativeSig := none }

/-- Assign an arbiter; only an EGOC trade can open without one. -/
def withArbiter (trade : Trade) : Except Refusal Trade :=
  match context.assignArbiter env trade with
  | some (arbiter, payout) => .ok { trade with arbiter := some arbiter, arbiterPayout := payout }
  | none => do
      ensure (info.family = .ego) (.invalid (utf8 "no arbiter has published a " ++ info.family.asStr ++
          utf8 " address yet, so " ++ trade.asset ++ utf8 " trades cannot open"))
      return trade

def tradeOpenEffects : Except Refusal Effects := do
  let body ← readBody env.tradeOpenBody tx
  ensure (validId body.offerId) (.invalid (utf8 "that is not an offer id"))
  ensure (validMethod body.method) (.invalid (utf8 "the payment method is not a method id"))
  let offer ← context.knownOffer body.offerId
  ensure (offer.isOpen context.now)
    (.invalid (utf8 "offer " ++ offer.id ++ utf8 " is closed or has expired"))
  ensure (tx.sender ≠ offer.maker) (.invalid (utf8 "a maker cannot take their own offer"))
  let info ← need (assetInfo offer.asset)
    (.invalid (offer.asset.clip 16 ++ utf8 " is not traded on this market"))
  let (low, high) := tradeLimits offer.asset
  ensure (max offer.minMicro low ≤ body.amountMicro ∧ body.amountMicro ≤ min offer.maxMicro high)
    (.invalid (Text.decimal body.amountMicro ++ utf8 " is outside the offer's " ++
      Text.decimal offer.minMicro ++ utf8 "..=" ++ Text.decimal offer.maxMicro ++ utf8 " limits"))
  ensure (body.method ∈ offer.methods) (.invalid (utf8 "the offer does not accept " ++ body.method))
  checkPrice offer body.priceMicro
  let fiat := (fiatFor body.amountMicro body.priceMicro).getD 0
  ensure (fiat ≠ 0 ∧ fiat = body.fiatMicro)
    (.invalid (Text.decimal body.amountMicro ++ utf8 " at " ++ Text.decimal body.priceMicro ++
      utf8 " comes to " ++ Text.decimal fiat ++ utf8 ", not " ++ Text.decimal body.fiatMicro))
  ensure (context.store.lookup (tradeKey tx.hash) = none)
    (.invalid (utf8 "trade " ++ tx.hash ++ utf8 " already exists"))
  let payout ← buyerPayout env info offer body.payoutAddress
  let trade := context.newTrade tx offer info body payout
  let expected := if trade.state = .locked then trade.lockedMicro else 0
  ensure (tx.amount.toNat = expected)
    (.invalid (utf8 "opening this trade must move " ++ Text.decimal expected ++
      utf8 " uEGOC into escrow, not " ++ Text.decimal tx.amount.toNat))
  let trade ← context.withArbiter env info trade
  let writes : List StoreWrite :=
    [(tradeKey trade.id, some (.trade trade)),
      (userTradeKey trade.seller context.height trade.id, some .mark),
      (userTradeKey trade.buyer context.height trade.id, some .mark)]
  if trade.state = .locked then
    return {
      touches := [utf8 "trade:" ++ trade.id], writes := writes
      escrowIn := trade.lockedMicro, opened := 1 }
  else
    let existing := context.pendingCount tx.sender
    ensure (existing < maxPendingTradesPerTaker)
      (.invalid (tx.sender ++ utf8 " already has " ++ Text.decimal maxPendingTradesPerTaker ++
        utf8 " trades waiting for a seller"))
    return {
      touches := [utf8 "trade:" ++ trade.id], writes := writes
      newPending := some (tx.sender, existing) }

/-! ## Operations on a trade -/

/-- The effects of writing the next version of a trade. -/
def tradeWrite (next : Trade) : Effects where
  touches := [utf8 "trade:" ++ next.id]
  writes := [(tradeKey next.id, some (.trade next))]

/-- The escrow of a trade in another asset, as the seller names it. -/
def outsideEscrow (trade : Trade) (tx : LedgerTx) (body : LockBody) : Except Refusal EscrowRef := do
  let info ← need (assetInfo trade.asset)
    (.invalid (trade.asset.clip 16 ++ utf8 " is not traded on this market"))
  ensure (tx.amount = 0)
    (.invalid (utf8 "the escrow for " ++ trade.asset ++ utf8 " lives on " ++ info.network ++
      utf8 ", so this lock moves no EGOC"))
  let reference ← need body.escrow
    (.invalid (utf8 "say where the escrow was funded: contract, funder and transaction"))
  ensure (validEscrowContract env info.family reference.contract ∧
      validChainAddress env info.family reference.funder ∧
      validChainTx env info.family reference.tx)
    (.invalid (utf8 "the escrow reference is not a " ++ info.network ++
      utf8 " contract, address and transaction"))
  return reference

def lockEffects : Except Refusal Effects := do
  let body ← readBody env.lockBody tx
  let trade ← context.knownTrade body.tradeId
  ensure (trade.state = .awaitingLock)
    (.invalid (utf8 "trade " ++ trade.id ++ utf8 " is not waiting for the seller"))
  ensure (trade.isLockExpired context.now = false)
    (.invalid (utf8 "the time to fund trade " ++ trade.id ++ utf8 " has passed"))
  ensure (tx.sender = trade.seller) (.invalid (utf8 "only the seller funds the escrow"))
  if trade.isEgoc then
    ensure (body.escrow = none)
      (.invalid (utf8 "EGOC is escrowed on the Ego chain itself, so no outside escrow applies"))
    ensure (tx.amount.toNat = trade.lockedMicro)
      (.invalid (utf8 "trade " ++ trade.id ++ utf8 " needs exactly " ++
        Text.decimal trade.lockedMicro ++ utf8 " uEGOC in escrow, not " ++
        Text.decimal tx.amount.toNat))
    return { tradeWrite { trade with state := .locked, lockedAt := some context.now } with
      escrowIn := trade.lockedMicro, opened := 1 }
  else
    let reference ← outsideEscrow env trade tx body
    return tradeWrite { trade with
      escrow := some reference, state := .locked, lockedAt := some context.now }

def cancelEffects : Except Refusal Effects := do
  let body ← readBody env.tradeRef tx
  let trade ← context.knownTrade body.tradeId
  ensure (trade.state = .awaitingLock) (.invalid (utf8 "trade " ++ trade.id ++
      utf8 " already holds funds; it ends by release or refund"))
  let role ← need (trade.roleOf tx.sender) (.invalid (utf8 "only the buyer or the seller can cancel"))
  ensure (tx.amount = 0) (.invalid (utf8 "cancelling moves no funds"))
  return tradeWrite { trade with
    state := .cancelled, closedAt := some context.now, closedHeight := some context.height
    closedBy := some role }

def paidEffects : Except Refusal Effects := do
  let body ← readBody env.tradeRef tx
  let trade ← context.knownTrade body.tradeId
  ensure (trade.state = .locked)
    (.invalid (utf8 "trade " ++ trade.id ++ utf8 " is not waiting for payment"))
  ensure (tx.sender = trade.buyer) (.invalid (utf8 "only the buyer marks a trade paid"))
  ensure (tx.amount = 0) (.invalid (utf8 "marking a trade paid moves no funds"))
  return tradeWrite { trade with state := .paid, paidAt := some context.now }

/-- The seller of an outside trade may dispute it when the payment is overdue. -/
def noShow (trade : Trade) (role : Role) : Bool :=
  !trade.isEgoc && trade.state = .locked && role = .seller &&
    trade.paymentDueAt.any fun due => due ≤ context.now

/-- The arbiter already assigned, or one assigned now. -/
def disputeArbiter (trade : Trade) : Except Refusal Text :=
  match trade.arbiter with
  | some arbiter => .ok arbiter
  | none =>
    need ((context.assignArbiter env trade).map Prod.fst)
      (.invalid (utf8 "no impartial arbiter is available"))

def disputeEffects : Except Refusal Effects := do
  let body ← readBody env.disputeBody tx
  ensure (validText body.reason maxNoteBytes)
    (.invalid (utf8 "a dispute reason is at most " ++ Text.decimal maxNoteBytes ++
      utf8 " bytes of text"))
  let trade ← context.knownTrade body.tradeId
  let role ← need (trade.roleOf tx.sender)
    (.invalid (utf8 "only the buyer or the seller can open a dispute"))
  ensure (trade.state = .paid ∨ context.noShow trade role) (.invalid (utf8 "trade " ++ trade.id ++
      utf8 " can be disputed only after the buyer marks it paid"))
  ensure (tx.amount = 0) (.invalid (utf8 "opening a dispute moves no funds"))
  ensure (role = .buyer → trade.buyerMayDisputeAt.getD maxI64 ≤ context.now)
    (.invalid (utf8 "the seller has until " ++
      Text.signedDecimal (trade.buyerMayDisputeAt.getD maxI64) ++
      utf8 " to release before the buyer can dispute"))
  let arbiter ← context.disputeArbiter env trade
  let next : Trade := { trade with
    state := .disputed, disputedAt := some context.now, disputedBy := some role
    disputeReason := body.reason, arbiter := some arbiter }
  return {
    touches := [utf8 "trade:" ++ trade.id]
    writes := [(tradeKey trade.id, some (.trade next)),
      (arbiterCaseKey arbiter context.height trade.id, some .mark)]
    profiles := [(tx.sender, { disputesOpened := 1 })] }

def ratingDelta : Rating → Profile
  | .positive => { positive := 1 }
  | .neutral => { neutral := 1 }
  | .negative => { negative := 1 }

def feedbackEffects : Except Refusal Effects := do
  let body ← readBody env.feedbackBody tx
  ensure (validText body.comment maxNoteBytes)
    (.invalid (utf8 "feedback is at most " ++ Text.decimal maxNoteBytes ++ utf8 " bytes of text"))
  let trade ← context.knownTrade body.tradeId
  ensure (trade.state = .released ∨ trade.state = .refunded)
    (.invalid (utf8 "trade " ++ trade.id ++ utf8 " has not finished"))
  let role ← need (trade.roleOf tx.sender)
    (.invalid (utf8 "only the buyer or the seller can leave feedback"))
  ensure (tx.amount = 0) (.invalid (utf8 "feedback moves no funds"))
  ensure (context.now ≤ satAddTime (trade.closedAt.getD trade.openedAt) feedbackWindowSecs)
    (.invalid (utf8 "the time to leave feedback on this trade has passed"))
  ensure (context.store.lookup (feedbackKey trade.id role) = none)
    (.invalid (utf8 "the " ++ role.asStr ++ utf8 " already left feedback on " ++ trade.id))
  let about := trade.counterparty role
  return {
    touches := [utf8 "feedback:" ++ trade.id ++ colon :: role.asStr]
    writes := [(feedbackKey trade.id role, some (.feedback {
      tradeId := trade.id, sender := tx.sender, about := about, rating := body.rating
      comment := body.comment, height := context.height, at' := context.now }))]
    profiles := [(about, ratingDelta body.rating)] }

/-! ## Settlements -/

def entitled (trade : Trade) (by' : Role) (signer : Text) : Bool :=
  match by' with
  | .seller => signer = trade.seller
  | .buyer => signer = trade.buyer
  | .arbiter => trade.arbiter = some signer

def holdsFunds : TradeState → Bool
  | .locked => true
  | .paid => true
  | .disputed => true
  | _ => false

def settleAllowed (trade : Trade) : Outcome → Role → Except Refusal Bool
  | .release, .seller => .ok (holdsFunds trade.state)
  | .release, .arbiter => .ok (trade.state = .disputed)
  | .release, .buyer =>
    .error (.invalid (utf8 "only the seller or an arbiter can release the escrow"))
  | .refund, .buyer => .ok (holdsFunds trade.state)
  | .refund, .arbiter => .ok (trade.state = .disputed)
  | .refund, .seller => do
      ensure trade.isEgoc (.invalid (trade.asset ++
          utf8 " escrow goes back to the seller through the buyer or the arbiter"))
      ensure (trade.state = .locked) (.invalid (utf8 "the seller can reclaim trade " ++ trade.id ++
          utf8 " only while it is unpaid"))
      ensure (trade.paymentDueAt.getD maxI64 ≤ context.now) (.invalid (utf8 "the buyer has until " ++
          Text.signedDecimal (trade.paymentDueAt.getD maxI64) ++
          utf8 " to pay before the seller can reclaim"))
      return true

def checkNativeSig (trade : Trade) (body : SettleBody) : Except Refusal Unit :=
  match body.nativeSig with
  | none => .ok ()
  | some native => do
      ensure (trade.isEgoc = false) (.invalid (utf8 "an EGOC settlement carries no outside signature"))
      ensure (body.outcome = .refund ∧ body.by' = .buyer)
        (.invalid (utf8 "only the buyer's refund carries an outside signature"))
      (verifyNativeCancel env trade native).mapError .invalid

def settleProfiles (trade : Trade) (body : SettleBody) : List (Text × Profile) :=
  let volume := if trade.isEgoc then trade.amountMicro else 0
  match body.outcome, body.by' with
  | .release, role =>
    [(trade.seller, .traded volume context.now false),
      (trade.buyer, .traded volume context.now true)] ++
    if role = .arbiter then
      [(trade.buyer, { disputesWon := 1 }), (trade.seller, { disputesLost := 1 })]
    else []
  | .refund, .buyer => [(trade.buyer, { cancelled := 1 })]
  | .refund, .seller => [(trade.buyer, { timedOut := 1 })]
  | .refund, .arbiter =>
    [(trade.seller, { disputesWon := 1 }), (trade.buyer, { disputesLost := 1 })]

def settlePairs (trade : Trade) (outcome : Outcome) : List (Text × Text × Text) :=
  match outcome with
  | .refund => []
  | .release =>
    if context.store.lookup (pairKey trade.seller trade.buyer) = none then
      [(pairKey trade.seller trade.buyer, trade.seller, trade.buyer)]
    else []

/-- The trade after its settlement. -/
def settled (trade : Trade) (body : SettleBody) : Trade :=
  { trade with
    state := match body.outcome with
      | .release => .released
      | .refund => .refunded
    closedAt := some context.now
    closedHeight := some context.height
    closedBy := some body.by'
    settleTx := some tx.hash
    nativeSig := body.nativeSig }

def settleEffects : Except Refusal Effects := do
  let body ← (checkSettleShape env tx).mapError .invalid
  let trade ← context.knownTrade body.tradeId
  let signer ← (verifyAuth env body).mapError .invalid
  ensure (entitled trade body.by' signer)
    (.invalid (utf8 "the settlement is not signed by the trade's " ++ body.by'.asStr))
  let allowed ← context.settleAllowed trade body.outcome body.by'
  ensure allowed
    (.invalid (utf8 "trade " ++ trade.id ++ utf8 " cannot be " ++ body.outcome.past ++ utf8 " by the " ++
      body.by'.asStr ++ utf8 " while it is " ++ trade.status context.now))
  checkNativeSig env trade body
  ensure (tx.recipient = trade.payoutTo body.outcome ∧ tx.amount.toNat = trade.settleAmount ∧
      tx.feeUegoc.toNat = trade.settleFee body.outcome)
    (.invalid (utf8 "settlement " ++ tx.hash ++ utf8 " must pay " ++
      Text.decimal trade.settleAmount ++ utf8 " uEGOC to " ++ trade.payoutTo body.outcome ++
      utf8 " with a " ++ Text.decimal (trade.settleFee body.outcome) ++ utf8 " uEGOC fee"))
  return { tradeWrite (context.settled tx trade body) with
    profiles := context.settleProfiles trade body
    pairs := context.settlePairs trade body.outcome
    escrowOut := if trade.isEgoc then trade.lockedMicro else 0
    closed := if trade.isEgoc then 1 else 0 }

def arbiterEffects : Except Refusal Effects := do
  let body ← readBody env.arbiterBody tx
  ensure (tx.amount = 0) (.invalid (utf8 "publishing arbiter addresses moves no funds"))
  ensure (tx.sender ∈ context.arbiters) (.invalid (utf8 "only an arbiter publishes arbiter addresses"))
  ensure (body ≠ ⟨none, none, none, none⟩) (.invalid (utf8 "publish at least one address"))
  ensure (body.evm.all (validChainAddress env .evm))
    (.invalid (utf8 "the EVM address is not 0x followed by 40 hex digits"))
  ensure (body.tron.all (validChainAddress env .tron))
    (.invalid (utf8 "the Tron address is not a T address"))
  ensure (body.sol.all (validChainAddress env .solana))
    (.invalid (utf8 "the Solana address is not a 32-byte base58 key"))
  ensure (body.ada.all (validChainAddress env .cardano))
    (.invalid (utf8 "the Cardano address is not a testnet key address"))
  return {
    touches := [utf8 "arbiter:" ++ tx.sender]
    writes := [(arbiterAddrKey tx.sender, some (.arbiter {
      evm := body.evm, tron := body.tron, sol := body.sol, ada := body.ada
      height := context.height }))] }

def signedEffects : Except Refusal Effects := do
  (checkSignedShape env tx).mapError .invalid
  if tx.txType = txOffer then context.offerEffects env tx
  else if tx.txType = txOfferClose then context.offerCloseEffects env tx
  else if tx.txType = txTradeOpen then context.tradeOpenEffects env tx
  else if tx.txType = txLock then context.lockEffects env tx
  else if tx.txType = txTradeCancel then context.cancelEffects env tx
  else if tx.txType = txPaid then context.paidEffects env tx
  else if tx.txType = txDispute then context.disputeEffects env tx
  else if tx.txType = txFeedback then context.feedbackEffects env tx
  else if tx.txType = txArbiter then context.arbiterEffects env tx
  else .error (.invalid (tx.txType.clip 40 ++ utf8 " is not a market operation"))

/-- The effects of a transaction that touches the market. -/
def effects : Except Refusal Effects :=
  if isSettle tx then context.settleEffects env tx else context.signedEffects env tx

end PlanContext

/-! ## Planning a block -/

structure Planner extends PlanContext where
  touched : List Text := []
  offersByMaker : KeyedMap Text Nat := ∅
  pendingByTaker : KeyedMap Text Nat := ∅
  pairs : List Text := []
  writes : KeyedMap Text (Option Stored) := ∅
  profiles : KeyedMap Text Profile := ∅
  escrowIn : Nat := 0
  escrowOut : Nat := 0
  opened : Nat := 0
  closed : Nat := 0
  admitted : List Text := []

namespace Planner

variable (counts : KeyedMap Text Nat) (store : Store)

def new (height : Nat) (now : Int) : Planner where
  store := store
  height := height
  now := now
  arbiters := arbitersAt height

/-- `profiles.entry(addr).or_default().absorb(&delta)`. -/
def absorbAt (profiles : KeyedMap Text Profile) (entry : Text × Profile) : KeyedMap Text Profile :=
  profiles.insert entry.1 (((profiles.lookup entry.1).getD {}).absorb entry.2)

/-- Two accounts that trade for the first time. -/
def mergePair (planner : Planner) (pair : Text × Text × Text) : Planner :=
  if pair.1 ∈ planner.pairs then planner
  else
    { planner with
      pairs := pair.1 :: planner.pairs
      writes := planner.writes.insert pair.1 (some (.height planner.height))
      profiles := absorbAt (absorbAt planner.profiles (pair.2.1, { partners := 1 }))
        (pair.2.2, { partners := 1 }) }

def count : Option (Text × Nat) → KeyedMap Text Nat
  | none => counts
  | some (addr, _) => counts.insert addr ((counts.lookup addr).getD 0 + 1)

variable (planner : Planner) (effects : Effects)

def mergeRecords : Planner :=
  { planner with
    touched := effects.touches ++ planner.touched
    writes := effects.writes.foldl (fun writes write => writes.insert write.1 write.2) planner.writes
    profiles := effects.profiles.foldl absorbAt planner.profiles
    offersByMaker := count planner.offersByMaker effects.newOffer
    pendingByTaker := count planner.pendingByTaker effects.newPending }

def mergeFlow : Planner :=
  { planner with
    escrowIn := satAdd planner.escrowIn effects.escrowIn
    escrowOut := satAdd planner.escrowOut effects.escrowOut
    opened := satAdd planner.opened effects.opened
    closed := satAdd planner.closed effects.closed }

def merge : Planner :=
  (effects.pairs.foldl mergePair (planner.mergeRecords effects)).mergeFlow effects

/-- The block so far leaves room for one more open record of the account. -/
def checkRoom (limit : Nat) (tail : Text) : Option (Text × Nat) → Except Refusal Unit
  | none => .ok ()
  | some (addr, existing) =>
    ensure (existing + (counts.lookup addr).getD 0 < limit)
      (.conflict (addr ++ utf8 " would pass " ++ Text.decimal limit ++ tail))

def admitTx (env : Env) (planner : Planner) (tx : LedgerTx) : Except Refusal Planner :=
  if touchesMarket tx then do
    let effects ← planner.toPlanContext.effects env tx
    match effects.touches.find? fun touch => touch ∈ planner.touched with
    | some touch =>
      .error (.conflict (touch ++ utf8 " is already changed by another transaction in this block"))
    | none => do
        checkRoom planner.offersByMaker maxOpenOffersPerMaker (utf8 " open offers in this block")
          effects.newOffer
        checkRoom planner.pendingByTaker maxPendingTradesPerTaker
          (utf8 " trades waiting for a seller in this block") effects.newPending
        let merged := planner.merge effects
        return { merged with admitted := merged.admitted ++ [tx.hash] }
  else .ok planner

/-- What a profile that changed writes: the profile and its place on the leaderboard. -/
def profileWrites (entry : Text × Profile) : List StoreWrite :=
  let before := store.profile entry.1
  let after := before.absorb entry.2
  if after = before then []
  else
    (profileKey entry.1, some (.profile after)) :: if before.completed = after.completed then []
      else
        (if 0 < before.completed then [(leaderboardKey before.completed entry.1, none)] else []) ++
          if 0 < after.completed then [(leaderboardKey after.completed entry.1, some .mark)] else []

def newTotals : EscrowTotals where
  heldUegoc := satAdd planner.store.totals.heldUegoc planner.escrowIn - planner.escrowOut
  activeTrades := satAdd planner.store.totals.activeTrades planner.opened - planner.closed

def totalsWrites : List StoreWrite :=
  if 0 < planner.escrowIn ∨ 0 < planner.escrowOut ∨ 0 < planner.opened ∨ 0 < planner.closed then
    [(escrowKey, some (.totals planner.newTotals))]
  else []

/-- The writes of the plan, in the order in which they replace one another. -/
def finish : List StoreWrite :=
  planner.writes.entries.map (fun entry => (entry.1, entry.2)) ++
    planner.profiles.ascending.flatMap (profileWrites planner.store) ++ planner.totalsWrites

end Planner

structure Plan where
  writes : List StoreWrite
  rejected : List Text

def Plan.takesEffect (plan : Plan) (hash : Text) : Bool := hash ∉ plan.rejected

/-- Admit one transaction after the other; what is refused is noted and skipped. -/
def admitAll (env : Env) : Planner → List LedgerTx → Planner × List Text
  | planner, [] => (planner, [])
  | planner, tx :: rest =>
    match planner.admitTx env tx with
    | .ok next => admitAll env next rest
    | .error _ =>
      let (last, rejected) := admitAll env planner rest
      (last, tx.hash :: rejected)

/-- A block as the market sees it; `now` is the median time of the blocks before it. -/
structure MarketBlock where
  height : Nat
  now : Int
  txs : List LedgerTx

def marketTxs (block : MarketBlock) : List LedgerTx :=
  (block.txs.filter touchesMarket).mergeSort fun first second => first.hash ≤ second.hash

variable (env : Env) (store : Store) (block : MarketBlock)

/-- The planner after the transactions of a block, and the hashes of those it refused. -/
def planned : Planner × List Text :=
  admitAll env (Planner.new store block.height block.now) (marketTxs block)

def planBlock : Plan :=
  if (block.txs.filter touchesMarket).isEmpty then ⟨[], []⟩
  else if ruleActive env block.height then
    ⟨(planned env store block).1.finish, (planned env store block).2⟩
  else ⟨[], (block.txs.filter touchesMarket).map LedgerTx.hash⟩

def applyPlan (plan : Plan) : Store := plan.writes.foldl Store.write store

/-- Admit one transaction after the other, leaving out what the chain has already; the first
refusal ends it. -/
def admitFresh (env : Env) (committed : Text → Bool) : Planner → List LedgerTx → Except Text Planner
  | planner, [] => .ok planner
  | planner, tx :: rest =>
    if committed tx.hash then admitFresh env committed planner rest
    else
      match planner.admitTx env tx with
      | .ok next => admitFresh env committed next rest
      | .error refusal =>
        .error (utf8 "market tx " ++ tx.hash ++ utf8 " refused: " ++ refusal.reason)

/-- What a validator asks of the market transactions of a block, taken in the order of the block. -/
def validateBlockMarketTxs (committed : Text → Bool) (block : MarketBlock) : Except Text Unit :=
  if block.txs.any touchesMarket then do
    ensure (ruleActive env block.height) (utf8 "block " ++ Text.decimal block.height ++
        utf8 " carries market transactions but the P2P market is not active")
    let _ ← admitFresh env committed (Planner.new store block.height block.now)
      (block.txs.filter touchesMarket)
  else .ok ()

end EgoChain.Market
