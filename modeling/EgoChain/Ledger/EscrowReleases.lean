import EgoChain.Ledger.Credits

/-!
# Releases from escrow

A release names a deal in its memo.  The rule looks the deal up, and compares
the release with what the index says was released before the block; the index
moves on when the block is written.  Below a fixed height, the index takes the last
of the releases that a block adds to one sum, and not all of them.
-/

namespace EgoChain.Ledger

open EgoChain.Foundations

/-- What the escrow rules read of a storage deal. -/
structure StorageDeal where
  clientAddress : Text
  providerAddress : Text
  totalCostUegoc : UInt64
  createdAt : Int
  expiresAt : Int
  deriving DecidableEq

/-- The deals recorded on the chain. -/
structure DealBook where
  reservations : Text → Option ComputeReservation
  storageDeals : Text → Option StorageDeal

/-- A deal as the release rule reads it. -/
structure EscrowDeal where
  buyer : Text
  provider : Text
  earnable : Nat
  collateral : Nat
  start : Int
  stop : Int
  deriving DecidableEq

def EscrowDeal.deposit (deal : EscrowDeal) : Nat := satAdd deal.earnable deal.collateral

/-- What the provider may have received at a time. -/
def EscrowDeal.cap (deal : EscrowDeal) (time : Int) : Nat :=
  satAdd (proRata deal.earnable deal.start deal.stop time) deal.collateral

def ComputeReservation.deal (reservation : ComputeReservation) : EscrowDeal where
  buyer := reservation.buyerAddress
  provider := reservation.providerAddress
  earnable := reservation.totalCostUegoc.toNat
  collateral := reservation.collateralUegoc.toNat
  start := reservation.start
  stop := reservation.expiresAt

def StorageDeal.deal (storage : StorageDeal) : EscrowDeal where
  buyer := storage.clientAddress
  provider := storage.providerAddress
  earnable := storage.totalCostUegoc.toNat
  collateral := 0
  start := storage.createdAt
  stop := storage.expiresAt

def escrowReleasedKey (dealId recipient : Text) : Text :=
  utf8 "escrow_rel:" ++ dealId ++ colon :: recipient

/-- What was released in EGOC so far, by deal and recipient. -/
abbrev ReleaseIndex := KeyedMap Text UInt64

variable (deals : DealBook) (index : ReleaseIndex) (txs : List LedgerTx) (tx : LedgerTx) (dealId : Text)

def ReleaseIndex.at' (key : Text) : Nat :=
  ((index.lookup key).getD 0).toNat

def ReleaseIndex.releasedSoFar (recipient : Text) : Nat :=
  index.at' (escrowReleasedKey dealId recipient)

def escrowDealIdFromMemo (memo : Option Text) : Option (Text × Text) :=
  match (memo.getD []).splitOnce colon with
  | none => none
  | some (action, dealId) =>
    if action.isEmpty ∨ dealId.isEmpty then none else some (action, dealId)

inductive EscrowError where
  | memo (hash : Text)
  | unknownReservation (hash dealId : Text)
  | unknownStorageDeal (hash dealId : Text)
  | party (hash recipient dealId : Text)
  | overRelease (hash dealId : Text) (released amount deposit : Nat)
  | proRata (hash dealId : Text) (released amount cap : Nat)
  deriving DecidableEq

open Text in
def EscrowError.message : EscrowError → Text
  | .memo hash => utf8 "escrow tx " ++ hash ++ utf8 " missing action:deal_id memo"
  | .unknownReservation hash dealId =>
    utf8 "escrow tx " ++ hash ++ utf8 " references unknown reservation " ++ dealId
  | .unknownStorageDeal hash dealId =>
    utf8 "escrow tx " ++ hash ++ utf8 " references unknown storage deal " ++ dealId
  | .party hash recipient dealId =>
    utf8 "escrow tx " ++ hash ++ utf8 " pays " ++ recipient ++
      utf8 " who is not a party to deal " ++ dealId
  | .overRelease hash dealId released amount deposit =>
    utf8 "escrow tx " ++ hash ++ utf8 " over-releases deal " ++ dealId ++ utf8 ": " ++
      decimal released ++ utf8 " + " ++ decimal amount ++ utf8 " > deposit " ++ decimal deposit
  | .proRata hash dealId released amount cap =>
    utf8 "escrow tx " ++ hash ++ utf8 " exceeds provider pro-rata for deal " ++ dealId ++
      utf8 ": " ++ decimal released ++ utf8 " + " ++ decimal amount ++ utf8 " > cap " ++
      decimal cap

/-- The deal that a release from this source names, and `none` for the sources whose releases
are not compared with a deal. -/
def releasedDeal : Except EscrowError (Option EscrowDeal) :=
  if tx.sender = reservationEscrowAddr then
    match deals.reservations dealId with
    | none => .error (.unknownReservation tx.hash dealId)
    | some reservation => .ok (some reservation.deal)
  else if tx.sender = storageEscrowAddr then
    match deals.storageDeals dealId with
    | none => .error (.unknownStorageDeal tx.hash dealId)
    | some storage => .ok (some storage.deal)
  else .ok none

def checkRelease (deal : EscrowDeal) (blockTime : Int) : Except EscrowError Unit :=
  if tx.recipient ≠ deal.buyer ∧ tx.recipient ≠ deal.provider then
    .error (.party tx.hash tx.recipient dealId)
  else
    let released := index.releasedSoFar dealId everyone
    if satAdd released tx.amount.toNat > deal.deposit then
      .error (.overRelease tx.hash dealId released tx.amount.toNat deal.deposit)
    else if tx.recipient = deal.provider ∧ deal.provider ≠ deal.buyer then
      let released := index.releasedSoFar dealId deal.provider
      let cap := deal.cap blockTime
      if satAdd released tx.amount.toNat > cap then
        .error (.proRata tx.hash dealId released tx.amount.toNat cap)
      else .ok ()
    else .ok ()

def validateEscrowReleaseTx (blockTime : Int) : Except EscrowError Unit :=
  if tx.amount = 0 then .ok ()
  else
    match escrowDealIdFromMemo tx.memo with
    | none => .error (.memo tx.hash)
    | some (_, dealId) =>
      match releasedDeal deals tx dealId with
      | .error error => .error error
      | .ok none => .ok ()
      | .ok (some deal) => checkRelease index tx dealId deal blockTime

/-- The escrow rule of peer-block validation. -/
def validateEscrowReleases (deals : DealBook) (index : ReleaseIndex) (blockTime : Int) :
    List LedgerTx → Except EscrowError Unit
  | [] => .ok ()
  | tx :: rest =>
    if isEscrowSource tx.sender then
      match validateEscrowReleaseTx deals index tx blockTime with
      | .error error => .error error
      | .ok () => validateEscrowReleases deals index blockTime rest
    else validateEscrowReleases deals index blockTime rest

/-! ## The index -/

def escrowReleaseUpdate : List (Text × Nat) :=
  if isEscrowSource tx.sender = false ∨ tx.amount = 0 then []
  else
    match escrowDealIdFromMemo tx.memo with
    | none => []
    | some (_, dealId) =>
      [(escrowReleasedKey dealId tx.recipient, tx.amount.toNat),
        (escrowReleasedKey dealId everyone, tx.amount.toNat)]

def escrowReleaseUpdates : List (Text × Nat) :=
  txs.flatMap escrowReleaseUpdate

/-- Adds to the sum that the index had before. -/
def ReleaseIndex.addTo (before : ReleaseIndex) (update : Text × Nat) : ReleaseIndex :=
  index.insert update.1 (UInt64.ofNat (satAdd (before.at' update.1) update.2))

def ReleaseIndex.add (update : Text × Nat) : ReleaseIndex := index.addTo index update

def ReleaseIndex.recordEscrowReleases : ReleaseIndex :=
  (escrowReleaseUpdates txs).foldl (ReleaseIndex.addTo · index) index

def ReleaseIndex.applyBlock (height : Nat) (stored : List Text) : ReleaseIndex :=
  if checkinFromHeight ≤ height then
    (escrowReleaseUpdates (freshTxs txs stored)).foldl ReleaseIndex.add index
  else index.recordEscrowReleases txs

end EgoChain.Ledger
