import EgoChain.Ledger.EscrowReleases
import EgoChain.Ledger.CreditsConservation

/-!
# What is released of a deal

Releases are followed through a run of blocks: of reservations and storage deals
in EGOC, and of reservations in EGUSD.  From a fixed height on the index never says
less than what was released, so a single release in a block is held to the deposit and
to the provider's share.  Several releases of one deal in one block are each compared
with the index before the block, and nothing holds their sum; below that height the
index then falls behind, and nothing holds the releases after it either.
-/

namespace EgoChain.Ledger

open EgoChain.Foundations Option Nat List

inductive EscrowKind where
  | reservation
  | storage
  | credits
  deriving DecidableEq

variable {kind : EscrowKind} {dealId : Text} {tx : LedgerTx} {amount : Nat} {deal : EscrowDeal}
  {blockTime : Int} {deals : DealBook} {who : Option Text} {time later : Int} {index : ReleaseIndex}

structure ReleaseBlock where
  height : Nat
  time : Int
  txs : List LedgerTx

namespace EscrowKind

def dealOf (deals : DealBook) (kind : EscrowKind) (dealId : Text) : Option EscrowDeal :=
  match kind with
  | .reservation => (deals.reservations dealId).map ComputeReservation.deal
  | .storage => (deals.storageDeals dealId).map StorageDeal.deal
  | .credits =>
    match deals.reservations dealId with
    | none => none
    | some record =>
      if record.paidInEgusd then some { record.deal with collateral := 0 } else none

/-- The deal a transaction releases, and how much of it. -/
def releaseOf (kind : EscrowKind) (tx : LedgerTx) : Option (Text × Nat) :=
  match kind with
  | .reservation =>
    if tx.sender = reservationEscrowAddr ∧ tx.amount ≠ 0 then
      (escrowDealIdFromMemo tx.memo).map fun memo => (memo.2, tx.amount.toNat)
    else none
  | .storage =>
    if tx.sender = storageEscrowAddr ∧ tx.amount ≠ 0 then
      (escrowDealIdFromMemo tx.memo).map fun memo => (memo.2, tx.amount.toNat)
    else none
  | .credits =>
    if tx.txType = utf8 "credits_escrow" then
      (parseCreditsReleaseMemo tx.memo).map fun memo => (memo.2, memo.1)
    else none

/-- The transaction releases the deal, to everybody or to one party. -/
def counts (kind : EscrowKind) (dealId : Text) (who : Option Text) (tx : LedgerTx) : Bool :=
  ((kind.releaseOf tx).any fun release => release.1 = dealId) &&
    who.all fun party => tx.recipient = party

theorem counts_iff :
    kind.counts dealId who tx = true ↔ ∃ amount, kind.releaseOf tx = some (dealId, amount) ∧
      ∀ party ∈ who, tx.recipient = party := by
  unfold counts
  rw [Bool.and_eq_true, Option.any_eq_true, Option.all_eq_true]
  constructor
  · rintro ⟨⟨⟨named, amount⟩, found, same⟩, toParty⟩
    obtain rfl : named = dealId := of_decide_eq_true same
    exact ⟨amount, found, fun party isParty => of_decide_eq_true (toParty party isParty)⟩
  · rintro ⟨amount, found, toParty⟩
    exact ⟨⟨(dealId, amount), found, decide_eq_true rfl⟩,
      fun party isParty => decide_eq_true (toParty party isParty)⟩

variable (kind) (dealId) (who) (txs : List LedgerTx)

def releases : List LedgerTx :=
  txs.filter (kind.counts dealId who)

def released : Nat :=
  ((kind.releases dealId who txs).map fun tx => ((kind.releaseOf tx).map Prod.snd).getD 0).sum

theorem released_append (more : List LedgerTx) : kind.released dealId who (txs ++ more) =
      kind.released dealId who txs + kind.released dealId who more := by
  simp [released, releases]

end EscrowKind

/-- The transactions of a block by which releases are paid.  One that is on the chain already moves no
coins, and from a fixed height on no credits. -/
def EscrowKind.paidTxs (kind : EscrowKind) (block : ReleaseBlock) (stored : List Text) : List LedgerTx :=
  match kind with
  | .credits => creditTxs block.txs block.height stored
  | _ => freshTxs block.txs stored

theorem EscrowKind.paidTxs_subset (kind : EscrowKind) (block : ReleaseBlock) (stored : List Text) :
    kind.paidTxs block stored ⊆ block.txs := by
  cases kind with
  | credits => exact fun _ => mem_of_mem_creditTxs
  | reservation | storage => exact filter_subset_self _

/-- The two indexes of what was released and the hashes on the chain; with them, what was paid, the time
of the last block, and whether a block was below the height from which the index is summed up. -/
structure EscrowState where
  egoc : ReleaseIndex := ∅
  credits : CreditsLedger
  stored : List Text
  paid : EscrowKind → List LedgerTx := fun _ => []
  last : Option Int := none
  early : Bool := false

namespace EscrowState

variable (state : EscrowState)

def soFar (kind : EscrowKind) (dealId recipient : Text) : Nat :=
  match kind with
  | .credits => state.credits.releasedSoFar dealId recipient
  | _ => state.egoc.releasedSoFar dealId recipient

theorem soFar_egoc (inEgoc : kind ≠ .credits) (dealId recipient : Text) :
    state.soFar kind dealId recipient = state.egoc.releasedSoFar dealId recipient := by
  cases kind with
  | credits => exact absurd rfl inEgoc
  | reservation | storage => rfl

def applyBlock (block : ReleaseBlock) : EscrowState where
  egoc := state.egoc.applyBlock block.txs block.height state.stored
  credits := state.credits.applyBlock block.txs block.height state.stored
  stored := block.txs.map LedgerTx.hash ++ state.stored
  paid kind := state.paid kind ++ kind.paidTxs block state.stored
  last := some block.time
  early := state.early || decide (block.height < checkinFromHeight)

/-- What was paid of a deal, to everybody or to one party. -/
def paidOf (kind : EscrowKind) (dealId : Text) (who : Option Text) : Nat :=
  kind.released dealId who (state.paid kind)

end EscrowState

/-- The reservations alone, as the credit rules see them. -/
def DealBook.view (deals : DealBook) : CreditsView where
  reservations := deals.reservations
  localMicro := 0
  agreedMicro _ := none

/-- The escrow rules of peer-block validation accept the block. -/
def Passes (deals : DealBook) (state : EscrowState) (block : ReleaseBlock) : Prop :=
  validateEscrowReleases deals state.egoc block.time block.txs = .ok () ∧
    ∀ tx ∈ block.txs, tx.txType = utf8 "credits_escrow" →
      validateCreditsEscrowTx deals.view state.credits tx block.time = .ok ()

instance (deals : DealBook) (state : EscrowState) (block : ReleaseBlock) :
    Decidable (Passes deals state block) := by
  unfold Passes
  infer_instance

def PassesAll (deals : DealBook) : EscrowState → List ReleaseBlock → Prop
  | _, [] => True
  | state, block :: rest => Passes deals state block ∧ PassesAll deals (state.applyBlock block) rest

/-! ## Limits -/

/-- What all releases of the deal, or those to its provider, may come to at a time. -/
def EscrowDeal.limit (deal : EscrowDeal) (time : Int) : Option Text → Nat
  | none => deal.deposit
  | some _ => deal.cap time

/-- The sums a deal is held to: all releases, and those to a provider that is not the buyer. -/
def EscrowDeal.Watches (deal : EscrowDeal) (who : Option Text) : Prop :=
  who = none ∨ who = some deal.provider ∧ deal.provider ≠ deal.buyer

/-- No deal is over-released at the time of the last block. -/
def Safe (deals : DealBook) (state : EscrowState) : Prop :=
  ∀ (kind : EscrowKind) (dealId : Text), ∀ deal ∈ kind.dealOf deals dealId, ∀ who, deal.Watches who →
    ∀ time ∈ state.last, state.paidOf kind dealId who ≤ deal.limit time who

def SafeRun (deals : DealBook) : EscrowState → List ReleaseBlock → Prop
  | _, [] => True
  | state, block :: rest =>
    Safe deals (state.applyBlock block) ∧ SafeRun deals (state.applyBlock block) rest

/-- The index may say less than what was paid, and does: a block was below the height from which it is
summed up, or a party has the name under which all releases are. -/
def Behind (kind : EscrowKind) (dealId : Text) (deal : EscrowDeal) (who : Option Text)
    (state : EscrowState) : Prop :=
  (state.early = true ∨ deal.buyer = everyone ∨ deal.provider = everyone) ∧
    state.soFar kind dealId (who.getD everyone) < state.paidOf kind dealId who

/-- The rule does not hold this sum to its limit: the block pays it more than once, the limit is the
largest number, the index is behind, or the provider's share shrinks because the block is dated before
the one before it. -/
def Unwatched (kind : EscrowKind) (dealId : Text) (deal : EscrowDeal) (who : Option Text)
    (state : EscrowState) (block : ReleaseBlock) : Prop :=
  2 ≤ (kind.releases dealId who (kind.paidTxs block state.stored)).length ∨
    deal.limit block.time who = maxU64 ∨ Behind kind dealId deal who state ∨
    (who ≠ none ∧ ∃ time ∈ state.last, block.time < time)

/-- Where the rule does not hold a sum to its limit, the block itself does. -/
def Fits (deals : DealBook) (state : EscrowState) (block : ReleaseBlock) : Prop :=
  ∀ (kind : EscrowKind) (dealId : Text), ∀ deal ∈ kind.dealOf deals dealId,
    ∀ who, deal.Watches who → Unwatched kind dealId deal who state block →
      (state.applyBlock block).paidOf kind dealId who ≤ deal.limit block.time who

def FitsRun (deals : DealBook) : EscrowState → List ReleaseBlock → Prop
  | _, [] => True
  | state, block :: rest => Fits deals state block ∧ FitsRun deals (state.applyBlock block) rest

/-! ## The provider's share grows with time -/

theorem proRata_mono (total : Nat) (start stop : Int) (after : time ≤ later) :
    proRata total start stop time ≤ proRata total start stop later := by
  unfold proRata
  split
  · exact le_rfl
  · refine Nat.div_le_div_right (Nat.mul_le_mul_left _ ?_)
    omega

theorem EscrowDeal.limit_mono (deal : EscrowDeal) (who : Option Text) (after : time ≤ later) :
    deal.limit time who ≤ deal.limit later who := by
  cases who with
  | none => exact le_refl _
  | some party =>
    have share := proRata_mono deal.earnable deal.start deal.stop after
    change deal.cap time ≤ deal.cap later
    unfold EscrowDeal.cap satAdd
    omega

theorem EscrowDeal.limit_le (deal : EscrowDeal) (time : Int) (who : Option Text) :
    deal.limit time who ≤ maxU64 := by
  cases who <;> exact min_le_right _ _

/-! ## The index -/

theorem toNat_ofNat_satAdd (a b : Nat) : (UInt64.ofNat (satAdd a b)).toNat = satAdd a b := by
  unfold satAdd maxU64
  exact UInt64.toNat_ofNat_of_lt' (by change _ < 18446744073709551616; omega)

theorem ReleaseIndex.at'_le (index : ReleaseIndex) (key : Text) : index.at' key ≤ maxU64 := by
  have small := ((index.lookup key).getD 0).toNat_lt
  unfold ReleaseIndex.at' maxU64
  omega

variable (updates : List (Text × Nat))

/-- What a list of updates adds at a key. -/
def addedAt (key : Text) : Nat :=
  (updates.map fun update => if update.1 = key then update.2 else 0).sum

theorem ReleaseIndex.at'_add (index : ReleaseIndex) (update : Text × Nat) (key : Text) :
    (index.add update).at' key = satAdd (index.at' key) (if update.1 = key then update.2 else 0) := by
  have small := index.at'_le key
  unfold ReleaseIndex.add ReleaseIndex.addTo ReleaseIndex.at'
  rw [KeyedMap.lookup_insert_eq]
  by_cases same : key = update.1
  · subst same
    rw [if_pos rfl, if_pos rfl, getD_some, toNat_ofNat_satAdd]
  · rw [if_neg same, if_neg (Ne.symm same)]
    change index.at' key = satAdd (index.at' key) 0
    unfold satAdd
    omega

/-- The index after a list of updates, in closed form. -/
theorem ReleaseIndex.at'_foldl (index : ReleaseIndex) (key : Text) :
    (updates.foldl ReleaseIndex.add index).at' key = satAdd (index.at' key) (addedAt updates key) := by
  induction updates generalizing index with
  | nil =>
    have small := index.at'_le key
    change index.at' key = satAdd (index.at' key) 0
    unfold satAdd
    omega
  | cons update rest ih =>
    rw [foldl_cons, ih, ReleaseIndex.at'_add]
    have whole : addedAt (update :: rest) key =
        (if update.1 = key then update.2 else 0) + addedAt rest key := by
      simp [addedAt]
    unfold satAdd
    omega

theorem le_addedAt_of_mem {updates : List (Text × Nat)} (update : Text × Nat)
    (mem : update ∈ updates) : update.2 ≤ addedAt updates update.1 := by
  refine single_le_sum (fun _ _ => zero_le _) _ (mem_map.mpr ⟨update, mem, ?_⟩)
  exact if_pos rfl

theorem addedAt_append (more : List (Text × Nat)) (key : Text) :
    addedAt (updates ++ more) key = addedAt updates key + addedAt more key := by
  simp [addedAt]

/-! ## Releases in EGOC -/

/-- What a release in EGOC looks like. -/
theorem releaseOf_egoc (inEgoc : kind ≠ .credits)
    (releases : kind.releaseOf tx = some (dealId, amount)) :
    isEscrowSource tx.sender = true ∧ tx.amount ≠ 0 ∧ amount = tx.amount.toNat ∧
      ∃ action, escrowDealIdFromMemo tx.memo = some (action, dealId) := by
  have fromMemo (fits : (escrowDealIdFromMemo tx.memo).map
      (fun memo => (memo.2, tx.amount.toNat)) = some (dealId, amount)) :
      amount = tx.amount.toNat ∧ ∃ action, escrowDealIdFromMemo tx.memo = some (action, dealId) := by
    obtain ⟨⟨action, found⟩, parsed, same⟩ := map_eq_some_iff.mp fits
    cases same
    exact ⟨rfl, action, parsed⟩
  cases kind with
  | credits => exact absurd rfl inEgoc
  | reservation | storage =>
    obtain ⟨isRelease, releases⟩ := ite_none_right_eq_some.mp releases
    exact ⟨by simp [isEscrowSource, isRelease.1], isRelease.2, fromMemo releases⟩

/-- A sum over one transaction: its release, if it counts. -/
theorem released_singleton (kind : EscrowKind) (dealId : Text) (who : Option Text) (tx : LedgerTx) :
    kind.released dealId who [tx] = 0 ∨ ∃ amount, kind.releaseOf tx = some (dealId, amount) ∧
        (∀ party ∈ who, tx.recipient = party) ∧ kind.released dealId who [tx] = amount := by
  unfold EscrowKind.released EscrowKind.releases
  by_cases counts : kind.counts dealId who tx = true
  · rw [filter_cons_of_pos counts]
    obtain ⟨amount, found, toParty⟩ := EscrowKind.counts_iff.mp counts
    exact Or.inr ⟨amount, found, toParty, by simp [found]⟩
  · rw [filter_cons_of_neg counts]
    exact Or.inl rfl

theorem released_cons (kind : EscrowKind) (dealId : Text) (who : Option Text) (tx : LedgerTx)
    (rest : List LedgerTx) :
    kind.released dealId who (tx :: rest) =
      kind.released dealId who [tx] + kind.released dealId who rest :=
  kind.released_append dealId who [tx] rest

/-- The index in EGOC moves on by at least what a block releases. -/
theorem released_le_addedAt (inEgoc : kind ≠ .credits) (dealId : Text) (who : Option Text)
    (txs : List LedgerTx) :
    kind.released dealId who txs ≤
      addedAt (escrowReleaseUpdates txs) (escrowReleasedKey dealId (who.getD everyone)) := by
  induction txs with
  | nil => exact le_rfl
  | cons tx rest ih =>
    rw [released_cons, escrowReleaseUpdates, List.flatMap_cons, addedAt_append]
    refine Nat.add_le_add ?_ ih
    rcases released_singleton kind dealId who tx with nothing | ⟨amount, release, toParty, whole⟩
    · rw [nothing]
      exact Nat.zero_le _
    obtain ⟨isSource, nonzero, rfl, action, parsed⟩ := releaseOf_egoc inEgoc release
    have updates : escrowReleaseUpdate tx = [(escrowReleasedKey dealId tx.recipient, tx.amount.toNat),
          (escrowReleasedKey dealId everyone, tx.amount.toNat)] := by
      simp [escrowReleaseUpdate, isSource, nonzero, parsed]
    rw [whole, updates]
    cases who with
    | none =>
      exact le_addedAt_of_mem (escrowReleasedKey dealId everyone, tx.amount.toNat)
        (List.mem_pair.mpr (Or.inr rfl))
    | some party =>
      obtain rfl : tx.recipient = party := toParty party rfl
      exact le_addedAt_of_mem (escrowReleasedKey dealId tx.recipient, tx.amount.toNat)
        (List.mem_pair.mpr (Or.inl rfl))

/-! ## Releases in EGUSD -/

/-- What a transaction adds to the sum for a deal and a recipient within its block. -/
def creditRelease (tx : LedgerTx) (key : Text × Text) : Nat :=
  match EscrowKind.credits.releaseOf tx with
  | none => 0
  | some (dealId, credits) =>
    (if key = (dealId, tx.recipient) then credits else 0) +
      if key = (dealId, everyone) then credits else 0

theorem getD_addReleased (index : KeyedMap (Text × Text) Nat) (key other : Text × Text)
    (credits : Nat) (small : (index.lookup other).getD 0 < 2 ^ 64) :
    ((addReleased index key credits).lookup other).getD 0 =
      ((index.lookup other).getD 0 + if other = key then credits else 0) % 2 ^ 64 := by
  unfold addReleased
  rw [KeyedMap.lookup_insert_eq]
  by_cases same : other = key
  · subst same
    simp
  · simp only [same]
    exact (mod_eq_of_lt small).symm

theorem released_creditUpdate (updates : CreditUpdates) (tx : LedgerTx) (key : Text × Text)
    (small : (updates.released.lookup key).getD 0 < 2 ^ 64) :
    ((creditUpdate updates tx).released.lookup key).getD 0 =
      ((updates.released.lookup key).getD 0 + creditRelease tx key) % 2 ^ 64 := by
  have escrowIsNoMint : utf8 "credits_escrow" ≠ utf8 "credits_mint" := by simp
  have escrowIsNoPay : utf8 "credits_escrow" ≠ utf8 "credits_pay" := by simp
  have unchanged := (mod_eq_of_lt small).symm
  unfold creditUpdate creditRelease EscrowKind.releaseOf
  by_cases isEscrow : tx.txType = utf8 "credits_escrow"
  · simp only [isEscrow, escrowIsNoMint, escrowIsNoPay, if_true]
    cases parseCreditsReleaseMemo tx.memo with
    | none => exact unchanged
    | some release =>
      obtain ⟨credits, -⟩ := release
      by_cases nothing : credits = 0
      · simpa [nothing] using unchanged
      · simp only [nothing, if_false, map_some]
        rw [getD_addReleased _ _ _ _ (by
          rw [getD_addReleased _ _ _ _ small]
          exact mod_lt _ (by decide)), getD_addReleased _ _ _ _ small]
        omega
  · simp only [isEscrow, if_false]
    refine Eq.trans ?_ unchanged
    repeat' split
    all_goals rfl

theorem released_foldl (txs : List LedgerTx) (updates : CreditUpdates) (key : Text × Text)
    (small : (updates.released.lookup key).getD 0 < 2 ^ 64) :
    ((txs.foldl creditUpdate updates).released.lookup key).getD 0 =
      ((updates.released.lookup key).getD 0 +
        (txs.map fun tx => creditRelease tx key).sum) % 2 ^ 64 := by
  induction txs generalizing updates with
  | nil => simpa using (mod_eq_of_lt small).symm
  | cons tx rest ih =>
    have step := released_creditUpdate updates tx key small
    rw [foldl_cons, ih _ (by rw [step]; exact mod_lt _ (by decide)), step,
      map_cons, sum_cons, mod_add_mod, add_assoc]

/-- From the fixed height on, the index in EGUSD moves on by at least the sum of the block, on 64 bits. -/
theorem releasedSoFar_applyBlock (ledger : CreditsLedger) (all : List LedgerTx) (stored : List Text)
    (height : Nat) (late : checkinFromHeight ≤ height) (dealId recipient : Text) :
    satAdd (ledger.releasedSoFar dealId recipient)
        (((creditTxs all height stored).map fun tx => creditRelease tx (dealId, recipient)).sum % 2 ^ 64) ≤
      (ledger.applyBlock all height stored).releasedSoFar dealId recipient := by
  rw [CreditsLedger.applyBlock, if_pos late, CreditsLedger.releasedSoFar]
  generalize creditTxs all height stored = txs
  have closed := ReleaseIndex.at'_foldl ((creditUpdates txs).released.entries.map fun entry =>
    (escrowCreditsReleasedKey entry.1.1 entry.1.2, entry.2)) ledger.released
    (escrowCreditsReleasedKey dealId recipient)
  rw [foldl_map] at closed
  refine le_of_le_of_eq ?_ closed.symm
  have sum := released_foldl txs .empty (dealId, recipient) (by
    change 0 < 2 ^ 64
    decide)
  rw [show ((CreditUpdates.empty.released.lookup _).getD 0) = 0 from rfl, zero_add] at sum
  rw [← sum]
  refine min_le_min_right _ (add_le_add_right ?_ _)
  change ((creditUpdates txs).released.lookup (dealId, recipient)).getD 0 ≤ _
  cases found : (creditUpdates txs).released.lookup (dealId, recipient) with
  | none => exact zero_le _
  | some credits =>
    exact le_addedAt_of_mem (escrowCreditsReleasedKey dealId recipient, credits)
      (mem_map.mpr ⟨⟨(dealId, recipient), credits⟩, (KeyedMap.mem_entries_iff _ _ _).mpr found, rfl⟩)

/-- When no release of the deal goes to the name that stands for everybody, the sums of a block
are what it releases. -/
theorem sum_creditRelease (plain : ∀ party ∈ who, party ≠ everyone) (txs : List LedgerTx)
    (recipients : ∀ tx ∈ txs, ∀ amount, EscrowKind.credits.releaseOf tx = some (dealId, amount) →
      tx.recipient ≠ everyone) :
    (txs.map fun tx => creditRelease tx (dealId, who.getD everyone)).sum =
      EscrowKind.credits.released dealId who txs := by
  induction txs with
  | nil => rfl
  | cons tx rest ih =>
    rw [map_cons, sum_cons, released_cons, ih fun other mem => recipients other (mem_cons_of_mem _ mem)]
    have here := recipients tx mem_cons_self
    unfold creditRelease EscrowKind.released EscrowKind.releases
    by_cases counts : EscrowKind.credits.counts dealId who tx = true
    · rw [filter_cons_of_pos counts]
      obtain ⟨amount, found, toParty⟩ := EscrowKind.counts_iff.mp counts
      have unlike := here amount found
      cases who with
      | none => simp [found, Ne.symm unlike]
      | some party =>
        obtain rfl : tx.recipient = party := toParty party rfl
        simp [found, unlike]
    · rw [filter_cons_of_neg counts]
      cases found : EscrowKind.credits.releaseOf tx with
      | none => rfl
      | some release =>
        obtain ⟨named, amount⟩ := release
        by_cases same : named = dealId
        · subst same
          -- The transaction releases the deal, to another party than the one asked for.
          have other := fun toParty => counts (EscrowKind.counts_iff.mpr ⟨amount, found, toParty⟩)
          cases who with
          | none => exact absurd (by simp) other
          | some party =>
            have unlike : party ≠ tx.recipient := fun isParty =>
              other fun _ isSome => (Option.some.inj isSome) ▸ isParty.symm
            simp [unlike, plain party rfl]
        · simp [Ne.symm same]

/-! ## What the checks say -/

/-- The release goes to a party, and no sum that it belongs to passes its limit. -/
abbrev EscrowDeal.Allows (deal : EscrowDeal) (time : Int) (tx : LedgerTx) (amount : Nat)
    (soFar : Text → Nat) : Prop :=
  (tx.recipient = deal.buyer ∨ tx.recipient = deal.provider) ∧
    ∀ who, deal.Watches who → (∀ party ∈ who, tx.recipient = party) →
      satAdd (soFar (who.getD everyone)) amount ≤ deal.limit time who

theorem checkRelease_ok (checked : checkRelease index tx dealId deal blockTime = .ok ()) :
    deal.Allows blockTime tx tx.amount.toNat (index.releasedSoFar dealId) := by
  unfold checkRelease at checked
  by_cases stranger : tx.recipient ≠ deal.buyer ∧ tx.recipient ≠ deal.provider
  · simp [stranger] at checked
  rw [if_neg stranger] at checked
  by_cases above : satAdd (index.releasedSoFar dealId everyone) tx.amount.toNat > deal.deposit
  · simp [above] at checked
  simp only [if_neg above] at checked
  refine ⟨by tauto, fun who watched toParty => ?_⟩
  rcases watched with rfl | ⟨rfl, distinct⟩
  · exact not_lt.mp above
  · rw [if_pos ⟨toParty _ rfl, distinct⟩] at checked
    by_cases early : satAdd (index.releasedSoFar dealId deal.provider) tx.amount.toNat >
        deal.cap blockTime
    · simp [early] at checked
    · exact not_lt.mp early

theorem validateEscrowReleases_ok {txs : List LedgerTx}
    (checked : validateEscrowReleases deals index blockTime txs = .ok ()) (mem : tx ∈ txs)
    (isSource : isEscrowSource tx.sender = true) :
    validateEscrowReleaseTx deals index tx blockTime = .ok () := by
  induction txs with
  | nil => cases mem
  | cons first rest ih =>
    unfold validateEscrowReleases at checked
    split at checked
    case isTrue =>
      split at checked
      case h_1 => cases checked
      case h_2 passed =>
        rcases mem_cons.mp mem with rfl | later
        · exact passed
        · exact ih checked later
    case isFalse other =>
      rcases mem_cons.mp mem with rfl | later
      · exact absurd isSource other
      · exact ih checked later

/-- A release in EGOC is compared with the deal it names. -/
theorem releasedDeal_of_releaseOf (inEgoc : kind ≠ .credits)
    (release : kind.releaseOf tx = some (dealId, amount))
    (isDeal : deal ∈ kind.dealOf deals dealId) :
    releasedDeal deals tx dealId = .ok (some deal) := by
  cases kind with
  | credits => exact absurd rfl inEgoc
  | reservation =>
    obtain ⟨isRelease, -⟩ := ite_none_right_eq_some.mp release
    obtain ⟨record, found, rfl⟩ := map_eq_some_iff.mp isDeal
    simp [releasedDeal, isRelease.1, found]
  | storage =>
    obtain ⟨isRelease, -⟩ := ite_none_right_eq_some.mp release
    obtain ⟨record, found, rfl⟩ := map_eq_some_iff.mp isDeal
    have other : storageEscrowAddr ≠ reservationEscrowAddr := by
      simp [storageEscrowAddr, reservationEscrowAddr]
    simp [releasedDeal, isRelease.1, found, other]

theorem credits_release_ok {ledger : CreditsLedger}
    (checked : validateCreditsEscrowTx deals.view ledger tx blockTime = .ok ())
    (release : EscrowKind.credits.releaseOf tx = some (dealId, amount))
    (isDeal : deal ∈ EscrowKind.credits.dealOf deals dealId) :
    deal.Allows blockTime tx amount (ledger.releasedSoFar dealId) := by
  obtain ⟨-, release⟩ := ite_none_right_eq_some.mp release
  obtain ⟨⟨credits, named⟩, parsed, same⟩ := map_eq_some_iff.mp release
  cases same
  obtain ⟨record, found, paid, rfl⟩ : ∃ record, deals.reservations named = some record ∧
      record.paidInEgusd = true ∧ deal = { record.deal with collateral := 0 } := by
    simp only [EscrowKind.dealOf] at isDeal
    cases found : deals.reservations named with
    | none => simp [found] at isDeal
    | some record =>
      simp only [found] at isDeal
      obtain ⟨paid, isDeal⟩ := ite_none_right_eq_some.mp isDeal
      exact ⟨record, rfl, paid, (Option.some.inj isDeal).symm⟩
  have view : deals.view.reservations named = some record := found
  -- Each test that fails ends the check with an error.
  unfold validateCreditsEscrowTx at checked
  by_cases outside : isEscrowSource tx.sender = false
  · simp [outside] at checked
  by_cases moves : tx.amount ≠ 0
  · simp [outside, moves] at checked
  by_cases nothing : credits = 0
  · simp [outside, moves, parsed, nothing] at checked
  by_cases stranger : tx.recipient ≠ record.buyerAddress ∧ tx.recipient ≠ record.providerAddress
  · simp [outside, moves, parsed, nothing, view, paid, stranger] at checked
  by_cases above : satAdd (ledger.releasedSoFar named everyone) credits > record.totalCostUegoc.toNat
  · simp [outside, moves, parsed, nothing, view, paid, stranger, above] at checked
  simp only [if_neg outside, if_neg moves, parsed, if_neg nothing, view, paid,
    Bool.true_eq_false, if_false, if_neg stranger, if_neg above] at checked
  refine ⟨by simp; tauto, fun who watched toParty => ?_⟩
  rcases watched with rfl | ⟨rfl, distinct⟩
  · change satAdd (ledger.releasedSoFar named everyone) credits ≤ satAdd record.totalCostUegoc.toNat 0
    unfold satAdd at above ⊢
    omega
  rw [if_pos ⟨toParty _ rfl, distinct⟩] at checked
  by_cases early : satAdd (ledger.releasedSoFar named record.providerAddress) credits >
      proRata record.totalCostUegoc.toNat record.start record.expiresAt blockTime
  · simp [early] at checked
  · change satAdd (ledger.releasedSoFar named record.providerAddress) credits ≤
      satAdd (proRata record.totalCostUegoc.toNat record.start record.expiresAt blockTime) 0
    unfold satAdd at early ⊢
    omega

variable {state : EscrowState} {block : ReleaseBlock}

theorem Passes.release (passes : Passes deals state block) (mem : tx ∈ block.txs)
    (release : kind.releaseOf tx = some (dealId, amount)) (isDeal : deal ∈ kind.dealOf deals dealId) :
    deal.Allows block.time tx amount (state.soFar kind dealId) := by
  by_cases inEgoc : kind = .credits
  · subst inEgoc
    obtain ⟨isType, -⟩ := ite_none_right_eq_some.mp release
    exact credits_release_ok (passes.2 tx mem isType) release isDeal
  · obtain ⟨isSource, nonzero, rfl, action, parsed⟩ := releaseOf_egoc inEgoc release
    have checked := validateEscrowReleases_ok passes.1 mem isSource
    simp only [validateEscrowReleaseTx, if_neg nonzero, parsed,
      releasedDeal_of_releaseOf inEgoc release isDeal] at checked
    simpa only [EscrowDeal.Allows, state.soFar_egoc inEgoc] using checkRelease_ok checked

/-! ## Runs -/

theorem paidOf_applyBlock (state : EscrowState) (block : ReleaseBlock) :
    (state.applyBlock block).paidOf kind dealId who =
      state.paidOf kind dealId who + kind.released dealId who (kind.paidTxs block state.stored) :=
  kind.released_append ..

/-- From the fixed height on, the index of a deal moves on by at least what a block pays. -/
theorem soFar_applyBlock (late : checkinFromHeight ≤ block.height) (passes : Passes deals state block)
    (isDeal : deal ∈ kind.dealOf deals dealId) (buyer : deal.buyer ≠ everyone)
    (provider : deal.provider ≠ everyone) (watched : deal.Watches who)
    (small : kind.released dealId who (kind.paidTxs block state.stored) ≤ maxU64) :
    satAdd (state.soFar kind dealId (who.getD everyone))
        (kind.released dealId who (kind.paidTxs block state.stored)) ≤
      (state.applyBlock block).soFar kind dealId (who.getD everyone) := by
  by_cases inEgoc : kind = .credits
  · subst inEgoc
    have plain : ∀ party ∈ who, party ≠ everyone := by
      rcases watched with rfl | ⟨rfl, -⟩
      · exact nofun
      · intro party isParty
        exact Option.some.inj isParty ▸ provider
    have sum := sum_creditRelease plain (creditTxs block.txs block.height state.stored)
      fun tx mem amount release => by
        rcases (passes.release (mem_of_mem_creditTxs mem) release isDeal).1 with toBuyer | toProvider
        · exact toBuyer ▸ buyer
        · exact toProvider ▸ provider
    have grows := releasedSoFar_applyBlock state.credits block.txs state.stored block.height late dealId
      (who.getD everyone)
    have below : EscrowKind.credits.released dealId who (creditTxs block.txs block.height state.stored) <
        2 ^ 64 := Nat.lt_succ_of_le small
    rwa [sum, mod_eq_of_lt below] at grows
  · have isFresh : kind.paidTxs block state.stored = freshTxs block.txs state.stored := by
      cases kind with
      | credits => exact absurd rfl inEgoc
      | reservation | storage => rfl
    have grows := ReleaseIndex.at'_foldl (escrowReleaseUpdates (freshTxs block.txs state.stored)) state.egoc
      (escrowReleasedKey dealId (who.getD everyone))
    rw [isFresh, EscrowState.soFar_egoc _ inEgoc, EscrowState.soFar_egoc _ inEgoc,
      EscrowState.applyBlock, ReleaseIndex.applyBlock, if_pos late, ReleaseIndex.releasedSoFar,
      ReleaseIndex.releasedSoFar, grows]
    exact min_le_min_right _ (add_le_add_right (released_le_addedAt inEgoc dealId who _) _)

/-- From the fixed height on, the index says no less than what was paid, for deals no party of which has
the name that stands for everybody. -/
def Tracks (deals : DealBook) (state : EscrowState) : Prop :=
  state.early = false → ∀ (kind : EscrowKind) (dealId : Text), ∀ deal ∈ kind.dealOf deals dealId,
    deal.buyer ≠ everyone → deal.provider ≠ everyone → ∀ who, deal.Watches who →
      state.paidOf kind dealId who ≤ state.soFar kind dealId (who.getD everyone)

theorem Tracks.applyBlock (tracks : Tracks deals state) (passes : Passes deals state block)
    (safe : Safe deals (state.applyBlock block)) : Tracks deals (state.applyBlock block) := by
  intro late kind dealId deal isDeal buyer provider who watched
  obtain ⟨notEarly, late⟩ := Bool.or_eq_false_iff.mp late
  replace late := Nat.not_lt.mp (of_decide_eq_false late)
  have before := tracks notEarly kind dealId deal isDeal buyer provider who watched
  -- The limits keep the index from running over, so what is paid is on record.
  have within := (safe kind dealId deal isDeal who watched _ rfl).trans (deal.limit_le _ _)
  rw [paidOf_applyBlock] at within ⊢
  have grows := soFar_applyBlock late passes isDeal buyer provider watched
    ((Nat.le_add_left _ _).trans within)
  unfold satAdd at grows
  omega

/-- A block that passes and fits leaves every deal within its limits. -/
theorem Safe.applyBlock (tracks : Tracks deals state) (passes : Passes deals state block)
    (fits : Fits deals state block) (fresh : state.last = none → ∀ kind, state.paid kind = [])
    (old : Safe deals state) : Safe deals (state.applyBlock block) := by
  rintro kind dealId deal isDeal who watched _ ⟨⟩
  by_cases unwatched : Unwatched kind dealId deal who state block
  · exact fits kind dealId deal isDeal who watched unwatched
  rw [paidOf_applyBlock]
  simp only [Unwatched, not_or] at unwatched
  obtain ⟨few, bounded, level, later⟩ := unwatched
  match only : kind.releases dealId who (kind.paidTxs block state.stored) with
  | [] =>
    have nothing : kind.released dealId who (kind.paidTxs block state.stored) = 0 := by
      simp [EscrowKind.released, only]
    rw [nothing]
    cases isLast : state.last with
    | none =>
      rw [EscrowState.paidOf, fresh isLast]
      exact zero_le _
    | some time =>
      refine (old kind dealId deal isDeal who watched time isLast).trans ?_
      cases who with
      | none => exact le_refl _
      | some party =>
        refine deal.limit_mono _ (Int.not_lt.mp fun before => later ⟨?_, time, isLast, before⟩)
        exact some_ne_none party
  | [tx] =>
    -- The one release was compared with the index before the block.
    have isRelease : tx ∈ kind.releases dealId who (kind.paidTxs block state.stored) := by simp [only]
    obtain ⟨mem, counts⟩ := mem_filter.mp isRelease
    obtain ⟨amount, release, toParty⟩ := EscrowKind.counts_iff.mp counts
    have whole : kind.released dealId who (kind.paidTxs block state.stored) = amount := by
      simp [EscrowKind.released, only, release]
    have checked := (passes.release (kind.paidTxs_subset _ _ mem) release isDeal).2 who watched toParty
    have before : state.paidOf kind dealId who ≤ state.soFar kind dealId (who.getD everyone) := by
      by_contra less
      refine level ⟨?_, Nat.not_le.mp less⟩
      by_contra noCause
      simp only [not_or, Bool.not_eq_true] at noCause
      exact less (tracks noCause.1 kind dealId deal isDeal noCause.2.1 noCause.2.2 who watched)
    have most := deal.limit_le block.time who
    unfold satAdd at checked
    omega
  | _ :: _ :: _ => exact absurd (by simp [only]) few

variable {blocks : List ReleaseBlock}

theorem SafeRun.fits (safe : SafeRun deals state blocks) : FitsRun deals state blocks := by
  induction blocks generalizing state with
  | nil => trivial
  | cons block rest ih =>
    refine ⟨fun kind dealId deal isDeal who watched _ => ?_, ih safe.2⟩
    exact safe.1 kind dealId deal isDeal who watched _ rfl

theorem FitsRun.safe (passes : PassesAll deals state blocks) (tracks : Tracks deals state)
    (fresh : state.last = none → ∀ kind, state.paid kind = []) (old : Safe deals state)
    (fits : FitsRun deals state blocks) : SafeRun deals state blocks := by
  induction blocks generalizing state with
  | nil => trivial
  | cons block rest ih =>
    have safe := Safe.applyBlock tracks passes.1 fits.1 fresh old
    exact ⟨safe, ih passes.2 (tracks.applyBlock passes.1 safe) nofun safe fits.2⟩

/-- No deal is over-released in a run of accepted blocks exactly when the blocks keep the sums within
their limits that the rule does not hold to them: those that a block pays several times, and those for
which the index has fallen behind. -/
theorem escrow_never_over_released_iff (deals : DealBook) (credits : KeyedMap Text UInt64)
    (stored : List Text) (blocks : List ReleaseBlock)
    (passes : PassesAll deals { credits := ⟨credits, ∅⟩, stored := stored } blocks) :
    SafeRun deals { credits := ⟨credits, ∅⟩, stored := stored } blocks ↔
      FitsRun deals { credits := ⟨credits, ∅⟩, stored := stored } blocks := by
  refine ⟨SafeRun.fits, FitsRun.safe passes ?_ (fun _ _ => rfl) nofun⟩
  intro _ kind dealId deal _ _ _ who _
  exact zero_le _

/-! ## Several releases in one block -/

/-- A reservation for one coin, recorded under one name. -/
def oneReservation : DealBook where
  reservations dealId :=
    if dealId = utf8 "deal" then
      some {
        buyerAddress := utf8 "buyer", providerAddress := utf8 "provider", paidInEgusd := false
        totalCostUegoc := 1000000, collateralUegoc := 0, createdAt := 0, expiresAt := 100 }
    else none
  storageDeals _ := none

theorem oneReservation_deal (isDeal : deal ∈ kind.dealOf oneReservation dealId) :
    kind = .reservation ∧ dealId = utf8 "deal" ∧
      deal = ⟨utf8 "buyer", utf8 "provider", 1000000, 0, 0, 100⟩ := by
  cases kind with
  | reservation =>
    obtain ⟨record, found, rfl⟩ := map_eq_some_iff.mp isDeal
    simp only [oneReservation] at found
    obtain ⟨named, found⟩ := ite_none_right_eq_some.mp found
    cases found
    exact ⟨rfl, named, rfl⟩
  | storage => cases isDeal
  | credits =>
    by_cases named : dealId = utf8 "deal" <;>
      simp [EscrowKind.dealOf, oneReservation, named] at isDeal

def noReleases : EscrowState := { credits := ⟨∅, ∅⟩, stored := [] }

/-- A part of the deposit goes to the provider. -/
def release (hash : Text) (amount : UInt64) : LedgerTx where
  hash := hash
  sender := reservationEscrowAddr
  recipient := utf8 "provider"
  amount := amount
  memo := some (utf8 "complete:deal")
  signature := utf8 "provider"
  txType := utf8 "reservation_release"

/-- Two quarters in one block, one of them repeated in the next, and the other half at the end. -/
def releasedInParts : List ReleaseBlock :=
  [⟨40000, 50, [release (utf8 "a") 250000, release (utf8 "b") 250000]⟩,
    ⟨40001, 100, [release (utf8 "b") 250000, release (utf8 "c") 500000]⟩]

theorem partial_releases_within_deposit : PassesAll oneReservation noReleases releasedInParts ∧
    SafeRun oneReservation noReleases releasedInParts := by
  have passes : PassesAll oneReservation noReleases releasedInParts :=
    ⟨by decide, by decide, trivial⟩
  refine ⟨passes, (escrow_never_over_released_iff _ _ _ _ passes).mpr ⟨?_, ?_, trivial⟩⟩
  all_goals
    intro kind dealId deal isDeal who watched _
    obtain ⟨rfl, rfl, rfl⟩ := oneReservation_deal isDeal
    rcases watched with rfl | ⟨rfl, -⟩ <;> decide

/-- Below the fixed height the index counts one of two quarters, and three quarters more pass. -/
example : PassesAll oneReservation noReleases
    [⟨100, 50, [release (utf8 "a") 250000, release (utf8 "b") 250000]⟩,
      ⟨101, 100, [release (utf8 "c") 750000]⟩] :=
  ⟨by decide, by decide, trivial⟩

/-- Two releases of the whole deposit, in one block, each pass the check. -/
theorem two_releases_in_a_block_over_release :
    ¬ ∀ (deals : DealBook) (credits : KeyedMap Text UInt64) (stored : List Text)
      (blocks : List ReleaseBlock),
      PassesAll deals { credits := ⟨credits, ∅⟩, stored := stored } blocks →
      SafeRun deals { credits := ⟨credits, ∅⟩, stored := stored } blocks := by
  intro always
  have safe := (always oneReservation ∅ []
    [⟨40000, 100, [release (utf8 "a") 1000000, release (utf8 "b") 1000000]⟩]
    ⟨by decide, trivial⟩).1
  have within := safe .reservation (utf8 "deal") ⟨utf8 "buyer", utf8 "provider", 1000000, 0, 0, 100⟩
    (by decide) none (Or.inl rfl) 100 rfl
  exact absurd within (by decide)

end EgoChain.Ledger
