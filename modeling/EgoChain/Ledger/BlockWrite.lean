import EgoChain.Foundations.Totals
import EgoChain.Ledger.Transactions

/-!
# Writing the balances of a block

The transactions of a block change balances in block order.  The changes are
collected as signed sums and added to the stored balances at the end; only the
cap on what a system pool pays out looks at the sums on the way.
-/

namespace EgoChain.Ledger

open EgoChain.Foundations

/-- `.max(0) as u64`. -/
def toU64 (number : Int) : Nat := number.toNat % 2 ^ 64

theorem toU64_of_fits {number : Int} (low : 0 ≤ number) (high : number < 2 ^ 64) :
    (toU64 number : Int) = number := by
  unfold toU64
  omega

/-! ## Kinds of transactions -/

variable (tx : LedgerTx) (view : ChainView) (sums : WriteSums)

def isStakeTx : Bool :=
  tx.txType = utf8 "stake" && tx.recipient = stakingAddr && !tx.sender.isEmpty

def isUnstakeTx : Bool :=
  tx.txType = utf8 "unstake" && tx.recipient = stakingAddr && !tx.sender.isEmpty

def unstakeCreditAmount : Nat :=
  if tx.memo = some (utf8 "unstake:early") then tx.amount.toNat - tx.amount.toNat / 10
  else tx.amount.toNat

def isUnshield : Bool := tx.sender = shieldedPoolAddr

/-- Withdrawals from the shielded pool and market settlements pay their fee out of the amount. -/
def paysFeeFromAmount : Bool :=
  isUnshield tx || tx.sender = marketEscrowAddr

def creditedToRecipient : Nat :=
  if paysFeeFromAmount tx then tx.amount.toNat - tx.feeUegoc.toNat else tx.amount.toNat

/-! ## Staking rewards -/

def effectiveAprBps (lockDays : Nat) : Nat :=
  1250 + if 365 ≤ lockDays then 1000 else if 180 ≤ lockDays then 500 else if 90 ≤ lockDays then 200 else 0

def secondsPerYear : Nat := 31536000

def stakingRewardUegoc (principal lockDays secs : Nat) : Nat :=
  if principal = 0 ∨ secs = 0 then 0
  else principal * effectiveAprBps lockDays * secs / (10000 * secondsPerYear) % 2 ^ 64

/-! ## The loop -/

/-- What the writer reads besides the transactions. -/
structure ChainView where
  balances : KeyedMap Text UInt64
  /-- The stakes the node holds in memory. -/
  stakeOf : Text → Nat
  /-- When an account staked, and for how many days. -/
  stakeMeta : Text → Option (Int × Nat)
  /-- What the foundation may have paid out by the node's clock. -/
  vestedUegoc : Nat
  /-- The transaction is stored already. -/
  committed : Text → Bool
  /-- The market plan did not reject the transaction. -/
  takesEffect : Text → Bool
  /-- The validator a valid equivocation proof accuses. -/
  accusedOf : LedgerTx → Option Text
  slashed : List Text

def balanceIn (balances : KeyedMap Text UInt64) (addr : Text) : Nat :=
  ((balances.lookup addr).getD 0).toNat

def ChainView.balance (view : ChainView) (addr : Text) : Nat := balanceIn view.balances addr

structure WriteSums where
  delta : KeyedMap Text Int
  stakes : KeyedMap Text Nat
  slashed : List Text
  newlySlashed : List (Text × Nat)
  minted : Nat
  burned : Nat

namespace WriteSums

def start (view : ChainView) : WriteSums where
  delta := ∅
  stakes := ∅
  slashed := view.slashed
  newlySlashed := []
  minted := 0
  burned := 0

def deltaAt (sums : WriteSums) (addr : Text) : Int := (sums.delta.lookup addr).getD 0

/-- The balance with the changes so far, as the caps read it. -/
def effective (view : ChainView) (sums : WriteSums) (addr : Text) : Nat :=
  toU64 (view.balance addr + sums.deltaAt addr)

def add (sums : WriteSums) (addr : Text) (amount : Int) : WriteSums :=
  { sums with delta := sums.delta.addTo addr amount }

def burn (sums : WriteSums) (amount : Nat) : WriteSums :=
  { sums with burned := sums.burned + amount }

def mint (sums : WriteSums) (amount : Nat) : WriteSums :=
  { sums with minted := sums.minted + amount }

def stakeAt (view : ChainView) (sums : WriteSums) (addr : Text) : Nat :=
  (sums.stakes.lookup addr).getD (view.stakeOf addr)

def setStake (sums : WriteSums) (addr : Text) (stake : Nat) : WriteSums :=
  { sums with stakes := sums.stakes.insert addr stake }

def foundationUegoc : Nat := 150000000 * 1000000

variable (view : ChainView) (sums : WriteSums) (tx : LedgerTx)

/-- The foundation's payment is more than what is vested. -/
def vestingRefuses : Bool :=
  tx.sender = foundationAddr && tx.amount ≠ 0 &&
    view.vestedUegoc < satAdd (foundationUegoc - sums.effective view foundationAddr)
      (satAdd tx.amount.toNat tx.feeUegoc.toNat)

/-- A system pool pays no more than it holds. -/
def creditedAmount : Nat :=
  if tx.sender ≠ [] ∧ isReservedSystemSource tx.sender = true ∧ tx.amount ≠ 0 then
    min tx.amount.toNat (sums.effective view tx.sender)
  else tx.amount.toNat

def stakingReward : Nat :=
  match view.stakeMeta tx.sender with
  | none => 0
  | some (start, lockDays) =>
    min (stakingRewardUegoc tx.amount.toNat lockDays (tx.timestamp - start).toNat)
      (sums.effective view stakingPoolAddr)

def applyUnstake : WriteSums :=
  let credit := unstakeCreditAmount tx
  let paid := (sums.add tx.sender (credit - tx.feeUegoc.toNat)).add stakingAddr (-credit)
  let reward := paid.stakingReward view tx
  let rewarded :=
    if 0 < reward then (paid.add tx.sender reward).add stakingPoolAddr (-reward) else paid
  (rewarded.setStake tx.sender (rewarded.stakeAt view tx.sender - tx.amount.toNat)).burn
    tx.feeUegoc.toNat

/-- A tenth of the stake of the accused is burned, once. -/
def applySlash : WriteSums :=
  match view.accusedOf tx with
  | none => sums
  | some accused =>
    if accused ∈ sums.slashed then sums
    else
      let stake := sums.stakeAt view accused
      let slash := min (stake * 1000) maxU64 / 10000
      if slash = 0 then sums.setStake accused stake
      else
        let slashed := ((sums.setStake accused (stake - slash)).add stakingAddr (-slash)).burn slash
        { slashed with
          slashed := accused :: slashed.slashed
          newlySlashed := slashed.newlySlashed ++ [(accused, slash)] }

def applyFeeFromAmount : WriteSums :=
  let credited := sums.creditedAmount view tx
  ((sums.add tx.recipient ((credited - tx.feeUegoc.toNat : Nat) : Int)).add tx.sender (-credited)).burn
    (min tx.feeUegoc.toNat credited)

def applyPayment : WriteSums :=
  let credited := sums.creditedAmount view tx
  let paid := sums.add tx.recipient credited
  if tx.sender = [] then paid.mint credited
  else if isReservedSystemSource tx.sender then paid.add tx.sender (-credited)
  else
    let spent := (paid.add tx.sender (-(tx.amount.toNat + tx.feeUegoc.toNat))).burn tx.feeUegoc.toNat
    if isStakeTx tx then
      spent.setStake tx.sender (satAdd (spent.stakeAt view tx.sender) tx.amount.toNat)
    else spent

/-- A transaction that is applied, by its kind. -/
def applyKind : WriteSums :=
  if isUnstakeTx tx then sums.applyUnstake view tx
  else if tx.txType = utf8 "equivocation_proof" then sums.applySlash view tx
  else if paysFeeFromAmount tx then sums.applyFeeFromAmount view tx
  else sums.applyPayment view tx

/-- The writer skips the transaction. -/
def skips : Bool :=
  view.committed tx.hash || !view.takesEffect tx.hash || sums.vestingRefuses view tx

def applyTx : WriteSums :=
  if sums.skips view tx then sums else sums.applyKind view tx

def applyTxs (view : ChainView) (sums : WriteSums) (txs : List LedgerTx) : WriteSums :=
  txs.foldl (applyTx view) sums

/-! ## Node pay -/

def addCredits (sums : WriteSums) (credits : List (Text × Nat)) : WriteSums :=
  credits.foldl (fun sums credit => (sums.add credit.1 credit.2).add nodePoolAddr (-credit.2)) sums

/-- Pay for storage comes out of what the other credits leave of the pool. -/
def storageCredits : Nat → List (Text × Nat) → List (Text × Nat)
  | _, [] => []
  | left, (host, pay) :: rest =>
    let paid := min pay left
    if paid = 0 then storageCredits left rest
    else (host, paid) :: storageCredits (left - paid) rest

/-- All credits out of the node pool. -/
def nodePay (view : ChainView) (nodeCredits : Nat → List (Text × Nat))
    (storagePay : List (Text × Nat)) (sums : WriteSums) : List (Text × Nat) :=
  let pool := (view.balance nodePoolAddr + sums.deltaAt nodePoolAddr).toNat
  let credits := nodeCredits pool
  let left := pool - (credits.map Prod.snd).sum
  credits ++ storageCredits left storagePay

/-! ## The new balances -/

def newBalance (addr : Text) : Nat :=
  toU64 (view.balance addr + sums.deltaAt addr)

def writeBalance (balances : KeyedMap Text UInt64) (addr : Text) : KeyedMap Text UInt64 :=
  if sums.newBalance view addr = 0 then balances.erase addr
  else balances.insert addr (UInt64.ofNat (sums.newBalance view addr))

def writeBalances : KeyedMap Text UInt64 :=
  (sums.delta.entries.map Sigma.fst).foldl (sums.writeBalance view) view.balances

end WriteSums

/-- The sums of a whole block. -/
def blockSums (view : ChainView) (nodeCredits : Nat → List (Text × Nat))
    (storagePay : List (Text × Nat)) (txs : List LedgerTx) : WriteSums :=
  let sums := (WriteSums.start view).applyTxs view txs
  sums.addCredits (sums.nodePay view nodeCredits storagePay)

structure SupplyDrift where
  height : Nat
  expectedNet : Int
  actualNet : Int
  minted : Nat
  burned : Nat

/-- The check that is made before the balances are written. -/
def WriteSums.supplyViolation (height : Nat) : Option SupplyDrift :=
  let actualNet := sums.delta.total fun _ amount => amount
  let expectedNet : Int := sums.minted - sums.burned
  if actualNet = expectedNet then none
  else some ⟨height, expectedNet, actualNet, sums.minted, sums.burned⟩

/-! ## Changes at one address -/

namespace WriteSums

variable (addr other : Text)

theorem deltaAt_add (amount : Int) :
    (sums.add addr amount).deltaAt other = sums.deltaAt other + if other = addr then amount else 0 :=
  KeyedMap.getD_lookup_addTo sums.delta addr other amount

variable (amount : Nat)

@[simp]
theorem deltaAt_burn : (sums.burn amount).deltaAt addr = sums.deltaAt addr := rfl

@[simp]
theorem deltaAt_setStake (stake : Nat) :
    (sums.setStake addr stake).deltaAt other = sums.deltaAt other := rfl

theorem deltaAt_addCredits (credits : List (Text × Nat)) (notPool : other ≠ nodePoolAddr) :
    (sums.addCredits credits).deltaAt other = sums.deltaAt other +
      (credits.map fun credit => if other = credit.1 then (credit.2 : Int) else 0).sum := by
  induction credits generalizing sums with
  | nil => simp [addCredits]
  | cons credit rest ih =>
    change (addCredits _ rest).deltaAt other = _
    rw [ih, deltaAt_add, deltaAt_add, if_neg notPool, List.map_cons, List.sum_cons]
    omega

/-- What a payment takes from its sender. -/
def takenFromSender (sums : WriteSums) (tx : LedgerTx) : Nat :=
  if tx.sender = [] then 0
  else if isReservedSystemSource tx.sender then sums.creditedAmount view tx
  else tx.amount.toNat + tx.feeUegoc.toNat

theorem deltaAt_applyPayment : (sums.applyPayment view tx).deltaAt other = sums.deltaAt other +
      (if other = tx.recipient then (sums.creditedAmount view tx : Int) else 0) -
      (if other = tx.sender then (sums.takenFromSender view tx : Int) else 0) := by
  unfold applyPayment takenFromSender
  by_cases minted : tx.sender = []
  · rw [if_pos minted, if_pos minted]
    refine (deltaAt_add sums tx.recipient other _).trans ?_
    simp
  cases reserved : isReservedSystemSource tx.sender with
  | true =>
    simp only [minted, if_false, if_true, deltaAt_add]
    split <;> split <;> omega
  | false =>
    simp only [minted, if_false, Bool.false_eq_true]
    split <;> simp only [deltaAt_setStake, deltaAt_burn, deltaAt_add] <;> split <;> split <;> omega

/-- A transaction of a kind that does not name the address leaves its change alone. -/
theorem deltaAt_applyKind_of_ne (notSender : other ≠ tx.sender)
    (notRecipient : other ≠ tx.recipient) (notStaking : other ≠ stakingAddr)
    (notPool : other ≠ stakingPoolAddr) :
    (sums.applyKind view tx).deltaAt other = sums.deltaAt other := by
  unfold applyKind
  split
  · unfold applyUnstake
    rw [deltaAt_burn]
    split <;> simp [deltaAt_add, notSender, notStaking, notPool]
  split
  · unfold applySlash
    dsimp only
    repeat' split
    any_goals rfl
    refine (deltaAt_add _ stakingAddr other _).trans ?_
    simp [notStaking]
  split
  · unfold applyFeeFromAmount
    simp [deltaAt_add, notSender, notRecipient]
  · rw [deltaAt_applyPayment, if_neg notSender, if_neg notRecipient]
    omega

theorem applyTxs_append (txs more : List LedgerTx) :
    sums.applyTxs view (txs ++ more) = (sums.applyTxs view txs).applyTxs view more :=
  List.foldl_append

/-! ## The supply check -/

/-- By how much the changes differ from what was minted less what was burned. -/
def drift (sums : WriteSums) : Int :=
  (sums.delta.total fun _ amount => amount) - (sums.minted - sums.burned)

@[simp]
theorem drift_add (amount : Int) : (sums.add addr amount).drift = sums.drift + amount := by
  simp only [drift, add, KeyedMap.total_addTo]
  omega

@[simp]
theorem drift_burn : (sums.burn amount).drift = sums.drift + amount := by
  simp only [drift, burn]
  omega

@[simp]
theorem drift_mint : (sums.mint amount).drift = sums.drift - amount := by
  simp only [drift, mint]
  omega

@[simp]
theorem drift_setStake : (sums.setStake addr amount).drift = sums.drift := rfl

theorem drift_applyKind : (sums.applyKind view tx).drift = sums.drift := by
  unfold applyKind
  split
  · unfold applyUnstake
    dsimp only
    rw [drift_burn, drift_setStake]
    split <;> simp <;> omega
  split
  · unfold applySlash
    dsimp only
    repeat' split
    any_goals rfl
    refine (drift_burn ((sums.setStake _ _).add stakingAddr _) _).trans ?_
    simp
  split
  · simp only [applyFeeFromAmount, drift_burn, drift_add]
    omega
  unfold applyPayment
  dsimp only
  split
  · simp
  split
  · simp
  case isFalse user =>
  -- only a system pool can pay less than the amount
  have whole : sums.creditedAmount view tx = tx.amount.toNat := if_neg fun pool => user pool.2.1
  rw [whole]
  split <;> simp only [drift_setStake, drift_burn, drift_add] <;> omega

/-- Whatever a block holds and its nodes are paid, the check of the supply has nothing to report. -/
theorem supply_never_drifts (height : Nat) (nodeCredits : Nat → List (Text × Nat))
    (storagePay : List (Text × Nat)) (txs : List LedgerTx) :
    (blockSums view nodeCredits storagePay txs).supplyViolation height = none := by
  have applied : ((start view).applyTxs view txs).drift = 0 := by
    refine List.foldlRecOn (motive := (drift · = 0)) txs _ rfl fun sums even tx _ => ?_
    unfold applyTx
    split
    · exact even
    · exact (drift_applyKind tx view sums).trans even
  refine if_pos (sub_eq_zero.mp (List.foldlRecOn (motive := (drift · = 0)) _ _ applied ?_))
  intro sums even credit _
  simpa using even

end WriteSums

/-! ## Balances after the block -/

theorem balanceIn_writeBalance (balances : KeyedMap Text UInt64) (addr other : Text) :
    balanceIn (sums.writeBalance view balances addr) other =
      if other = addr then sums.newBalance view addr else balanceIn balances other := by
  have small : sums.newBalance view addr < 2 ^ 64 := Nat.mod_lt _ (by decide)
  unfold WriteSums.writeBalance balanceIn
  by_cases same : other = addr
  · subst same
    split
    case isTrue zero => simp [zero]
    case isFalse => simp [UInt64.toNat_ofNat_of_lt' small]
  · split
    · rw [AList.lookup_erase_ne same]
    · rw [AList.lookup_insert_ne same]

/-- Every balance after the block is the one before it plus the change, whether it is written
or not. -/
theorem balanceIn_writeBalances (addr : Text) :
    balanceIn (sums.writeBalances view) addr = sums.newBalance view addr := by
  have written (addrs : List Text) (balances : KeyedMap Text UInt64) :
      balanceIn (addrs.foldl (sums.writeBalance view) balances) addr =
        if addr ∈ addrs then sums.newBalance view addr else balanceIn balances addr := by
    induction addrs generalizing balances with
    | nil => simp
    | cons first rest ih =>
      rw [List.foldl_cons, ih, balanceIn_writeBalance]
      by_cases here : addr = first <;> by_cases later : addr ∈ rest <;> simp [here, later]
  unfold WriteSums.writeBalances
  rw [written]
  split
  · rfl
  case isFalse absent =>
  have noChange : sums.deltaAt addr = 0 := by
    unfold WriteSums.deltaAt
    rw [AList.lookup_eq_none.mpr absent]
    rfl
  have fits := ((view.balances.lookup addr).getD 0).toNat_lt
  unfold WriteSums.newBalance
  unfold ChainView.balance balanceIn toU64
  omega

end EgoChain.Ledger
