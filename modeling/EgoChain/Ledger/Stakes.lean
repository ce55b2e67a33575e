import EgoChain.Ledger.AcceptedBlocks
import Mathlib.Algebra.Order.Ring.Nat

/-!
# Stakes in a block

The staking address holds the coins of all stakes.  A block moves stakes and the
balance of that address in the same loop, and the rules simulate what the block
unstakes.
-/

namespace EgoChain.Ledger

open EgoChain.Foundations List

variable (stakes : KeyedMap Text Nat) (addr : Text) (txs : List LedgerTx) (tx : LedgerTx)

/-- The stake on record for an address. -/
def stakeIn : Nat := (stakes.lookup addr).getD 0

/-- The sum of all stakes on record. -/
def stakeTotal : Nat := stakes.total fun _ stake => stake

theorem weightAt_stake : stakes.weightAt (fun _ stake => stake) addr = stakeIn stakes addr := by
  unfold KeyedMap.weightAt stakeIn
  cases stakes.lookup addr <;> rfl

theorem stakeTotal_le_stakeTotal {stakes others : KeyedMap Text Nat}
    (below : ∀ addr, stakeIn stakes addr ≤ stakeIn others addr) :
    stakeTotal stakes ≤ stakeTotal others := by
  refine KeyedMap.total_le_total fun addr => ?_
  rw [weightAt_stake, weightAt_stake]
  exact below addr

theorem stakeIn_le_stakeTotal : stakeIn stakes addr ≤ stakeTotal stakes := by
  have part := KeyedMap.sum_weightAt_le_total (fun _ stake => stake) (nodup_singleton addr) stakes
  rw [map_singleton, weightAt_stake] at part
  exact part

/-- What a transaction unstakes for an address. -/
def unstakes : Nat :=
  if isUnstakeTx tx = true ∧ tx.sender = addr then tx.amount.toNat else 0

/-- What a list of transactions unstakes for an address. -/
def unstakedBy : Nat := (txs.map (unstakes addr)).sum

theorem unstakedBy_append (more : List LedgerTx) :
    unstakedBy addr (txs ++ more) = unstakedBy addr txs + unstakedBy addr more := by
  unfold unstakedBy
  rw [map_append, sum_append]

theorem unstakedBy_cons (rest : List LedgerTx) :
    unstakedBy addr (tx :: rest) = unstakes addr tx + unstakedBy addr rest := sum_cons

/-! ## Who stakes and unstakes -/

variable {tx} {txs}

theorem txType_of_isStakeTx (isStake : isStakeTx tx = true) :
    tx.txType = utf8 "stake" ∧ tx.recipient = stakingAddr ∧ tx.sender ≠ [] := by
  simp only [isStakeTx, Bool.and_eq_true, decide_eq_true_eq, Bool.not_eq_true',
    isEmpty_eq_false_iff] at isStake
  exact ⟨isStake.1.1, isStake.1.2, isStake.2⟩

theorem txType_of_isUnstakeTx (isUnstake : isUnstakeTx tx = true) :
    tx.txType = utf8 "unstake" ∧ tx.recipient = stakingAddr ∧ tx.sender ≠ [] := by
  simp only [isUnstakeTx, Bool.and_eq_true, decide_eq_true_eq, Bool.not_eq_true',
    isEmpty_eq_false_iff] at isUnstake
  exact ⟨isUnstake.1.1, isUnstake.1.2, isUnstake.2⟩

theorem isStakeTx_of_txType (other : tx.txType ≠ utf8 "stake") : isStakeTx tx = false := by
  simp [isStakeTx, other]

theorem isUnstakeTx_of_txType (other : tx.txType ≠ utf8 "unstake") : isUnstakeTx tx = false := by
  simp [isUnstakeTx, other]

/-- The staking address is a system source, and no rule lets it pay. -/
theorem stakingAddr_source : isReservedSystemSource stakingAddr = true ∧
    isEscrowSource stakingAddr = false := by
  decide

theorem isSystemEmissionType_stakes : isSystemEmissionType (utf8 "stake") = false ∧
    isSystemEmissionType (utf8 "unstake") = false := by
  decide

variable {env : TxEnv} {state : ChainState} {block : LedgerBlock} {rules : RewardRules}

/-- Nothing that is accepted comes from the staking address. -/
theorem sender_ne_stakingAddr (passed : checkKind env state block txs tx = .ok ()) :
    tx.sender ≠ stakingAddr := by
  intro same
  have notPool : stakingAddr ≠ nodePoolAddr := by simp [stakingAddr, nodePoolAddr]
  have notShielded : stakingAddr ≠ shieldedPoolAddr := by simp [stakingAddr, shieldedPoolAddr]
  have notMarket : stakingAddr ≠ marketEscrowAddr := by simp [stakingAddr, marketEscrowAddr]
  have notEmpty : stakingAddr.isEmpty = false := by simp [stakingAddr]
  have notSystem : isProtocolSystemTx env tx = false := by
    simp [isProtocolSystemTx, same, notPool, stakingAddr_source.2]
  rw [checkKind, notSystem, same, stakingAddr_source.1, if_neg (by decide), if_pos rfl,
    ensure_eq_ok_iff] at passed
  simp [mayLeavePool, isContributorFeeTx, isBatchTx, same, notShielded, notMarket, notEmpty] at passed

/-- Stakes and unstakes that are accepted are those of users. -/
theorem ProtocolChecks.user (checks : ProtocolChecks env rules state block txs) (mem : tx ∈ txs)
    (stakes : isStakeTx tx = true ∨ isUnstakeTx tx = true) :
    isProtocolSystemTx env tx = false ∧ isReservedSystemSource tx.sender = false := by
  have type := stakes.imp (fun isStake => (txType_of_isStakeTx isStake).1)
    fun isUnstake => (txType_of_isUnstakeTx isUnstake).1
  have passed := checks.kinds tx mem
  unfold checkKind at passed
  split at passed
  case isTrue =>
    simp only [checkSystemTx, unit_bind_eq_ok_iff, ensure_eq_ok_iff] at passed
    rcases passed.1 with isCoin | faucet | emission
    · obtain ⟨expected, coinbase⟩ := checks.coinbase
      have reward := (checkCoinbase_spec coinbase checks.distinct mem isCoin).2
      rcases type with type | type <;> simp [type] at reward
    · rcases type with type | type <;> simp [type] at faucet
    · rcases type with type | type <;> simp [type, isSystemEmissionType_stakes] at emission
  case isFalse notSystem =>
  split at passed
  case isTrue =>
    rw [ensure_eq_ok_iff] at passed
    rcases type with type | type <;>
      simp [mayLeavePool, isContributorFeeTx, isBatchTx, type] at passed
  case isFalse user => exact ⟨by simpa using notSystem, by simpa using user⟩

/-! ## The simulation -/

namespace Simulated

variable {sim next : Simulated}

theorem stakes_applyFaucetMarks : (sim.applyFaucetMarks state tx).stakes = sim.stakes := by
  unfold applyFaucetMarks
  split
  · rfl
  split
  · rfl
  cases paysFeeFromAmount tx <;> cases isStakeTx tx <;>
    simp only [Bool.false_eq_true, if_false, if_true] <;> split <;> rfl

theorem stakes_emit (passed : sim.emit state tx = .ok next) : next.stakes = sim.stakes := by
  simp only [emit, unit_bind_eq_ok_iff] at passed
  rw [← Except.ok.inj passed.2]
  split <;> rfl

theorem stakes_spend (passed : sim.spend state tx = .ok next) : next.stakes = sim.stakes := by
  simp only [spend, unit_bind_eq_ok_iff] at passed
  rw [← Except.ok.inj passed.2]
  split <;> rfl

theorem stakes_useNonce (passed : sim.useNonce state tx = .ok next) : next.stakes = sim.stakes := by
  unfold useNonce at passed
  split at passed
  · rw [Except.ok.inj passed]
  · simp only [unit_bind_eq_ok_iff] at passed
    rw [← Except.ok.inj passed.2]

theorem stake_congr {other : Simulated} (same : other.stakes = sim.stakes) :
    other.stake state addr = sim.stake state addr := by
  unfold stake
  rw [same]

section

variable (user : isUnstakeTx tx = true → isProtocolSystemTx env tx = false ∧ isReservedSystemSource
    tx.sender = false)

include user

theorem stake_move (passed : sim.move env state tx = .ok next) :
    next.stake state addr + unstakes addr tx = sim.stake state addr := by
  unfold move at passed
  cases isUnstake : isUnstakeTx tx with
  | false =>
    have nothing : unstakes addr tx = 0 := by simp [unstakes, isUnstake]
    rw [nothing]
    refine stake_congr addr ?_
    split at passed
    · rw [Except.ok.inj passed]
    split at passed
    · exact stakes_emit passed
    split at passed
    · rw [Except.ok.inj passed]
    · simp only [isUnstake] at passed
      obtain ⟨middle, spent, used⟩ := bind_eq_ok_iff.mp passed
      exact (stakes_useNonce used).trans (stakes_spend spent)
  | true =>
    obtain ⟨notSystem, notReserved⟩ := user isUnstake
    have sender := (txType_of_isUnstakeTx isUnstake).2.2
    rw [notSystem, notReserved, if_neg (by decide), if_neg (by simp), if_neg sender] at passed
    simp only [isUnstake] at passed
    obtain ⟨middle, unstaked, used⟩ := bind_eq_ok_iff.mp passed
    simp only [unstake, unit_bind_eq_ok_iff, ensure_eq_ok_iff] at unstaked
    obtain ⟨⟨-, within⟩, -, -, done⟩ := unstaked
    have stakes : middle.stakes =
        sim.stakes.insert tx.sender (sim.stake state tx.sender - tx.amount.toNat) := by
      rw [← Except.ok.inj done]
      rfl
    unfold unstakes stake
    rw [stakes_useNonce used, stakes, KeyedMap.lookup_insert_eq]
    by_cases same : addr = tx.sender
    · rw [if_pos same, if_pos ⟨isUnstake, same.symm⟩, same]
      exact Nat.sub_add_cancel within
    · rw [if_neg same, if_neg fun both => same both.2.symm, add_zero]

theorem stake_step (passed : sim.step env state block tx = .ok next) :
    next.stake state addr + unstakes addr tx = sim.stake state addr := by
  unfold step at passed
  split at passed
  · simp only [unit_bind_eq_ok_iff] at passed
    rw [stake_move addr user passed.2, stake_congr addr stakes_applyFaucetMarks]
  · exact stake_move addr user passed

end

/-- The simulation takes all that a block unstakes from the stakes before the block. -/
theorem stake_run (users : ∀ tx ∈ txs, isUnstakeTx tx = true →
      isProtocolSystemTx env tx = false ∧ isReservedSystemSource tx.sender = false)
    (passed : sim.run env state block txs = .ok next) :
    next.stake state addr + unstakedBy addr txs = sim.stake state addr := by
  induction txs generalizing sim with
  | nil =>
    rw [← Except.ok.inj passed]
    rfl
  | cons tx rest ih =>
    obtain ⟨middle, here, later⟩ := bind_eq_ok_iff.mp passed
    have first := stake_step addr (users tx mem_cons_self) here
    have others := ih (fun other mem => users other (mem_cons_of_mem _ mem)) later
    rw [unstakedBy_cons]
    omega

end Simulated

/-- What the rules make sure of about the stakes of a block. -/
structure StakesChecked (state : ChainState) (txs : List LedgerTx) : Prop where
  distinct : (txs.map LedgerTx.hash).Nodup
  source : ∀ tx ∈ txs, tx.sender ≠ stakingAddr
  user : ∀ tx ∈ txs, isStakeTx tx = true ∨ isUnstakeTx tx = true →
    isReservedSystemSource tx.sender = false
  within : ∀ addr, unstakedBy addr txs ≤ state.validatorStake addr

theorem stakesChecked_of_passed
    (passed : validateBlockProtocolTxs env rules state block txs = .ok ()) :
    StakesChecked state txs := by
  have checks := validateBlockProtocolTxs_checks passed
  have perm := perm_sortByNonce txs
  simp only [validateBlockProtocolTxs, unit_bind_eq_ok_iff] at passed
  obtain ⟨-, -, -, -, -, -, simulated⟩ := passed
  obtain ⟨last, ran, -⟩ := bind_eq_ok_iff.mp simulated
  refine ⟨((perm.map _).nodup_iff).mp checks.distinct, ?_, ?_, fun addr => ?_⟩
  · exact fun tx mem => sender_ne_stakingAddr (checks.kinds tx (perm.mem_iff.mpr mem))
  · exact fun tx mem stakes => (checks.user (perm.mem_iff.mpr mem) stakes).2
  · have taken := Simulated.stake_run addr
      (fun tx mem isUnstake => checks.user mem (Or.inr isUnstake)) ran
    have same : unstakedBy addr (sortByNonce txs) = unstakedBy addr txs := (perm.map _).sum_eq
    have start : Simulated.start.stake state addr = state.validatorStake addr := rfl
    omega

/-! ## One transaction in the writer -/

/-- What a transaction may bring to the staking address. -/
def toStaking (tx : LedgerTx) : Nat :=
  if tx.recipient = stakingAddr ∧ isUnstakeTx tx = false then tx.amount.toNat else 0

/-- What one transaction does to the stakes and to the staking address. -/
inductive StakeStep (view : ChainView) (tx : LedgerTx) (sums next : WriteSums) : Prop
  | keeps (stakes : next.stakes = sums.stakes) (marks : next.slashed = sums.slashed)
      (slashes : next.newlySlashed = sums.newlySlashed)
      (low : sums.deltaAt stakingAddr ≤ next.deltaAt stakingAddr)
      (high : next.deltaAt stakingAddr ≤ sums.deltaAt stakingAddr + toStaking tx)
      (skipped : isStakeTx tx = true → sums.skips view tx = true)
  | stake (isStake : isStakeTx tx = true)
      (stakes : next.stakes = sums.stakes.insert tx.sender
        (satAdd (sums.stakeAt view tx.sender) tx.amount.toNat))
      (marks : next.slashed = sums.slashed) (slashes : next.newlySlashed = sums.newlySlashed)
      (delta : next.deltaAt stakingAddr = sums.deltaAt stakingAddr + tx.amount.toNat)
  | unstake (isUnstake : isUnstakeTx tx = true)
      (stakes : next.stakes = sums.stakes.insert tx.sender
        (sums.stakeAt view tx.sender - tx.amount.toNat))
      (marks : next.slashed = sums.slashed) (slashes : next.newlySlashed = sums.newlySlashed)
      (delta : next.deltaAt stakingAddr = sums.deltaAt stakingAddr - unstakeCreditAmount tx)
  | slash (isProof : tx.txType = utf8 "equivocation_proof") (accused : Text) (slash : Nat)
      (accuses : view.accusedOf tx = some accused) (unmarked : accused ∉ sums.slashed)
      (within : slash ≤ sums.stakeAt view accused)
      (stakes : next.stakes = sums.stakes.insert accused (sums.stakeAt view accused - slash))
      (recorded : slash = 0 ∧ next.slashed = sums.slashed ∧ next.newlySlashed = sums.newlySlashed ∨
        next.slashed = accused :: sums.slashed ∧
          next.newlySlashed = sums.newlySlashed ++ [(accused, slash)])
      (delta : next.deltaAt stakingAddr = sums.deltaAt stakingAddr - slash)

section Writer

variable {view : ChainView} {sums : WriteSums} {tx : LedgerTx}

theorem stakeStep_applyUnstake (source : tx.sender ≠ stakingAddr) (isUnstake : isUnstakeTx tx = true) :
    StakeStep view tx sums (sums.applyUnstake view tx) := by
  have apart : stakingAddr ≠ stakingPoolAddr := by simp [stakingAddr, stakingPoolAddr]
  refine .unstake isUnstake ?_ ?_ ?_ ?_ <;> unfold WriteSums.applyUnstake <;> dsimp only
  · split <;> rfl
  · split <;> rfl
  · split <;> rfl
  · split <;> simp [WriteSums.deltaAt_add, source.symm, apart] <;> omega

theorem stakeStep_applySlash (isProof : tx.txType = utf8 "equivocation_proof") :
    StakeStep view tx sums (sums.applySlash view tx) := by
  have noStake : isStakeTx tx = false := isStakeTx_of_txType (by simp [isProof])
  have keeps : StakeStep view tx sums sums :=
    .keeps rfl rfl rfl le_rfl (by omega) (by simp [noStake])
  unfold WriteSums.applySlash
  split
  · exact keeps
  case h_2 accused accuses =>
  split
  · exact keeps
  case isFalse unmarked =>
  have within : min (sums.stakeAt view accused * 1000) maxU64 / 10000 ≤ sums.stakeAt view accused := by
    omega
  dsimp only
  split
  case isTrue nothing =>
    refine .slash isProof accused 0 accuses unmarked (Nat.zero_le _) rfl (Or.inl ⟨rfl, rfl, rfl⟩) ?_
    simp
  case isFalse =>
  refine .slash isProof accused _ accuses unmarked within rfl (Or.inr ⟨rfl, rfl⟩) ?_
  refine (WriteSums.deltaAt_add (sums.setStake accused _) stakingAddr stakingAddr _).trans ?_
  rw [if_pos rfl, WriteSums.deltaAt_setStake]
  omega

theorem creditedAmount_le : sums.creditedAmount view tx ≤ tx.amount.toNat := by
  unfold WriteSums.creditedAmount
  split
  · exact min_le_left _ _
  · exact le_rfl

/-- What is credited to the staking address is no more than the transaction may bring to it. -/
theorem credit_le_toStaking (notUnstake : isUnstakeTx tx = false) {credit : Nat}
    (within : credit ≤ tx.amount.toNat) :
    0 ≤ (if stakingAddr = tx.recipient then (credit : Int) else 0) ∧
      (if stakingAddr = tx.recipient then (credit : Int) else 0) ≤ toStaking tx := by
  unfold toStaking
  by_cases toIt : tx.recipient = stakingAddr
  · rw [if_pos toIt.symm, if_pos ⟨toIt, notUnstake⟩]
    omega
  · rw [if_neg fun same => toIt same.symm]
    omega

theorem stakeStep_applyFeeFromAmount (source : tx.sender ≠ stakingAddr)
    (notUnstake : isUnstakeTx tx = false) (noStake : isStakeTx tx = false) :
    StakeStep view tx sums (sums.applyFeeFromAmount view tx) := by
  have within : sums.creditedAmount view tx - tx.feeUegoc.toNat ≤ tx.amount.toNat :=
    (Nat.sub_le _ _).trans creditedAmount_le
  have credit := credit_le_toStaking notUnstake within
  have delta : (sums.applyFeeFromAmount view tx).deltaAt stakingAddr = sums.deltaAt stakingAddr +
      if stakingAddr = tx.recipient then
        ((sums.creditedAmount view tx - tx.feeUegoc.toNat : Nat) : Int) else 0 := by
    simp [WriteSums.applyFeeFromAmount, WriteSums.deltaAt_add, source.symm]
  exact .keeps rfl rfl rfl (by omega) (by omega) (by simp [noStake])

/-- A payment that is no stake changes balances only. -/
theorem applyPayment_of_not_stake (noStake : isStakeTx tx = false) :
    (sums.applyPayment view tx).stakes = sums.stakes ∧
      (sums.applyPayment view tx).slashed = sums.slashed ∧
      (sums.applyPayment view tx).newlySlashed = sums.newlySlashed := by
  unfold WriteSums.applyPayment
  rw [noStake]
  split
  · exact ⟨rfl, rfl, rfl⟩
  split <;> exact ⟨rfl, rfl, rfl⟩

theorem stakeStep_applyPayment (source : tx.sender ≠ stakingAddr) (notUnstake : isUnstakeTx tx = false)
    (user : isStakeTx tx = true → isReservedSystemSource tx.sender = false) :
    StakeStep view tx sums (sums.applyPayment view tx) := by
  have delta := sums.deltaAt_applyPayment tx view stakingAddr
  rw [if_neg source.symm, sub_zero] at delta
  cases isStake : isStakeTx tx with
  | true =>
    obtain ⟨-, recipient, sender⟩ := txType_of_isStakeTx isStake
    have full : sums.creditedAmount view tx = tx.amount.toNat := by
      simp [WriteSums.creditedAmount, user isStake]
    rw [recipient, full] at delta
    refine .stake isStake ?_ ?_ ?_ delta <;>
      simp only [WriteSums.applyPayment, sender, user isStake, isStake, if_true, if_false,
        Bool.false_eq_true] <;> rfl
  | false =>
    obtain ⟨stakes, marks, slashes⟩ := @applyPayment_of_not_stake _ _ tx isStake
    have _ := credit_le_toStaking notUnstake (@creditedAmount_le view sums tx)
    exact .keeps stakes marks slashes (by omega) (by omega) (by simp [isStake])

/-- What a transaction that is not sent by the staking address does to the stakes. -/
theorem stakeStep_applyTx (source : tx.sender ≠ stakingAddr)
    (user : isStakeTx tx = true → isReservedSystemSource tx.sender = false) :
    StakeStep view tx sums (sums.applyTx view tx) := by
  unfold WriteSums.applyTx
  split
  case isTrue skipped => exact .keeps rfl rfl rfl le_rfl (by omega) fun _ => skipped
  unfold WriteSums.applyKind
  split
  case isTrue isUnstake => exact stakeStep_applyUnstake source isUnstake
  case isFalse notUnstake =>
  rw [Bool.not_eq_true] at notUnstake
  split
  case isTrue isProof => exact stakeStep_applySlash isProof
  split
  case isTrue fromPool =>
    refine stakeStep_applyFeeFromAmount source notUnstake ?_
    -- The two pools are system sources, and stakes come from users.
    cases isStake : isStakeTx tx with
    | false => rfl
    | true =>
      have pools : isReservedSystemSource shieldedPoolAddr = true ∧
          isReservedSystemSource marketEscrowAddr = true := by
        decide
      have notReserved := user isStake
      simp only [paysFeeFromAmount, isUnshield, Bool.or_eq_true, decide_eq_true_eq] at fromPool
      rcases fromPool with pool | pool <;> simp [pool, pools] at notReserved
  · exact stakeStep_applyPayment source notUnstake user

end Writer

end EgoChain.Ledger
