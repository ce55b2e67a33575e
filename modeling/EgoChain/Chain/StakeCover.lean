import EgoChain.Chain.Node
import EgoChain.Ledger.Stakes

/-!
# Coins behind the stakes

The staking address is to hold the coins of all stakes, those of the database and
those in memory.  The writer slashes and unstakes in one loop, the rules simulate
the unstaking alone, and memory counts the stakes of a block without asking which
of its transactions were stored before.
-/

namespace EgoChain.Chain

open EgoChain.Foundations EgoChain.Ledger EgoChain.Market List

/-! ## The loop of the writer -/

/-- What is on record once the stakes of the sums are written. -/
def recordStakes (recorded : KeyedMap Text Nat) (sums : WriteSums) : KeyedMap Text Nat :=
  recorded.overwrite sums.stakes

/-- The transaction is a valid proof against the validator. -/
def Accuses (view : ChainView) (proof : LedgerTx) (addr : Text) : Prop :=
  proof.txType = utf8 "equivocation_proof" ∧ view.accusedOf proof = some addr

variable {txs : List LedgerTx}

section Writer

variable {view : ChainView} {recorded : KeyedMap Text Nat} {sums next : WriteSums} {tx : LedgerTx}
  {first : List LedgerTx}

theorem stakeAt_le_recorded (below : ∀ addr, view.stakeOf addr ≤ stakeIn recorded addr) (addr : Text) :
    sums.stakeAt view addr ≤ stakeIn (recordStakes recorded sums) addr := by
  unfold WriteSums.stakeAt stakeIn recordStakes
  rw [KeyedMap.lookup_overwrite]
  cases sums.stakes.lookup addr with
  | none => exact below addr
  | some stake => exact le_rfl

variable {addr : Text} {rest : List LedgerTx} {stake : Nat}

theorem stakeAt_insert (stakes : next.stakes = sums.stakes.insert addr stake) (other : Text) :
    next.stakeAt view other = if other = addr then stake else sums.stakeAt view other := by
  unfold WriteSums.stakeAt
  rw [stakes, KeyedMap.lookup_insert_eq]
  split <;> rfl

theorem stakeAt_congr (stakes : next.stakes = sums.stakes) (addr : Text) :
    next.stakeAt view addr = sums.stakeAt view addr := by
  unfold WriteSums.stakeAt
  rw [stakes]

/-- A stake that is written takes the place of at least what the writer read. -/
theorem stakeTotal_insert (below : ∀ addr, view.stakeOf addr ≤ stakeIn recorded addr)
    (stakes : next.stakes = sums.stakes.insert addr stake) :
    stakeTotal (recordStakes recorded next) + sums.stakeAt view addr ≤
      stakeTotal (recordStakes recorded sums) + stake := by
  have written := KeyedMap.total_overwrite_insert recorded sums.stakes (fun _ stake => stake) addr stake
  rw [weightAt_stake, ← stakes] at written
  calc stakeTotal (recordStakes recorded next) + sums.stakeAt view addr
      ≤ stakeTotal (recordStakes recorded next) + stakeIn (recordStakes recorded sums) addr :=
        Nat.add_le_add_left (stakeAt_le_recorded below addr) _
    _ = stakeTotal _ + stake := written

/-- How the sums stand after the first transactions of a block. -/
structure Tracks (view : ChainView) (recorded : KeyedMap Text Nat) (first : List LedgerTx)
    (sums : WriteSums) : Prop where
  covers : (stakeTotal (recordStakes recorded sums) : Int) ≤
    view.balance stakingAddr + sums.deltaAt stakingAddr
  received : sums.deltaAt stakingAddr ≤ ((first.map toStaking).sum : Nat)
  /-- Only what was unstaked is gone from the stake of a validator that no proof accuses. -/
  left : ∀ addr, (∀ proof ∈ first, ¬ Accuses view proof addr) →
    view.stakeOf addr ≤ sums.stakeAt view addr + unstakedBy addr first
  marked : ∀ entry ∈ sums.newlySlashed, entry.1 ∈ sums.slashed

theorem Tracks.start (covered : stakeTotal recorded ≤ view.balance stakingAddr) :
    Tracks view recorded [] (WriteSums.start view) where
  covers := by
    change (stakeTotal recorded : Int) ≤ view.balance stakingAddr + 0
    omega
  received := le_rfl
  left addr _ := le_rfl
  marked := nofun

theorem Tracks.step (below : ∀ addr, view.stakeOf addr ≤ stakeIn recorded addr)
    (fits : ∀ addr, view.stakeOf addr ≤ maxU64) (tracks : Tracks view recorded first sums)
    (enough : isUnstakeTx tx = true → tx.amount.toNat ≤ sums.stakeAt view tx.sender)
    (step : StakeStep view tx sums next) : Tracks view recorded (first ++ [tx]) next := by
  have sumTo : ((first ++ [tx]).map toStaking).sum = (first.map toStaking).sum + toStaking tx := by
    simp
  have unstaked (addr : Text) :
      unstakedBy addr (first ++ [tx]) = unstakedBy addr first + unstakes addr tx := by
    rw [unstakedBy_append]
    rfl
  have left (addr : Text) (clear : ∀ proof ∈ first ++ [tx], ¬ Accuses view proof addr) :=
    tracks.left addr fun proof mem => clear proof (mem_append_left _ mem)
  obtain ⟨covers, received, -, marked⟩ := tracks
  cases step with
  | keeps stakes marks slashes low high skipped =>
    refine ⟨?_, by omega, fun addr clear => ?_, by rw [slashes, marks]; exact marked⟩
    · unfold recordStakes at covers ⊢
      rw [stakes]
      omega
    · have was := left addr clear
      rw [stakeAt_congr stakes, unstaked]
      omega
  | stake isStake stakes marks slashes delta =>
    have total := stakeTotal_insert below stakes
    have added : satAdd (sums.stakeAt view tx.sender) tx.amount.toNat ≤
      sums.stakeAt view tx.sender + tx.amount.toNat := min_le_left _ _
    have notUnstake : isUnstakeTx tx = false :=
      isUnstakeTx_of_txType (by simp [(txType_of_isStakeTx isStake).1])
    have brings : toStaking tx = tx.amount.toNat :=
      if_pos ⟨(txType_of_isStakeTx isStake).2.1, notUnstake⟩
    refine ⟨by omega, by omega, fun addr clear => ?_, by rw [slashes, marks]; exact marked⟩
    have was := left addr clear
    have small := fits addr
    rw [stakeAt_insert stakes, unstaked]
    split
    case isTrue same =>
      rw [same] at was small ⊢
      unfold satAdd
      omega
    case isFalse => omega
  | unstake isUnstake stakes marks slashes delta =>
    have total := stakeTotal_insert below stakes
    have credit : unstakeCreditAmount tx ≤ tx.amount.toNat := by
      unfold unstakeCreditAmount
      split <;> omega
    have within := enough isUnstake
    refine ⟨by omega, by omega, fun addr clear => ?_, by rw [slashes, marks]; exact marked⟩
    have was := left addr clear
    rw [stakeAt_insert stakes, unstaked]
    split
    case isTrue same =>
      have own : unstakes addr tx = tx.amount.toNat := if_pos ⟨isUnstake, same.symm⟩
      rw [same] at was own ⊢
      omega
    case isFalse => omega
  | slash isProof accused slash accuses unmarked within stakes recorded delta =>
    have total := stakeTotal_insert below stakes
    refine ⟨by omega, by omega, fun addr clear => ?_, ?_⟩
    · have was := left addr clear
      have other : addr ≠ accused := by
        rintro rfl
        exact clear tx (by simp) ⟨isProof, accuses⟩
      rw [stakeAt_insert stakes, if_neg other, unstaked]
      omega
    · rcases recorded with ⟨-, marks, slashes⟩ | ⟨marks, slashes⟩ <;> rw [slashes, marks]
      · exact marked
      · exact forall_mem_append.mpr ⟨fun entry mem => mem_cons_of_mem _ (marked entry mem),
          forall_mem_singleton.mpr mem_cons_self⟩

/-! ## The copy in memory -/

variable (stakes : KeyedMap Text Nat) {memory : KeyedMap Text Nat} {all : List (Text × Nat)}

include stakes

theorem stakeIn_insert (addr : Text) (stake : Nat) (other : Text) :
    stakeIn (stakes.insert addr stake) other = if other = addr then stake else stakeIn stakes other := by
  unfold stakeIn
  rw [KeyedMap.lookup_insert_eq]
  split <;> rfl

theorem stakeIn_addStake (named : addr ≠ []) (amount : Nat) (other : Text) :
    stakeIn (Node.addStake stakes addr amount) other =
      if other = addr then satAdd (stakeIn stakes addr) amount else stakeIn stakes other := by
  unfold Node.addStake
  rw [if_neg named]
  exact stakeIn_insert stakes addr _ other

theorem stakeIn_subStake (named : addr ≠ []) (amount : Nat) (other : Text) :
    stakeIn (Node.subStake stakes addr amount) other =
      if other = addr then stakeIn stakes addr - amount else stakeIn stakes other := by
  unfold Node.subStake
  rw [if_neg named]
  exact stakeIn_insert stakes addr _ other

theorem stakeIn_subStake_le (addr : Text) (amount : Nat) (other : Text) :
    stakeIn (Node.subStake stakes addr amount) other ≤ stakeIn stakes other := by
  by_cases named : addr = []
  · rw [Node.subStake, if_pos named]
  · rw [stakeIn_subStake stakes named]
    split
    case isTrue same =>
      rw [same]
      exact Nat.sub_le _ _
    case isFalse => exact le_rfl

omit stakes

/-- Memory gains nothing from a transaction that is no stake. -/
theorem stakeIn_recordValidatorStake_le {newlySlashed : List (Text × Nat)} {stakes : KeyedMap Text Nat}
    (noStake : isStakeTx tx = false) (addr : Text) :
    stakeIn (Node.recordValidatorStake newlySlashed stakes tx) addr ≤ stakeIn stakes addr := by
  unfold Node.recordValidatorStake
  rw [noStake, if_neg (by decide)]
  repeat' split
  any_goals exact stakeIn_subStake_le stakes _ _ addr
  · exact le_rfl
  · exact le_rfl

/-- The first entry of a validator stands where the validator was slashed. -/
theorem find?_newlySlashed {accused : Text} {slash : Nat}
    (marked : ∀ entry ∈ sums.newlySlashed, entry.1 ∈ sums.slashed) (unmarked : accused ∉ sums.slashed)
    (part : sums.newlySlashed ++ [(accused, slash)] <+: all) :
    all.find? (fun entry => entry.1 = accused) = some (accused, slash) := by
  obtain ⟨-, rfl⟩ := part
  have absent : sums.newlySlashed.find? (fun entry => entry.1 = accused) = none := by
    rw [List.find?_eq_none]
    intro entry mem same
    exact unmarked (of_decide_eq_true same ▸ marked entry mem)
  rw [append_assoc, List.find?_append, absent]
  simp

/-- How the proofs of a block read: they name the accused as the recipient. -/
def NamesAccused (accusedOf : LedgerTx → Option Text) : Prop :=
  ∀ tx accused, accusedOf tx = some accused → accused = tx.recipient ∧ accused ≠ []

/-- Memory stays below what the writer reads. -/
theorem memory_step
    (marked : ∀ entry ∈ sums.newlySlashed, entry.1 ∈ sums.slashed) (names : NamesAccused view.accusedOf)
    (live : isStakeTx tx = true → sums.skips view tx = false) (part : next.newlySlashed <+: all)
    (step : StakeStep view tx sums next)
    (follows : ∀ addr, stakeIn memory addr ≤ sums.stakeAt view addr) (addr : Text) :
    stakeIn (Node.recordValidatorStake all memory tx) addr ≤ next.stakeAt view addr := by
  have here := follows addr
  cases step with
  | keeps stakes marks slashes low high skipped =>
    have noStake : isStakeTx tx = false := by
      cases isStake : isStakeTx tx with
      | false => rfl
      | true =>
        have applied := live isStake
        rw [skipped isStake] at applied
        cases applied
    rw [stakeAt_congr stakes]
    exact (stakeIn_recordValidatorStake_le noStake addr).trans here
  | stake isStake stakes =>
    have sender := follows tx.sender
    rw [Node.recordValidatorStake, isStake, if_pos rfl,
      stakeIn_addStake memory (txType_of_isStakeTx isStake).2.2, stakeAt_insert stakes]
    split
    · unfold satAdd
      omega
    · exact here
  | unstake isUnstake stakes =>
    obtain ⟨type, -, named⟩ := txType_of_isUnstakeTx isUnstake
    have sender := follows tx.sender
    have noStake : isStakeTx tx = false := isStakeTx_of_txType (by simp [type])
    rw [Node.recordValidatorStake, noStake, if_neg (by decide), isUnstake, if_pos rfl,
      stakeIn_subStake memory named, stakeAt_insert stakes]
    split
    · omega
    · exact here
  | slash isProof accused slash accuses unmarked within stakes recorded =>
    have noStake : isStakeTx tx = false := isStakeTx_of_txType (by simp [isProof])
    have noUnstake : isUnstakeTx tx = false := isUnstakeTx_of_txType (by simp [isProof])
    obtain ⟨recipient, named⟩ := names tx accused accuses
    rw [stakeAt_insert stakes]
    rcases recorded with ⟨rfl, -, -⟩ | ⟨-, slashes⟩
    · refine (stakeIn_recordValidatorStake_le noStake addr).trans ?_
      split
      case isTrue same =>
        rw [← same]
        exact here
      case isFalse => exact here
    · rw [slashes] at part
      have found := find?_newlySlashed marked unmarked part
      rw [recipient] at found
      have own := follows accused
      rw [Node.recordValidatorStake, noStake, if_neg (by decide), noUnstake, if_neg (by decide),
        if_pos isProof, found]
      rw [← recipient, stakeIn_subStake memory named]
      split
      · omega
      · exact here

/-! ## A whole block -/

theorem newlySlashed_of_step (step : StakeStep view tx sums next) :
    sums.newlySlashed <+: next.newlySlashed := by
  cases step with
  | keeps _ _ slashes | stake _ _ _ slashes | unstake _ _ _ slashes => simp [slashes]
  | slash _ accused slash _ _ _ _ recorded =>
    rcases recorded with ⟨-, -, slashes⟩ | ⟨-, slashes⟩
    · simp [slashes]
    · rw [slashes]
      exact prefix_append _ _

/-- What the loop of the writer needs of a block. -/
structure Orderly (view : ChainView) (recorded : KeyedMap Text Nat) (txs : List LedgerTx) : Prop where
  below : ∀ addr, view.stakeOf addr ≤ stakeIn recorded addr
  fits : ∀ addr, view.stakeOf addr ≤ maxU64
  names : NamesAccused view.accusedOf
  source : ∀ tx ∈ txs, tx.sender ≠ stakingAddr
  user : ∀ tx ∈ txs, isStakeTx tx = true ∨ isUnstakeTx tx = true →
    isReservedSystemSource tx.sender = false
  within : ∀ addr, unstakedBy addr txs ≤ view.stakeOf addr
  live : ∀ tx ∈ txs, isStakeTx tx = true → ∀ sums : WriteSums, sums.skips view tx = false
  apart : txs.Pairwise fun proof tx => isUnstakeTx tx = true → ¬ Accuses view proof tx.sender

section

variable (orderly : Orderly view recorded txs)

include orderly

theorem Orderly.step (split : txs = first ++ tx :: rest) :
    StakeStep view tx sums (sums.applyTx view tx) := by
  have mem : tx ∈ txs := by simp [split]
  exact stakeStep_applyTx (orderly.source tx mem) fun isStake => orderly.user tx mem (Or.inl isStake)

/-- The stake is there when it is unstaked. -/
theorem Orderly.enough (split : txs = first ++ tx :: rest)
    (tracks : Tracks view recorded first sums) (isUnstake : isUnstakeTx tx = true) :
    tx.amount.toNat ≤ sums.stakeAt view tx.sender := by
  have clear : ∀ proof ∈ first, ¬ Accuses view proof tx.sender := by
    intro proof mem
    have apart := orderly.apart
    rw [split, pairwise_append] at apart
    exact apart.2.2 proof mem tx mem_cons_self isUnstake
  have left := tracks.left tx.sender clear
  have within := orderly.within tx.sender
  rw [split, unstakedBy_append, unstakedBy_cons] at within
  have own : unstakes tx.sender tx = tx.amount.toNat := if_pos ⟨isUnstake, rfl⟩
  omega

theorem Orderly.newlySlashed_prefix (split : txs = first ++ rest) :
    sums.newlySlashed <+: (sums.applyTxs view rest).newlySlashed := by
  induction rest generalizing first sums with
  | nil => exact prefix_rfl
  | cons tx rest ih =>
    have step : StakeStep view tx sums _ := orderly.step split
    have later : txs = (first ++ [tx]) ++ rest := by simp [split]
    exact (newlySlashed_of_step step).trans (ih later)

/-- The sums of an orderly block cover its stakes, and memory stays below them. -/
theorem Orderly.run (split : txs = first ++ rest) (tracks : Tracks view recorded first sums)
    (follows : ∀ addr, stakeIn memory addr ≤ sums.stakeAt view addr) :
    Tracks view recorded txs (sums.applyTxs view rest) ∧ ∀ addr, stakeIn (rest.foldl
        (Node.recordValidatorStake (sums.applyTxs view rest).newlySlashed) memory) addr ≤
          (sums.applyTxs view rest).stakeAt view addr := by
  induction rest generalizing first sums memory with
  | nil =>
    rw [split, append_nil]
    exact ⟨tracks, follows⟩
  | cons tx rest ih =>
    have mem : tx ∈ txs := by simp [split]
    have later : txs = first ++ [tx] ++ rest := by simp [split]
    have step : StakeStep view tx sums (sums.applyTx view tx) := orderly.step split
    exact ih later (tracks.step orderly.below orderly.fits (orderly.enough split tracks) step)
      (memory_step tracks.marked orderly.names (fun isStake => orderly.live tx mem isStake sums)
        (orderly.newlySlashed_prefix later) step follows)

end

theorem addCredits_stakes (sums : WriteSums) (credits : List (Text × Nat)) :
    (sums.addCredits credits).stakes = sums.stakes ∧
      (sums.addCredits credits).newlySlashed = sums.newlySlashed := by
  induction credits generalizing sums with
  | nil => exact ⟨rfl, rfl⟩
  | cons credit rest ih => exact ih _

end Writer

/-! ## Nodes -/

/-- The coins of all stakes are there, and memory counts no more than the database. -/
structure StakesCovered {σ : Type} (node : Node σ) : Prop where
  below : ∀ addr, stakeIn node.stakeStore addr ≤ stakeIn node.stakes addr
  covered : stakeTotal node.stakes ≤ balanceIn node.market.balances stakingAddr

/-- A block that a node takes, with the checks and the settings it is taken with. -/
structure BlockStep (σ : Type) where
  peer : PeerRules
  rules : NodeRules σ
  block : LedgerBlock
  txs : List LedgerTx
  isProposal : Bool
  checkClock : Bool
  miners : Option (List Text)

namespace BlockStep

variable {σ : Type} (step : BlockStep σ) (node : Node σ)

def write : Node σ := node.write step.rules step.block step.txs

/-- The block passes the checks as the next one of a node in this state. -/
structure Validated (step : BlockStep σ) (node : Node σ) : Prop where
  passed : validatePeerBlock step.peer step.block step.txs step.isProposal step.checkClock
    step.miners = .ok ()
  onTip : step.peer.localTip + 1 = step.block.height
  balances : step.peer.state.balances = node.market.balances
  stakes : ∀ addr, step.peer.state.validatorStake addr = stakeIn node.stakeStore addr
  nonces : ∀ addr, step.peer.state.lastConfirmedNonce addr = (node.confirmedNonces.lookup addr).getD 0
  names : NamesAccused step.rules.accusedOf

/-- All that the block may add to the staking address. -/
def stakingInflow : Nat :=
  (step.txs.map toStaking).sum +
    ((node.market.nodePay step.rules.env (node.chainBlock step.rules step.block step.txs)).map
      fun credit => if stakingAddr = credit.1 then credit.2 else 0).sum

/-- The stakes of the block are new and not the foundation's, nothing is unstaked after a proof
against its owner, and the staking address does not overflow. -/
structure KeepsStakes (step : BlockStep σ) (node : Node σ) : Prop where
  fresh : ∀ tx ∈ step.txs, isStakeTx tx = true → tx.hash ∉ node.market.committed
  noFoundation : ∀ tx ∈ step.txs, isStakeTx tx = true → tx.sender ≠ foundationAddr
  apart : step.txs.Pairwise fun proof tx => isUnstakeTx tx = true →
    ¬ (proof.txType = utf8 "equivocation_proof" ∧ step.rules.accusedOf proof = some tx.sender)
  fits : balanceIn node.market.balances stakingAddr + step.stakingInflow node < 2 ^ 64

/-- The writer's view of the block. -/
def view : ChainView :=
  node.market.view step.rules.env (node.chainBlock step.rules step.block step.txs)

/-- The sums after the transactions of the block. -/
def loopSums : WriteSums :=
  (WriteSums.start (step.view node)).applyTxs (step.view node) step.txs

variable {step node}

theorem Validated.checked (validated : step.Validated node) :
    StakesChecked step.peer.state step.txs := by
  have passed := validated.passed
  have onTip := validated.onTip
  rw [validatePeerBlock, if_neg (by omega)] at passed
  simp only [unit_bind_eq_ok_iff] at passed
  obtain ⟨-, -, -, -, -, -, -, -, -, passed⟩ := passed
  obtain ⟨votes, -, passed⟩ := bind_eq_ok_iff.mp passed
  simp only [unit_bind_eq_ok_iff, provided_eq_ok_iff] at passed
  exact stakesChecked_of_passed (passed.2 onTip)

theorem orderly (validated : step.Validated node) (keeps : step.KeepsStakes node)
    (covered : StakesCovered node) :
    Orderly (step.view node) node.stakes step.txs := by
  have checked := validated.checked
  have fits := keeps.fits
  refine ⟨covered.below, fun addr => ?_, validated.names, checked.source, checked.user, fun addr => ?_,
    fun tx mem isStake sums => ?_, keeps.apart⟩
  · have inMemory := covered.below addr
    have recorded := stakeIn_le_stakeTotal node.stakes addr
    have total := covered.covered
    change stakeIn node.stakeStore addr ≤ maxU64
    unfold maxU64
    omega
  · rw [show (step.view node).stakeOf addr = stakeIn node.stakeStore addr from rfl,
      ← validated.stakes addr]
    exact checked.within addr
  · have fresh := keeps.fresh tx mem isStake
    have listed : tx ∈ (node.market.fresh (node.chainBlock step.rules step.block step.txs)).txs :=
      mem_filter.mpr ⟨mem, decide_eq_true fresh⟩
    have distinct : ((node.market.fresh
        (node.chainBlock step.rules step.block step.txs)).txs.map LedgerTx.hash).Nodup :=
      checked.distinct.sublist (filter_sublist.map _)
    have apart : touchesMarket tx = false := by
      have user := checked.user tx mem (Or.inl isStake)
      have notEscrow : tx.sender ≠ marketEscrowAddr := by
        intro escrow
        rw [escrow] at user
        exact absurd user (by decide)
      have notDeposit : tx.recipient ≠ marketEscrowAddr := by
        rw [(txType_of_isStakeTx isStake).2.1]
        simp [stakingAddr, marketEscrowAddr]
      simp [touchesMarket, isEscrowDeposit, isSettle, notEscrow, notDeposit]
    have takes : (step.view node).takesEffect tx.hash = true :=
      takesEffect_of_apart step.rules.env node.market.store distinct listed apart
    have stored : (step.view node).committed tx.hash = false := decide_eq_false fresh
    simp [WriteSums.skips, WriteSums.vestingRefuses, takes, stored, keeps.noFoundation tx mem isStake]

/-- The coins of all stakes are there after the block again. -/
theorem covered_write (validated : step.Validated node) (keeps : step.KeepsStakes node)
    (covered : StakesCovered node) :
    StakesCovered (step.write node) := by
  have ready := orderly validated keeps covered
  have start : Tracks (step.view node) node.stakes [] (WriteSums.start (step.view node)) :=
    Tracks.start covered.covered
  have read : ∀ addr, stakeIn node.stakeStore addr ≤
      (WriteSums.start (step.view node)).stakeAt (step.view node) addr := fun addr => le_rfl
  obtain ⟨tracks, follows⟩ := ready.run (nil_append _).symm start read
  let pay := node.market.nodePay step.rules.env (node.chainBlock step.rules step.block step.txs)
  obtain ⟨stakes, slashes⟩ := addCredits_stakes _ pay
  have written : recordStakes node.stakes ((step.loopSums node).addCredits pay) =
      recordStakes node.stakes (step.loopSums node) := by
    unfold recordStakes
    rw [stakes]
  constructor
  · intro addr
    change stakeIn (step.txs.foldl (Node.recordValidatorStake
      ((step.loopSums node).addCredits pay).newlySlashed) node.stakeStore) addr ≤
        stakeIn (recordStakes node.stakes ((step.loopSums node).addCredits pay)) addr
    rw [slashes, written]
    exact (follows addr).trans (stakeAt_le_recorded ready.below addr)
  · change stakeTotal (recordStakes node.stakes ((step.loopSums node).addCredits pay)) ≤
      balanceIn (((step.loopSums node).addCredits pay).writeBalances (step.view node)) stakingAddr
    rw [written, balanceIn_writeBalances]
    have paid := WriteSums.deltaAt_addCredits (step.loopSums node) stakingAddr pay
      (by simp [stakingAddr, nodePoolAddr])
    rw [MarketChain.sum_credits] at paid
    have covers := tracks.covers
    have received := tracks.received
    have fits : (step.view node).balance stakingAddr + ((step.txs.map toStaking).sum +
      (pay.map fun credit => if stakingAddr = credit.1 then credit.2 else 0).sum) < 2 ^ 64 := keeps.fits
    change (stakeTotal (recordStakes node.stakes (step.loopSums node)) : Int) ≤
      (step.view node).balance stakingAddr + (step.loopSums node).deltaAt stakingAddr at covers
    change (step.loopSums node).deltaAt stakingAddr ≤ _ at received
    have exact' := @toU64_of_fits ((step.view node).balance stakingAddr +
      ((step.loopSums node).addCredits pay).deltaAt stakingAddr) (by omega) (by omega)
    unfold WriteSums.newBalance
    omega

end BlockStep

/-! ## Runs -/

section Runs

variable {σ : Type}

/-- The node takes a validated block. -/
def Takes (node next : Node σ) : Prop :=
  ∃ step : BlockStep σ, step.Validated node ∧ next = step.write node

/-- The node takes a validated block that keeps the stakes covered. -/
def TakesKept (node next : Node σ) : Prop :=
  ∃ step : BlockStep σ, step.Validated node ∧ step.KeepsStakes node ∧ next = step.write node

theorem covered_run {start node : Node σ} (covered : StakesCovered start)
    (reached : Relation.ReflTransGen TakesKept start node) : StakesCovered node := by
  induction reached with
  | refl => exact covered
  | tail _ taken ih =>
    obtain ⟨step, validated, keeps, rfl⟩ := taken
    exact BlockStep.covered_write validated keeps ih

/-- From a node without stakes, the staking address covers all stakes after every block, in the
database and in memory, if no block stakes twice or for the foundation, none unstakes after a proof
against the owner of the stake, and the address does not overflow. -/
theorem stakes_are_covered (start node : Node σ) (noStakes : start.stakes = ∅)
    (noneInMemory : start.stakeStore = ∅) (reached : Relation.ReflTransGen TakesKept start node) :
    stakeTotal node.stakes ≤ balanceIn node.market.balances stakingAddr ∧
      stakeTotal node.stakeStore ≤ balanceIn node.market.balances stakingAddr := by
  have empty : StakesCovered start := by
    constructor
    · intro addr
      rw [noStakes, noneInMemory]
    · rw [noStakes]
      exact Nat.zero_le _
  have covered := covered_run empty reached
  exact ⟨covered.covered, (stakeTotal_le_stakeTotal covered.below).trans covered.covered⟩

end Runs

/-! ## Validated runs -/

/-- A digest of 32 bytes that keeps a few texts apart. -/
def shortDigest (seed : Nat) (text : Text) : Text :=
  leBytes 32 (text.foldl (fun sum byte => (sum * 257 + byte.toNat + 1) % 2 ^ 256) seed)

def shortEnv : TxEnv :=
  { plainTxEnv with
    hashData := shortDigest 1
    blake3 := shortDigest 2
    addressOf := fun _ key => utf8 "user" ++ Text.toHex (key.take 1) }

/-- Two users with a thousand coins each, and no stakes. -/
def twoUsers : Node Unit where
  market := ⟨((∅ : KeyedMap Text UInt64).insert (utf8 "user01") 1000000000).insert (utf8 "user02")
    1000000000, ∅, []⟩
  nonces := ∅
  confirmedNonces := ∅
  stakes := ∅
  stakeStore := ∅
  stakeMeta := ∅
  slashed := []
  modules := ()

/-- A proof accuses its recipient. -/
def proofRules : NodeRules Unit where
  env := plainEnv
  chainTime _ := 1000
  vestedUegoc := 0
  accusedOf tx :=
    if tx.txType = utf8 "equivocation_proof" ∧ tx.recipient ≠ [] then some tx.recipient else none
  checkinPay _ _ _ := []
  storagePay _ _ := []
  applyModules state _ _ _ _ := state

theorem proofRules_names : NamesAccused proofRules.accusedOf := by
  intro tx accused reads
  have valid : (if tx.txType = utf8 "equivocation_proof" ∧ tx.recipient ≠ [] then some tx.recipient
    else none) = some accused := reads
  split at valid
  case isTrue both => exact ⟨(Option.some.inj valid).symm, Option.some.inj valid ▸ both.2⟩
  case isFalse => cases valid

variable (node : Node Unit) (height : Nat)

/-- The checks of a node in a state, before the next block of a height. -/
def peerOf : PeerRules :=
  let state : ChainState := {
    balances := node.market.balances
    lastConfirmedNonce := fun addr => (node.confirmedNonces.lookup addr).getD 0
    validatorStake := stakeIn node.stakeStore }
  { plainNode state ⟨fun _ => none, fun _ => none⟩ with tx := shortEnv, localTip := height - 1 }

/-- The next block of a node; below a certain height it names no root. -/
def nextStep (txs : List LedgerTx) : BlockStep Unit where
  peer := peerOf node height
  rules := proofRules
  block :=
    let root := if height < drsFromHeight then [] else sortedTxRoot shortEnv txs
    let block : LedgerBlock := {
      height := height, hash := [], prevHash := utf8 "parent", timestamp := 1000
      miner := utf8 "user07", txCount := txs.length, txMerkleRoot := root }
    { block with hash := blockHashFor shortEnv block }
  txs := txs
  isProposal := false
  checkClock := false
  miners := none

theorem nextStep_validated {node : Node Unit} {height : Nat} (later : 0 < height)
    (passed : validatePeerBlock (peerOf node height) (nextStep node height txs).block txs false false
      none = .ok ()) : (nextStep node height txs).Validated node where
  passed := passed
  onTip := Nat.sub_add_cancel later
  balances := rfl
  stakes _ := rfl
  nonces _ := rfl
  names := proofRules_names

/-- One coin that a user signs for staking or unstaking. -/
def coinTx (user : UInt8) (txType : Text) (nonce : UInt64) (version : UInt8) : LedgerTx :=
  let tx : LedgerTx := {
    hash := [], sender := utf8 "user" ++ Text.toHex [user], recipient := stakingAddr
    amount := 1000000, timestamp := 1000, signature := Text.toHex (List.replicate 64 user)
    nonce := nonce, publicKeyEd25519 := Text.toHex (List.replicate 32 user), txType := txType
    txVersion := version, chainId := 1 }
  { tx with hash := expectedStandardTxHash shortEnv tx }

/-- A third user proves that the first one voted twice. -/
def proofTx : LedgerTx where
  hash := utf8 "0xproof"
  sender := utf8 "user03"
  recipient := utf8 "user01"
  memo := some (utf8 "votes")
  timestamp := 1000
  signature := Text.toHex (List.replicate 64 3)
  publicKeyEd25519 := Text.toHex (List.replicate 32 3)
  txType := utf8 "equivocation_proof"
  txVersion := 2
  chainId := 1

/-- Both users stake a coin. -/
def stakingTxs : List LedgerTx := [coinTx 1 (utf8 "stake") 1 2, coinTx 2 (utf8 "stake") 1 2]

def bothStake : BlockStep Unit := nextStep twoUsers 32001 stakingTxs

/-- The first user is accused and loses a tenth, and the second one takes its coin back. -/
def oneLeavesTxs : List LedgerTx := [proofTx, coinTx 2 (utf8 "unstake") 2 2]

def oneLeaves : BlockStep Unit := nextStep (bothStake.write twoUsers) 32002 oneLeavesTxs

/-- One stake without a nonce, which two blocks carry. -/
def replayedTxs : List LedgerTx := [coinTx 1 (utf8 "stake") 0 3]

def stakesOnce : BlockStep Unit := nextStep twoUsers 40001 replayedTxs

def stakesAgain : BlockStep Unit := nextStep (stakesOnce.write twoUsers) 40002 replayedTxs

theorem sortByNonce_of_pairwise (sorted : txs.Pairwise fun first second => first.nonce ≤ second.nonce) :
    sortByNonce txs = txs :=
  mergeSort_of_pairwise (sorted.imp decide_eq_true)

theorem bothStake_validated : bothStake.Validated twoUsers := by
  refine nextStep_validated (by decide) ?_
  rw [validatePeerBlock, validateBlockProtocolTxs, sortByNonce_of_pairwise (by decide)]
  decide +kernel

theorem oneLeaves_validated : oneLeaves.Validated (bothStake.write twoUsers) := by
  refine nextStep_validated (by decide) ?_
  rw [validatePeerBlock, validateBlockProtocolTxs, sortByNonce_of_pairwise (by decide)]
  decide +kernel

/-- Two stakes, a slash and an unstaking: what is left of the stakes is covered. -/
theorem both_stakes_are_covered :
    stakeTotal (bothStake.write twoUsers).stakes = 2000000 ∧
      stakeTotal (oneLeaves.write (bothStake.write twoUsers)).stakes = 900000 ∧
      stakeTotal (oneLeaves.write (bothStake.write twoUsers)).stakes ≤
        balanceIn (oneLeaves.write (bothStake.write twoUsers)).market.balances stakingAddr := by
  refine ⟨by decide +kernel, by decide +kernel, (stakes_are_covered twoUsers _ rfl rfl ?_).1⟩
  have first : bothStake.KeepsStakes twoUsers :=
    ⟨fun _ _ _ => not_mem_nil, by decide, by decide, by decide⟩
  have second : oneLeaves.KeepsStakes (bothStake.write twoUsers) :=
    ⟨by decide, by decide, by decide, by decide⟩
  exact (Relation.ReflTransGen.single ⟨bothStake, bothStake_validated, first, rfl⟩).tail
    ⟨oneLeaves, oneLeaves_validated, second, rfl⟩

/-- Validated blocks lead from a node without stakes to one whose staking address holds less than the
stakes in memory, by a stake that comes twice. -/
theorem stakes_outgrow_their_coins : ∃ node, Relation.ReflTransGen Takes twoUsers node ∧
    balanceIn node.market.balances stakingAddr < stakeTotal node.stakeStore := by
  have once : stakesOnce.Validated twoUsers := nextStep_validated (by decide) (by decide +kernel)
  have again : stakesAgain.Validated (stakesOnce.write twoUsers) :=
    nextStep_validated (by decide) (by decide +kernel)
  refine ⟨stakesAgain.write (stakesOnce.write twoUsers), ?_, by decide +kernel⟩
  exact (Relation.ReflTransGen.single ⟨stakesOnce, once, rfl⟩).tail ⟨stakesAgain, again, rfl⟩

end EgoChain.Chain
