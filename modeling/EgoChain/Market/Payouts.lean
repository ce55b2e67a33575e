import EgoChain.Ledger.BlockWrite
import EgoChain.Market.TradeHistory

/-!
# What settlements pay

The writer pays a settlement out of the escrow account and would cut it down to
what the account holds.  The account always holds at least what the trades have
locked, so every settlement that takes effect is paid in full.
-/

namespace EgoChain.Market

open EgoChain.Foundations EgoChain.Ledger Bool WriteSums List

/-! ## The chain -/

/-- The parts of the database that the market and the balances live in. -/
structure MarketChain where
  balances : KeyedMap Text UInt64
  store : Store
  committed : List Text

/-- A block, and what the writer takes from elsewhere when it writes it. -/
structure ChainBlock where
  height : Nat
  now : Int
  txs : List LedgerTx
  stakeOf : Text → Nat := fun _ => 0
  stakeMeta : Text → Option (Int × Nat) := fun _ => none
  vestedUegoc : Nat := 0
  accusedOf : LedgerTx → Option Text := fun _ => none
  slashed : List Text := []
  nodeCredits : Nat → List (Text × Nat) := fun _ => []
  storagePay : List (Text × Nat) := []

namespace MarketChain

/-- The block without what is stored already. -/
def fresh (chain : MarketChain) (block : ChainBlock) : MarketBlock :=
  ⟨block.height, block.now, block.txs.filter fun tx => tx.hash ∉ chain.committed⟩

variable (env : Env) (chain : MarketChain) (block : ChainBlock)

def view : ChainView where
  balances := chain.balances
  stakeOf := block.stakeOf
  stakeMeta := block.stakeMeta
  vestedUegoc := block.vestedUegoc
  committed hash := hash ∈ chain.committed
  takesEffect := (planBlock env chain.store (chain.fresh block)).takesEffect
  accusedOf := block.accusedOf
  slashed := block.slashed

def write : MarketChain where
  balances :=
    (blockSums (chain.view env block) block.nodeCredits block.storagePay block.txs).writeBalances
      (chain.view env block)
  store := chain.store.afterBlock env (chain.fresh block)
  committed := block.txs.map LedgerTx.hash ++ chain.committed

def run (blocks : List ChainBlock) : MarketChain :=
  blocks.foldl (write env) chain

/-- The credits out of the node pool at the end of a block. -/
def nodePay : List (Text × Nat) :=
  ((WriteSums.start (chain.view env block)).applyTxs (chain.view env block) block.txs).nodePay
    (chain.view env block) block.nodeCredits block.storagePay

/-- All that a block may add to the escrow account. -/
def inflow : Nat :=
  ((block.txs.filter isEscrowDeposit).map fun tx => tx.amount.toNat).sum +
    ((chain.nodePay env block).map fun credit =>
      if marketEscrowAddr = credit.1 then credit.2 else 0).sum

/-- No transaction is in the block twice, and the escrow account does not overflow. -/
structure Proper (env : Env) (chain : MarketChain) (block : ChainBlock) : Prop where
  distinct : (block.txs.map LedgerTx.hash).Nodup
  fits : balanceIn chain.balances marketEscrowAddr + chain.inflow env block < 2 ^ 64

/-- Something holds of every block of a run and the chain it is written on. -/
def EveryBlock (env : Env) (holds : MarketChain → ChainBlock → Prop) :
    MarketChain → List ChainBlock → Prop
  | _, [] => True
  | chain, block :: rest => holds chain block ∧ EveryBlock env holds (chain.write env block) rest

/-- The settlements of a trade that take effect in a run. -/
def settlements (env : Env) (id : Text) : MarketChain → List ChainBlock → List LedgerTx
  | _, [] => []
  | chain, block :: rest =>
    settlementsIn env chain.store (chain.fresh block) id ++
      settlements env id (chain.write env block) rest

end MarketChain

/-! ## The escrow account in the loop of the writer -/

variable (view : ChainView) (tx : LedgerTx)

/-- The writer looks at the transaction at all. -/
def isLive : Bool :=
  !view.committed tx.hash && view.takesEffect tx.hash

/-- What the transaction brings into the escrow account. -/
def depositOf : Nat :=
  if isLive view tx && touchesMarket tx && !isSettle tx then tx.amount.toNat else 0

/-- What the transaction takes out of the escrow account. -/
def payoutOf : Nat :=
  if isLive view tx && isSettle tx then tx.amount.toNat else 0

/-- What the planner checks of a transaction that touches the market, as far as the writer
depends on it. -/
def WellShaped (tx : LedgerTx) : Prop :=
  if isSettle tx then tx.txType = txSettle
  else tx.txType ∈ signedOps ∧ tx.sender ≠ [] ∧ isReservedSystemSource tx.sender = false ∧
    tx.sender ≠ foundationAddr

variable {tx}

theorem wellShaped_of_effects {env : Env} (noFoundation : ∀ key, env.addressOf key ≠ foundationAddr)
    {context : PlanContext} {effects : Effects} (passed : context.effects env tx = .ok effects) :
    WellShaped tx := by
  unfold PlanContext.effects at passed
  unfold WellShaped
  split at passed
  case isTrue source =>
    rw [if_pos source]
    simp only [PlanContext.settleEffects, checkSettleShape, bind_eq_ok_iff, ensure_eq_ok_iff,
      mapError_eq_ok_iff, exists_const] at passed
    obtain ⟨-, ⟨type, -⟩, -⟩ := passed
    exact type
  case isFalse source =>
    rw [if_neg source]
    simp only [PlanContext.signedEffects, checkSignedShape, bind_eq_ok_iff, ensure_eq_ok_iff,
      need_eq_ok_iff, mapError_eq_ok_iff, exists_const] at passed
    obtain ⟨⟨type, ⟨sender, user⟩, key, -, address, -⟩, -⟩ := passed
    exact ⟨type, sender, user, address ▸ noFoundation key⟩

section Writer

variable {view : ChainView} {sums : WriteSums} {tx : LedgerTx}

theorem applyTx_of_not_live (dead : isLive view tx = false) : sums.applyTx view tx = sums := by
  have skipped : sums.skips view tx = true := by
    unfold isLive at dead
    unfold WriteSums.skips
    cases stored : view.committed tx.hash <;> cases takes : view.takesEffect tx.hash <;>
      simp [stored, takes] at dead ⊢
  rw [WriteSums.applyTx, if_pos skipped]

theorem applyTx_of_live (live : isLive view tx = true) (user : tx.sender ≠ foundationAddr) :
    sums.applyTx view tx = sums.applyKind view tx := by
  have applied : sums.skips view tx = false := by
    unfold isLive at live
    simp only [and_eq_true, not_eq_true'] at live
    simp [WriteSums.skips, WriteSums.vestingRefuses, live, user]
  rw [WriteSums.applyTx, applied]
  rfl

/-- A settlement takes its fee out of its amount. -/
theorem applyTx_settle (live : isLive view tx = true) (source : isSettle tx = true)
    (type : tx.txType = txSettle) : sums.applyTx view tx = sums.applyFeeFromAmount view tx := by
  have sender := of_decide_eq_true source
  rw [applyTx_of_live live (by simp [sender, marketEscrowAddr, foundationAddr])]
  have unstake : isUnstakeTx tx = false := by
    have other : txSettle ≠ utf8 "unstake" := by simp [txSettle]
    simp [isUnstakeTx, type, other]
  unfold WriteSums.applyKind
  rw [unstake, if_neg (by decide), if_neg (by simp [type, txSettle]),
    if_pos (by simp [paysFeeFromAmount, sender])]

/-- The escrow account pays an amount that it holds in full. -/
theorem creditedAmount_of_covered (source : isSettle tx = true)
    (covered : (tx.amount.toNat : Int) ≤ view.balance marketEscrowAddr + sums.deltaAt marketEscrowAddr)
    (fits : view.balance marketEscrowAddr + sums.deltaAt marketEscrowAddr < 2 ^ 64) :
    sums.creditedAmount view tx = tx.amount.toNat := by
  have sender := of_decide_eq_true source
  unfold WriteSums.creditedAmount
  split
  · have exact' := toU64_of_fits (by omega) fits
    unfold WriteSums.effective
    rw [sender]
    omega
  · rfl

theorem deltaAt_applyFeeFromAmount (source : isSettle tx = true)
    (full : sums.creditedAmount view tx = tx.amount.toNat) (other : Text) :
    (sums.applyFeeFromAmount view tx).deltaAt other = sums.deltaAt other +
      (if other = tx.recipient then ((tx.amount.toNat - tx.feeUegoc.toNat : Nat) : Int) else 0) -
      (if other = marketEscrowAddr then (tx.amount.toNat : Int) else 0) := by
  have sender := of_decide_eq_true source
  unfold WriteSums.applyFeeFromAmount
  rw [deltaAt_burn, deltaAt_add, deltaAt_add, sender]
  split <;> split <;> omega

/-- A deposit adds its amount to the escrow account. -/
theorem deltaAt_applyTx_deposit (live : isLive view tx = true) (deposit : isEscrowDeposit tx = true)
    (signed : isSettle tx = false) (shaped : WellShaped tx) :
    (sums.applyTx view tx).deltaAt marketEscrowAddr =
      sums.deltaAt marketEscrowAddr + tx.amount.toNat := by
  unfold WellShaped at shaped
  rw [signed, if_neg (by decide)] at shaped
  obtain ⟨type, -, user, notFoundation⟩ := shaped
  have notEscrow : tx.sender ≠ marketEscrowAddr := of_decide_eq_false signed
  have recipient : tx.recipient = marketEscrowAddr := of_decide_eq_true deposit
  have types : utf8 "unstake" ∉ signedOps ∧ utf8 "equivocation_proof" ∉ signedOps := by
    simp [signedOps, txOffer, txOfferClose, txTradeOpen, txLock, txTradeCancel, txPaid, txDispute,
      txFeedback, txArbiter]
  have unstake : isUnstakeTx tx = false := by
    have other : tx.txType ≠ utf8 "unstake" := fun same => types.1 (same ▸ type)
    simp [isUnstakeTx, other]
  have unshield : tx.sender ≠ shieldedPoolAddr := by
    intro same
    rw [same] at user
    revert user
    decide
  have plain : paysFeeFromAmount tx = false := by
    simp [paysFeeFromAmount, isUnshield, notEscrow, unshield]
  have full : sums.creditedAmount view tx = tx.amount.toNat := by
    simp [WriteSums.creditedAmount, user]
  have noProof : tx.txType ≠ utf8 "equivocation_proof" := fun same => types.2 (same ▸ type)
  rw [applyTx_of_live live notFoundation, WriteSums.applyKind, unstake, if_neg (by decide),
    if_neg noProof, plain, if_neg (by decide), deltaAt_applyPayment, full, recipient,
    if_pos rfl, if_neg (Ne.symm notEscrow), sub_zero]

/-- A transaction that does not name the escrow account leaves it alone. -/
theorem deltaAt_applyTx_apart (apart : touchesMarket tx = false) :
    (sums.applyTx view tx).deltaAt marketEscrowAddr = sums.deltaAt marketEscrowAddr := by
  simp only [touchesMarket, isEscrowDeposit, isSettle, or_eq_false_iff,
    decide_eq_false_iff_not] at apart
  unfold WriteSums.applyTx
  split
  · rfl
  · exact deltaAt_applyKind_of_ne _ _ _ _ (Ne.symm apart.2) (Ne.symm apart.1)
      (by simp [marketEscrowAddr, stakingAddr]) (by simp [marketEscrowAddr, stakingPoolAddr])

/-- One transaction moves the escrow account up by at most its deposit and down by at most its
payout. -/
theorem escrow_step (shaped : isLive view tx = true → touchesMarket tx = true → WellShaped tx)
    (covered : (payoutOf view tx : Int) ≤ view.balance marketEscrowAddr + sums.deltaAt marketEscrowAddr)
    (fits : view.balance marketEscrowAddr + sums.deltaAt marketEscrowAddr < 2 ^ 64) :
    sums.deltaAt marketEscrowAddr + depositOf view tx - payoutOf view tx ≤
        (sums.applyTx view tx).deltaAt marketEscrowAddr ∧
      (sums.applyTx view tx).deltaAt marketEscrowAddr ≤
        sums.deltaAt marketEscrowAddr + depositOf view tx := by
  cases live : isLive view tx with
  | false =>
    rw [applyTx_of_not_live live]
    simp [depositOf, live]
  | true =>
  cases touches : touchesMarket tx with
  | false =>
    rw [deltaAt_applyTx_apart touches]
    simp [depositOf, touches]
  | true =>
  have shape := shaped live touches
  cases source : isSettle tx with
  | false =>
    have deposit : isEscrowDeposit tx = true := by
      simpa [touchesMarket, source] using touches
    rw [deltaAt_applyTx_deposit live deposit source shape]
    simp [depositOf, live, touches, source]
  | true =>
    unfold WellShaped at shape
    rw [source] at shape
    have amount : payoutOf view tx = tx.amount.toNat := by simp [payoutOf, live, source]
    have none' : depositOf view tx = 0 := by simp [depositOf, source]
    rw [amount] at covered ⊢
    rw [none', applyTx_settle live source shape, deltaAt_applyFeeFromAmount source
      (creditedAmount_of_covered source covered fits), if_pos rfl]
    split <;> omega

/-- A whole block does so with the sums. -/
theorem escrow_run {txs : List LedgerTx}
    (shaped : ∀ tx ∈ txs, isLive view tx = true → touchesMarket tx = true → WellShaped tx)
    (covered : ((txs.map (payoutOf view)).sum : Int) ≤
      view.balance marketEscrowAddr + sums.deltaAt marketEscrowAddr)
    (fits : view.balance marketEscrowAddr + sums.deltaAt marketEscrowAddr +
      (txs.map (depositOf view)).sum < 2 ^ 64) :
    sums.deltaAt marketEscrowAddr + (txs.map (depositOf view)).sum - (txs.map (payoutOf view)).sum ≤
        (sums.applyTxs view txs).deltaAt marketEscrowAddr ∧
      (sums.applyTxs view txs).deltaAt marketEscrowAddr ≤
        sums.deltaAt marketEscrowAddr + (txs.map (depositOf view)).sum := by
  induction txs generalizing sums with
  | nil => simp [WriteSums.applyTxs]
  | cons tx rest ih =>
    simp only [map_cons, sum_cons] at covered fits ⊢
    rw [applyTxs, foldl_cons, ← applyTxs]
    obtain ⟨low, high⟩ := @escrow_step _ sums tx (shaped tx mem_cons_self) (by omega) (by omega)
    obtain ⟨lowRest, highRest⟩ := @ih (sums.applyTx view tx)
      (fun other mem => shaped other (mem_cons_of_mem _ mem)) (by omega) (by omega)
    omega

end Writer

/-! ## What the moves of a block bring and take -/

namespace BlockMoves

variable {env : Env} {store : Store} {block : MarketBlock} {moves : List TradeMove}

theorem flow_bounds (does : BlockMoves env store block moves) (wf : store.Wf) {move : TradeMove}
    (mem : move ∈ moves) :
    (move.flow.escrowIn ≤ if isSettle move.tx then 0 else move.tx.amount.toNat) ∧
      (move.flow.escrowOut = if isSettle move.tx then move.tx.amount.toNat else 0) ∧
      move.flow.escrowOut ≤ (move.old.map Trade.held).getD 0 := by
  have sound := does.sound move mem
  have brings := (sound.step.brings fun trade isOld => by
    have found := sound.found
    rw [show move.old = some trade from isOld] at found
    exact (wf _ _ found).2).2
  have balance := sound.step.balance.1
  cases source : isSettle move.tx with
  | false =>
    have nothing := sound.step.takes_nothing source
    rw [source] at brings
    exact ⟨brings, nothing, by omega⟩
  | true =>
    obtain ⟨-, -, -, -, -, amount⟩ := sound.step.settles source
    rw [source, if_pos rfl] at brings
    exact ⟨brings, amount, by omega⟩

/-- The moves take out no more than what the trades held before the block. -/
theorem takes_held (does : BlockMoves env store block moves) (wf : store.Wf) :
    (moves.map fun move => move.flow.escrowOut).sum ≤ store.heldTrades := by
  have distinct : (moves.map fun move => tradeKey move.next.id).Nodup := by
    have keys := does.distinct.map fun _ _ => tradeKey_inj
    rwa [map_map] at keys
  calc (moves.map fun move => move.flow.escrowOut).sum ≤ (moves.map fun move => KeyedMap.weightAt store
          (fun _ value => value.weigh Trade.held) (tradeKey move.next.id)).sum := by
        refine sum_le_sum fun move mem => ((does.flow_bounds wf mem).2.2).trans_eq ?_
        have found := (does.sound move mem).found
        change store.lookup _ = _ at found
        unfold KeyedMap.weightAt
        rw [found]
        cases move.old <;> rfl
    _ = ((moves.map fun move => tradeKey move.next.id).map
          (KeyedMap.weightAt store fun _ value => value.weigh Trade.held)).sum := by
        rw [map_map]
        rfl
    _ ≤ store.heldTrades := KeyedMap.sum_weightAt_le_total _ distinct store

end BlockMoves

namespace MarketChain

/-- The escrow account holds at least what the trades have locked. -/
structure Solvent (chain : MarketChain) : Prop where
  wf : chain.store.Wf
  covered : chain.store.heldTrades ≤ balanceIn chain.balances marketEscrowAddr

section Blocks

variable {env : Env} {chain : MarketChain} {block : ChainBlock}

/-- The live transactions of a block, seen by the writer and by the planner. -/
theorem filter_fresh (test : LedgerTx → Bool) : (chain.fresh block).txs.filter (fun tx =>
        test tx && (planBlock env chain.store (chain.fresh block)).takesEffect tx.hash) =
      block.txs.filter fun tx => isLive (chain.view env block) tx && test tx := by
  change (block.txs.filter _).filter _ = _
  rw [filter_filter]
  simp only [decide_not]
  ac_rfl

theorem sum_filter (weight : LedgerTx → Nat) (test : LedgerTx → Bool) (txs : List LedgerTx) :
    (txs.map fun tx => if test tx then weight tx else 0).sum = ((txs.filter test).map weight).sum := by
  induction txs with
  | nil => rfl
  | cons tx rest ih => cases passes : test tx <;> simp [passes, ih]

theorem sum_le_of_subperm {txs more : List LedgerTx} (sub : txs.Subperm more)
    (weight : LedgerTx → Nat) : (txs.map weight).sum ≤ (more.map weight).sum := by
  obtain ⟨part, perm, sublist⟩ := sub
  rw [← (perm.map weight).sum_eq]
  exact (sublist.map weight).sum_le_sum fun _ _ => Nat.zero_le _

variable {moves : List TradeMove}

/-- The settlements of a block pay out no more than its moves take. -/
theorem payouts_le (solvent : chain.Solvent)
    (does : BlockMoves env chain.store (chain.fresh block) moves) :
    (block.txs.map (payoutOf (chain.view env block))).sum ≤
      (moves.map fun move => move.flow.escrowOut).sum := by
  calc (block.txs.map (payoutOf (chain.view env block))).sum
      = (((chain.fresh block).txs.filter fun tx => isSettle tx &&
          (planBlock env chain.store (chain.fresh block)).takesEffect tx.hash).map
            fun tx => if isSettle tx then tx.amount.toNat else 0).sum := by
        rw [filter_fresh, ← sum_filter]
        refine congrArg List.sum (map_congr_left fun tx _ => ?_)
        unfold payoutOf
        cases isSettle tx <;> simp
    _ ≤ ((moves.map TradeMove.tx).map fun tx => if isSettle tx then tx.amount.toNat else 0).sum :=
        sum_le_of_subperm does.settled _
    _ = (moves.map fun move => move.flow.escrowOut).sum := by
        rw [map_map]
        refine congrArg List.sum (map_congr_left fun move mem => ?_)
        exact ((does.flow_bounds solvent.wf mem).2.1).symm

/-- What the moves of a block bring in is deposited by its transactions. -/
theorem brings_le (solvent : chain.Solvent)
    (does : BlockMoves env chain.store (chain.fresh block) moves)
    (distinct : (block.txs.map LedgerTx.hash).Nodup) :
    (moves.map fun move => move.flow.escrowIn).sum ≤
      (block.txs.map (depositOf (chain.view env block))).sum := by
  have freshDistinct : ((chain.fresh block).txs.map LedgerTx.hash).Nodup :=
    distinct.sublist (filter_sublist.map _)
  calc (moves.map fun move => move.flow.escrowIn).sum
      ≤ (moves.map fun move => if isSettle move.tx then 0 else move.tx.amount.toNat).sum :=
        sum_le_sum fun move mem => (does.flow_bounds solvent.wf mem).1
    _ = ((moves.map TradeMove.tx).map fun tx => if isSettle tx then 0 else tx.amount.toNat).sum := by
        rw [map_map]
        rfl
    _ ≤ (((chain.fresh block).txs.filter fun tx => touchesMarket tx &&
          (planBlock env chain.store _).takesEffect tx.hash).map
            fun tx => if isSettle tx then 0 else tx.amount.toNat).sum :=
        sum_le_of_subperm (does.made freshDistinct) _
    _ = (block.txs.map _).sum := by
        rw [filter_fresh, ← sum_filter]
        refine congrArg List.sum (map_congr_left fun tx _ => ?_)
        unfold depositOf
        cases isSettle tx <;> simp

theorem deposits_le : (block.txs.map (depositOf (chain.view env block))).sum ≤
      ((block.txs.filter isEscrowDeposit).map fun tx => tx.amount.toNat).sum := by
  rw [← sum_filter]
  refine sum_le_sum fun tx _ => ?_
  unfold depositOf
  split
  case isTrue all =>
    simp only [touchesMarket, and_eq_true, or_eq_true, not_eq_true'] at all
    rw [if_pos (all.1.2.resolve_right (by simp [all.2]))]
  case isFalse => exact Nat.zero_le _

theorem shaped (noFoundation : ∀ key, env.addressOf key ≠ foundationAddr)
    (does : BlockMoves env chain.store (chain.fresh block) moves) (mem : tx ∈ block.txs)
    (live : isLive (chain.view env block) tx = true) (touches : touchesMarket tx = true) :
    WellShaped tx := by
  simp only [isLive, view, and_eq_true, not_eq_true', decide_eq_false_iff_not] at live
  have isFresh : tx ∈ (chain.fresh block).txs := mem_filter.mpr ⟨mem, decide_eq_true live.1⟩
  obtain ⟨effects, judged⟩ := does.judged tx isFresh touches live.2
  exact wellShaped_of_effects noFoundation judged

theorem sum_credits (addr : Text) (credits : List (Text × Nat)) :
    (credits.map fun credit => if addr = credit.1 then (credit.2 : Int) else 0).sum =
      ((credits.map fun credit => if addr = credit.1 then credit.2 else 0).sum : Nat) := by
  induction credits with
  | nil => rfl
  | cons credit rest ih =>
    rw [map_cons, sum_cons, ih, map_cons]
    split <;> rfl

theorem start_deltaAt (addr : Text) : (WriteSums.start (chain.view env block)).deltaAt addr = 0 := rfl

/-- The escrow account covers the trades after the block again. -/
theorem Solvent.write (noFoundation : ∀ key, env.addressOf key ≠ foundationAddr)
    (solvent : chain.Solvent) (proper : chain.Proper env block) : (chain.write env block).Solvent := by
  obtain ⟨moves, does⟩ := solvent.wf.blockMoves env _
  refine ⟨does.wf, ?_⟩
  have payouts := payouts_le solvent does
  have takes := does.takes_held solvent.wf
  have brings := brings_le solvent does proper.distinct
  have inside := @deposits_le env chain block
  have _ := does.held
  have covered := solvent.covered
  have fits := proper.fits
  unfold inflow at fits
  have balance : (chain.view env block).balance marketEscrowAddr =
    balanceIn chain.balances marketEscrowAddr := rfl
  have none' := @start_deltaAt env chain block marketEscrowAddr
  obtain ⟨low, high⟩ := @escrow_run _ (WriteSums.start (chain.view env block))
    block.txs (fun _ => shaped noFoundation does) (by omega) (by omega)
  change (chain.store.afterBlock env (chain.fresh block)).heldTrades ≤
    balanceIn (WriteSums.writeBalances _ _) marketEscrowAddr
  rw [balanceIn_writeBalances]
  have paid := deltaAt_addCredits
    ((WriteSums.start (chain.view env block)).applyTxs (chain.view env block) block.txs)
    marketEscrowAddr (chain.nodePay env block) (by simp [marketEscrowAddr, nodePoolAddr])
  rw [sum_credits] at paid
  have sums : (blockSums (chain.view env block) block.nodeCredits block.storagePay
    block.txs).deltaAt marketEscrowAddr = _ := paid
  have exact' := @toU64_of_fits ((chain.view env block).balance marketEscrowAddr +
    (blockSums (chain.view env block) block.nodeCredits block.storagePay block.txs).deltaAt
      marketEscrowAddr) (by omega) (by omega)
  unfold WriteSums.newBalance
  omega

/-! ## The payment -/

/-- The sums of the writer once it has been through the first transactions of a block. -/
def sumsAfter (env : Env) (chain : MarketChain) (block : ChainBlock) (txs : List LedgerTx) :
    WriteSums :=
  (WriteSums.start (chain.view env block)).applyTxs (chain.view env block) txs

/-- A settlement is paid: the locked coins leave the escrow, and the payee gets its part. -/
def Pays (before after : WriteSums) (payee : Text) (paid locked : Nat) : Prop :=
  ∀ addr, after.deltaAt addr = before.deltaAt addr + (if addr = payee then (paid : Int) else 0) -
    (if addr = marketEscrowAddr then (locked : Int) else 0)

/-- What a settlement does when the writer comes to it. -/
structure PaysOut (env : Env) (chain : MarketChain) (block : ChainBlock) (first : List LedgerTx)
    (tx : LedgerTx) (trade : Trade) (body : SettleBody) : Prop where
  released : trade.isEgoc = true → body.outcome = .release →
    Pays (chain.sumsAfter env block first) (chain.sumsAfter env block (first ++ [tx]))
      trade.buyer (trade.lockedMicro - trade.makerFeeMicro) trade.lockedMicro
  refunded : trade.isEgoc = true → body.outcome = .refund →
    Pays (chain.sumsAfter env block first) (chain.sumsAfter env block (first ++ [tx]))
      trade.seller trade.lockedMicro trade.lockedMicro
  outside : trade.isEgoc = false →
    Pays (chain.sumsAfter env block first) (chain.sumsAfter env block (first ++ [tx]))
      (trade.payoutTo body.outcome) 0 0

theorem live_of_settlement {id : Text}
    (effective : tx ∈ settlementsIn env chain.store (chain.fresh block) id) :
    isLive (chain.view env block) tx = true ∧ isSettle tx = true := by
  simp only [settlementsIn, fresh, mem_filter, and_eq_true] at effective
  obtain ⟨⟨-, isFresh⟩, ⟨source, takes⟩, -⟩ := effective
  refine ⟨?_, source⟩
  simp only [isLive, view, and_eq_true, not_eq_true', decide_eq_false_iff_not]
  exact ⟨of_decide_eq_true isFresh, takes⟩

/-- Every settlement that takes effect is paid in full. -/
theorem Solvent.paysOut (noFoundation : ∀ key, env.addressOf key ≠ foundationAddr)
    (solvent : chain.Solvent) (proper : chain.Proper env block) {id : Text}
    {first last : List LedgerTx} (place : block.txs = first ++ tx :: last)
    (effective : tx ∈ settlementsIn env chain.store (chain.fresh block) id) :
    ∃ trade body, chain.store.trade id = some trade ∧
      Settlement env (blockContext chain.store (chain.fresh block)) tx trade body ∧
      chain.PaysOut env block first tx trade body := by
  obtain ⟨moves, does⟩ := solvent.wf.blockMoves env _
  obtain ⟨trade, body, known, done, -⟩ := does.settlement effective
  obtain ⟨live, source⟩ := live_of_settlement effective
  have mem : tx ∈ block.txs := by
    rw [place]
    exact mem_append_right _ mem_cons_self
  have shape := shaped noFoundation does mem live (isSettle_touches source)
  rw [WellShaped, if_pos source] at shape
  -- The escrow account still holds the coins of this settlement and of the later ones.
  have payouts := payouts_le solvent does
  have takes := does.takes_held solvent.wf
  have covered := solvent.covered
  have inside := @deposits_le env chain block
  have fits := proper.fits
  unfold inflow at fits
  have own : payoutOf (chain.view env block) tx = tx.amount.toNat := by
    simp [payoutOf, live, source]
  have balance : (chain.view env block).balance marketEscrowAddr =
    balanceIn chain.balances marketEscrowAddr := rfl
  have none' := @start_deltaAt env chain block marketEscrowAddr
  have splitPayouts := congrArg (fun txs => (txs.map (payoutOf (chain.view env block))).sum) place
  have splitDeposits := congrArg (fun txs => (txs.map (depositOf (chain.view env block))).sum) place
  simp only [map_append, map_cons, sum_append, sum_cons] at splitPayouts splitDeposits
  obtain ⟨low, high⟩ := @escrow_run _ (WriteSums.start (chain.view env block))
    first (fun other earlier => shaped noFoundation does (by
      rw [place]
      exact mem_append_left _ earlier)) (by omega) (by omega)
  have full : WriteSums.creditedAmount (chain.view env block) (chain.sumsAfter env block first) tx =
      tx.amount.toNat := by
    unfold sumsAfter
    exact creditedAmount_of_covered source (by omega) (by omega)
  have pays : Pays (chain.sumsAfter env block first) (chain.sumsAfter env block (first ++ [tx]))
      (trade.payoutTo body.outcome) (trade.settleAmount - trade.settleFee body.outcome)
      trade.settleAmount := by
    intro addr
    have step : chain.sumsAfter env block (first ++ [tx]) =
        (chain.sumsAfter env block first).applyTx (chain.view env block) tx :=
      applyTxs_append _ _ _ _
    rw [step, applyTx_settle live source shape, deltaAt_applyFeeFromAmount source full,
      done.recipient, done.amount, done.fee]
  unfold Trade.settleAmount Trade.settleFee at pays
  refine ⟨trade, body, known, done, ?_, ?_, ?_⟩
  · intro isEgoc release
    simpa [isEgoc, release, Trade.payoutTo, Trade.payoutFee] using pays
  · intro isEgoc refund
    simpa [isEgoc, refund, Trade.payoutTo, Trade.payoutFee] using pays
  · intro outside
    simpa [outside] using pays

end Blocks

/-! ## Runs -/

section Runs

variable {env : Env} {blocks : List ChainBlock} {chain : MarketChain} {id : Text} {trade : Trade}

theorem run_append (chain : MarketChain) (blocks more : List ChainBlock) :
    chain.run env (blocks ++ more) = (chain.run env blocks).run env more := foldl_append

theorem EveryBlock.split {holds : MarketChain → ChainBlock → Prop} {before after : List ChainBlock}
    (every : EveryBlock env holds chain (before ++ after)) :
    EveryBlock env holds chain before ∧ EveryBlock env holds (chain.run env before) after := by
  induction before generalizing chain with
  | nil => exact ⟨trivial, every⟩
  | cons block rest ih =>
    obtain ⟨here, later⟩ := every
    obtain ⟨first, last⟩ := ih later
    exact ⟨⟨here, first⟩, last⟩

theorem Solvent.run (noFoundation : ∀ key, env.addressOf key ≠ foundationAddr)
    (solvent : chain.Solvent) (proper : EveryBlock env (Proper env) chain blocks) :
    (chain.run env blocks).Solvent := by
  induction blocks generalizing chain with
  | nil => exact solvent
  | cons block rest ih => exact ih (solvent.write noFoundation proper.1) proper.2

theorem final_stays (wf : chain.store.Wf) (known : chain.store.trade id = some trade)
    (final : trade.state.isFinal = true) :
    (chain.run env blocks).store.trade id = some trade := by
  induction blocks generalizing chain with
  | nil => exact known
  | cons block rest ih =>
    obtain ⟨moves, does⟩ := wf.blockMoves env _
    exact @ih _ does.wf (does.final_stays known final)

theorem no_settlements (wf : chain.store.Wf) (known : chain.store.trade id = some trade)
    (final : trade.state.isFinal = true) : settlements env id chain blocks = [] := by
  induction blocks generalizing chain with
  | nil => rfl
  | cons block rest ih =>
    obtain ⟨moves, does⟩ := wf.blockMoves env _
    have later := @ih (chain.write env block) does.wf (does.final_stays known final)
    rw [settlements, does.no_settlement known final, later]
    rfl

theorem one_settlement (wf : chain.store.Wf) (id : Text) :
    (settlements env id chain blocks).length ≤ 1 := by
  induction blocks generalizing chain with
  | nil => exact Nat.zero_le _
  | cons block rest ih =>
    obtain ⟨moves, does⟩ := wf.blockMoves env (chain.fresh block)
    have few := does.one_settlement id
    rw [settlements, length_append]
    cases here : settlementsIn env chain.store _ id with
    | nil =>
      rw [length_nil, zero_add]
      exact @ih _ does.wf
    | cons tx others =>
      -- The first settlement closes the trade, so the later blocks have none.
      obtain ⟨trade, body, -, -, closed⟩ := does.settlement (here ▸ mem_cons_self)
      rw [@no_settlements env _ _ id _ does.wf closed (settled_isFinal _ _ _ _), ← here]
      exact few

/-- A paid trade keeps its terms, and is paid, disputed or settled from then on. -/
theorem paid_stays (wf : chain.store.Wf) (known : chain.store.trade id = some trade)
    (isPaid : trade.state.isPaid = true) :
    ∃ next, (chain.run env blocks).store.trade id = some next ∧ next.SameTerms trade ∧
      (next.state.isPaid = true ∨ next.state.isFinal = true) := by
  induction blocks generalizing chain trade with
  | nil => exact ⟨trade, known, ⟨rfl, rfl, rfl, rfl, rfl, rfl⟩, Or.inl isPaid⟩
  | cons block rest ih =>
    obtain ⟨moves, does⟩ := wf.blockMoves env _
    obtain ⟨next, found, same, still | final⟩ := does.paid_stays known isPaid
    · have inNext : (chain.write env block).store.trade id = some next := found
      obtain ⟨last, foundLast, sameLast, states⟩ := ih does.wf inNext still
      exact ⟨last, foundLast, sameLast.trans same, states⟩
    · exact ⟨next, @final_stays env rest _ id _ does.wf found final, same, Or.inr final⟩

end Runs

end MarketChain

/-- On a chain that starts with an empty market, at most one settlement of a trade takes effect
and it is paid in full, closed trades stay as they are, and a trade that was paid goes back to the
seller only by the buyer's signature or by that of its arbiter in a dispute. -/
theorem market_escrow_pays_once (env : Env) (noFoundation : ∀ key, env.addressOf key ≠ foundationAddr)
    (genesis : MarketChain) (empty : genesis.store = ∅) (blocks : List ChainBlock)
    (proper : MarketChain.EveryBlock env (MarketChain.Proper env) genesis blocks) (id : Text) :
    (genesis.settlements env id blocks).length ≤ 1 ∧
    (∀ before block after, blocks = before ++ block :: after →
      ∀ first tx last, block.txs = first ++ tx :: last →
        tx ∈ settlementsIn env (genesis.run env before).store
          ((genesis.run env before).fresh block) id →
        ∃ trade body, (genesis.run env before).store.trade id = some trade ∧
          Settlement env (blockContext (genesis.run env before).store
            ((genesis.run env before).fresh block)) tx trade body ∧
          (genesis.run env before).PaysOut env block first tx trade body) ∧
    (∀ before after trade, blocks = before ++ after →
      (genesis.run env before).store.trade id = some trade → trade.state.isFinal = true →
        (genesis.run env blocks).store.trade id = some trade) ∧
    (∀ before middle block after trade, blocks = before ++ middle ++ block :: after →
      (genesis.run env before).store.trade id = some trade → trade.isEgoc = true →
      trade.state = .paid → ∀ tx ∈ settlementsIn env (genesis.run env (before ++ middle)).store
          ((genesis.run env (before ++ middle)).fresh block) id,
        ∀ body, checkSettleShape env tx = .ok body → body.outcome = .refund →
          ∃ signer, verifyAuth env body = .ok signer ∧ (signer = trade.buyer ∨
              ∃ current, (genesis.run env (before ++ middle)).store.trade id = some current ∧
                current.state = .disputed ∧ current.arbiter = some signer)) := by
  have solvent : genesis.Solvent := by
    constructor
    · rw [empty]
      exact Store.empty_backed.wf
    · rw [empty]
      exact Nat.zero_le _
  refine ⟨MarketChain.one_settlement solvent.wf id, ?_, ?_, ?_⟩
  · rintro before block after rfl first tx last place effective
    obtain ⟨earlier, here, -⟩ := proper.split
    exact (solvent.run noFoundation earlier).paysOut noFoundation here place effective
  · rintro before after trade rfl known final
    rw [MarketChain.run_append]
    exact MarketChain.final_stays (solvent.run noFoundation proper.split.1).wf known final
  · rintro before middle block after trade rfl known - paid tx effective body shape refund
    obtain ⟨earlier, -⟩ := proper.split
    have ok := solvent.run noFoundation earlier
    obtain ⟨current, found, same, states⟩ := @MarketChain.paid_stays env _ _
      id _ (solvent.run noFoundation earlier.split.1).wf known (by rw [paid]; rfl)
    rw [← MarketChain.run_append] at found
    obtain ⟨moves, does⟩ := ok.wf.blockMoves env _
    obtain ⟨settled, read, isTrade, done, -⟩ := does.settlement effective
    obtain rfl : settled = current := Option.some.inj (isTrade.symm.trans found)
    obtain rfl : read = body := Except.ok.inj (done.shape.symm.trans shape)
    have isPaid := states.resolve_right (by simp [done.not_final])
    obtain ⟨signer, signed, buyer | ⟨disputed, arbiter⟩⟩ := done.refund_of_paid isPaid refund
    · exact ⟨signer, signed, Or.inl (buyer.trans same.buyer)⟩
    · exact ⟨signer, signed, Or.inr ⟨settled, found, disputed, arbiter⟩⟩

/-! ## A trade that is refunded -/

/-- The first account refunds the trade of the second. -/
def refundTx : LedgerTx where
  hash := SettleBody.txHash plainEnv ⟨plainId 98, .refund, .buyer, [], [], none⟩
  sender := marketEscrowAddr
  recipient := utf8 "user" ++ [2]
  amount := 1000000
  txType := txSettle
  callArgs := plainId 98

def refundGenesis : MarketChain where
  balances := (∅ : KeyedMap Text UInt64).insert (utf8 "user" ++ [2]) 5000000
  store := ∅
  committed := []

/-- The first account offers to buy one coin, the second sells it, the first marks it paid and
then refunds it. -/
def refundBlocks : List ChainBlock :=
  [{ height := 10, now := 1000, txs := [plainOp 1 (plainId 97) txOffer (utf8 "buy one") 0] },
    { height := 11, now := 1010, txs := [plainOp 2 (plainId 98) txTradeOpen (plainId 97) 1000000] },
    { height := 12, now := 1020, txs := [plainOp 1 (plainId 99) txPaid (plainId 98) 0] },
    { height := 13, now := 1030, txs := [refundTx] }]

theorem plainEnv_noFoundation (key : Text) : plainEnv.addressOf key ≠ foundationAddr := by
  intro same
  have user : (utf8 "user" ++ key.take 1).take 4 = utf8 "user" := by
    rw [take_append_of_le_length (by decide)]
    decide
  rw [show utf8 "user" ++ key.take 1 = foundationAddr from same] at user
  exact absurd user (by decide)

theorem refund_is_paid_once :
    refundGenesis.settlements plainEnv (plainId 98) refundBlocks = [refundTx] ∧
      (refundGenesis.settlements plainEnv (plainId 98) refundBlocks).length ≤ 1 ∧
      balanceIn (refundGenesis.run plainEnv refundBlocks).balances (utf8 "user" ++ [2]) = 5000000 := by
  refine ⟨by decide +kernel, ?_, by decide +kernel⟩
  exact (market_escrow_pays_once plainEnv plainEnv_noFoundation refundGenesis rfl refundBlocks
    ⟨⟨by decide +kernel, by decide +kernel⟩, ⟨by decide +kernel, by decide +kernel⟩,
      ⟨by decide +kernel, by decide +kernel⟩, ⟨by decide +kernel, by decide +kernel⟩, trivial⟩
    (plainId 98)).1

end EgoChain.Market
