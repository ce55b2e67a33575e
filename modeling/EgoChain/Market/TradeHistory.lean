import EgoChain.Market.EscrowBacking

/-!
# The history of a trade

One block makes at most one step of a trade.  A trade that is settled or
cancelled makes no further step, so no second settlement of it takes effect;
and a trade that was paid goes back to the seller only through the buyer, or
through its arbiter after a dispute.
-/

namespace EgoChain.Market

open EgoChain.Foundations EgoChain.Ledger List

/-! ## The moves of a block -/

/-- What a block does to the trades, and which of its transactions do it. -/
structure BlockMoves (env : Env) (store : Store) (block : MarketBlock) (moves : List TradeMove) :
    Prop where
  wf : (store.afterBlock env block).Wf
  sound : ∀ move ∈ moves, move.Sound env (blockContext store block)
  distinct : (moves.map fun move => move.next.id).Nodup
  moved : ∀ move ∈ moves,
    (store.afterBlock env block).lookup (tradeKey move.next.id) = some (.trade move.next)
  kept : ∀ id, (∀ move ∈ moves, move.next.id ≠ id) →
    (store.afterBlock env block).lookup (tradeKey id) = store.lookup (tradeKey id)
  held : (store.afterBlock env block).heldTrades + (moves.map fun move => move.flow.escrowOut).sum =
    store.heldTrades + (moves.map fun move => move.flow.escrowIn).sum
  judged : ∀ tx ∈ block.txs, touchesMarket tx = true →
    (planBlock env store block).takesEffect tx.hash = true →
      ∃ effects, (blockContext store block).effects env tx = .ok effects
  settled : (block.txs.filter fun tx =>
      isSettle tx && (planBlock env store block).takesEffect tx.hash).Subperm
    (moves.map TradeMove.tx)
  made : (block.txs.map LedgerTx.hash).Nodup → (moves.map TradeMove.tx).Subperm
    (block.txs.filter fun tx => touchesMarket tx && (planBlock env store block).takesEffect tx.hash)

variable {tx : LedgerTx} {env : Env} {trade : Trade} {body : SettleBody}

theorem isSettle_touches (source : isSettle tx = true) : touchesMarket tx = true := by
  simp [touchesMarket, source]

/-- A block whose plan has no writes makes no moves if none of its market transactions takes
effect. -/
theorem BlockMoves.none {store : Store} (wf : store.Wf) {block : MarketBlock}
    (noWrites : (planBlock env store block).writes = [])
    (noEffect : ∀ tx ∈ block.txs, touchesMarket tx = true →
      (planBlock env store block).takesEffect tx.hash = false) : BlockMoves env store block [] := by
  have same : store.afterBlock env block = store := by
    unfold Store.afterBlock applyPlan
    rw [noWrites]
    rfl
  refine ⟨by rwa [same], by simp, nodup_nil, by simp, ?_, by rw [same]; rfl, ?_, ?_, fun _ => ?_⟩
  · intro id _
    rw [same]
  · intro tx mem touches effective
    rw [noEffect tx mem touches] at effective
    cases effective
  · rw [filter_eq_nil_iff.mpr]
    · exact List.Subperm.refl _
    · intro tx mem both
      rw [Bool.and_eq_true] at both
      rw [noEffect tx mem (isSettle_touches both.1)] at both
      cases both.2
  · exact nil_subperm

section Planned

variable {store : Store} {block : MarketBlock}

theorem planBlock_of_active (store : Store) (some' : (block.txs.filter touchesMarket).isEmpty = false)
    (active : ruleActive env block.height = true) :
    planBlock env store block = ⟨(planned env store block).1.finish, (planned env store block).2⟩ := by
  unfold planBlock
  rw [some', active]
  rfl

/-- The market transactions of a block in the order of the planner. -/
theorem perm_filter_marketTxs (test : LedgerTx → Bool) : ((marketTxs block).filter test).Perm
      (block.txs.filter fun tx => touchesMarket tx && test tx) := by
  refine ((perm_marketTxs block).filter test).trans ?_
  rw [filter_filter]
  exact List.Perm.of_eq (filter_congr fun tx _ => Bool.and_comm _ _)

theorem admitted_takes_effect (distinct : (block.txs.map LedgerTx.hash).Nodup) :
    (admittedTxs env (Planner.new store block.height block.now) (marketTxs block)).Subperm
      (block.txs.filter fun tx => touchesMarket tx && tx.hash ∉ (planned env store block).2) := by
  have hashes := admitted_and_rejected env (Planner.new store block.height block.now) (marketTxs block)
  have distinctToo :=
    ((perm_marketTxs block).map _).nodup_iff.mpr (distinct.sublist (filter_sublist.map _))
  have apart := (nodup_append.mp (hashes.nodup_iff.mpr distinctToo)).2.2
  have all : (admittedTxs env (Planner.new store block.height block.now) (marketTxs block)).filter
      (fun tx => tx.hash ∉ (planned env store block).2) =
      admittedTxs env (Planner.new store block.height block.now) (marketTxs block) := by
    refine filter_eq_self.mpr fun tx mem => decide_eq_true fun refused => ?_
    exact apart _ (mem_map_of_mem mem) _ refused rfl
  rw [← all]
  exact ((admittedTxs_sublist env _ _).filter _).subperm.trans (perm_filter_marketTxs _).subperm

/-- Every block makes moves of this kind. -/
theorem Store.Wf.blockMoves (wf : store.Wf) (env : Env) (block : MarketBlock) :
    ∃ moves, BlockMoves env store block moves := by
  cases some' : (block.txs.filter touchesMarket).isEmpty with
  | true =>
    have nothing : planBlock env store block = ⟨[], []⟩ := by
      unfold planBlock
      rw [some']
      rfl
    refine ⟨[], .none wf (by rw [nothing]) fun tx mem touches => ?_⟩
    exact absurd touches (filter_eq_nil_iff.mp (isEmpty_iff.mp some') tx mem)
  | false =>
  cases active : ruleActive env block.height with
  | false =>
    have refused : planBlock env store block =
        ⟨[], (block.txs.filter touchesMarket).map LedgerTx.hash⟩ := by
      unfold planBlock
      rw [some', active]
      rfl
    refine ⟨[], .none wf (by rw [refused]) fun tx mem touches => ?_⟩
    rw [refused]
    exact decide_eq_false (not_not_intro (mem_map_of_mem (mem_filter.mpr ⟨mem, touches⟩)))
  | true =>
    obtain ⟨moves, current, follows, -, come⟩ := planned_follows env wf block
    obtain ⟨keeps, -⟩ := follows.finish
    have plan := planBlock_of_active store some' active
    have after : store.afterBlock env block =
        (planned env store block).1.finish.foldl Store.write store := by
      unfold Store.afterBlock applyPlan
      rw [plan]
    have effective := takesEffect_admitted env _ _ (List.Subset.refl (planned env store block).2)
    have balance := (follows.tracks.balance follows.sound).1
    change current.KeepsTrades ((planned env store block).1.finish.foldl Store.write store) at keeps
    rw [← after] at keeps
    refine ⟨moves, keeps.wf, follows.sound, follows.distinct, ?_, ?_, ?_, ?_, ?_, ?_⟩
    · intro move mem
      rw [keeps.trades]
      exact follows.tracks.moved move mem
    · intro id untouched
      rw [keeps.trades]
      exact follows.tracks.kept id untouched
    · have sums : (store.afterBlock env block).heldTrades = current.heldTrades :=
        keeps.sums Trade.held
      rw [sums]
      exact balance
    · intro tx mem touches takes
      rw [plan] at takes
      refine come.judged tx (effective.subset (mem_filter.mpr ⟨?_, takes⟩)) touches
      exact (perm_marketTxs block).mem_iff.mpr (mem_filter.mpr ⟨mem, touches⟩)
    · rw [plan]
      refine List.Subperm.trans ?_ (come.settlements ▸ filter_sublist).subperm
      refine List.Subperm.trans ?_ (effective.filter isSettle).subperm
      rw [filter_filter]
      refine (perm_filter_marketTxs _).subperm_left.mpr (List.Perm.of_eq ?_).subperm
      refine filter_congr fun tx _ => ?_
      by_cases source : isSettle tx = true
      · simp [isSettle_touches source, Plan.takesEffect]
      · simp [source]
    · intro distinct
      rw [plan]
      exact come.order.subperm.trans (admitted_takes_effect distinct)

end Planned

/-! ## Steps of one trade -/

def TradeState.isFinal : TradeState → Bool
  | .released => true
  | .refunded => true
  | .cancelled => true
  | _ => false

/-- The buyer has marked the trade as paid, and it is not settled. -/
def TradeState.isPaid : TradeState → Bool
  | .paid => true
  | .disputed => true
  | _ => false

variable {context : PlanContext}

/-- A trade that can be settled is not in a final state. -/
theorem Settlement.not_final (done : Settlement env context tx trade body) :
    trade.state.isFinal = false := by
  have holds := settleAllowed_holds done.allowed
  cases state : trade.state <;> simp_all [PlanContext.holdsFunds, TradeState.isFinal]

theorem settled_isFinal (context : PlanContext) (tx : LedgerTx) (trade : Trade) (body : SettleBody) :
    (context.settled tx trade body).state.isFinal = true := by
  unfold PlanContext.settled
  cases body.outcome <;> rfl

namespace TradeStep

variable {old : Option Trade} {next : Trade} {flow : Flow}

section

variable (step : TradeStep env context tx (some trade) next flow)

include step

theorem sameTerms : next.SameTerms trade := by
  cases step with
  | lockEgoc signed same | lockOutside signed same | cancel signed same | pay signed same
  | dispute signed same => exact same
  | settleEgoc | settleOutside => exact ⟨rfl, rfl, rfl, rfl, rfl, rfl⟩

/-- No step leads away from a final state. -/
theorem not_final : trade.state.isFinal = false := by
  cases step with
  | lockEgoc signed same waiting | lockOutside signed same waiting | cancel signed same waiting =>
    rw [waiting]; rfl
  | pay signed same unpaid => rw [unpaid]; rfl
  | dispute signed same disputable =>
    rcases disputable with paid | ⟨-, unpaid⟩
    · rw [paid]
      rfl
    · rw [unpaid]
      rfl
  | settleEgoc done | settleOutside done => exact done.not_final

/-- A paid trade stays paid until it is settled. -/
theorem paid (isPaid : trade.state.isPaid = true) :
    next.state.isPaid = true ∨ next.state.isFinal = true := by
  cases step with
  | lockEgoc signed same waiting | lockOutside signed same waiting | cancel signed same waiting =>
    rw [waiting] at isPaid; cases isPaid
  | pay signed same unpaid => rw [unpaid] at isPaid; cases isPaid
  | dispute signed same disputable state =>
    rw [state]
    exact Or.inl rfl
  | settleEgoc | settleOutside => exact Or.inr (settled_isFinal _ _ _ _)

end

/-- A step whose transaction comes from the escrow is a settlement. -/
theorem settles (step : TradeStep env context tx old next flow) (source : isSettle tx = true) :
    ∃ trade body, old = some trade ∧ Settlement env context tx trade body ∧
      next = context.settled tx trade body ∧ flow.escrowOut = tx.amount.toNat := by
  cases step with
  | @settleEgoc trade body done isEgoc =>
    exact ⟨trade, body, rfl, done, rfl, by simp [done.amount, Trade.settleAmount, isEgoc]⟩
  | @settleOutside trade body done outside =>
    exact ⟨trade, body, rfl, done, rfl, by simp [done.amount, Trade.settleAmount, outside]⟩
  | openWaiting signed | openLocked signed | lockEgoc signed | lockOutside signed | cancel signed
  | pay signed | dispute signed => rw [source] at signed; cases signed

/-- Other steps take nothing out of the escrow. -/
theorem takes_nothing (step : TradeStep env context tx old next flow)
    (signed : isSettle tx = false) : flow.escrowOut = 0 := by
  cases step with
  | settleEgoc done => rw [done.source] at signed; cases signed
  | _ => rfl

end TradeStep

/-- A refund of a paid trade is signed by the buyer, or by the arbiter of a disputed trade. -/
theorem Settlement.refund_of_paid (done : Settlement env context tx trade body)
    (isPaid : trade.state.isPaid = true) (refund : body.outcome = .refund) :
    ∃ signer, verifyAuth env body = .ok signer ∧
      (signer = trade.buyer ∨ trade.state = .disputed ∧ trade.arbiter = some signer) := by
  obtain ⟨signer, signed, entitled⟩ := done.signed
  have allowed := done.allowed
  rw [refund] at allowed
  refine ⟨signer, signed, ?_⟩
  cases role : body.by' with
  | buyer =>
    rw [role] at entitled
    exact Or.inl (of_decide_eq_true entitled)
  | arbiter =>
    rw [role] at entitled allowed
    exact Or.inr ⟨of_decide_eq_true (Except.ok.inj allowed), of_decide_eq_true entitled⟩
  | seller =>
    -- The seller reclaims a trade only while it is unpaid.
    rw [role] at allowed
    simp only [PlanContext.settleAllowed, bind_eq_ok_iff, ensure_eq_ok_iff, exists_const] at allowed
    rw [allowed.2.1] at isPaid
    cases isPaid

/-! ## One block and one trade -/

/-- The trade that a settlement names. -/
def settledTrade (env : Env) (tx : LedgerTx) : Option Text :=
  match env.settleBody tx.callArgs with
  | .ok body => some body.tradeId
  | .error _ => none

theorem settledTrade_of_shape (shape : checkSettleShape env tx = .ok body) :
    settledTrade env tx = some body.tradeId := by
  simp only [checkSettleShape, bind_eq_ok_iff, ensure_eq_ok_iff, mapError_eq_ok_iff,
    exists_const] at shape
  obtain ⟨-, -, -, read, parsed, -, -, -, -, done⟩ := shape
  cases done
  unfold settledTrade
  rw [parsed]

/-- The settlements of a trade in a block that take effect. -/
def settlementsIn (env : Env) (store : Store) (block : MarketBlock) (id : Text) : List LedgerTx :=
  block.txs.filter fun tx =>
    isSettle tx && (planBlock env store block).takesEffect tx.hash && settledTrade env tx = some id

namespace BlockMoves

variable {store : Store} {block : MarketBlock} {moves : List TradeMove}
  (does : BlockMoves env store block moves) {move : TradeMove}

include does

theorem found (mem : move ∈ moves) : store.trade move.next.id = move.old := by
  have found := (does.sound move mem).found
  change store.lookup _ = _ at found
  unfold Store.trade
  rw [found]
  cases move.old <;> rfl

/-- In one block a trade stays as it is or makes one step. -/
theorem trade_cases (id : Text) : (store.afterBlock env block).trade id = store.trade id ∨
      ∃ move ∈ moves, move.next.id = id ∧ (store.afterBlock env block).trade id = some move.next := by
  by_cases touched : ∃ move ∈ moves, move.next.id = id
  · obtain ⟨move, mem, rfl⟩ := touched
    exact Or.inr ⟨move, mem, rfl, Store.trade_eq_some.mpr (does.moved move mem)⟩
  · left
    unfold Store.trade
    rw [does.kept id fun move mem named => touched ⟨move, mem, named⟩]

theorem step_of_trade (mem : move ∈ moves) (known : store.trade move.next.id = some trade) :
    TradeStep env (blockContext store block) move.tx (some trade) move.next move.flow := by
  have step := (does.sound move mem).step
  rwa [← does.found mem, known] at step

omit does

variable {id : Text}

section

include does

theorem final_stays (known : store.trade id = some trade) (final : trade.state.isFinal = true) :
    (store.afterBlock env block).trade id = some trade := by
  rcases does.trade_cases id with same | ⟨move, mem, rfl, -⟩
  · rw [same, known]
  · have moving := (does.step_of_trade mem known).not_final
    rw [final] at moving
    cases moving

theorem paid_stays (known : store.trade id = some trade) (isPaid : trade.state.isPaid = true) :
    ∃ next, (store.afterBlock env block).trade id = some next ∧ next.SameTerms trade ∧
      (next.state.isPaid = true ∨ next.state.isFinal = true) := by
  rcases does.trade_cases id with same | ⟨move, mem, rfl, becomes⟩
  · exact ⟨trade, by rw [same, known], ⟨rfl, rfl, rfl, rfl, rfl, rfl⟩, Or.inl isPaid⟩
  · have step := does.step_of_trade mem known
    exact ⟨move.next, becomes, step.sameTerms, step.paid isPaid⟩

/-- A settlement that takes effect is a move of the trade it names. -/
theorem settlement (effective : tx ∈ settlementsIn env store block id) :
    ∃ trade body, store.trade id = some trade ∧
      Settlement env (blockContext store block) tx trade body ∧
      (store.afterBlock env block).trade id = some ((blockContext store block).settled tx trade body) := by
  simp only [settlementsIn, mem_filter, Bool.and_eq_true, decide_eq_true_eq] at effective
  obtain ⟨inBlock, ⟨source, takes⟩, named⟩ := effective
  have isMove := does.settled.subset (mem_filter.mpr ⟨inBlock, by rw [source, takes]; rfl⟩)
  obtain ⟨move, mem, rfl⟩ := mem_map.mp isMove
  obtain ⟨trade, body, isOld, done, next, -⟩ := (does.sound move mem).step.settles source
  have same : move.next.id = id := by
    rw [settledTrade_of_shape done.shape, Option.some.injEq, done.named] at named
    rw [next]
    exact named
  refine ⟨trade, body, ?_, done, ?_⟩
  · rw [← same, does.found mem, isOld]
  · rw [← same, ← next]
    exact Store.trade_eq_some.mpr (does.moved move mem)

/-- At most one settlement of a trade takes effect in a block. -/
theorem one_settlement (id : Text) : (settlementsIn env store block id).length ≤ 1 := by
  have split : settlementsIn env store block id = (block.txs.filter fun tx =>
      isSettle tx && (planBlock env store block).takesEffect tx.hash).filter fun tx =>
        isSettle tx && settledTrade env tx = some id := by
    rw [filter_filter]
    refine filter_congr fun tx _ => ?_
    cases isSettle tx <;> simp [Bool.and_comm]
  have few := nodup_iff_count_le_one.mp does.distinct id
  calc (settlementsIn env store block id).length ≤ ((moves.map TradeMove.tx).filter fun tx =>
          isSettle tx && settledTrade env tx = some id).length := by
        rw [split]
        exact (does.settled.filter _).length_le
    _ = moves.countP fun move => isSettle move.tx && settledTrade env move.tx = some id := by
        rw [← countP_eq_length_filter, countP_map]
        rfl
    _ ≤ moves.countP fun move => move.next.id == id := by
        refine countP_mono_left fun move mem both => ?_
        rw [Bool.and_eq_true, decide_eq_true_eq] at both
        obtain ⟨trade, body, -, done, next, -⟩ := (does.sound move mem).step.settles both.1
        have named := both.2
        rw [settledTrade_of_shape done.shape, Option.some.injEq, done.named] at named
        rw [next]
        exact beq_iff_eq.mpr named
    _ = (moves.map fun move => move.next.id).count id := by
        rw [List.count, countP_map]
        rfl
    _ ≤ 1 := few

/-- No settlement of a final trade takes effect. -/
theorem no_settlement (known : store.trade id = some trade) (final : trade.state.isFinal = true) :
    settlementsIn env store block id = [] := by
  refine eq_nil_iff_forall_not_mem.mpr fun tx effective => ?_
  obtain ⟨found, body, isTrade, done, -⟩ := does.settlement effective
  obtain rfl : found = trade := Option.some.inj (isTrade.symm.trans known)
  rw [done.not_final] at final
  cases final

end

end BlockMoves

end EgoChain.Market
