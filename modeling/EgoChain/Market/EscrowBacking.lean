import EgoChain.Market.Blocks
import Mathlib.Algebra.Order.Group.Nat

/-!
# The escrow totals

The store keeps the sum of what the market holds and the number of trades it
holds it for.  After every block both are what the trades themselves say, and
the saturating arithmetic of the planner never cuts anything off.
-/

namespace EgoChain.Market

open EgoChain.Foundations EgoChain.Ledger

variable {trade next : Trade} {tx : LedgerTx} {old : Option Trade} {flow : Flow}
  {moves : List TradeMove}

namespace Trade

/-- The trade's coins are in the escrow of this chain. -/
def isHeld (trade : Trade) : Bool := trade.isEgoc && PlanContext.holdsFunds trade.state

def held (trade : Trade) : Nat := if trade.isHeld then trade.lockedMicro else 0

def active (trade : Trade) : Nat := if trade.isHeld then 1 else 0

theorem active_le_held (fair : trade.Fair) : trade.active ≤ trade.held := by
  have positive := fair.positive
  unfold active held
  split <;> omega

end Trade

/-- The sum of what the EGOC trades lock that are locked, paid or disputed. -/
def Store.heldTrades (store : Store) : Nat := store.sumTrades Trade.held

/-- The number of EGOC trades that are locked, paid or disputed. -/
def Store.activeTrades (store : Store) : Nat := store.sumTrades Trade.active

variable {store : Store} {context : PlanContext} {env : Env} {block : MarketBlock}

theorem Store.Wf.active_le_held (wf : store.Wf) : store.activeTrades ≤ store.heldTrades := by
  refine List.sum_le_sum fun entry mem => ?_
  have found := (KeyedMap.mem_entries_iff store entry.1 entry.2).mp mem
  cases isTrade : entry.2 with
  | trade held => exact Trade.active_le_held (wf entry.1 held (by rw [found, isTrade])).2
  | _ => exact le_rfl

/-! ## One step -/

theorem settleAllowed_holds {outcome : Outcome} {by' : Role}
    (allowed : context.settleAllowed trade outcome by' = .ok true) :
    PlanContext.holdsFunds trade.state = true := by
  cases outcome <;> cases by' <;> simp [PlanContext.settleAllowed] at allowed
  · exact allowed
  · rw [allowed]
    rfl
  · exact allowed
  · simp only [bind_eq_ok_iff, ensure_eq_ok_iff, exists_const] at allowed
    rw [allowed.2.1]
    rfl
  · rw [allowed]
    rfl

theorem settled_holds_nothing (context : PlanContext) (tx : LedgerTx) (trade : Trade)
    (body : SettleBody) : PlanContext.holdsFunds (context.settled tx trade body).state = false := by
  unfold PlanContext.settled
  cases body.outcome <;> rfl

theorem TradeStep.balance (step : TradeStep env context tx old next flow) :
    next.held + flow.escrowOut = (old.map Trade.held).getD 0 + flow.escrowIn ∧
      next.active + flow.closed = (old.map Trade.active).getD 0 + flow.opened := by
  unfold Trade.held Trade.active Trade.isHeld
  cases step with
  | openWaiting signed fair state => simp [state, PlanContext.holdsFunds]
  | openLocked signed fair state isEgoc => simp [state, isEgoc, PlanContext.holdsFunds]
  | lockEgoc signed same waiting state isEgoc =>
    simp [same.isEgoc, same.lockedMicro, waiting, state, isEgoc, PlanContext.holdsFunds]
  | lockOutside signed same waiting state outside => simp [same.isEgoc, outside]
  | cancel signed same waiting state => simp [waiting, state, PlanContext.holdsFunds]
  | pay signed same unpaid byBuyer state =>
    simp [same.isEgoc, same.lockedMicro, unpaid, state, PlanContext.holdsFunds]
  | dispute signed same disputable state =>
    rcases disputable with paid | ⟨outside, -⟩
    · simp [same.isEgoc, same.lockedMicro, paid, state, PlanContext.holdsFunds]
    · simp [same.isEgoc, outside]
  | @settleEgoc trade body done isEgoc =>
    have holds := settleAllowed_holds done.allowed
    have nothing := settled_holds_nothing context tx trade body
    simp [isEgoc, holds, nothing]
  | @settleOutside trade body _ outside =>
    have still : (context.settled tx trade body).isEgoc = false := outside
    simp [still, outside]

/-- What a step brings in is the amount of its transaction, and it opens no more than that. -/
theorem TradeStep.brings (step : TradeStep env context tx old next flow)
    (before : ∀ trade ∈ old, trade.Fair) :
    flow.opened ≤ flow.escrowIn ∧ flow.escrowIn ≤ if isSettle tx then 0 else tx.amount.toNat := by
  have fair := step.fair before
  have positive := fair.positive
  cases step with
  | openLocked signed fair state isEgoc deposit => exact ⟨positive, by simp [signed, deposit]⟩
  | lockEgoc signed same waiting state isEgoc deposit =>
    rw [same.lockedMicro] at positive
    exact ⟨positive, by simp [signed, deposit]⟩
  | _ => simp

/-! ## One block -/

/-- The coins that the transactions of a block send to the escrow. -/
def deposits (block : MarketBlock) : Nat :=
  ((block.txs.filter touchesMarket).map fun tx => if isSettle tx then 0 else tx.amount.toNat).sum

/-- The saturating additions and subtractions of `finish` cut nothing off. -/
structure Planner.Untruncated (planner : Planner) : Prop where
  held : planner.store.totals.heldUegoc + planner.escrowIn ≤ maxU64
  released : planner.escrowOut ≤ planner.store.totals.heldUegoc + planner.escrowIn
  active : planner.store.totals.activeTrades + planner.opened ≤ maxU64
  closed : planner.closed ≤ planner.store.totals.activeTrades + planner.opened

/-- The totals in the store are what the trades say. -/
structure Store.Backed (store : Store) : Prop where
  wf : store.Wf
  held : store.totals.heldUegoc = store.heldTrades
  active : store.totals.activeTrades = store.activeTrades

/-- The moves of a block bring in at most its deposits. -/
theorem ComeFrom.brings (wf : context.store.Wf) {planner : Planner}
    (come : ComeFrom env context moves (admittedTxs env planner (marketTxs block)))
    (sound : ∀ move ∈ moves, move.Sound env context) :
    (moves.map fun move => move.flow.opened).sum ≤ (moves.map fun move => move.flow.escrowIn).sum ∧
      (moves.map fun move => move.flow.escrowIn).sum ≤ deposits block := by
  have each : ∀ move ∈ moves, move.flow.opened ≤ move.flow.escrowIn ∧
      move.flow.escrowIn ≤ if isSettle move.tx then 0 else move.tx.amount.toNat := by
    intro move mem
    refine (sound move mem).step.brings fun trade isOld => ?_
    have found := (sound move mem).found
    rw [show move.old = some trade from isOld] at found
    exact (wf _ _ found).2
  have order := come.order.trans (admittedTxs_sublist env planner _)
  refine ⟨List.sum_le_sum fun move mem => (each move mem).1, ?_⟩
  calc (moves.map fun move => move.flow.escrowIn).sum
      ≤ (moves.map fun move => if isSettle move.tx then 0 else move.tx.amount.toNat).sum :=
        List.sum_le_sum fun move mem => (each move mem).2
    _ = ((moves.map TradeMove.tx).map fun tx => if isSettle tx then 0 else tx.amount.toNat).sum := by
        rw [List.map_map]
        rfl
    _ ≤ ((marketTxs block).map fun tx => if isSettle tx then 0 else tx.amount.toNat).sum :=
        (order.map _).sum_le_sum fun _ _ => Nat.zero_le _
    _ = deposits block := ((perm_marketTxs block).map _).sum_eq

/-- What the moves of a block change of the sums over the trades. -/
theorem Tracks.balance {current : Store} {writes : KeyedMap Text (Option Stored)}
    (tracks : Tracks store writes moves current) (sound : ∀ move ∈ moves, move.Sound env context) :
    current.heldTrades + (moves.map fun move => move.flow.escrowOut).sum =
        store.heldTrades + (moves.map fun move => move.flow.escrowIn).sum ∧
      current.activeTrades + (moves.map fun move => move.flow.closed).sum =
        store.activeTrades + (moves.map fun move => move.flow.opened).sum := by
  have held := List.map_congr_left fun move mem => (sound move mem).step.balance.1
  have active := List.map_congr_left fun move mem => (sound move mem).step.balance.2
  have heldSums := congrArg List.sum held
  have activeSums := congrArg List.sum active
  rw [List.sum_map_add, List.sum_map_add] at heldSums activeSums
  have tracked := tracks.sums Trade.held
  have trackedActive := tracks.sums Trade.active
  unfold Store.heldTrades Store.activeTrades
  omega

/-- A planned block keeps the totals in step with the trades. -/
theorem Store.Backed.finish (backed : store.Backed)
    (bounded : store.heldTrades + deposits block < 2 ^ 64) :
    (planned env store block).1.Untruncated ∧
      ((planned env store block).1.finish.foldl Store.write store).Backed := by
  obtain ⟨moves, current, follows, counts, come⟩ := planned_follows env backed.wf block
  obtain ⟨held, active⟩ := follows.tracks.balance follows.sound
  obtain ⟨opens, brings⟩ := come.brings backed.wf follows.sound
  obtain ⟨keeps, totals⟩ := follows.finish
  rw [show (blockContext store block).store = store from rfl] at keeps totals
  have started := congrArg PlanContext.store follows.context
  have fewer := backed.wf.active_le_held
  change current.heldTrades + _ = store.heldTrades + _ at held
  change current.activeTrades + _ = store.activeTrades + _ at active
  -- All four sums are below the largest number, so the planner holds them exactly.
  have escrowIn := counts.escrowIn
  have escrowOut := counts.escrowOut
  have opened := counts.opened
  have closed := counts.closed
  have heldBefore : (planned env store block).1.store.totals.heldUegoc = store.heldTrades := by
    rw [started]
    exact backed.held
  have activeBefore : (planned env store block).1.store.totals.activeTrades = store.activeTrades := by
    rw [started]
    exact backed.active
  have largest : maxU64 = 18446744073709551615 := rfl
  have untruncated : (planned env store block).1.Untruncated := by
    constructor <;> omega
  refine ⟨untruncated, keeps.wf, ?_, ?_⟩
  · have sums : Store.heldTrades _ = current.heldTrades := keeps.sums Trade.held
    rw [totals]
    split
    · change satAdd _ _ - _ = _
      unfold satAdd
      omega
    · rw [backed.held]
      omega
  · have sums : Store.activeTrades _ = current.activeTrades := keeps.sums Trade.active
    rw [totals]
    split
    · change satAdd _ _ - _ = _
      unfold satAdd
      omega
    · rw [backed.active]
      omega

theorem Store.Backed.afterBlock (backed : store.Backed)
    (bounded : store.heldTrades + deposits block < 2 ^ 64) :
    (store.afterBlock env block).Backed := by
  unfold Store.afterBlock planBlock
  split
  · exact backed
  split
  · exact (backed.finish bounded).2
  · exact backed

/-! ## Runs -/

def Store.run (env : Env) (store : Store) (blocks : List MarketBlock) : Store :=
  blocks.foldl (Store.afterBlock env) store

/-- Something holds of every block of a run and the store it is planned on. -/
def EveryBlock (env : Env) (holds : Store → MarketBlock → Prop) : Store → List MarketBlock → Prop
  | _, [] => True
  | store, block :: rest =>
    holds store block ∧ EveryBlock env holds (store.afterBlock env block) rest

theorem Store.Backed.run {blocks : List MarketBlock} (backed : store.Backed)
    (bounded : EveryBlock env (fun store block => store.heldTrades + deposits block < 2 ^ 64)
      store blocks) :
    (store.run env blocks).Backed ∧
      EveryBlock env (fun store block => (planned env store block).1.Untruncated) store blocks := by
  induction blocks generalizing store with
  | nil => exact ⟨backed, trivial⟩
  | cons block rest ih =>
    obtain ⟨here, later⟩ := bounded
    obtain ⟨last, untruncated⟩ := ih (backed.afterBlock here) later
    exact ⟨last, (backed.finish here).1, untruncated⟩

theorem Store.empty_backed : Store.Backed ∅ where
  wf key trade found := by cases found
  held := rfl
  active := rfl

/-- From an empty market, with fewer than 2⁶⁴ coins in the escrow and on their way into it, the
totals in the store are those of the trades and no arithmetic of the planner saturates. -/
theorem market_escrow_fully_backed (env : Env) (blocks : List MarketBlock)
    (bounded : EveryBlock env (fun store block => store.heldTrades + deposits block < 2 ^ 64)
      ∅ blocks) :
    (Store.run env ∅ blocks).totals.heldUegoc = (Store.run env ∅ blocks).heldTrades ∧
      (Store.run env ∅ blocks).totals.activeTrades = (Store.run env ∅ blocks).activeTrades ∧
      EveryBlock env (fun store block => (planned env store block).1.Untruncated) ∅ blocks := by
  obtain ⟨backed, untruncated⟩ := Store.empty_backed.run bounded
  exact ⟨backed.held, backed.active, untruncated⟩

/-! ## A market with one trade -/

/-- A market whose hash and addresses spell out what they are made of. -/
def plainEnv : Env where
  activationHeight := some 1
  hashData bytes := bytes
  addressOf key := utf8 "user" ++ key.take 1
  isKey _ := true
  verifyStrict key message signature := signature.take 1 = key.take 1 && message ≠ []
  base58Decode _ := none
  cardanoKeyAddress _ := false
  cardanoScriptAddress _ := false
  verifyOutsideCancel _ _ := .error []
  offerBody text :=
    if text = utf8 "buy one" then
      .ok {
        side := .buy, asset := egoc, fiat := utf8 "EUR", price := .fixed 1000000
        minMicro := 1000000, maxMicro := 1000000, methods := [utf8 "cash"], country := none
        terms := [], paymentWindowSecs := 3600, payoutAddress := none }
    else .error text
  offerRef text := .ok ⟨text⟩
  tradeOpenBody text :=
    .ok {
      offerId := text, amountMicro := 1000000, priceMicro := 1000000, fiatMicro := 1000000
      method := utf8 "cash", payoutAddress := none }
  lockBody text := .ok ⟨text, none⟩
  tradeRef text := .ok ⟨text⟩
  disputeBody text := .ok ⟨text, []⟩
  feedbackBody text := .ok ⟨text, .positive, []⟩
  settleBody text := .ok ⟨text, .refund, .buyer, Text.toHex (List.replicate 32 1),
    Text.toHex (List.replicate 64 1), none⟩
  arbiterBody text := .error text
  canonicalJson body := body.tradeId

/-- An identifier of the form the market asks for. -/
def plainId (digit : UInt8) : Text := utf8 "0x" ++ List.replicate 64 digit

/-- A market operation by the account of a one-byte key. -/
def plainOp (key : UInt8) (hash txType callArgs : Text) (amount : UInt64) : LedgerTx where
  hash := hash
  sender := utf8 "user" ++ [key]
  recipient := marketEscrowAddr
  amount := amount
  memo := opMemo plainEnv txType callArgs
  nonce := 1
  publicKeyEd25519 := Text.toHex (List.replicate 32 key)
  txType := txType
  callArgs := callArgs
  txVersion := 2
  chainId := marketChainId

/-- The first account offers to buy one coin, and the second sells it. -/
def oneTrade : List MarketBlock :=
  [⟨10, 1000, [plainOp 1 (plainId 97) txOffer (utf8 "buy one") 0]⟩,
    ⟨11, 1010, [plainOp 2 (plainId 98) txTradeOpen (plainId 97) 1000000]⟩]

theorem one_trade_is_backed : (Store.run plainEnv ∅ oneTrade).heldTrades = 1000000 ∧
      (Store.run plainEnv ∅ oneTrade).totals.heldUegoc = (Store.run plainEnv ∅ oneTrade).heldTrades :=
  ⟨by decide +kernel, (market_escrow_fully_backed plainEnv oneTrade
    ⟨by decide +kernel, by decide +kernel, trivial⟩).1⟩

end EgoChain.Market
