import EgoChain.Foundations.Totals
import EgoChain.Market.Trades

/-!
# What a block does to the trades

A planned block amounts to a list of steps, each of another trade: the trades in
it become what the steps say, and all others stay as they are.  Sums over the
trades change by what the steps change.
-/

namespace EgoChain.Market

open EgoChain.Foundations EgoChain.Ledger KeyedMap List Store

/-! ## Sums over trades -/

def Stored.weigh (weight : Trade → Nat) (value : Stored) : Nat := (value.trade?.map weight).getD 0

/-- The sum over all trades in the store. -/
def Store.sumTrades (store : Store) (weight : Trade → Nat) : Nat :=
  KeyedMap.total store fun _ value => value.weigh weight

variable {store : Store} {write : StoreWrite} {tx : LedgerTx} {env : Env} {old : Option Trade}
  {next : Trade}

namespace Store

theorem lookup_write (store : Store) (write : StoreWrite) (key : Text) :
    (store.write write).lookup key = if key = write.1 then write.2 else store.lookup key := by
  obtain ⟨written, value⟩ := write
  unfold Store.write
  cases value with
  | some value => exact lookup_insert_eq store written key value
  | none =>
    by_cases same : key = written
    · subst same
      simp
    · rw [if_neg same]
      exact AList.lookup_erase_ne same

theorem sumTrades_write (store : Store) (write : StoreWrite) (weight : Trade → Nat) :
    (store.write write).sumTrades weight +
        KeyedMap.weightAt store (fun _ value => value.weigh weight) write.1 =
      store.sumTrades weight + (write.2.map (Stored.weigh weight)).getD 0 := by
  obtain ⟨key, value⟩ := write
  cases value with
  | some value => exact total_insert store (fun _ value => value.weigh weight) key value
  | none => exact total_erase store (fun _ value => value.weigh weight) key

variable {key : Text}

/-- No trade stands at a key that is not a trade key. -/
theorem Wf.no_trade (wf : store.Wf) {value : Stored} (other : ∀ id, tradeKey id ≠ key)
    (found : store.lookup key = some value) : value.trade? = none := by
  cases value with
  | trade held => exact absurd (wf key held found).1.symm (other held.id)
  | _ => rfl

theorem Wf.weightAt_eq_zero (wf : store.Wf) (other : ∀ id, tradeKey id ≠ key) (weight : Trade → Nat) :
    KeyedMap.weightAt store (fun _ value => value.weigh weight) key = 0 := by
  cases found : store.lookup key with
  | none => exact weightAt_of_absent found
  | some value =>
    rw [weightAt_of_lookup found]
    simp [Stored.weigh, wf.no_trade other found]

/-- A write that is no trade at a key that is no trade key keeps the trades. -/
structure KeepsTrades (store next : Store) : Prop where
  wf : next.Wf
  trades : ∀ id, next.lookup (tradeKey id) = store.lookup (tradeKey id)
  sums : ∀ weight, next.sumTrades weight = store.sumTrades weight

theorem Wf.keepsTrades_write (wf : store.Wf) (other : ∀ id, tradeKey id ≠ write.1)
    (noTrade : ∀ value ∈ write.2, value.trade? = none) :
    KeepsTrades store (store.write write) where
  wf key trade found := by
    rw [lookup_write] at found
    split at found
    case isTrue => exact absurd (noTrade _ found) (by simp [Stored.trade?])
    case isFalse => exact wf key trade found
  trades id := by rw [lookup_write, if_neg (other id)]
  sums weight := by
    have written := store.sumTrades_write write weight
    rw [wf.weightAt_eq_zero other] at written
    have nothing : (write.2.map (Stored.weigh weight)).getD 0 = 0 := by
      cases isValue : write.2 with
      | none => rfl
      | some value => simp [Stored.weigh, noTrade value isValue]
    omega

theorem Wf.keepsTrades_plain (wf : store.Wf) (plain : PlainWrite write) :
    KeepsTrades store (store.write write) :=
  wf.keepsTrades_write (tradeKey_ne_plain plain.1) plain.2

theorem KeepsTrades.trans {middle last : Store} (first : KeepsTrades store middle)
    (second : KeepsTrades middle last) : KeepsTrades store last :=
  ⟨second.wf, fun id => (second.trades id).trans (first.trades id),
    fun weight => (second.sums weight).trans (first.sums weight)⟩

/-- Plain writes keep the trades and the totals. -/
theorem Wf.keepsTrades_foldl (wf : store.Wf) {writes : List StoreWrite}
    (plain : ∀ write ∈ writes, PlainWrite write) :
    KeepsTrades store (writes.foldl Store.write store) ∧
      (writes.foldl Store.write store).lookup escrowKey = store.lookup escrowKey := by
  induction writes generalizing store with
  | nil => exact ⟨⟨wf, fun _ => rfl, fun _ => rfl⟩, rfl⟩
  | cons write rest ih =>
    have here := plain write mem_cons_self
    have first := wf.keepsTrades_plain here
    obtain ⟨later, totals⟩ := ih first.wf fun other mem => plain other (mem_cons_of_mem _ mem)
    refine ⟨first.trans later, totals.trans ?_⟩
    rw [lookup_write, if_neg (Ne.symm here.1.2)]

end Store

/-! ## Moves -/

/-- One step of one trade. -/
structure TradeMove where
  tx : LedgerTx
  old : Option Trade
  next : Trade
  flow : Flow

/-- The move is a step from the trade in the store before the block. -/
structure TradeMove.Sound (env : Env) (context : PlanContext) (move : TradeMove) : Prop where
  step : TradeStep env context move.tx move.old move.next move.flow
  found : context.store.lookup (tradeKey move.next.id) = move.old.map Stored.trade

/-- What is found at a key after the writes. -/
def viewOf (store : Store) (writes : KeyedMap Text (Option Stored)) (key : Text) : Option Stored :=
  match writes.lookup key with
  | some value => value
  | none => store.lookup key

/-- The store with the writes so far is the store before the block with the moves made. -/
structure Tracks (store : Store) (writes : KeyedMap Text (Option Stored)) (moves : List TradeMove)
    (current : Store) : Prop where
  view : ∀ key, current.lookup key = viewOf store writes key
  wf : current.Wf
  totals : current.lookup escrowKey = store.lookup escrowKey
  moved : ∀ move ∈ moves, current.lookup (tradeKey move.next.id) = some (.trade move.next)
  kept : ∀ id, (∀ move ∈ moves, move.next.id ≠ id) →
    current.lookup (tradeKey id) = store.lookup (tradeKey id)
  sums : ∀ weight, current.sumTrades weight + (moves.map fun move => (move.old.map weight).getD 0).sum =
    store.sumTrades weight + (moves.map fun move => weight move.next).sum

theorem Tracks.start (wf : store.Wf) : Tracks store ∅ [] store :=
  ⟨fun _ => rfl, wf, rfl, by simp, fun _ _ => rfl, fun _ => rfl⟩

namespace Tracks

variable {current : Store} {writes : KeyedMap Text (Option Stored)} {moves : List TradeMove}
  (tracks : Tracks store writes moves current)

include tracks

theorem view_write (write : StoreWrite) (key : Text) :
    (current.write write).lookup key = viewOf store (writes.insert write.1 write.2) key := by
  unfold viewOf
  rw [lookup_write, lookup_insert_eq, tracks.view]
  split <;> rfl

theorem plain (isPlain : PlainWrite write) :
    Tracks store (writes.insert write.1 write.2) moves (current.write write) := by
  have keeps := tracks.wf.keepsTrades_plain isPlain
  refine ⟨tracks.view_write write, keeps.wf, ?_, ?_, ?_, ?_⟩
  · rw [lookup_write, if_neg (Ne.symm isPlain.1.2)]
    exact tracks.totals
  · intro move mem
    rw [keeps.trades]
    exact tracks.moved move mem
  · intro id untouched
    rw [keeps.trades]
    exact tracks.kept id untouched
  · intro weight
    rw [keeps.sums]
    exact tracks.sums weight

theorem plains {more : List StoreWrite} (plain : ∀ write ∈ more, PlainWrite write) :
    Tracks store (more.foldl (fun writes write => writes.insert write.1 write.2) writes) moves
      (more.foldl Store.write current) := by
  induction more generalizing writes current with
  | nil => exact tracks
  | cons write rest ih =>
    exact ih (tracks.plain (plain write mem_cons_self))
      fun other mem => plain other (mem_cons_of_mem _ mem)

/-- The next version of a trade that no move of the block has written. -/
theorem move (move : TradeMove) (fair : move.next.Fair)
    (fresh : ∀ other ∈ moves, other.next.id ≠ move.next.id)
    (found : store.lookup (tradeKey move.next.id) = move.old.map Stored.trade) :
    Tracks store (writes.insert (tradeKey move.next.id) (some (.trade move.next)))
      (moves ++ [move]) (current.write (tradeKey move.next.id, some (.trade move.next))) := by
  have before := (tracks.kept move.next.id fresh).trans found
  refine ⟨tracks.view_write _, ?_, ?_, ?_, ?_, ?_⟩
  · intro key trade isTrade
    rw [lookup_write] at isTrade
    split at isTrade
    case isTrue same =>
      obtain rfl := Stored.trade.inj (Option.some.inj isTrade)
      exact ⟨same, fair⟩
    case isFalse => exact tracks.wf key trade isTrade
  · rw [lookup_write, if_neg (Ne.symm (tradeKey_ne_escrowKey _))]
    exact tracks.totals
  · intro other mem
    rw [lookup_write]
    rcases mem_append.mp mem with earlier | last
    · rw [if_neg fun same => fresh other earlier (tradeKey_inj same)]
      exact tracks.moved other earlier
    · obtain rfl := mem_singleton.mp last
      exact if_pos rfl
  · intro id untouched
    have other := untouched move (mem_append_right _ (mem_singleton_self _))
    rw [lookup_write, if_neg fun same => other (tradeKey_inj same).symm]
    exact tracks.kept id fun earlier mem => untouched earlier (mem_append_left _ mem)
  · intro weight
    have written := current.sumTrades_write (tradeKey move.next.id, some (.trade move.next)) weight
    have stood : KeyedMap.weightAt current (fun _ value => value.weigh weight)
        (tradeKey move.next.id) = (move.old.map weight).getD 0 := by
      unfold KeyedMap.weightAt
      rw [before]
      cases move.old <;> rfl
    have sums := tracks.sums weight
    have put : ((some (Stored.trade move.next)).map (Stored.weigh weight)).getD 0 =
        weight move.next := rfl
    rw [stood, put] at written
    simp only [map_append, map_cons, map_nil, sum_append, sum_cons, sum_nil]
    omega

end Tracks

/-! ## The planner -/

theorem TradeStep.fair {context : PlanContext} {flow : Flow} (step : TradeStep env context tx old next flow)
    (before : ∀ trade ∈ old, trade.Fair) : next.Fair := by
  cases step with
  | openWaiting signed fair | openLocked signed fair => exact fair
  | lockEgoc signed same | lockOutside signed same | cancel signed same | pay signed same
  | dispute signed same => exact same.fair (before _ rfl)
  | settleEgoc | settleOutside => exact ⟨(before _ rfl).positive, (before _ rfl).fee⟩

namespace Planner

/-- The planner has made the moves, each of another trade. -/
structure Follows (env : Env) (start : PlanContext) (planner : Planner) (moves : List TradeMove)
    (current : Store) : Prop where
  context : planner.toPlanContext = start
  tracks : Tracks start.store planner.writes moves current
  sound : ∀ move ∈ moves, move.Sound env start
  distinct : (moves.map fun move => move.next.id).Nodup
  touched : ∀ move ∈ moves, utf8 "trade:" ++ move.next.id ∈ planner.touched

/-- What the moves bring into the escrow and take out of it, as far as a number holds it. -/
structure Counts (planner : Planner) (moves : List TradeMove) : Prop where
  escrowIn : planner.escrowIn = min (moves.map fun move => move.flow.escrowIn).sum maxU64
  escrowOut : planner.escrowOut = min (moves.map fun move => move.flow.escrowOut).sum maxU64
  opened : planner.opened = min (moves.map fun move => move.flow.opened).sum maxU64
  closed : planner.closed = min (moves.map fun move => move.flow.closed).sum maxU64

section Steps

variable {start : PlanContext} {planner : Planner} {moves : List TradeMove} {current : Store}

theorem Follows.mergePair (follows : planner.Follows env start moves current)
    {pair : Text × Text × Text} (plain : PlainKey pair.1) :
    ∃ current, (planner.mergePair pair).Follows env start moves current := by
  have isPlain : PlainWrite (pair.1, some (.height planner.height)) :=
    ⟨plain, by simp [Stored.trade?]⟩
  unfold Planner.mergePair
  split
  · exact ⟨current, follows⟩
  · exact ⟨_, follows.context, follows.tracks.plain isPlain, follows.sound, follows.distinct,
      follows.touched⟩

theorem Follows.mergePairs (follows : planner.Follows env start moves current)
    {pairs : List (Text × Text × Text)} (plain : ∀ pair ∈ pairs, PlainKey pair.1) :
    ∃ current, (pairs.foldl Planner.mergePair planner).Follows env start moves current := by
  induction pairs generalizing planner current with
  | nil => exact ⟨current, follows⟩
  | cons pair rest ih =>
    obtain ⟨next, followsNext⟩ := follows.mergePair (plain pair mem_cons_self)
    exact ih followsNext fun other mem => plain other (mem_cons_of_mem _ mem)

theorem Counts.mergePairs (counts : planner.Counts moves) (pairs : List (Text × Text × Text)) :
    (pairs.foldl Planner.mergePair planner).Counts moves := by
  induction pairs generalizing planner with
  | nil => exact counts
  | cons pair rest ih =>
    refine ih ?_
    unfold Planner.mergePair
    split
    · exact counts
    · exact { counts with }

variable {effects : Effects}

theorem Counts.mergeFlow (counts : planner.Counts moves) (move : TradeMove)
    (same : move.flow = effects.flow) : (planner.mergeFlow effects).Counts (moves ++ [move]) := by
  have sums (field : Flow → Nat) : ((moves ++ [move]).map fun move => field move.flow).sum =
      (moves.map fun move => field move.flow).sum + field effects.flow := by
    simp [same]
  refine ⟨?_, ?_, ?_, ?_⟩
  · rw [sums Flow.escrowIn, ← satAdd_min, ← counts.escrowIn]
    rfl
  · rw [sums Flow.escrowOut, ← satAdd_min, ← counts.escrowOut]
    rfl
  · rw [sums Flow.opened, ← satAdd_min, ← counts.opened]
    rfl
  · rw [sums Flow.closed, ← satAdd_min, ← counts.closed]
    rfl

theorem Counts.mergeNothing (counts : planner.Counts moves) (nothing : effects.flow = {}) :
    (planner.mergeFlow effects).Counts moves := by
  have zero (first : Nat) : satAdd (min first maxU64) 0 = min first maxU64 := satAdd_min first 0
  obtain ⟨noIn, noOut, noOpened, noClosed⟩ := Flow.mk.inj nothing
  refine ⟨?_, ?_, ?_, ?_⟩
  · change satAdd planner.escrowIn effects.escrowIn = _
    rw [noIn, counts.escrowIn, zero]
  · change satAdd planner.escrowOut effects.escrowOut = _
    rw [noOut, counts.escrowOut, zero]
  · change satAdd planner.opened effects.opened = _
    rw [noOpened, counts.opened, zero]
  · change satAdd planner.closed effects.closed = _
    rw [noClosed, counts.closed, zero]

section

variable (follows : planner.Follows env start moves current) (counts : planner.Counts moves)

include follows counts

theorem merge_quiet (quiet : effects.Quiet tx) :
    (∃ current, (planner.merge effects).Follows env start moves current) ∧
      (planner.merge effects).Counts moves := by
  have records : (planner.mergeRecords effects).Follows env start moves
      (effects.writes.foldl Store.write current) :=
    ⟨follows.context, follows.tracks.plains quiet.writes, follows.sound, follows.distinct,
      fun move mem => mem_append_right _ (follows.touched move mem)⟩
  have counted : (planner.mergeRecords effects).Counts moves := { counts with }
  obtain ⟨last, paired⟩ := records.mergePairs quiet.pairs
  exact ⟨⟨last, { paired with }⟩, (counted.mergePairs effects.pairs).mergeNothing quiet.flow⟩

theorem merge_moves (wf : start.store.Wf) (moving : effects.Moves env start tx old next)
    (free : ∀ touch ∈ effects.touches, touch ∉ planner.touched) :
    (∃ current, (planner.merge effects).Follows env start (moves ++ [⟨tx, old, next, effects.flow⟩])
        current) ∧
      (planner.merge effects).Counts (moves ++ [⟨tx, old, next, effects.flow⟩]) := by
  have fresh : ∀ other ∈ moves, other.next.id ≠ next.id := fun other mem same =>
    free _ moving.touch (same ▸ follows.touched other mem)
  have fair : next.Fair := moving.step.fair fun trade isOld => by
    have found := moving.found
    rw [show old = some trade from isOld] at found
    exact (wf _ _ found).2
  obtain ⟨rest, writes, plain⟩ := moving.writes
  have tracks := (follows.tracks.move ⟨tx, old, next, effects.flow⟩ fair fresh moving.found).plains
    plain
  have records : (planner.mergeRecords effects).Follows env start
      (moves ++ [⟨tx, old, next, effects.flow⟩])
      (rest.foldl Store.write (current.write (tradeKey next.id, some (.trade next)))) := by
    refine ⟨follows.context, ?_, ?_, ?_, ?_⟩
    · unfold Planner.mergeRecords
      rw [writes]
      exact tracks
    · exact forall_mem_append.mpr
        ⟨follows.sound, forall_mem_singleton.mpr ⟨moving.step, moving.found⟩⟩
    · rw [map_append]
      refine follows.distinct.append (by simp) ?_
      simp only [map_cons, map_nil, disjoint_singleton, mem_map, not_exists, not_and]
      exact fresh
    · exact forall_mem_append.mpr ⟨fun move mem => mem_append_right _ (follows.touched move mem),
        forall_mem_singleton.mpr (mem_append_left _ moving.touch)⟩
  have counted : (planner.mergeRecords effects).Counts moves := { counts with }
  obtain ⟨last, paired⟩ := records.mergePairs moving.pairs
  exact ⟨⟨last, { paired with }⟩, (counted.mergePairs effects.pairs).mergeFlow _ rfl⟩

/-- Admitting a transaction makes at most one more move, and a settlement makes one. -/
theorem admitTx_follows (wf : start.store.Wf) {next : Planner}
    (passed : planner.admitTx env tx = .ok next) :
    ∃ more current, next.Follows env start (moves ++ more) current ∧ next.Counts (moves ++ more) ∧
      (more = [] ∧ isSettle tx = false ∨ ∃ move : TradeMove, more = [move] ∧ move.tx = tx) ∧
      (touchesMarket tx = true → ∃ effects, start.effects env tx = .ok effects) := by
  unfold Planner.admitTx at passed
  split at passed
  case isFalse apart =>
    cases passed
    refine ⟨[], current, by rwa [append_nil], by rwa [append_nil], Or.inl ⟨rfl, ?_⟩,
      fun touches => absurd touches apart⟩
    simp only [touchesMarket, Bool.or_eq_true, not_or, Bool.not_eq_true] at apart
    exact apart.2
  case isTrue =>
    obtain ⟨effects, judged, passed⟩ := bind_eq_ok_iff.mp passed
    rw [follows.context] at judged
    split at passed
    case h_1 => cases passed
    case h_2 untouched =>
    simp only [bind_eq_ok_iff] at passed
    obtain ⟨-, -, -, -, done⟩ := passed
    cases done
    have free : ∀ touch ∈ effects.touches, touch ∉ planner.touched := by
      intro touch mem
      simpa using List.find?_eq_none.mp untouched touch mem
    rcases PlanContext.effects_cases wf judged with quiet | ⟨old, trade, moving⟩
    · obtain ⟨⟨last, merged⟩, counted⟩ := merge_quiet follows counts quiet
      refine ⟨[], last, ?_, ?_, Or.inl ⟨rfl, quiet.signed⟩, fun _ => ⟨effects, judged⟩⟩
      · rw [append_nil]
        exact { merged with }
      · rw [append_nil]
        exact { counted with }
    · obtain ⟨⟨last, merged⟩, counted⟩ := merge_moves follows counts wf moving free
      exact ⟨_, last, { merged with }, { counted with }, Or.inr ⟨_, rfl, rfl⟩,
        fun _ => ⟨effects, judged⟩⟩

end

end Steps

end Planner

/-- The transactions that are admitted, one after the other. -/
def admittedTxs (env : Env) : Planner → List LedgerTx → List LedgerTx
  | _, [] => []
  | planner, tx :: rest =>
    match planner.admitTx env tx with
    | .ok next => tx :: admittedTxs env next rest
    | .error _ => admittedTxs env planner rest

/-- The moves come from the transactions in their order, every settlement makes one, and every
transaction that touches the market was judged on the store before the block. -/
structure ComeFrom (env : Env) (start : PlanContext) (moves : List TradeMove)
    (txs : List LedgerTx) : Prop where
  order : (moves.map TradeMove.tx).Sublist txs
  settlements : (moves.map TradeMove.tx).filter isSettle = txs.filter isSettle
  judged : ∀ tx ∈ txs, touchesMarket tx = true → ∃ effects, start.effects env tx = .ok effects

variable {planner : Planner} {moves : List TradeMove} {current : Store} {start : PlanContext}

theorem admitAll_follows (wf : start.store.Wf) (txs : List LedgerTx)
    (follows : planner.Follows env start moves current) (counts : planner.Counts moves) :
    ∃ more current, (admitAll env planner txs).1.Follows env start (moves ++ more) current ∧
      (admitAll env planner txs).1.Counts (moves ++ more) ∧
      ComeFrom env start more (admittedTxs env planner txs) := by
  induction txs generalizing planner moves current with
  | nil =>
    exact ⟨[], current, by rwa [append_nil], by rwa [append_nil],
      ⟨List.Sublist.refl _, rfl, by simp [admittedTxs]⟩⟩
  | cons tx rest ih =>
    cases judged : planner.admitTx env tx with
    | error refusal =>
      obtain ⟨more, last, followsAll, counted, come⟩ := ih follows counts
      refine ⟨more, last, ?_, ?_, ?_⟩ <;> simp only [admitAll, admittedTxs, judged]
      · exact followsAll
      · exact counted
      · exact come
    | ok next =>
      obtain ⟨made, middle, followsNext, countsNext, one, here⟩ :=
        Planner.admitTx_follows follows counts wf judged
      obtain ⟨more, last, followsAll, counted, come⟩ := ih followsNext countsNext
      rw [append_assoc] at followsAll counted
      refine ⟨made ++ more, last, ?_, ?_, ?_⟩ <;> simp only [admitAll, admittedTxs, judged]
      · exact followsAll
      · exact counted
      · have all : ∀ other ∈ tx :: admittedTxs env next rest, touchesMarket other = true →
            ∃ effects, start.effects env other = .ok effects :=
          forall_mem_cons.mpr ⟨here, come.judged⟩
        rcases one with ⟨rfl, signed⟩ | ⟨move, rfl, rfl⟩
        · refine ⟨come.order.cons _, ?_, all⟩
          rw [filter_cons_of_neg (by simp [signed])]
          exact come.settlements
        · refine ⟨come.order.cons_cons _, ?_, all⟩
          have rests := come.settlements
          by_cases source : isSettle move.tx = true
          · simp [filter_cons_of_pos source, rests]
          · simp [filter_cons_of_neg source, rests]

/-- What takes effect was admitted. -/
theorem takesEffect_admitted (env : Env) (planner : Planner) (txs : List LedgerTx)
    {rejected : List Text} (all : (admitAll env planner txs).2 ⊆ rejected) :
    (txs.filter fun tx => tx.hash ∉ rejected).Sublist (admittedTxs env planner txs) := by
  induction txs generalizing planner with
  | nil => exact List.Sublist.refl _
  | cons tx rest ih =>
    cases judged : planner.admitTx env tx with
    | error refusal =>
      simp only [admitAll, admittedTxs, judged] at all ⊢
      have refused : tx.hash ∈ rejected := all mem_cons_self
      rw [filter_cons_of_neg (by simp [refused])]
      exact ih planner fun hash mem => all (mem_cons_of_mem _ mem)
    | ok next =>
      simp only [admitAll, admittedTxs, judged] at all ⊢
      by_cases refused : tx.hash ∈ rejected
      · rw [filter_cons_of_neg (by simp [refused])]
        exact (ih next all).cons _
      · rw [filter_cons_of_pos (by simp [refused])]
        exact (ih next all).cons_cons _

/-- The hashes of what is admitted and of what is refused make up those of the block. -/
theorem admitted_and_rejected (env : Env) (planner : Planner) (txs : List LedgerTx) :
    ((admittedTxs env planner txs).map LedgerTx.hash ++ (admitAll env planner txs).2).Perm
      (txs.map LedgerTx.hash) := by
  induction txs generalizing planner with
  | nil => exact List.Perm.refl _
  | cons tx rest ih =>
    cases judged : planner.admitTx env tx with
    | error refusal =>
      simp only [admitAll, admittedTxs, judged]
      exact perm_middle.trans ((ih planner).cons _)
    | ok next =>
      simp only [admitAll, admittedTxs, judged]
      exact (ih next).cons _

theorem admittedTxs_sublist (env : Env) (planner : Planner) (txs : List LedgerTx) :
    (admittedTxs env planner txs).Sublist txs := by
  induction txs generalizing planner with
  | nil => exact List.Sublist.refl _
  | cons tx rest ih =>
    unfold admittedTxs
    split
    · exact (ih _).cons_cons _
    · exact (ih _).cons _

theorem perm_marketTxs (block : MarketBlock) :
    (marketTxs block).Perm (block.txs.filter touchesMarket) := mergeSort_perm _ _

/-- The market rejects transactions of its own only. -/
theorem rejected_subset (env : Env) (store : Store) (block : MarketBlock) :
    (planBlock env store block).rejected ⊆ (block.txs.filter touchesMarket).map LedgerTx.hash := by
  unfold planBlock
  split
  · exact nil_subset _
  split
  · intro hash refused
    have among := (admitted_and_rejected env _ _).mem_iff.mp (mem_append_right _ refused)
    exact ((perm_marketTxs block).map LedgerTx.hash).mem_iff.mp among
  · exact fun _ mem => mem

theorem takesEffect_of_apart (env : Env) (store : Store) {block : MarketBlock}
    (distinct : (block.txs.map LedgerTx.hash).Nodup) (mem : tx ∈ block.txs)
    (apart : touchesMarket tx = false) :
    (planBlock env store block).takesEffect tx.hash = true := by
  refine decide_eq_true fun refused => ?_
  obtain ⟨other, listed, same⟩ := mem_map.mp (rejected_subset env store block refused)
  obtain ⟨inBlock, touches⟩ := mem_filter.mp listed
  rw [inj_on_of_nodup_map distinct inBlock mem same, apart] at touches
  cases touches

/-! ## A planned block -/

theorem lookup_foldl_entries (entries : List (Sigma fun _ : Text => Option Stored))
    (distinct : entries.NodupKeys) (store : Store) (key : Text) :
    ((entries.map fun entry => (entry.1, entry.2)).foldl Store.write store).lookup key =
      match entries.dlookup key with
      | some value => value
      | none => store.lookup key := by
  induction entries generalizing store with
  | nil => rfl
  | cons entry rest ih =>
    obtain ⟨written, value⟩ := entry
    obtain ⟨absent, distinctRest⟩ := nodupKeys_cons.mp distinct
    rw [map_cons, foldl_cons, ih distinctRest]
    by_cases same : key = written
    · subst same
      have nothing := dlookup_eq_none.mpr absent
      rw [nothing, dlookup_cons_eq, lookup_write]
      exact if_pos rfl
    · rw [dlookup_cons_ne _ _ (by exact same), lookup_write, if_neg same]

theorem profileWrites_plain (store : Store) (entry : Text × Profile) :
    ∀ write ∈ Planner.profileWrites store entry, PlainWrite write := by
  intro write mem
  simp only [Planner.profileWrites] at mem
  split at mem
  · cases mem
  rcases mem_cons.mp mem with rfl | mem
  · exact ⟨plain_profileKey _, by simp [Stored.trade?]⟩
  split at mem
  · cases mem
  rcases mem_append.mp mem with mem | mem <;> split at mem
  · obtain rfl := mem_singleton.mp mem
    exact ⟨plain_leaderboardKey _ _, by simp⟩
  · cases mem
  · obtain rfl := mem_singleton.mp mem
    exact ⟨plain_leaderboardKey _ _, by simp [Stored.trade?]⟩
  · cases mem

/-- Writing a finished plan: the trades are those of the moves, and the totals follow the sums
of the planner. -/
theorem Planner.Follows.finish (follows : planner.Follows env start moves current) :
    current.KeepsTrades (planner.finish.foldl Store.write start.store) ∧
      (planner.finish.foldl Store.write start.store).totals =
        if 0 < planner.escrowIn ∨ 0 < planner.escrowOut ∨ 0 < planner.opened ∨ 0 < planner.closed then
          planner.newTotals
        else start.store.totals := by
  unfold Planner.finish
  rw [foldl_append, foldl_append]
  have first (key : Text) : ((planner.writes.entries.map fun entry =>
      (entry.1, entry.2)).foldl Store.write start.store).lookup key = current.lookup key := by
    rw [lookup_foldl_entries _ planner.writes.nodupKeys, follows.tracks.view]
    rfl
  generalize (planner.writes.entries.map fun entry =>
    (entry.1, entry.2)).foldl Store.write start.store = written at first
  have wf : written.Wf := fun key trade found => follows.tracks.wf key trade (by rwa [← first])
  have same : current.KeepsTrades written := ⟨wf, fun id => first _, fun _ => total_congr first _⟩
  have plain : ∀ write ∈ planner.profiles.ascending.flatMap (Planner.profileWrites planner.store),
      PlainWrite write := by
    intro write mem
    obtain ⟨entry, -, isWrite⟩ := mem_flatMap.mp mem
    exact profileWrites_plain _ _ _ isWrite
  obtain ⟨keeps, totals⟩ := wf.keepsTrades_foldl plain
  generalize (planner.profiles.ascending.flatMap
    (Planner.profileWrites planner.store)).foldl Store.write written = profiled at keeps totals
  have before : profiled.totals = start.store.totals := by
    unfold Store.totals
    rw [totals, first, follows.tracks.totals]
  unfold Planner.totalsWrites
  split
  · have summed : profiled.KeepsTrades (profiled.write (escrowKey, some (.totals planner.newTotals))) :=
      keeps.wf.keepsTrades_write (by exact tradeKey_ne_escrowKey) (by simp [Stored.trade?])
    refine ⟨(same.trans keeps).trans summed, ?_⟩
    change (profiled.write (escrowKey, some (.totals planner.newTotals))).totals = _
    unfold Store.totals
    rw [lookup_write, if_pos rfl]
  · exact ⟨same.trans keeps, before⟩

/-- What the planner of a block reads. -/
def blockContext (store : Store) (block : MarketBlock) : PlanContext :=
  (Planner.new store block.height block.now).toPlanContext

/-- A planned block in terms of its moves. -/
theorem planned_follows (env : Env) (wf : store.Wf) (block : MarketBlock) :
    ∃ moves current, (planned env store block).1.Follows env (blockContext store block) moves current ∧
      (planned env store block).1.Counts moves ∧
      ComeFrom env (blockContext store block) moves
        (admittedTxs env (Planner.new store block.height block.now) (marketTxs block)) := by
  have start : (Planner.new store block.height block.now).Follows env _ [] store :=
    ⟨rfl, Tracks.start wf, by simp, nodup_nil, by simp⟩
  obtain ⟨moves, current, follows, counts, come⟩ := admitAll_follows wf _ start ⟨rfl, rfl, rfl, rfl⟩
  exact ⟨moves, current, follows, counts, come⟩

/-- The store after a block. -/
def Store.afterBlock (env : Env) (store : Store) (block : MarketBlock) : Store :=
  applyPlan store (planBlock env store block)

end EgoChain.Market
