import EgoChain.Market.Planner

/-!
# What one transaction does to a trade

Every operation of the market that writes a trade is one of a few steps.  The
inversion lemma says which, with what was checked and what moved into and out of
the escrow; all that is proved about runs is derived from it.
-/

namespace EgoChain.Market

open EgoChain.Foundations EgoChain.Ledger List

/-! ## Keys -/

/-- A key at which neither a trade nor the totals are stored. -/
def PlainKey (key : Text) : Prop := key.startsWith tradePrefix = false ∧ key ≠ escrowKey

variable {part : Text} {store : Store}

theorem startsWith_append {start : Text} (short : start.length ≤ part.length) (rest : Text) :
    (part ++ rest).startsWith start = part.startsWith start := by
  induction start generalizing part with
  | nil => rfl
  | cons byte start ih =>
    cases part with
    | nil => simp at short
    | cons other part =>
      have tails := ih (by simpa using short)
      simp only [Text.startsWith, cons_append, List.isPrefixOf] at tails ⊢
      rw [tails]

/-- The fixed texts at which the keys begin that are neither of trades nor of the totals. -/
def plainParts : List Text :=
  [offerPrefix, profilePrefix, feedbackPrefix, pairPrefix, bookPrefix, makerOffersStart,
    userTradesStart, arbiterCasesStart, arbiterAddrPrefix, leaderboardPrefix]

/-- The first nine letters tell the keys apart. -/
theorem plainParts_apart : ∀ part ∈ plainParts, 9 ≤ part.length ∧
    part.startsWith tradePrefix = false ∧ part.startsWith (utf8 "market:e") = false := by
  decide

theorem escrowKey_starts : escrowKey.startsWith (utf8 "market:e") = true ∧
    tradePrefix.startsWith tradePrefix = true ∧ tradePrefix.startsWith (utf8 "market:e") = false ∧
    (utf8 "market:e").length ≤ tradePrefix.length := by
  decide

/-- A key is plain if the fixed text it begins with tells it from the others. -/
theorem plainKey_append (fixed : part ∈ plainParts) (rest : Text) : PlainKey (part ++ rest) := by
  obtain ⟨long, noTrade, noEscrow⟩ := plainParts_apart part fixed
  refine ⟨?_, fun same => ?_⟩
  · rw [startsWith_append (by exact long)]
    exact noTrade
  · have starts : (part ++ rest).startsWith (utf8 "market:e") = true := by
      rw [same]
      exact escrowKey_starts.1
    rw [startsWith_append (by exact Nat.le_of_succ_le long), noEscrow] at starts
    cases starts

variable {id : Text} {next trade : Trade}

theorem tradeKey_inj {other : Text} (same : tradeKey id = tradeKey other) : id = other :=
  append_cancel_left same

theorem tradeKey_ne_escrowKey (id : Text) : tradeKey id ≠ escrowKey := by
  intro same
  have starts : (tradePrefix ++ id).startsWith (utf8 "market:e") = true := by
    change (tradeKey id).startsWith (utf8 "market:e") = true
    rw [same]
    exact escrowKey_starts.1
  cases starts

theorem tradeKey_ne_plain {key : Text} (plain : PlainKey key) (id : Text) : tradeKey id ≠ key := by
  rintro rfl
  have starts : (tradePrefix ++ id).startsWith tradePrefix = true := by
    exact escrowKey_starts.2.1
  exact absurd (plain.1.symm.trans starts) (by decide)

inductive KeyKind where
  | offer
  | trade
  | feedback
  | pair
  | book
  | makerOffers
  | userTrades
  | arbiterCases
  | arbiterAddr
  deriving DecidableEq

namespace KeyKind

def start : KeyKind → Text
  | .offer => offerPrefix
  | .trade => tradePrefix
  | .feedback => feedbackPrefix
  | .pair => pairPrefix
  | .book => bookPrefix
  | .makerOffers => makerOffersStart
  | .userTrades => userTradesStart
  | .arbiterCases => arbiterCasesStart
  | .arbiterAddr => arbiterAddrPrefix

end KeyKind

/-- The key is one of a kind. -/
def OfKind (kind : KeyKind) (key : Text) : Prop := ∃ rest, key = kind.start ++ rest

variable {key touch : Text} {kind : KeyKind} (arbiter : Text)

/-- Only the keys of trades are not plain. -/
theorem OfKind.plain (ofKind : OfKind kind key) (other : kind ≠ .trade) : PlainKey key := by
  obtain ⟨rest, rfl⟩ := ofKind
  refine plainKey_append ?_ rest
  cases kind with
  | trade => exact absurd rfl other
  | _ => simp [plainParts, KeyKind.start]

theorem ofKind_offerKey (id : Text) : OfKind .offer (offerKey id) := ⟨_, rfl⟩

theorem ofKind_tradeKey (id : Text) : OfKind .trade (tradeKey id) := ⟨_, rfl⟩

theorem ofKind_feedbackKey (tradeId : Text) (role : Role) :
    OfKind .feedback (feedbackKey tradeId role) :=
  ⟨tradeId ++ colon :: role.asStr, by simp [feedbackKey, KeyKind.start]⟩

theorem ofKind_pairKey (first second : Text) : OfKind .pair (pairKey first second) := by
  unfold pairKey
  split
  · exact ⟨first ++ colon :: second, by simp [KeyKind.start]⟩
  · exact ⟨second ++ colon :: first, by simp [KeyKind.start]⟩

theorem ofKind_bookKey (asset fiat : Text) (side : Side) (height : Nat) (id : Text) :
    OfKind .book (bookKey asset fiat side height id) :=
  ⟨asset ++ colon :: (fiat ++ colon :: (side.asStr ++ colon :: (be8 height ++ id))),
    by simp [bookKey, KeyKind.start]⟩

theorem ofKind_makerOfferKey (maker id : Text) : OfKind .makerOffers (makerOfferKey maker id) :=
  ⟨maker ++ colon :: id, by simp [makerOfferKey, makerOffersPrefix, KeyKind.start]⟩

theorem ofKind_userTradeKey (addr : Text) (height : Nat) (id : Text) :
    OfKind .userTrades (userTradeKey addr height id) :=
  ⟨addr ++ colon :: (be8 height ++ id), by simp [userTradeKey, userTradesPrefix, KeyKind.start]⟩

theorem ofKind_arbiterCaseKey (height : Nat) (id : Text) :
    OfKind .arbiterCases (arbiterCaseKey arbiter height id) :=
  ⟨arbiter ++ colon :: (be8 height ++ id), by simp [arbiterCaseKey, KeyKind.start]⟩

theorem ofKind_arbiterAddrKey : OfKind .arbiterAddr (arbiterAddrKey arbiter) :=
  ⟨_, rfl⟩

theorem plain_profileKey (addr : Text) : PlainKey (profileKey addr) :=
  plainKey_append (by simp [plainParts]) addr

theorem plain_leaderboardKey (completed : Nat) (addr : Text) :
    PlainKey (leaderboardKey completed addr) := by
  unfold leaderboardKey
  simp only [append_assoc]
  exact plainKey_append (by simp [plainParts]) _

def Stored.trade? : Stored → Option Trade
  | .trade held => some held
  | _ => none

/-- A write that no trade and no total sees. -/
def PlainWrite (write : StoreWrite) : Prop :=
  PlainKey write.1 ∧ ∀ value ∈ write.2, value.trade? = none

/-! ## Steps -/

/-- What moves into and out of the escrow, in coins and in trades. -/
structure Flow where
  escrowIn : Nat := 0
  escrowOut : Nat := 0
  opened : Nat := 0
  closed : Nat := 0

def Effects.flow (effects : Effects) : Flow where
  escrowIn := effects.escrowIn
  escrowOut := effects.escrowOut
  opened := effects.opened
  closed := effects.closed

namespace Trade

/-- The terms of a trade that no step changes. -/
structure SameTerms (next trade : Trade) : Prop where
  id : next.id = trade.id
  seller : next.seller = trade.seller
  buyer : next.buyer = trade.buyer
  asset : next.asset = trade.asset
  lockedMicro : next.lockedMicro = trade.lockedMicro
  makerFeeMicro : next.makerFeeMicro = trade.makerFeeMicro

/-- A trade locks something, and the fee is part of what it locks. -/
structure Fair (trade : Trade) : Prop where
  positive : 0 < trade.lockedMicro
  fee : trade.makerFeeMicro ≤ trade.lockedMicro

theorem SameTerms.trans {last : Trade} (second : last.SameTerms next)
    (first : next.SameTerms trade) : last.SameTerms trade :=
  ⟨second.id.trans first.id, second.seller.trans first.seller, second.buyer.trans first.buyer,
    second.asset.trans first.asset, second.lockedMicro.trans first.lockedMicro,
    second.makerFeeMicro.trans first.makerFeeMicro⟩

theorem SameTerms.isEgoc (same : next.SameTerms trade) : next.isEgoc = trade.isEgoc := by
  unfold Trade.isEgoc
  rw [same.asset]

theorem SameTerms.fair (same : next.SameTerms trade) (fair : trade.Fair) : next.Fair :=
  ⟨by rw [same.lockedMicro]; exact fair.positive,
    by rw [same.lockedMicro, same.makerFeeMicro]; exact fair.fee⟩

end Trade

/-- The settlement of a trade, with all that was checked. -/
structure Settlement (env : Env) (context : PlanContext) (tx : LedgerTx) (trade : Trade)
    (body : SettleBody) : Prop where
  source : isSettle tx = true
  shape : checkSettleShape env tx = .ok body
  named : body.tradeId = trade.id
  signed : ∃ signer, verifyAuth env body = .ok signer ∧
    PlanContext.entitled trade body.by' signer = true
  allowed : context.settleAllowed trade body.outcome body.by' = .ok true
  recipient : tx.recipient = trade.payoutTo body.outcome
  amount : tx.amount.toNat = trade.settleAmount
  fee : tx.feeUegoc.toNat = trade.settleFee body.outcome

/-- The ways in which a transaction changes a trade, or opens one. -/
inductive TradeStep (env : Env) (context : PlanContext) (tx : LedgerTx) :
    Option Trade → Trade → Flow → Prop
  | openWaiting {next : Trade} (signed : isSettle tx = false) (fair : next.Fair)
      (state : next.state = .awaitingLock) : TradeStep env context tx none next {}
  | openLocked {next : Trade} (signed : isSettle tx = false) (fair : next.Fair)
      (state : next.state = .locked) (isEgoc : next.isEgoc = true)
      (deposit : tx.amount.toNat = next.lockedMicro) :
      TradeStep env context tx none next { escrowIn := next.lockedMicro, opened := 1 }
  | lockEgoc {trade next : Trade} (signed : isSettle tx = false) (same : next.SameTerms trade)
      (waiting : trade.state = .awaitingLock) (state : next.state = .locked)
      (isEgoc : trade.isEgoc = true) (deposit : tx.amount.toNat = trade.lockedMicro) :
      TradeStep env context tx (some trade) next { escrowIn := trade.lockedMicro, opened := 1 }
  | lockOutside {trade next : Trade} (signed : isSettle tx = false) (same : next.SameTerms trade)
      (waiting : trade.state = .awaitingLock) (state : next.state = .locked)
      (outside : trade.isEgoc = false) : TradeStep env context tx (some trade) next {}
  | cancel {trade next : Trade} (signed : isSettle tx = false) (same : next.SameTerms trade)
      (waiting : trade.state = .awaitingLock) (state : next.state = .cancelled) :
      TradeStep env context tx (some trade) next {}
  | pay {trade next : Trade} (signed : isSettle tx = false) (same : next.SameTerms trade)
      (unpaid : trade.state = .locked) (byBuyer : tx.sender = trade.buyer)
      (state : next.state = .paid) : TradeStep env context tx (some trade) next {}
  | dispute {trade next : Trade} (signed : isSettle tx = false) (same : next.SameTerms trade)
      (open' : trade.state = .paid ∨ trade.isEgoc = false ∧ trade.state = .locked)
      (state : next.state = .disputed) : TradeStep env context tx (some trade) next {}
  | settleEgoc {trade : Trade} {body : SettleBody} (done : Settlement env context tx trade body)
      (isEgoc : trade.isEgoc = true) :
      TradeStep env context tx (some trade) (context.settled tx trade body)
        { escrowOut := trade.lockedMicro, closed := 1 }
  | settleOutside {trade : Trade} {body : SettleBody} (done : Settlement env context tx trade body)
      (outside : trade.isEgoc = false) :
      TradeStep env context tx (some trade) (context.settled tx trade body) {}

/-- Trades are stored under their own ids, and each is fair. -/
def Store.Wf (store : Store) : Prop :=
  ∀ key trade, store.lookup key = some (.trade trade) → key = tradeKey trade.id ∧ trade.Fair

theorem Store.trade_eq_some :
    store.trade id = some trade ↔ store.lookup (tradeKey id) = some (.trade trade) := by
  unfold Store.trade
  cases found : store.lookup (tradeKey id) with
  | none => simp
  | some value => cases value <;> simp

/-- The effects write no trade and move nothing. -/
structure Effects.Quiet (tx : LedgerTx) (effects : Effects) : Prop where
  signed : isSettle tx = false
  writes : ∀ write ∈ effects.writes, PlainWrite write
  pairs : ∀ pair ∈ effects.pairs, PlainKey pair.1
  flow : effects.flow = {}

/-- The effects write one trade, and move what the step says. -/
structure Effects.Moves (env : Env) (context : PlanContext) (tx : LedgerTx) (effects : Effects)
    (old : Option Trade) (next : Trade) : Prop where
  step : TradeStep env context tx old next effects.flow
  found : context.store.lookup (tradeKey next.id) = old.map Stored.trade
  touch : utf8 "trade:" ++ next.id ∈ effects.touches
  writes : ∃ rest, effects.writes = (tradeKey next.id, some (.trade next)) :: rest ∧
    ∀ write ∈ rest, PlainWrite write
  pairs : ∀ pair ∈ effects.pairs, PlainKey pair.1

namespace PlanContext

variable {env : Env} {context : PlanContext} {tx : LedgerTx} {effects : Effects}

theorem knownTrade_ok (known : context.knownTrade id = .ok trade) :
    context.store.trade id = some trade := by
  simp only [knownTrade, bind_eq_ok_iff, ensure_eq_ok_iff, need_eq_ok_iff, exists_const] at known
  exact known.2

section

variable (wf : context.store.Wf)

include wf

/-- A trade found by its id is stored under it. -/
theorem Known.lookup (known : context.knownTrade id = .ok trade) :
    trade.id = id ∧ context.store.lookup (tradeKey trade.id) = some (.trade trade) := by
  have found := knownTrade_ok known
  have named : trade.id = id := (tradeKey_inj (wf _ _ (Store.trade_eq_some.mp found)).1).symm
  exact ⟨named, by rw [named]; exact Store.trade_eq_some.mp found⟩

variable (signed : isSettle tx = false)

include signed

theorem lockEffects_moves (passed : context.lockEffects env tx = .ok effects) :
    ∃ old next, effects.Moves env context tx old next := by
  simp only [lockEffects, bind_eq_ok_iff, ensure_eq_ok_iff, exists_const] at passed
  obtain ⟨body, -, trade, known, waiting, -, -, rest⟩ := passed
  obtain ⟨-, found⟩ := Known.lookup wf known
  split at rest
  case isTrue isEgoc =>
    simp only [bind_eq_ok_iff, ensure_eq_ok_iff, exists_const] at rest
    obtain ⟨-, deposit, done⟩ := rest
    cases done
    exact ⟨some trade, { trade with state := .locked, lockedAt := some context.now },
      .lockEgoc signed ⟨rfl, rfl, rfl, rfl, rfl, rfl⟩ waiting rfl isEgoc deposit, found,
      mem_singleton_self _, ⟨[], rfl, by simp⟩, by simp [tradeWrite]⟩
  case isFalse outside =>
    obtain ⟨reference, -, done⟩ := bind_eq_ok_iff.mp rest
    cases done
    exact ⟨some trade,
      { trade with escrow := some reference, state := .locked, lockedAt := some context.now },
      .lockOutside signed ⟨rfl, rfl, rfl, rfl, rfl, rfl⟩ waiting rfl (by simpa using outside), found,
      mem_singleton_self _, ⟨[], rfl, by simp⟩, by simp [tradeWrite]⟩

theorem cancelEffects_moves (passed : context.cancelEffects env tx = .ok effects) :
    ∃ old next, effects.Moves env context tx old next := by
  simp only [cancelEffects, bind_eq_ok_iff, ensure_eq_ok_iff, exists_const] at passed
  obtain ⟨body, -, trade, known, waiting, role, -, -, done⟩ := passed
  obtain ⟨-, found⟩ := Known.lookup wf known
  cases done
  exact ⟨some trade, { trade with
      state := .cancelled, closedAt := some context.now, closedHeight := some context.height
      closedBy := some role },
    .cancel signed ⟨rfl, rfl, rfl, rfl, rfl, rfl⟩ waiting rfl, found,
    mem_singleton_self _, ⟨[], rfl, by simp⟩, by simp [tradeWrite]⟩

theorem paidEffects_moves (passed : context.paidEffects env tx = .ok effects) :
    ∃ old next, effects.Moves env context tx old next := by
  simp only [paidEffects, bind_eq_ok_iff, ensure_eq_ok_iff, exists_const] at passed
  obtain ⟨body, -, trade, known, unpaid, byBuyer, -, done⟩ := passed
  obtain ⟨-, found⟩ := Known.lookup wf known
  cases done
  exact ⟨some trade, { trade with state := .paid, paidAt := some context.now },
    .pay signed ⟨rfl, rfl, rfl, rfl, rfl, rfl⟩ unpaid byBuyer rfl, found,
    mem_singleton_self _, ⟨[], rfl, by simp⟩, by simp [tradeWrite]⟩

theorem disputeEffects_moves (passed : context.disputeEffects env tx = .ok effects) :
    ∃ old next, effects.Moves env context tx old next := by
  simp only [disputeEffects, bind_eq_ok_iff, ensure_eq_ok_iff, exists_const] at passed
  obtain ⟨body, -, -, trade, known, role, -, disputable, -, -, arbiter, -, done⟩ := passed
  obtain ⟨-, found⟩ := Known.lookup wf known
  cases done
  have reason : trade.state = .paid ∨ trade.isEgoc = false ∧ trade.state = .locked := by
    refine disputable.imp_right fun late => ?_
    simp only [noShow, Bool.and_eq_true, Bool.not_eq_true', decide_eq_true_eq] at late
    exact ⟨late.1.1.1, late.1.1.2⟩
  refine ⟨some trade, { trade with
      state := .disputed, disputedAt := some context.now, disputedBy := some role
      disputeReason := body.reason, arbiter := some arbiter },
    .dispute signed ⟨rfl, rfl, rfl, rfl, rfl, rfl⟩ reason rfl, found,
    mem_singleton_self _, ⟨_, rfl, ?_⟩, by simp⟩
  rintro write (_ | ⟨_, nothing⟩)
  · exact ⟨(ofKind_arbiterCaseKey _ _ _).plain nofun, by simp [Stored.trade?]⟩
  · cases nothing

omit signed

theorem settleEffects_moves (source : isSettle tx = true)
    (passed : context.settleEffects env tx = .ok effects) :
    ∃ old next, effects.Moves env context tx old next := by
  simp only [settleEffects, bind_eq_ok_iff, ensure_eq_ok_iff, mapError_eq_ok_iff,
    exists_const] at passed
  obtain ⟨body, shape, trade, known, signer, auth, entitled, allowed, settles, isAllowed, -, -,
    ⟨recipient, amount, fee⟩, done⟩ := passed
  obtain ⟨named, found⟩ := Known.lookup wf known
  cases done
  subst isAllowed
  have settlement : Settlement env context tx trade body :=
    ⟨source, shape, named.symm, ⟨signer, auth, entitled⟩, settles, recipient, amount, fee⟩
  refine ⟨some trade, context.settled tx trade body, ?_, found,
    mem_singleton_self _, ⟨[], rfl, by simp⟩, ?_⟩
  · cases isEgoc : trade.isEgoc with
    | true => simpa [Effects.flow, tradeWrite, isEgoc] using TradeStep.settleEgoc settlement isEgoc
    | false => simpa [Effects.flow, tradeWrite, isEgoc] using TradeStep.settleOutside settlement isEgoc
  · intro pair mem
    simp only [settlePairs] at mem
    split at mem
    case h_1 => cases mem
    case h_2 =>
    split at mem
    case isTrue =>
      obtain rfl := mem_singleton.mp mem
      exact (ofKind_pairKey _ _).plain nofun
    case isFalse => cases mem

end

theorem tradeLimits_bounds (asset : Text) :
    0 < (tradeLimits asset).1 ∧ (tradeLimits asset).2 ≤ maxTradeMicro := by
  have least : ∀ info ∈ assets, 0 < info.minMicro := by decide
  unfold tradeLimits
  split
  · decide
  · refine ⟨?_, Nat.le_refl _⟩
    cases listed : assetInfo asset with
    | none => decide
    | some info => exact least info (mem_of_find?_eq_some listed)

theorem newTrade_fair (offer : Offer) (info : AssetInfo) (body : TradeOpenBody)
    (payout : Option Text) (atLeast : max offer.minMicro (tradeLimits offer.asset).1 ≤ body.amountMicro)
    (atMost : body.amountMicro ≤ min offer.maxMicro (tradeLimits offer.asset).2) :
    (context.newTrade tx offer info body payout).Fair := by
  obtain ⟨low, high⟩ := tradeLimits_bounds offer.asset
  have positive : 0 < body.amountMicro := by omega
  have small : body.amountMicro ≤ 1000000000000000 := by
    unfold maxTradeMicro at high
    omega
  have fee := tradeFee_le offer.asset positive
  constructor
  · simp only [newTrade]
    split
    · unfold satAdd maxU64
      omega
    · exact positive
  · simp only [newTrade]
    split
    · unfold satAdd maxU64
      omega
    · exact fee

/-- An arbiter changes no term, and the state neither. -/
theorem withArbiter_ok {info : AssetInfo} (passed : context.withArbiter env info trade = .ok next) :
    next.SameTerms trade ∧ next.state = trade.state := by
  unfold withArbiter at passed
  split at passed
  · obtain rfl := Except.ok.inj passed
    exact ⟨⟨rfl, rfl, rfl, rfl, rfl, rfl⟩, rfl⟩
  · simp only [bind_eq_ok_iff, ensure_eq_ok_iff, exists_const] at passed
    cases passed.2
    exact ⟨⟨rfl, rfl, rfl, rfl, rfl, rfl⟩, rfl⟩

section

variable (signed : isSettle tx = false)

include signed

theorem tradeOpenEffects_moves (passed : context.tradeOpenEffects env tx = .ok effects) :
    ∃ old next, effects.Moves env context tx old next := by
  simp only [tradeOpenEffects, bind_eq_ok_iff, ensure_eq_ok_iff, need_eq_ok_iff,
    exists_const] at passed
  obtain ⟨body, -, -, -, offer, -, -, -, info, listed, limits, -, -, -, -, absent, payout, -, deposit,
    next, assigned, rest⟩ := passed
  obtain ⟨same, state⟩ := withArbiter_ok assigned
  have fair := same.fair (newTrade_fair offer info body payout limits.1 limits.2)
  have named : next.id = tx.hash := same.id
  have rests : ∀ write ∈ [(userTradeKey next.seller context.height next.id, some Stored.mark),
      (userTradeKey next.buyer context.height next.id, some Stored.mark)], PlainWrite write := by
    intro write mem
    rcases mem_pair.mp mem with rfl | rfl <;>
      exact ⟨(ofKind_userTradeKey _ _ _).plain nofun, by simp [Stored.trade?]⟩
  split at rest
  case isTrue isLocked =>
    cases rest
    rw [state] at isLocked
    rw [if_pos isLocked, ← same.lockedMicro] at deposit
    have isEgoc : next.isEgoc = true := by
      rw [same.isEgoc]
      refine (isEgoc_iff listed).mpr ?_
      by_contra other
      simp [newTrade, other] at isLocked
    exact ⟨none, next, .openLocked signed fair (state.trans isLocked) isEgoc deposit,
      by rw [named]; exact absent, mem_singleton_self _, ⟨_, rfl, rests⟩, by simp⟩
  case isFalse notLocked =>
    simp only [bind_eq_ok_iff, ensure_eq_ok_iff, exists_const] at rest
    cases rest.2
    have waits : next.state = .awaitingLock := by
      rw [state] at notLocked ⊢
      simp only [newTrade] at notLocked ⊢
      split
      case isTrue both => simp [both] at notLocked
      case isFalse => rfl
    exact ⟨none, next, .openWaiting signed fair waits,
      by rw [named]; exact absent, mem_singleton_self _, ⟨_, rfl, rests⟩, by simp⟩

theorem offerEffects_quiet (passed : context.offerEffects env tx = .ok effects) : effects.Quiet tx := by
  simp only [offerEffects, bind_eq_ok_iff, ensure_eq_ok_iff, exists_const] at passed
  obtain ⟨body, -, -, -, -, -, -, done⟩ := passed
  cases done
  refine ⟨signed, ?_, by simp, rfl⟩
  simp [PlainWrite, (ofKind_bookKey _ _ _ _ _).plain, (ofKind_makerOfferKey _ _).plain,
    (ofKind_offerKey _).plain, Stored.trade?]

theorem offerCloseEffects_quiet (passed : context.offerCloseEffects env tx = .ok effects) :
    effects.Quiet tx := by
  simp only [offerCloseEffects, bind_eq_ok_iff, ensure_eq_ok_iff, exists_const] at passed
  obtain ⟨-, -, -, -, offer, -, -, -, done⟩ := passed
  cases done
  refine ⟨signed, ?_, by simp, rfl⟩
  simp [PlainWrite, (ofKind_bookKey _ _ _ _ _).plain, (ofKind_makerOfferKey _ _).plain,
    (ofKind_offerKey _).plain, Stored.trade?]

theorem feedbackEffects_quiet (passed : context.feedbackEffects env tx = .ok effects) :
    effects.Quiet tx := by
  simp only [feedbackEffects, bind_eq_ok_iff, ensure_eq_ok_iff, exists_const] at passed
  obtain ⟨body, -, -, trade, -, -, role, -, -, -, -, done⟩ := passed
  cases done
  exact ⟨signed, by simp [PlainWrite, (ofKind_feedbackKey _ _).plain, Stored.trade?], by simp, rfl⟩

theorem arbiterEffects_quiet (passed : context.arbiterEffects env tx = .ok effects) :
    effects.Quiet tx := by
  simp only [arbiterEffects, bind_eq_ok_iff, ensure_eq_ok_iff, exists_const] at passed
  obtain ⟨body, -, -, -, -, -, -, -, -, done⟩ := passed
  cases done
  exact ⟨signed, by simp [PlainWrite, (ofKind_arbiterAddrKey _).plain, Stored.trade?], by simp, rfl⟩

end

/-- Every transaction that is admitted leaves the trades alone, or makes one step of one trade. -/
theorem effects_cases (wf : context.store.Wf) (passed : context.effects env tx = .ok effects) :
    effects.Quiet tx ∨ ∃ old next, effects.Moves env context tx old next := by
  unfold PlanContext.effects at passed
  by_cases source : isSettle tx = true
  · rw [if_pos source] at passed
    exact Or.inr (settleEffects_moves wf source passed)
  rw [if_neg source] at passed
  have signed : isSettle tx = false := by simpa using source
  simp only [signedEffects, bind_eq_ok_iff] at passed
  obtain ⟨-, -, passed⟩ := passed
  split at passed
  · exact Or.inl (offerEffects_quiet signed passed)
  split at passed
  · exact Or.inl (offerCloseEffects_quiet signed passed)
  split at passed
  · exact Or.inr (tradeOpenEffects_moves signed passed)
  split at passed
  · exact Or.inr (lockEffects_moves wf signed passed)
  split at passed
  · exact Or.inr (cancelEffects_moves wf signed passed)
  split at passed
  · exact Or.inr (paidEffects_moves wf signed passed)
  split at passed
  · exact Or.inr (disputeEffects_moves wf signed passed)
  split at passed
  · exact Or.inl (feedbackEffects_quiet signed passed)
  split at passed
  · exact Or.inl (arbiterEffects_quiet signed passed)
  · cases passed

end PlanContext

end EgoChain.Market
