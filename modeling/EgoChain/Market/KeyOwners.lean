import EgoChain.Foundations.Texts
import EgoChain.Market.Trades

/-!
# Who writes a key of the market

A transaction names the records it touches, and no two transactions of a block
touch the same one.  Every key a transaction writes belongs to a record it
touches, or is a mark that does not depend on the transaction.  This needs that
the names put into keys have no colon, which holds of every name the market
stores.
-/

namespace EgoChain.Market

open EgoChain.Foundations EgoChain.Ledger List

/-! ## Kinds of keys -/

namespace KeyKind

def all : List KeyKind :=
  [.offer, .trade, .feedback, .pair, .book, .makerOffers, .userTrades, .arbiterCases, .arbiterAddr]

theorem mem_all (kind : KeyKind) : kind ∈ all := by cases kind <;> decide

theorem starts_apart : ∀ first ∈ all, ∀ second ∈ all, first.start <+: second.start →
    first = second := by
  decide

theorem prefixFree : PrefixFree start := fun first second begins =>
  starts_apart first (mem_all first) second (mem_all second) begins

end KeyKind

variable {key touch : Text} {kind : KeyKind}

theorem OfKind.unique {first second : KeyKind} (one : OfKind first key) (two : OfKind second key) :
    first = second := by
  obtain ⟨rest, rfl⟩ := one
  obtain ⟨tail, same⟩ := two
  exact (KeyKind.prefixFree.append_inj.mp same).1

/-! ## Owners -/

/-- The key belongs to the record that a transaction touches. -/
inductive Owns : KeyKind → Text → Text → Prop
  | offer (id : Text) : Owns .offer (utf8 "offer:" ++ id) (offerKey id)
  | makerOffer {maker : Text} (plain : colon ∉ maker) (id : Text) :
      Owns .makerOffers (utf8 "offer:" ++ id) (makerOfferKey maker id)
  | book {asset fiat : Text} (plain : colon ∉ asset) (plainFiat : colon ∉ fiat) (side : Side)
      (height : Nat) (id : Text) :
      Owns .book (utf8 "offer:" ++ id) (bookKey asset fiat side height id)
  | trade (id : Text) : Owns .trade (utf8 "trade:" ++ id) (tradeKey id)
  | feedback (tradeId : Text) (role : Role) :
      Owns .feedback (utf8 "feedback:" ++ tradeId ++ colon :: role.asStr) (feedbackKey tradeId role)
  | arbiter (addr : Text) : Owns .arbiterAddr (utf8 "arbiter:" ++ addr) (arbiterAddrKey addr)

theorem Owns.ofKind (owns : Owns kind touch key) : OfKind kind key := by
  cases owns with
  | offer => exact ofKind_offerKey _
  | makerOffer => exact ofKind_makerOfferKey _ _
  | book => exact ofKind_bookKey _ _ _ _ _
  | trade => exact ofKind_tradeKey _
  | feedback => exact ofKind_feedbackKey _ _
  | arbiter => exact ofKind_arbiterAddrKey _

theorem colon_notMem_side (side : Side) : colon ∉ side.asStr := by
  cases side <;> decide

theorem length_be8 (number : Nat) : (be8 number).length = 8 := by simp [be8]

variable {asset fiat id : Text} {info : AssetInfo} {store : Store}

/-- The id can be read off a key of the book. -/
theorem bookKey_id {other currency : Text} {side by' : Side} {height level : Nat} {name : Text}
    (plain : colon ∉ asset) (plainFiat : colon ∉ fiat) (plainToo : colon ∉ other)
    (plainFiatToo : colon ∉ currency)
    (same : bookKey asset fiat side height id = bookKey other currency by' level name) :
    id = name := by
  simp only [bookKey, append_assoc, append_cancel_left_eq] at same
  obtain ⟨-, fiats⟩ := append_mark_inj plain plainToo same
  obtain ⟨-, sides⟩ := append_mark_inj plainFiat plainFiatToo fiats
  obtain ⟨-, heights⟩ := append_mark_inj (colon_notMem_side side) (colon_notMem_side by') sides
  exact (append_inj heights (by rw [length_be8, length_be8])).2

/-- A key belongs to one record only. -/
theorem Owns.unique {other : KeyKind} {mark : Text} (owns : Owns kind touch key)
    (also : Owns other mark key) : touch = mark := by
  obtain rfl := owns.ofKind.unique also.ofKind
  cases owns with
  | offer id =>
    generalize isKey : offerKey id = key at also
    cases also with
    | offer name => rw [append_cancel_left isKey]
  | makerOffer plain id =>
    generalize isKey : makerOfferKey _ id = key at also
    cases also with
    | makerOffer plainToo name =>
      simp only [makerOfferKey, makerOffersPrefix, append_assoc, singleton_append,
        append_cancel_left_eq] at isKey
      rw [(append_mark_inj plain plainToo isKey).2]
  | book plain plainFiat side height id =>
    generalize isKey : bookKey _ _ side height id = key at also
    cases also with
    | book plainToo plainFiatToo by' level name =>
      rw [bookKey_id plain plainFiat plainToo plainFiatToo isKey]
  | trade id =>
    generalize isKey : tradeKey id = key at also
    cases also with
    | trade name => rw [tradeKey_inj isKey]
  | feedback tradeId role =>
    generalize isKey : feedbackKey tradeId role = key at also
    cases also with
    | feedback name side =>
      simp only [feedbackKey, append_assoc, append_cancel_left_eq] at isKey
      rw [append_assoc, isKey, ← append_assoc]
  | arbiter addr =>
    generalize isKey : arbiterAddrKey addr = key at also
    cases also with
    | arbiter name => rw [append_cancel_left isKey]

/-- A key at which only marks are written. -/
def MarkKey (key : Text) : Prop := OfKind .userTrades key ∨ OfKind .arbiterCases key

theorem Owns.not_markKey (owns : Owns kind touch key) : ¬ MarkKey key := by
  rintro (trades | cases')
  · obtain rfl := owns.ofKind.unique trades
    cases owns
  · obtain rfl := owns.ofKind.unique cases'
    cases owns

/-- The two accounts of a pair can be read off its key. -/
theorem pairKey_inj {first second one two : Text} (plain : colon ∉ first) (plainToo : colon ∉ second)
    (plainOne : colon ∉ one) (plainTwo : colon ∉ two)
    (same : pairKey first second = pairKey one two) :
    (first = one ∧ second = two) ∨ (first = two ∧ second = one) := by
  unfold pairKey at same
  split at same <;> split at same <;>
    simp at same
  · exact Or.inl (append_mark_inj plain plainOne same)
  · exact Or.inr (append_mark_inj plain plainTwo same)
  · exact Or.inr (append_mark_inj plainToo plainOne same).symm
  · exact Or.inl (append_mark_inj plainToo plainTwo same).symm

/-! ## Names without a colon -/

def Env.PlainAddresses (env : Env) : Prop := ∀ key, colon ∉ env.addressOf key

def Stored.Plain : Stored → Prop
  | .offer published => colon ∉ published.maker ∧ colon ∉ published.asset ∧ colon ∉ published.fiat
  | .trade deal => colon ∉ deal.seller ∧ colon ∉ deal.buyer
  | _ => True

/-- The names in the records of a store have no colon. -/
def Store.Plain (store : Store) : Prop := ∀ key value, store.lookup key = some value → value.Plain

theorem plain_asset (listed : assetInfo asset = some info) : colon ∉ asset := by
  have named : info.id = asset := by simpa using List.find?_some listed
  have all : ∀ info ∈ assets, colon ∉ info.id := by decide
  rw [← named]
  exact all info (mem_of_find?_eq_some listed)

theorem plain_fiat (valid : validFiat fiat = true) : colon ∉ fiat := by
  intro mem
  simp only [validFiat, Bool.and_eq_true, all_eq_true] at valid
  exact absurd (valid.2 colon mem) (by decide)

theorem Store.Plain.offer (plain : store.Plain) {offer : Offer}
    (found : store.offer id = some offer) :
    colon ∉ offer.maker ∧ colon ∉ offer.asset ∧ colon ∉ offer.fiat := by
  unfold Store.offer at found
  split at found
  case h_1 stored there =>
    cases found
    exact plain _ _ there
  case h_2 => cases found

theorem Store.Plain.trade (plain : store.Plain) {trade : Trade}
    (found : store.trade id = some trade) : colon ∉ trade.seller ∧ colon ∉ trade.buyer :=
  plain _ _ (Store.trade_eq_some.mp found)

theorem plain_sender {env : Env} (plain : env.PlainAddresses) {tx : LedgerTx}
    (shape : checkSignedShape env tx = .ok ()) : colon ∉ tx.sender := by
  simp only [checkSignedShape, bind_eq_ok_iff, ensure_eq_ok_iff, need_eq_ok_iff,
    exists_const] at shape
  obtain ⟨-, -, key, -, sender, -⟩ := shape
  rw [← sender]
  exact plain key

/-! ## What a transaction writes -/

/-- Every write of the effects belongs to a record they touch, or is a mark. -/
structure Effects.Owned (context : PlanContext) (effects : Effects) : Prop where
  touches : effects.touches ≠ []
  owned : ∀ write ∈ effects.writes, (∃ kind, ∃ touch ∈ effects.touches, Owns kind touch write.1) ∨
      (MarkKey write.1 ∧ write.2 = some .mark)
  agree : ∀ one ∈ effects.writes, ∀ two ∈ effects.writes, one.1 = two.1 → one.2 = two.2
  pairs : ∀ pair ∈ effects.pairs,
    pair.1 = pairKey pair.2.1 pair.2.2 ∧ colon ∉ pair.2.1 ∧ colon ∉ pair.2.2
  plain : ∀ write ∈ effects.writes, ∀ value, write.2 = some value → value.Plain
  offers : ∀ addr existing, effects.newOffer = some (addr, existing) →
    existing = context.openOfferCount addr
  pending : ∀ addr existing, effects.newPending = some (addr, existing) →
    existing = context.pendingCount addr

/-- Writes at keys of different kinds are at different keys. -/
theorem agree_of_kinds (tagged : List (KeyKind × StoreWrite))
    (kinds : ∀ entry ∈ tagged, OfKind entry.1 entry.2.1)
    (same : ∀ one ∈ tagged, ∀ two ∈ tagged, one.1 = two.1 → one.2.2 = two.2.2) :
    ∀ one ∈ tagged.map Prod.snd, ∀ two ∈ tagged.map Prod.snd, one.1 = two.1 → one.2 = two.2 := by
  intro one oneMem two twoMem keys
  obtain ⟨first, firstMem, rfl⟩ := mem_map.mp oneMem
  obtain ⟨second, secondMem, rfl⟩ := mem_map.mp twoMem
  refine same first firstMem second secondMem ?_
  exact (kinds first firstMem).unique (keys ▸ kinds second secondMem)

/-- Effects that write one trade, which they touch. -/
theorem Effects.Owned.one_trade {context : PlanContext} {effects : Effects} (next : Trade)
    (plain : colon ∉ next.seller ∧ colon ∉ next.buyer)
    (touches : effects.touches = [utf8 "trade:" ++ next.id])
    (writes : effects.writes = [(tradeKey next.id, some (.trade next))])
    (pairs : ∀ pair ∈ effects.pairs,
      pair.1 = pairKey pair.2.1 pair.2.2 ∧ colon ∉ pair.2.1 ∧ colon ∉ pair.2.2)
    (noOffer : effects.newOffer = none) (noPending : effects.newPending = none) :
    effects.Owned context where
  touches := by rw [touches]; simp
  owned := by
    rw [writes, touches]
    exact forall_mem_singleton.mpr (Or.inl ⟨.trade, _, mem_singleton_self _, .trade next.id⟩)
  agree := by
    rw [writes]
    intro one oneMem two twoMem _
    rw [mem_singleton.mp oneMem, mem_singleton.mp twoMem]
  pairs := pairs
  plain := by
    rw [writes]
    intro write mem value isValue
    obtain rfl := mem_singleton.mp mem
    cases isValue
    exact plain
  offers := by simp [noOffer]
  pending := by simp [noPending]

namespace PlanContext

variable {env : Env} {context : PlanContext} {tx : LedgerTx} {effects : Effects}

theorem offerEffects_owned (sender : colon ∉ tx.sender)
    (passed : context.offerEffects env tx = .ok effects) : effects.Owned context := by
  simp only [offerEffects, bind_eq_ok_iff, ensure_eq_ok_iff, mapError_eq_ok_iff,
    exists_const] at passed
  obtain ⟨body, -, checked, valid, -, -, -, done⟩ := passed
  simp only [validateOfferBody, bind_eq_ok_iff, ensure_eq_ok_iff, need_eq_ok_iff,
    exists_const] at valid
  obtain ⟨info, listed, isFiat, -⟩ := valid
  cases done
  have asset := plain_asset listed
  have fiat := plain_fiat isFiat
  refine ⟨by simp, ?_, ?_, by simp, ?_, ?_, by simp⟩
  · intro write mem
    refine Or.inl ?_
    simp only [mem_cons, not_mem_nil, or_false] at mem
    rcases mem with rfl | rfl | rfl
    · exact ⟨.book, _, mem_singleton_self _, .book asset fiat _ _ _⟩
    · exact ⟨.makerOffers, _, mem_singleton_self _, .makerOffer sender _⟩
    · exact ⟨.offer, _, mem_singleton_self _, .offer _⟩
  · refine agree_of_kinds [(.book, _), (.makerOffers, _), (.offer, _)] ?_ (by simp)
    simp [ofKind_bookKey, ofKind_makerOfferKey, ofKind_offerKey]
  · simp [Stored.Plain, sender, asset, fiat]
  · rintro addr existing isNew
    cases isNew
    rfl

theorem offerCloseEffects_owned (stored : context.store.Plain)
    (passed : context.offerCloseEffects env tx = .ok effects) : effects.Owned context := by
  simp only [offerCloseEffects, knownOffer, bind_eq_ok_iff, ensure_eq_ok_iff, need_eq_ok_iff,
    exists_const] at passed
  obtain ⟨body, -, -, -, offer, found, -, -, done⟩ := passed
  obtain ⟨maker, asset, fiat⟩ := stored.offer found
  cases done
  refine ⟨by simp, ?_, ?_, by simp, ?_, by simp, by simp⟩
  · intro write mem
    refine Or.inl ?_
    simp only [mem_cons, not_mem_nil, or_false] at mem
    rcases mem with rfl | rfl | rfl
    · exact ⟨.offer, _, mem_singleton_self _, .offer _⟩
    · exact ⟨.makerOffers, _, mem_singleton_self _, .makerOffer maker _⟩
    · exact ⟨.book, _, mem_singleton_self _, .book asset fiat _ _ _⟩
  · refine agree_of_kinds [(.offer, _), (.makerOffers, _), (.book, _)] ?_ (by simp)
    simp [ofKind_bookKey, ofKind_makerOfferKey, ofKind_offerKey]
  · simp [Stored.Plain, maker, asset, fiat]

theorem withArbiter_parties {trade next : Trade}
    (passed : context.withArbiter env info trade = .ok next) :
    next.seller = trade.seller ∧ next.buyer = trade.buyer := by
  unfold withArbiter at passed
  split at passed
  · obtain rfl := Except.ok.inj passed
    exact ⟨rfl, rfl⟩
  · simp only [bind_eq_ok_iff, ensure_eq_ok_iff, exists_const] at passed
    cases passed.2
    exact ⟨rfl, rfl⟩

section

variable (stored : context.store.Plain)

include stored

theorem tradeOpenEffects_owned (sender : colon ∉ tx.sender)
    (passed : context.tradeOpenEffects env tx = .ok effects) : effects.Owned context := by
  simp only [tradeOpenEffects, knownOffer, bind_eq_ok_iff, ensure_eq_ok_iff, need_eq_ok_iff,
    exists_const] at passed
  obtain ⟨body, -, -, -, offer, found, -, -, info, -, -, -, -, -, -, -, payout, -, -,
    next, assigned, rest⟩ := passed
  obtain ⟨maker, -⟩ := stored.offer found
  obtain ⟨seller, buyer⟩ := withArbiter_parties assigned
  -- the parties are the maker of the offer and its taker
  have parties : colon ∉ next.seller ∧ colon ∉ next.buyer := by
    rw [seller, buyer, newTrade]
    cases offer.side with
    | sell => exact ⟨maker, sender⟩
    | buy => exact ⟨sender, maker⟩
  have owned : ∀ write ∈ [(tradeKey next.id, some (Stored.trade next)),
      (userTradeKey next.seller context.height next.id, some Stored.mark),
      (userTradeKey next.buyer context.height next.id, some Stored.mark)],
      (∃ kind, ∃ touch ∈ [utf8 "trade:" ++ next.id], Owns kind touch write.1) ∨
        (MarkKey write.1 ∧ write.2 = some .mark) := by
    intro write mem
    simp only [mem_cons, not_mem_nil, or_false] at mem
    rcases mem with rfl | rfl | rfl
    · exact Or.inl ⟨.trade, _, mem_singleton_self _, .trade _⟩
    · exact Or.inr ⟨Or.inl (ofKind_userTradeKey _ _ _), rfl⟩
    · exact Or.inr ⟨Or.inl (ofKind_userTradeKey _ _ _), rfl⟩
  have agree := agree_of_kinds [(.trade, (tradeKey next.id, some (Stored.trade next))),
    (.userTrades, (userTradeKey next.seller context.height next.id, some Stored.mark)),
    (.userTrades, (userTradeKey next.buyer context.height next.id, some Stored.mark))]
    (by simp [ofKind_tradeKey, ofKind_userTradeKey]) (by simp)
  split at rest
  case isTrue =>
    cases rest
    exact ⟨by simp, owned, agree, by simp, by simp [Stored.Plain, parties], by simp, by simp⟩
  case isFalse =>
  simp only [bind_eq_ok_iff, ensure_eq_ok_iff, exists_const] at rest
  cases rest.2
  refine ⟨by simp, owned, agree, by simp, by simp [Stored.Plain, parties], by simp, ?_⟩
  rintro addr existing isNew
  cases isNew
  rfl

theorem lockEffects_owned (passed : context.lockEffects env tx = .ok effects) :
    effects.Owned context := by
  simp only [lockEffects, bind_eq_ok_iff, ensure_eq_ok_iff, exists_const] at passed
  obtain ⟨body, -, trade, known, -, -, -, rest⟩ := passed
  have parties := stored.trade (knownTrade_ok known)
  split at rest
  case isTrue =>
    simp only [bind_eq_ok_iff, ensure_eq_ok_iff, exists_const] at rest
    cases rest.2.2
    exact .one_trade { trade with state := .locked, lockedAt := some context.now } parties rfl rfl
      (by simp [tradeWrite]) rfl rfl
  case isFalse =>
    obtain ⟨reference, -, done⟩ := bind_eq_ok_iff.mp rest
    cases done
    exact .one_trade { trade with
      escrow := some reference, state := .locked, lockedAt := some context.now } parties rfl rfl
      (by simp [tradeWrite]) rfl rfl

theorem cancelEffects_owned (passed : context.cancelEffects env tx = .ok effects) :
    effects.Owned context := by
  simp only [cancelEffects, bind_eq_ok_iff, ensure_eq_ok_iff, exists_const] at passed
  obtain ⟨body, -, trade, known, -, role, -, -, done⟩ := passed
  cases done
  have parties := stored.trade (knownTrade_ok known)
  exact .one_trade _ (by exact parties) rfl rfl (by simp [tradeWrite]) rfl rfl

theorem paidEffects_owned (passed : context.paidEffects env tx = .ok effects) :
    effects.Owned context := by
  simp only [paidEffects, bind_eq_ok_iff, ensure_eq_ok_iff, exists_const] at passed
  obtain ⟨body, -, trade, known, -, -, -, done⟩ := passed
  cases done
  have parties := stored.trade (knownTrade_ok known)
  exact .one_trade _ (by exact parties) rfl rfl (by simp [tradeWrite]) rfl rfl

theorem disputeEffects_owned (passed : context.disputeEffects env tx = .ok effects) :
    effects.Owned context := by
  simp only [disputeEffects, bind_eq_ok_iff, ensure_eq_ok_iff, exists_const] at passed
  obtain ⟨body, -, -, trade, known, role, -, -, -, -, arbiter, -, done⟩ := passed
  have parties := stored.trade (knownTrade_ok known)
  cases done
  refine ⟨by simp, ?_, ?_, by simp, by simp [Stored.Plain, parties], by simp, by simp⟩
  · intro write mem
    rcases mem_pair.mp mem with rfl | rfl
    · exact Or.inl ⟨.trade, _, mem_singleton_self _, .trade _⟩
    · exact Or.inr ⟨Or.inr (ofKind_arbiterCaseKey _ _ _), rfl⟩
  · refine agree_of_kinds [(.trade, _), (.arbiterCases, _)] ?_ (by simp)
    simp [ofKind_tradeKey, ofKind_arbiterCaseKey]

end

theorem feedbackEffects_owned (passed : context.feedbackEffects env tx = .ok effects) :
    effects.Owned context := by
  simp only [feedbackEffects, bind_eq_ok_iff, ensure_eq_ok_iff, exists_const] at passed
  obtain ⟨body, -, -, trade, -, -, role, -, -, -, -, done⟩ := passed
  cases done
  refine ⟨by simp, ?_, by simp, by simp, by simp [Stored.Plain], by simp, by simp⟩
  exact forall_mem_singleton.mpr (Or.inl ⟨.feedback, _, mem_singleton_self _, .feedback _ _⟩)

theorem arbiterEffects_owned (passed : context.arbiterEffects env tx = .ok effects) :
    effects.Owned context := by
  simp only [arbiterEffects, bind_eq_ok_iff, ensure_eq_ok_iff, exists_const] at passed
  obtain ⟨body, -, -, -, -, -, -, -, -, done⟩ := passed
  cases done
  refine ⟨by simp, ?_, by simp, by simp, by simp [Stored.Plain], by simp, by simp⟩
  exact forall_mem_singleton.mpr (Or.inl ⟨.arbiterAddr, _, mem_singleton_self _, .arbiter _⟩)

theorem settleEffects_owned (stored : context.store.Plain)
    (passed : context.settleEffects env tx = .ok effects) : effects.Owned context := by
  simp only [settleEffects, bind_eq_ok_iff, ensure_eq_ok_iff, mapError_eq_ok_iff,
    exists_const] at passed
  obtain ⟨body, -, trade, known, -, -, -, -, -, -, -, -, -, done⟩ := passed
  have parties := stored.trade (knownTrade_ok known)
  cases done
  refine .one_trade (context.settled tx trade body) parties rfl rfl ?_ rfl rfl
  intro pair mem
  simp only [settlePairs] at mem
  split at mem
  case h_1 => cases mem
  case h_2 =>
  split at mem
  case isTrue =>
    obtain rfl := mem_singleton.mp mem
    exact ⟨rfl, parties⟩
  case isFalse => cases mem

/-- What a transaction writes belongs to what it touches. -/
theorem effects_owned (addresses : env.PlainAddresses) (stored : context.store.Plain)
    (passed : context.effects env tx = .ok effects) : effects.Owned context := by
  unfold PlanContext.effects at passed
  split at passed
  · exact settleEffects_owned stored passed
  simp only [signedEffects, bind_eq_ok_iff, mapError_eq_ok_iff] at passed
  obtain ⟨⟨⟩, shape, passed⟩ := passed
  have sender := plain_sender addresses shape
  split at passed
  · exact offerEffects_owned sender passed
  split at passed
  · exact offerCloseEffects_owned stored passed
  split at passed
  · exact tradeOpenEffects_owned stored sender passed
  split at passed
  · exact lockEffects_owned stored passed
  split at passed
  · exact cancelEffects_owned stored passed
  split at passed
  · exact paidEffects_owned stored passed
  split at passed
  · exact disputeEffects_owned stored passed
  split at passed
  · exact feedbackEffects_owned passed
  split at passed
  · exact arbiterEffects_owned passed
  · cases passed

end PlanContext

end EgoChain.Market
