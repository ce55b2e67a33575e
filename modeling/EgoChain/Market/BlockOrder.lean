import EgoChain.Market.Confluence
import EgoChain.Market.TradeHistory

/-!
# The order of admission

Two transactions that a planner admits one after the other are admitted the other
way round too, and the planners they end in agree on everything later admissions
and the finished plan read.  So a block that one order accepts is accepted in
every order, with the same plan.
-/

namespace EgoChain.Market

open EgoChain.Foundations EgoChain.Ledger List KeyedMap

variable {env : Env} {planner one two : Planner} {tx : LedgerTx} {txs : List LedgerTx}
  {committed : Text → Bool} {store : Store}
  {effects : Effects} {write : StoreWrite} {block : MarketBlock} {view : PlanView}

namespace Planner

/-! ## Admission -/

/-- There is room for one more open record of the account. -/
def Room (counts : KeyedMap Text Nat) (limit : Nat) (claim : Option (Text × Nat)) : Prop :=
  ∀ addr existing, claim = some (addr, existing) → existing + (counts.lookup addr).getD 0 < limit

variable {counts : KeyedMap Text Nat} {limit : Nat} {context : PlanContext} {last : Planner}
  {claim : Option (Text × Nat)}

theorem checkRoom_eq_ok_iff {tail : Text} {result : Unit} :
    checkRoom counts limit tail claim = .ok result ↔ Room counts limit claim := by
  cases claim with
  | none =>
    constructor
    · intro _ addr existing isClaim
      cases isClaim
    · exact fun _ => rfl
  | some entry =>
    rw [checkRoom, ensure_eq_ok_iff]
    constructor
    · rintro room addr existing ⟨⟩
      exact room
    · exact fun room => room entry.1 entry.2 rfl

theorem getD_lookup_count (counts : KeyedMap Text Nat) (claim : Option (Text × Nat)) (addr : Text) :
    ((count counts claim).lookup addr).getD 0 =
      (counts.lookup addr).getD 0 + if claim.map Prod.fst = some addr then 1 else 0 := by
  cases claim with
  | none => simp [count]
  | some entry =>
    rw [count]
    by_cases same : addr = entry.1
    · subst same
      simp
    · simp [same, Ne.symm same]

/-- The planner admits the transaction, with these effects. -/
structure Admits (env : Env) (planner : Planner) (tx : LedgerTx) (effects : Effects) : Prop where
  judged : planner.toPlanContext.effects env tx = .ok effects
  free : ∀ touch ∈ effects.touches, touch ∉ planner.touched
  offers : Room planner.offersByMaker maxOpenOffersPerMaker effects.newOffer
  pending : Room planner.pendingByTaker maxPendingTradesPerTaker effects.newPending

def takeIn (planner : Planner) (tx : LedgerTx) (effects : Effects) : Planner :=
  { planner.merge effects with admitted := (planner.merge effects).admitted ++ [tx.hash] }

theorem admitTx_eq_ok_iff {next : Planner} (touches : touchesMarket tx = true) :
    planner.admitTx env tx = .ok next ↔
      ∃ effects, planner.Admits env tx effects ∧ next = planner.takeIn tx effects := by
  rw [admitTx, if_pos touches, bind_eq_ok_iff]
  constructor
  · rintro ⟨effects, judged, passed⟩
    split at passed
    case h_1 => cases passed
    case h_2 untouched =>
    simp only [unit_bind_eq_ok_iff, checkRoom_eq_ok_iff] at passed
    obtain ⟨offers, pending, done⟩ := passed
    refine ⟨effects, ⟨judged, fun touch mem => ?_, offers, pending⟩, (Except.ok.inj done).symm⟩
    simpa using List.find?_eq_none.mp untouched touch mem
  · rintro ⟨effects, admits, rfl⟩
    refine ⟨effects, admits.judged, ?_⟩
    have untouched : (effects.touches.find? fun touch => touch ∈ planner.touched) = none :=
      List.find?_eq_none.mpr fun touch mem => by simpa using admits.free touch mem
    rw [untouched]
    simp only [unit_bind_eq_ok_iff, checkRoom_eq_ok_iff]
    exact ⟨admits.offers, admits.pending, rfl⟩

/-- Merging a pair leaves alone what later admissions ask for. -/
theorem mergePairs_books (planner : Planner) (pairs : List (Text × Text × Text)) :
    (pairs.foldl mergePair planner).touched = planner.touched ∧
      (pairs.foldl mergePair planner).offersByMaker = planner.offersByMaker ∧
      (pairs.foldl mergePair planner).pendingByTaker = planner.pendingByTaker := by
  induction pairs generalizing planner with
  | nil => exact ⟨rfl, rfl, rfl⟩
  | cons pair rest ih =>
    obtain ⟨touched, offers, pending⟩ := ih _
    rw [foldl_cons, touched, offers, pending]
    unfold mergePair
    split <;> exact ⟨rfl, rfl, rfl⟩

section Admit

variable (planner) (tx) (effects)

@[simp]
theorem touched_takeIn : (planner.takeIn tx effects).touched = effects.touches ++ planner.touched :=
  (mergePairs_books _ effects.pairs).1

@[simp]
theorem offersByMaker_takeIn :
    (planner.takeIn tx effects).offersByMaker = count planner.offersByMaker effects.newOffer :=
  (mergePairs_books _ effects.pairs).2.1

@[simp]
theorem pendingByTaker_takeIn :
    (planner.takeIn tx effects).pendingByTaker = count planner.pendingByTaker effects.newPending :=
  (mergePairs_books _ effects.pairs).2.2

@[simp]
theorem context_takeIn : (planner.takeIn tx effects).toPlanContext = planner.toPlanContext :=
  (view_merge planner effects).2

theorem view_takeIn : (planner.takeIn tx effects).view =
      effects.changes.foldl (PlanView.change planner.height) planner.view :=
  (view_merge planner effects).1

theorem height_takeIn : (planner.takeIn tx effects).height = planner.height :=
  congrArg PlanContext.height (context_takeIn planner tx effects)

end Admit

/-! ## Planners that agree -/

/-- Two planners that say the same and admit the same. -/
structure Agrees (one two : Planner) : Prop where
  context : one.toPlanContext = two.toPlanContext
  view : one.view = two.view
  touched : ∀ touch, touch ∈ one.touched ↔ touch ∈ two.touched
  offers : ∀ addr, (one.offersByMaker.lookup addr).getD 0 = (two.offersByMaker.lookup addr).getD 0
  pending : ∀ addr, (one.pendingByTaker.lookup addr).getD 0 = (two.pendingByTaker.lookup addr).getD 0

theorem Agrees.refl (planner : Planner) : planner.Agrees planner :=
  ⟨rfl, rfl, fun _ => Iff.rfl, fun _ => rfl, fun _ => rfl⟩

theorem Agrees.trans {three : Planner} (first : one.Agrees two) (second : two.Agrees three) :
    one.Agrees three :=
  ⟨first.context.trans second.context, first.view.trans second.view,
    fun touch => (first.touched touch).trans (second.touched touch),
    fun addr => (first.offers addr).trans (second.offers addr),
    fun addr => (first.pending addr).trans (second.pending addr)⟩

theorem Room.congr {others : KeyedMap Text Nat} (room : Room counts limit claim)
    (same : ∀ addr, (counts.lookup addr).getD 0 = (others.lookup addr).getD 0) :
    Room others limit claim := by
  intro addr existing isClaim
  rw [← same]
  exact room addr existing isClaim

theorem Agrees.admits
    (agrees : one.Agrees two) (admits : one.Admits env tx effects) : two.Admits env tx effects where
  judged := agrees.context ▸ admits.judged
  free touch mem := fun isTouched => admits.free touch mem ((agrees.touched touch).mpr isTouched)
  offers := admits.offers.congr agrees.offers
  pending := admits.pending.congr agrees.pending

theorem Agrees.takeIn (agrees : one.Agrees two) (tx : LedgerTx) (effects : Effects) :
    (one.takeIn tx effects).Agrees (two.takeIn tx effects) where
  context := by rw [context_takeIn, context_takeIn, agrees.context]
  view := by
    rw [view_takeIn, view_takeIn, agrees.view, congrArg PlanContext.height agrees.context]
  touched touch := by simp [agrees.touched touch]
  offers addr := by simp [getD_lookup_count, agrees.offers addr]
  pending addr := by simp [getD_lookup_count, agrees.pending addr]

/-! ## Two transactions the other way round -/

/-- The first of two claims finds room after the second. -/
theorem Room.swap {first second : Option (Text × Nat)} (room : Room counts limit first)
    (later : Room (count counts first) limit second)
    (agree : ∀ addr one two, first = some (addr, one) → second = some (addr, two) → one = two) :
    Room counts limit second ∧ Room (count counts second) limit first := by
  constructor
  · intro addr existing isClaim
    have there := later addr existing isClaim
    rw [getD_lookup_count] at there
    omega
  · intro addr existing isClaim
    rw [getD_lookup_count]
    have alone := room addr existing isClaim
    split
    case isFalse => exact alone
    case isTrue same =>
    obtain ⟨⟨name, other⟩, isOther, isName⟩ := Option.map_eq_some_iff.mp same
    obtain rfl : name = addr := isName
    obtain rfl := agree name existing other isClaim isOther
    have there := later name existing isOther
    rw [getD_lookup_count, isClaim, if_pos (by rfl)] at there
    exact there

theorem not_pair_of_owned (owned : effects.Owned context) (mem : write ∈ effects.writes) :
    ¬ OfKind .pair write.1 := by
  intro isPair
  rcases owned.owned write mem with ⟨kind, touch, -, owns⟩ | ⟨trades | cases', -⟩
  · obtain rfl := owns.ofKind.unique isPair
    cases owns
  · cases trades.unique isPair
  · cases cases'.unique isPair

/-- Writes of effects that touch different records agree where they meet. -/
theorem writes_agree {one two : Effects} (owned : one.Owned context) (ownedToo : two.Owned context)
    (apart : ∀ touch ∈ one.touches, touch ∉ two.touches) {first second : StoreWrite}
    (mem : first ∈ one.writes) (memToo : second ∈ two.writes) (same : first.1 = second.1) :
    first.2 = second.2 := by
  rcases owned.owned first mem with ⟨kind, touch, touches, owns⟩ | ⟨isMark, marks⟩
  · rcases ownedToo.owned second memToo with ⟨other, again, touchesToo, ownsToo⟩ | ⟨isMark, -⟩
    · rw [← same] at ownsToo
      exact absurd (owns.unique ownsToo ▸ touchesToo) (apart touch touches)
    · exact absurd (same ▸ isMark) owns.not_markKey
  · rcases ownedToo.owned second memToo with ⟨other, again, -, ownsToo⟩ | ⟨-, marksToo⟩
    · exact absurd (same ▸ isMark) ownsToo.not_markKey
    · rw [marks, marksToo]

/-- Changes fit together when the writes among them agree. -/
theorem changes_fit {one two : Effects} (owned : one.Owned context) (ownedToo : two.Owned context)
    (agree : ∀ first ∈ one.writes, ∀ second ∈ two.writes, first.1 = second.1 → first.2 = second.2) :
    ∀ first ∈ one.changes, ∀ second ∈ two.changes, first.Fits second := by
  intro first mem second memToo
  simp only [Effects.changes, mem_append, mem_map, mem_singleton] at mem memToo
  rcases mem with ((⟨write, inWrites, rfl⟩ | ⟨-, -, rfl⟩) | ⟨pair, inPairs, rfl⟩) | rfl <;>
    rcases memToo with ((⟨other, inOthers, rfl⟩ | ⟨-, -, rfl⟩) | ⟨match', inMatches, rfl⟩) | rfl <;>
    try trivial
  · exact agree write inWrites other inOthers
  · intro same
    obtain ⟨isKey, -⟩ := ownedToo.pairs match' inMatches
    exact not_pair_of_owned owned inWrites (same ▸ isKey ▸ ofKind_pairKey _ _)
  · intro same
    obtain ⟨isKey, -⟩ := owned.pairs pair inPairs
    exact not_pair_of_owned ownedToo inOthers (same ▸ isKey ▸ ofKind_pairKey _ _)
  intro same
  obtain ⟨isKey, seller, buyer⟩ := owned.pairs pair inPairs
  obtain ⟨isKeyToo, sellerToo, buyerToo⟩ := ownedToo.pairs match' inMatches
  rw [isKey, isKeyToo] at same
  rcases pairKey_inj seller buyer sellerToo buyerToo same with ⟨one, two⟩ | ⟨one, two⟩
  · exact Or.inl (Prod.ext one two)
  · exact Or.inr ⟨one, two⟩

section Swap

variable {first second : LedgerTx} {one two : Effects}

theorem view_swap (owned : one.Owned context) (ownedToo : two.Owned context)
    (apart : ∀ touch ∈ one.touches, touch ∉ two.touches) :
    ((planner.takeIn first one).takeIn second two).view =
      ((planner.takeIn second two).takeIn first one).view := by
  rw [view_takeIn, view_takeIn, view_takeIn, view_takeIn, height_takeIn, height_takeIn,
    ← foldl_append, ← foldl_append]
  -- changes that fit together say the same in every order
  refine perm_append_comm.foldl_eq' (fun change mem other memToo view =>
    PlanView.change_comm planner.height view ?_) _
  have here := changes_fit owned owned owned.agree
  have there := changes_fit ownedToo ownedToo ownedToo.agree
  have across := changes_fit owned ownedToo fun _ mem _ => writes_agree owned ownedToo apart mem
  have back := changes_fit ownedToo owned fun write mem other memToo same =>
    (writes_agree owned ownedToo apart memToo mem same.symm).symm
  rcases mem_append.mp mem with mem | mem <;>
    rcases mem_append.mp memToo with memToo | memToo
  · exact here change mem other memToo
  · exact across change mem other memToo
  · exact back change mem other memToo
  · exact there change mem other memToo

/-- Two transactions admitted one after the other are admitted the other way round. -/
theorem Admits.swap (addresses : env.PlainAddresses) (stored : planner.store.Plain)
    (admits : planner.Admits env first one)
    (later : (planner.takeIn first one).Admits env second two) :
    planner.Admits env second two ∧ (planner.takeIn second two).Admits env first one ∧
      ((planner.takeIn first one).takeIn second two).Agrees
        ((planner.takeIn second two).takeIn first one) := by
  have judged := later.judged
  rw [context_takeIn] at judged
  have owned := PlanContext.effects_owned addresses stored admits.judged
  have ownedToo := PlanContext.effects_owned addresses stored judged
  have free : ∀ touch ∈ two.touches, touch ∉ one.touches ∧ touch ∉ planner.touched := by
    intro touch mem
    simpa using later.free touch mem
  have offers := admits.offers.swap (offersByMaker_takeIn planner first one ▸ later.offers)
    fun addr old new isOld isNew => (owned.offers addr old isOld).trans
      (ownedToo.offers addr new isNew).symm
  have pending := admits.pending.swap (pendingByTaker_takeIn planner first one ▸ later.pending)
    fun addr old new isOld isNew => (owned.pending addr old isOld).trans
      (ownedToo.pending addr new isNew).symm
  refine ⟨⟨judged, fun touch mem => (free touch mem).2, offers.1, pending.1⟩, ?_, ?_⟩
  · refine ⟨by rw [context_takeIn]; exact admits.judged, ?_, ?_, ?_⟩
    · intro touch mem isTouched
      rw [touched_takeIn] at isTouched
      rcases mem_append.mp isTouched with also | before
      · exact (free touch also).1 mem
      · exact admits.free touch mem before
    · rw [offersByMaker_takeIn]
      exact offers.2
    · rw [pendingByTaker_takeIn]
      exact pending.2
  · refine ⟨by simp, view_swap owned ownedToo ?_, ?_, ?_, ?_⟩
    · exact fun touch mem also => (free touch also).1 mem
    · intro touch
      simp only [touched_takeIn, mem_append]
      exact or_left_comm
    · intro addr
      simp only [offersByMaker_takeIn, getD_lookup_count]
      omega
    · intro addr
      simp only [pendingByTaker_takeIn, getD_lookup_count]
      omega

end Swap

/-! ## Lists of transactions -/

/-- Admit all transactions of a list, or stop at the first that is refused. -/
def admitEach (env : Env) (planner : Planner) (txs : List LedgerTx) : Except Refusal Planner :=
  txs.foldlM (fun planner tx => planner.admitTx env tx) planner

theorem admitEach_cons_eq_ok_iff {rest : List LedgerTx} (touches : touchesMarket tx = true) :
    planner.admitEach env (tx :: rest) = .ok last ↔ ∃ effects, planner.Admits env tx effects ∧
        (planner.takeIn tx effects).admitEach env rest = .ok last := by
  unfold admitEach
  rw [foldlM_cons, bind_eq_ok_iff]
  constructor
  · rintro ⟨next, passed, later⟩
    obtain ⟨effects, admits, rfl⟩ := (admitTx_eq_ok_iff touches).mp passed
    exact ⟨effects, admits, later⟩
  · rintro ⟨effects, admits, later⟩
    exact ⟨_, (admitTx_eq_ok_iff touches).mpr ⟨effects, admits, rfl⟩, later⟩

theorem Agrees.admitEach (touches : ∀ tx ∈ txs, touchesMarket tx = true) (agrees : one.Agrees two)
    (passed : one.admitEach env txs = .ok last) :
    ∃ other, two.admitEach env txs = .ok other ∧ last.Agrees other := by
  induction txs generalizing one two with
  | nil =>
    cases passed
    exact ⟨two, rfl, agrees⟩
  | cons tx rest ih =>
    obtain ⟨here, there⟩ := forall_mem_cons.mp touches
    obtain ⟨effects, admits, later⟩ := (admitEach_cons_eq_ok_iff here).mp passed
    obtain ⟨other, passedToo, same⟩ := ih there (agrees.takeIn tx effects) later
    exact ⟨other, (admitEach_cons_eq_ok_iff here).mpr ⟨effects, agrees.admits admits, passedToo⟩, same⟩

/-- What is admitted in one order is admitted in every order. -/
theorem admitEach_perm (addresses : env.PlainAddresses) {others : List LedgerTx}
    (perm : txs.Perm others) (touches : ∀ tx ∈ txs, touchesMarket tx = true)
    (stored : planner.store.Plain) (passed : planner.admitEach env txs = .ok last) :
    ∃ other, planner.admitEach env others = .ok other ∧ last.Agrees other := by
  induction perm generalizing planner last with
  | nil => exact ⟨last, passed, .refl last⟩
  | cons tx _ ih =>
    obtain ⟨here, there⟩ := forall_mem_cons.mp touches
    obtain ⟨effects, admits, later⟩ := (admitEach_cons_eq_ok_iff here).mp passed
    have storedToo : (planner.takeIn tx effects).store.Plain := by
      rw [context_takeIn]
      exact stored
    obtain ⟨other, passedToo, same⟩ := ih there storedToo later
    exact ⟨other, (admitEach_cons_eq_ok_iff here).mpr ⟨effects, admits, passedToo⟩, same⟩
  | swap second first rest =>
    obtain ⟨one, touchesRest⟩ := forall_mem_cons.mp touches
    obtain ⟨two, touchesRest⟩ := forall_mem_cons.mp touchesRest
    obtain ⟨effects, admits, later⟩ := (admitEach_cons_eq_ok_iff one).mp passed
    obtain ⟨more, admitsToo, later⟩ := (admitEach_cons_eq_ok_iff two).mp later
    obtain ⟨before, after, agrees⟩ := admits.swap addresses stored admitsToo
    obtain ⟨other, passedToo, same⟩ := agrees.admitEach touchesRest later
    refine ⟨other, (admitEach_cons_eq_ok_iff two).mpr ⟨more, before, ?_⟩, same⟩
    exact (admitEach_cons_eq_ok_iff one).mpr ⟨effects, after, passedToo⟩
  | trans first _ ihFirst ihSecond =>
    obtain ⟨middle, passedMiddle, same⟩ := ihFirst touches stored passed
    have touchesToo := fun tx mem => touches tx (first.mem_iff.mpr mem)
    obtain ⟨other, passedOther, sameToo⟩ := ihSecond touchesToo stored passedMiddle
    exact ⟨other, passedOther, same.trans sameToo⟩

theorem admitAll_of_admitEach (passed : planner.admitEach env txs = .ok last) :
    admitAll env planner txs = (last, []) := by
  induction txs generalizing planner with
  | nil =>
    cases passed
    rfl
  | cons tx rest ih =>
    rw [admitEach, foldlM_cons, bind_eq_ok_iff] at passed
    obtain ⟨next, here, later⟩ := passed
    rw [admitAll, here]
    exact ih later

theorem admitEach_of_admitFresh (fresh : ∀ tx ∈ txs, committed tx.hash = false)
    (passed : admitFresh env committed planner txs = .ok last) :
    planner.admitEach env txs = .ok last := by
  induction txs generalizing planner with
  | nil =>
    cases passed
    rfl
  | cons tx rest ih =>
    obtain ⟨here, there⟩ := forall_mem_cons.mp fresh
    rw [admitFresh, here] at passed
    rw [admitEach, foldlM_cons]
    cases judged : planner.admitTx env tx with
    | ok next =>
      simp only [judged] at passed
      exact ih there passed
    | error refusal => simp [judged] at passed

end Planner

/-! ## The finished plan -/

/-- The writes of a plan by key; a later write of a key replaces an earlier one. -/
def lastWrites (writes : List StoreWrite) : KeyedMap Text (Option Stored) :=
  writes.foldl (fun map write => map.insert write.1 write.2) ∅

theorem lookup_foldl_insert_congr (writes : List StoreWrite)
    {one two : KeyedMap Text (Option Stored)} (same : ∀ key, one.lookup key = two.lookup key)
    (key : Text) :
    (writes.foldl (fun map write => map.insert write.1 write.2) one).lookup key =
      (writes.foldl (fun map write => map.insert write.1 write.2) two).lookup key := by
  induction writes generalizing one two with
  | nil => exact same key
  | cons write rest ih =>
    refine ih fun other => ?_
    rw [lookup_insert_eq, lookup_insert_eq, same]

/-- Planners that agree finish with the same writes. -/
theorem Planner.Agrees.finish (agrees : one.Agrees two) :
    (lastWrites one.finish).ascending = (lastWrites two.finish).ascending := by
  have profiles :=
    ascending_congr fun addr => congrFun (congrArg PlanView.profiles agrees.view) addr
  have stores : one.store = two.store := congrArg PlanContext.store agrees.context
  have totals : one.totalsWrites = two.totalsWrites := by
    unfold Planner.totalsWrites Planner.newTotals
    rw [stores, show one.escrowIn = two.escrowIn from congrArg PlanView.escrowIn agrees.view,
      show one.escrowOut = two.escrowOut from congrArg PlanView.escrowOut agrees.view,
      show one.opened = two.opened from congrArg PlanView.opened agrees.view,
      show one.closed = two.closed from congrArg PlanView.closed agrees.view]
  refine ascending_congr fun key => ?_
  unfold lastWrites Planner.finish
  rw [foldl_append, foldl_append, foldl_append, foldl_append, profiles, stores, totals]
  refine lookup_foldl_insert_congr _ (lookup_foldl_insert_congr _ ?_) key
  intro other
  rw [foldl_map, foldl_map, lookup_foldl_insert _ one.writes.nodupKeys,
    lookup_foldl_insert _ two.writes.nodupKeys]
  have written := congrFun (congrArg PlanView.writes agrees.view) other
  exact congrArg (fun found => Option.or found _) written

/-! ## Stores that blocks lead to -/

def PlainValue (value : Option Stored) : Prop := ∀ stored ∈ value, stored.Plain

theorem Store.Plain.writes (plain : store.Plain) {writes : List StoreWrite}
    (values : ∀ write ∈ writes, PlainValue write.2) : (writes.foldl Store.write store).Plain := by
  induction writes generalizing store with
  | nil => exact plain
  | cons write rest ih =>
    obtain ⟨here, there⟩ := forall_mem_cons.mp values
    refine ih ?_ there
    intro key value found
    rw [Store.lookup_write] at found
    split at found
    · exact here value found
    · exact plain key value found

/-- The values written by a plan name accounts without a colon. -/
def PlanView.Plain (view : PlanView) : Prop :=
  ∀ key value, view.writes key = some value → PlainValue value

theorem PlanView.Plain.put (plain : view.Plain) (value : PlainValue write.2) :
    (view.put write).Plain := by
  intro key found isFound
  change Function.update view.writes write.1 (some write.2) key = some found at isFound
  rw [Function.update_apply] at isFound
  split at isFound
  · cases isFound
    exact value
  · exact plain key found isFound

theorem PlanView.Plain.change (plain : view.Plain) (height : Nat)
    {change : PlanChange} (value : ∀ write, change = .put write → PlainValue write.2) :
    (view.change height change).Plain := by
  cases change with
  | put write => exact plain.put (value write rfl)
  | absorb entry | flow => exact plain
  | pair accounts =>
    unfold PlanView.change
    dsimp only
    split
    · exact plain
    · have marked : PlainValue (some (Stored.height height)) := by
        rintro stored ⟨⟩
        trivial
      have listed := plain
      have written : (view.mark height accounts.1).Plain := listed.put marked
      exact written

theorem PlanView.Plain.changes (plain : view.Plain) (height : Nat)
    {changes : List PlanChange} (values : ∀ write, .put write ∈ changes → PlainValue write.2) :
    (changes.foldl (PlanView.change height) view).Plain := by
  induction changes generalizing view with
  | nil => exact plain
  | cons change rest ih =>
    refine ih (plain.change height ?_) fun write mem => values write (mem_cons_of_mem _ mem)
    rintro write rfl
    exact values write mem_cons_self

theorem Planner.plain_takeIn (addresses : env.PlainAddresses) (stored : planner.store.Plain)
    (plain : planner.view.Plain) (admits : planner.Admits env tx effects) :
    (planner.takeIn tx effects).view.Plain := by
  have owned := PlanContext.effects_owned addresses stored admits.judged
  rw [view_takeIn]
  refine plain.changes planner.height ?_
  intro write mem
  simp only [Effects.changes, mem_append, mem_map, mem_singleton,
    PlanChange.put.injEq, exists_eq_right, reduceCtorEq, and_false, exists_false, or_false] at mem
  exact owned.plain write mem

theorem Planner.plain_admitAll (addresses : env.PlainAddresses) (txs : List LedgerTx)
    (stored : planner.store.Plain) (plain : planner.view.Plain) :
    (admitAll env planner txs).1.view.Plain ∧
      (admitAll env planner txs).1.toPlanContext = planner.toPlanContext := by
  induction txs generalizing planner with
  | nil => exact ⟨plain, rfl⟩
  | cons tx rest ih =>
    unfold admitAll
    cases judged : planner.admitTx env tx with
    | error refusal => exact ih stored plain
    | ok next =>
      by_cases touches : touchesMarket tx = true
      · obtain ⟨effects, admits, rfl⟩ := (admitTx_eq_ok_iff touches).mp judged
        have same := context_takeIn planner tx effects
        have storedToo : (planner.takeIn tx effects).store.Plain := by
          rw [same]
          exact stored
        obtain ⟨last, context⟩ := ih storedToo (plain_takeIn addresses stored plain admits)
        exact ⟨last, context.trans same⟩
      · rw [admitTx, if_neg touches] at judged
        cases judged
        exact ih stored plain

theorem profileWrites_values (store : Store) (entry : Text × Profile) :
    ∀ write ∈ Planner.profileWrites store entry, PlainValue write.2 := by
  intro write mem value isValue
  simp only [Planner.profileWrites] at mem
  split at mem
  · cases mem
  rcases mem_cons.mp mem with rfl | mem
  · cases isValue
    trivial
  split at mem
  · cases mem
  rcases mem_append.mp mem with mem | mem <;> split at mem
  · obtain rfl := mem_singleton.mp mem
    cases isValue
  · cases mem
  · obtain rfl := mem_singleton.mp mem
    cases isValue
    trivial
  · cases mem

theorem Planner.finish_values (plain : planner.view.Plain) :
    ∀ write ∈ planner.finish, PlainValue write.2 := by
  intro write mem
  rcases mem_append.mp mem with mem | mem
  · rcases mem_append.mp mem with mem | mem
    · obtain ⟨⟨key, value⟩, inEntries, rfl⟩ := mem_map.mp mem
      exact plain key value ((mem_entries_iff _ _ _).mp inEntries)
    · obtain ⟨entry, -, isWrite⟩ := mem_flatMap.mp mem
      exact profileWrites_values _ _ _ isWrite
  · unfold Planner.totalsWrites at mem
    split at mem
    · obtain rfl := mem_singleton.mp mem
      rintro value ⟨⟩
      trivial
    · cases mem

theorem Store.Plain.afterBlock (addresses : env.PlainAddresses) (plain : store.Plain)
    (block : MarketBlock) : (store.afterBlock env block).Plain := by
  unfold Store.afterBlock planBlock
  split
  · exact plain
  split
  · refine plain.writes (Planner.finish_values ?_)
    refine (Planner.plain_admitAll addresses _ plain ?_).1
    intro key value found
    cases found
  · exact plain

theorem Store.Plain.run (addresses : env.PlainAddresses) (plain : store.Plain)
    (blocks : List MarketBlock) : (store.run env blocks).Plain := by
  induction blocks generalizing store with
  | nil => exact plain
  | cons block rest ih => exact ih (plain.afterBlock addresses block)

theorem Store.empty_plain : Store.Plain ∅ := by
  intro key value found
  cases found

/-! ## Blocks in every order -/

theorem filter_eq_nil_of_not_any (none' : ¬ txs.any touchesMarket = true) :
    txs.filter touchesMarket = [] := by
  rw [filter_eq_nil_iff]
  intro tx mem touches
  exact none' (any_eq_true.mpr ⟨tx, mem, touches⟩)

/-- A validator that accepts the market transactions of a block has admitted them all. -/
theorem admitEach_of_validated (fresh : ∀ tx ∈ block.txs, committed tx.hash = false)
    (accepted : validateBlockMarketTxs env store committed block = .ok ()) :
    ∃ last, (Planner.new store block.height block.now).admitEach env
      (block.txs.filter touchesMarket) = .ok last := by
  unfold validateBlockMarketTxs at accepted
  split at accepted
  case isTrue =>
    simp only [bind_eq_ok_iff] at accepted
    obtain ⟨-, -, last, passed, -⟩ := accepted
    refine ⟨last, Planner.admitEach_of_admitFresh (fun tx mem => ?_) passed⟩
    exact fresh tx (mem_of_mem_filter mem)
  case isFalse none' =>
    rw [filter_eq_nil_of_not_any none']
    exact ⟨_, rfl⟩

theorem planBlock_of_validated (accepted : validateBlockMarketTxs env store committed block = .ok ()) :
    planBlock env store block = ⟨(planned env store block).1.finish, (planned env store block).2⟩ := by
  unfold validateBlockMarketTxs at accepted
  split at accepted
  case isTrue some' =>
    simp only [bind_eq_ok_iff, ensure_eq_ok_iff] at accepted
    obtain ⟨-, active, -⟩ := accepted
    refine planBlock_of_active store ?_ active
    obtain ⟨tx, mem, touches⟩ := any_eq_true.mp some'
    rw [isEmpty_eq_false_iff]
    exact ne_nil_of_mem (mem_filter.mpr ⟨mem, touches⟩)
  case isFalse none' =>
    unfold planBlock planned marketTxs
    rw [filter_eq_nil_of_not_any none', mergeSort_nil]
    rfl

/-- The market transactions of a block that a validator accepts are admitted in every order, the
writer's order among them, and every order finishes with the same writes. -/
theorem market_block_order_free (env : Env) (addresses : env.PlainAddresses)
    (blocks : List MarketBlock) (block : MarketBlock) (committed : Text → Bool)
    (fresh : ∀ tx ∈ block.txs, committed tx.hash = false)
    (accepted : validateBlockMarketTxs env (Store.run env ∅ blocks) committed block = .ok ()) :
    (planBlock env (Store.run env ∅ blocks) block).rejected = [] ∧
      ∀ txs, txs.Perm (block.txs.filter touchesMarket) →
        ∃ planner, admitAll env (Planner.new (Store.run env ∅ blocks) block.height block.now) txs =
            (planner, []) ∧
          (lastWrites planner.finish).ascending =
            (lastWrites (planBlock env (Store.run env ∅ blocks) block).writes).ascending := by
  have plain := Store.empty_plain.run addresses blocks
  generalize Store.run env ∅ blocks = store at plain accepted ⊢
  obtain ⟨last, passed⟩ := admitEach_of_validated fresh accepted
  have every : ∀ txs, txs.Perm (block.txs.filter touchesMarket) →
      ∃ planner, admitAll env (Planner.new store block.height block.now) txs = (planner, []) ∧
        last.Agrees planner := by
    intro txs perm
    have touches : ∀ tx ∈ block.txs.filter touchesMarket, touchesMarket tx = true :=
      fun _ => of_mem_filter
    obtain ⟨planner, passedToo, agrees⟩ := Planner.admitEach_perm addresses perm.symm touches
      (by exact plain) passed
    exact ⟨planner, Planner.admitAll_of_admitEach passedToo, agrees⟩
  obtain ⟨writer, inOrder, agrees⟩ := every _ (perm_marketTxs block)
  have isPlan : planBlock env store block = ⟨writer.finish, []⟩ := by
    rw [planBlock_of_validated accepted]
    unfold planned
    rw [inOrder]
  rw [isPlan]
  refine ⟨rfl, fun txs perm => ?_⟩
  obtain ⟨planner, passedToo, agreesToo⟩ := every txs perm
  exact ⟨planner, passedToo, agreesToo.finish.symm.trans agrees.finish⟩

/-- A market in which no address has a colon. -/
def plainMarket : Env :=
  { plainEnv with addressOf := fun key => utf8 "user" ++ (key.take 1).filter (· ≠ colon) }

theorem plainMarket_addresses : plainMarket.PlainAddresses := by
  intro key mem
  have fixed : colon ∉ utf8 "user" := by decide
  rcases mem_append.mp mem with mem | mem
  · exact fixed mem
  · simp at mem

/-- Two accounts publish an offer each. -/
def twoOffers : List LedgerTx :=
  [plainOp 1 (plainId 100) txOffer (utf8 "buy one") 0,
    plainOp 2 (plainId 99) txOffer (utf8 "buy one") 0]

theorem two_offers_in_any_order :
    ∃ planner, admitAll plainMarket (Planner.new (Store.run plainMarket ∅ oneTrade) 12 1020)
        twoOffers.reverse = (planner, []) ∧
      (lastWrites planner.finish).ascending =
        (lastWrites (planBlock plainMarket (Store.run plainMarket ∅ oneTrade)
          ⟨12, 1020, twoOffers⟩).writes).ascending :=
  (market_block_order_free plainMarket plainMarket_addresses oneTrade ⟨12, 1020, twoOffers⟩
    (fun _ => false) (fun _ _ => rfl) (by decide +kernel)).2 _
    (twoOffers.reverse_perm.trans (List.Perm.of_eq (by decide)))

end EgoChain.Market
