import EgoChain.Shielded.Turnstile

/-!
# Taking blocks back

The four stores are taken back in different ways: the state by the newest copy that
is left, the leaves by their places, the commitments and nullifiers by the removed
transactions.  The first three come back as they were.  A nullifier is taken out of
the set for every removed transaction from the pool, also for one to the pool, which
was applied as a deposit and had put none in.
-/

namespace EgoChain.Shielded

open EgoChain.Foundations EgoChain.Ledger List KeyedMap
open EgoChain.Chain (isDeposit)

variable {α : Type} {env : PoolEnv α} {txs : List LedgerTx}

/-! ## Keys that are added and erased -/

section Keys

variable {κ ν : Type} [DecidableEq κ] {keys more : List κ} {before after : KeyedMap κ ν} {key : κ}

/-- The keys are new, and nothing else has changed. -/
structure AddsTo (keys : List κ) (before after : KeyedMap κ ν) : Prop where
  fresh : ∀ key ∈ keys, before.lookup key = none
  others : ∀ key ∉ keys, after.lookup key = before.lookup key

theorem lookup_eraseAll (map : KeyedMap κ ν) (keys : List κ) (key : κ) :
    (eraseAll map keys).lookup key = if key ∈ keys then none else map.lookup key := by
  induction keys generalizing map with
  | nil => rfl
  | cons first rest ih =>
    change (eraseAll (map.erase first) rest).lookup key = _
    rw [ih]
    by_cases same : key = first
    · subst same
      simp [AList.lookup_erase]
    · simp [same]

variable (adds : AddsTo keys before after)

include adds

theorem AddsTo.absent (none' : after.lookup key = none) : before.lookup key = none := by
  by_cases mem : key ∈ keys
  · exact adds.fresh key mem
  · rw [← adds.others key mem]
    exact none'

theorem AddsTo.insert (new : before.lookup key = none) (value : ν) :
    AddsTo (keys ++ [key]) before (after.insert key value) where
  fresh := forall_mem_append.mpr ⟨adds.fresh, forall_mem_singleton.mpr new⟩
  others other notIn := by
    rw [mem_append, mem_singleton, not_or] at notIn
    rw [lookup_insert_eq, if_neg notIn.2, adds.others other notIn.1]

theorem AddsTo.insertAll (new : ∀ key ∈ more, before.lookup key = none) (value : ν) :
    AddsTo (keys ++ more) before (more.foldl (fun map key => map.insert key value) after) := by
  induction more generalizing keys after with
  | nil => simpa using adds
  | cons key rest ih =>
    obtain ⟨here, later⟩ := forall_mem_cons.mp new
    have next := ih (adds.insert here value) later
    rwa [append_assoc] at next

theorem AddsTo.lookup_eraseAll (key : κ) : (eraseAll after keys).lookup key = before.lookup key := by
  rw [Shielded.lookup_eraseAll]
  split
  case isTrue mem => exact (adds.fresh key mem).symm
  case isFalse notIn => exact adds.others key notIn

end Keys

/-! ## What the blocks add -/

/-- What some deposits and withdrawals have added to the stores of a run. -/
structure Since (env : PoolEnv α) (base run : Applying) (deposits withdrawals : List LedgerTx) :
    Prop where
  grows : base.state.nextIndex ≤ run.state.nextIndex
  leaves : AddsTo (List.range' base.state.nextIndex (run.state.nextIndex - base.state.nextIndex))
    base.leaves run.leaves
  cidx : AddsTo (deposits.filterMap fun tx => parseShieldMemo tx.memo) base.cidx run.cidx
  nf : AddsTo (withdrawals.flatMap env.unshieldNullifiers) base.nf run.nf

namespace Since

variable {base run after : Applying} {deposits withdrawals all out : List LedgerTx} {tx : LedgerTx}
  {height : Nat}

theorem refl (run : Applying) : Since env run run [] [] where
  grows := le_rfl
  leaves := by
    exact ⟨by simp, fun _ _ => rfl⟩
  cidx := ⟨by simp, fun _ _ => rfl⟩
  nf := ⟨by simp, fun _ _ => rfl⟩

theorem effect (since : Since env base run deposits withdrawals) (books : Books env all out run)
    (effect : Effect env height run tx after) :
    Since env base after (deposits ++ [tx].filter isDeposit)
      (withdrawals ++ [tx].filter isWithdrawal) := by
  cases effect with
  | deposit recorded toPool memo leaf size room fresh entered =>
    obtain ⟨index, commitment, leafHere, state⟩ := recorded
    obtain ⟨-, isNext, tree, counts, treeNext, -, rfl⟩ := books.entered size room entered
    have grows := since.grows
    obtain rfl : index = run.state.nextIndex := isNext
    have leaves := since.leaves.insert (since.leaves.absent (books.unfilled _ (Nat.le_refl _))) leafHere
    have cidx := since.cidx.insert (since.cidx.absent fresh) run.state.nextIndex
    have spread : tree.nextIndex - base.state.nextIndex =
        run.state.nextIndex - base.state.nextIndex + 1 := by omega
    have end' : base.state.nextIndex + (run.state.nextIndex - base.state.nextIndex) =
        run.state.nextIndex := by omega
    constructor
    case grows =>
      change _ ≤ tree.nextIndex
      omega
    case leaves =>
      change AddsTo (List.range' _ (tree.nextIndex - _)) _ _
      rw [spread, List.range'_concat, Nat.one_mul, end']
      exact leaves
    case cidx =>
      change AddsTo _ _ (run.cidx.insert commitment run.state.nextIndex)
      simpa [toPool, memo] using cidx
    case nf =>
      change AddsTo _ _ run.nf
      simpa [isWithdrawal, toPool] using since.nf
  | withdrawal body nullifiers notDeposit fromPool checked fresh =>
    have debited : (run.state.debit tx.amount.toNat).outstanding.length =
        denominationsUegoc.length := books.notes.sized
    obtain ⟨counts, -, spent⟩ := PoolState.spendAll_spec debited checked.sizes checked.held
    have places : (run.spend height tx body nullifiers).state.nextIndex = run.state.nextIndex := by
      rw [Applying.spend, spent]
      rfl
    have nf := since.nf.insertAll (fun key mem => since.nf.absent (fresh key mem)) height
    constructor
    case grows =>
      rw [places]
      exact since.grows
    case leaves =>
      rw [places]
      exact since.leaves
    case cidx =>
      change AddsTo _ _ run.cidx
      simpa [notDeposit] using since.cidx
    case nf =>
      change AddsTo _ _ (nullifiers.foldl (fun nf nullifier => nf.insert nullifier height) run.nf)
      simpa [isWithdrawal, notDeposit, fromPool, checked.unshieldNullifiers fromPool] using nf
  | other notDeposit notUnshield => simpa [isWithdrawal, notDeposit, notUnshield] using since

theorem effects {last : Applying}
    (since : Since env base run deposits withdrawals) (books : Books env all out run)
    (effects : Effects env height run txs last) :
    Since env base last (deposits ++ txs.filter isDeposit)
      (withdrawals ++ txs.filter isWithdrawal) := by
  induction effects generalizing deposits withdrawals all out with
  | nil => simpa using since
  | @cons run after last tx rest first others ih =>
    have next := ih (since.effect books first) (books.effect first)
    rwa [append_assoc, append_assoc, ← filter_append, ← filter_append] at next

end Since

/-! ## The kept states -/

/-- The state that a rollback to a height goes back to. -/
def restoredState (env : PoolEnv α) (hist : KeyedMap Nat PoolState) (height : Nat) : PoolState :=
  (if 0 < height then newestUpTo hist (height - 1) else none).getD (PoolState.empty env)

/-- The last state kept below a height. -/
structure Newest (hist : KeyedMap Nat PoolState) (height key : Nat) (state : PoolState) : Prop where
  kept : hist.lookup key = some state
  below : key < height
  last : ∀ other found, hist.lookup other = some found → other < height → other ≤ key

section History

variable {hist stored : KeyedMap Nat PoolState} {height key floor : Nat} {state : PoolState}

theorem le_of_getLast? {test : Nat × PoolState → Bool} {last entry : Nat × PoolState}
    (isLast : (hist.ascending.filter test).getLast? = some last)
    (mem : entry ∈ hist.ascending.filter test) : entry.1 ≤ last.1 := by
  obtain ⟨front, split⟩ := List.getLast?_eq_some_iff.mp isLast
  have inOrder := hist.ascending_sorted.filter test
  rw [split] at inOrder mem
  rcases mem_append.mp mem with earlier | here
  · exact (pairwise_append.mp inOrder).2.2 entry earlier last mem_cons_self
  · rw [mem_singleton.mp here]

theorem Newest.restoredState (newest : Newest hist height key state) :
    restoredState env hist height = state := by
  have positive : 0 < height := Nat.zero_lt_of_lt newest.below
  have listed : (key, state) ∈ hist.ascending.filter fun entry => entry.1 ≤ height - 1 :=
    mem_filter.mpr ⟨(mem_ascending hist key state).mpr newest.kept,
      decide_eq_true (Nat.le_pred_of_lt newest.below)⟩
  rw [Shielded.restoredState, if_pos positive, newestUpTo]
  cases last : (hist.ascending.filter fun entry => entry.1 ≤ height - 1).getLast? with
  | none =>
    rw [List.getLast?_eq_none_iff.mp last] at listed
    cases listed
  | some entry =>
    obtain ⟨inside, low⟩ := mem_filter.mp (mem_of_getLast? last)
    have found := (mem_ascending hist entry.1 entry.2).mp inside
    have up : key ≤ entry.1 := le_of_getLast? last listed
    have down := newest.last entry.1 entry.2 found (by
      have le := of_decide_eq_true low
      omega)
    obtain rfl : key = entry.1 := le_antisymm up down
    exact Option.some.inj (found.symm.trans newest.kept)

theorem newest_or_none (hist : KeyedMap Nat PoolState) (height : Nat) :
    (∃ key state, Newest hist height key state) ∨
      ∀ key state, hist.lookup key = some state → height ≤ key := by
  cases last : (hist.ascending.filter fun entry => entry.1 < height).getLast? with
  | none =>
    refine Or.inr fun key state found => not_lt.mp fun below => ?_
    have listed : (key, state) ∈ hist.ascending.filter fun entry => entry.1 < height :=
      mem_filter.mpr ⟨(mem_ascending hist key state).mpr found, decide_eq_true below⟩
    rw [List.getLast?_eq_none_iff.mp last] at listed
    cases listed
  | some entry =>
    obtain ⟨inside, below⟩ := mem_filter.mp (mem_of_getLast? last)
    refine Or.inl ⟨entry.1, entry.2, ?_, of_decide_eq_true below, fun other found there low => ?_⟩
    · exact (mem_ascending hist entry.1 entry.2).mp inside
    · exact le_of_getLast? last (mem_filter.mpr
        ⟨(mem_ascending hist other found).mpr there, decide_eq_true low⟩)

theorem restoredState_of_none (none' : ∀ key state, hist.lookup key = some state → height ≤ key) :
    restoredState env hist height = PoolState.empty env := by
  rw [restoredState]
  split
  case isFalse => rfl
  case isTrue positive =>
  have nothing : (hist.ascending.filter fun entry => entry.1 ≤ height - 1) = [] := by
    refine filter_eq_nil_iff.mpr fun entry mem => ?_
    have high := none' entry.1 entry.2 ((mem_ascending hist entry.1 entry.2).mp mem)
    rw [decide_eq_true_eq]
    omega
  rw [newestUpTo, nothing]
  rfl

theorem pruneHistory_eq (stored : KeyedMap Nat PoolState) (floor : Nat)
    (hist : KeyedMap Nat PoolState) :
    ∃ older, pruneHistory stored floor hist = eraseAll hist older ∧
      ∀ key ∈ older, ∃ other found, stored.lookup other = some found ∧ other ≤ floor ∧ key < other := by
  rw [pruneHistory]
  split
  case isTrue => exact ⟨[], rfl, by simp⟩
  case isFalse =>
  refine ⟨(stored.ascending.filter fun entry => entry.1 ≤ floor).dropLast.map Prod.fst, ?_, ?_⟩
  · rw [eraseAll, foldl_map]
  · intro key mem
    obtain ⟨entry, dropped, rfl⟩ := mem_map.mp mem
    obtain ⟨last, isLast⟩ : ∃ last,
        (stored.ascending.filter fun entry => entry.1 ≤ floor).getLast? = some last :=
      Option.ne_none_iff_exists'.mp fun none' => by
        rw [List.getLast?_eq_none_iff.mp none'] at dropped
        cases dropped
    obtain ⟨inside, low⟩ := mem_filter.mp (mem_of_getLast? isLast)
    refine ⟨last.1, last.2, (mem_ascending stored last.1 last.2).mp inside, of_decide_eq_true low, ?_⟩
    have le := le_of_getLast? isLast (dropLast_subset _ dropped)
    have distinct : ((stored.ascending.filter fun entry => entry.1 ≤ floor).map Prod.fst).Nodup :=
      (filter_sublist.map Prod.fst).nodup (ascending_keys_nodup stored)
    obtain ⟨front, split⟩ := List.getLast?_eq_some_iff.mp isLast
    rw [split, dropLast_concat] at dropped
    rw [split, map_append, nodup_append] at distinct
    exact lt_of_le_of_ne le (distinct.2.2 entry.1 (mem_map_of_mem dropped) last.1 (by simp))

/-- Storing a state and pruning leave what a rollback to a height over the floor goes back to. -/
theorem restoredState_prune {bound : Nat}
    (earlier : ∀ key found, hist.lookup key = some found → key < height) (above : floor < bound) :
    restoredState env (pruneHistory hist floor (hist.insert height state)) bound =
      if height < bound then state else restoredState env hist bound := by
  obtain ⟨older, erases, newer⟩ := pruneHistory_eq hist floor _
  rw [erases]
  have spared : ∀ key, (∀ other found, hist.lookup other = some found → other < bound → other ≤ key) →
      key ∉ older := by
    intro key last mem
    obtain ⟨other, found, there, low, less⟩ := newer key mem
    have least := last other found there (by omega)
    omega
  have before : ∀ key found, (eraseAll (hist.insert height state) older).lookup key = some found →
      key ≠ height → hist.lookup key = some found := by
    intro key found there apart
    rw [lookup_eraseAll, lookup_insert_eq] at there
    split at there
    · cases there
    · exact there
  split
  case isTrue below =>
    have notOlder := spared height fun other found there _ => (earlier other found there).le
    have newest : Newest (eraseAll (hist.insert height state) older) bound height state := by
      refine ⟨?_, below, fun other found there _ => ?_⟩
      · rw [lookup_eraseAll, if_neg notOlder, lookup_insert_eq, if_pos rfl]
      · by_cases same : other = height
        · exact same.le
        · exact (earlier other found (before other found there same)).le
    exact newest.restoredState
  case isFalse high =>
    rcases newest_or_none hist bound with ⟨key, kept, newest⟩ | none'
    · have apart : key ≠ height := by
        have low := newest.below
        omega
      have still : Newest (eraseAll (hist.insert height state) older) bound key kept := by
        refine ⟨?_, newest.below, fun other found there low => ?_⟩
        · rw [lookup_eraseAll, if_neg (spared key newest.last), lookup_insert_eq, if_neg apart]
          exact newest.kept
        · exact newest.last other found (before other found there (by omega)) low
      rw [still.restoredState, newest.restoredState]
    · rw [restoredState_of_none none', restoredState_of_none]
      intro key found there
      by_cases same : key = height
      · omega
      · exact none' key found (before key found there same)

end History

/-! ## Blocks on both sides of a height -/

section Blocks

variable {blocks kept gone : List PoolBlock} {block : PoolBlock} {db before : PoolDb}
  {run : Applying} {height bound : Nat}

/-- The blocks below a height and those that a rollback to it takes back. -/
structure Cut (height : Nat) (kept gone : List PoolBlock) : Prop where
  order : (kept ++ gone).Pairwise fun first second => first.height < second.height
  below : ∀ block ∈ kept, block.height < height
  above : ∀ block ∈ gone, height ≤ block.height
  floors : ∀ block ∈ kept ++ gone, block.floor < height

theorem commit_of_acceptBlocks (ran : acceptBlocks env (blocks ++ [block]) = some db) :
    ∃ before run, acceptBlocks env blocks = some before ∧
      Effects env block.height (before.begin env) block.txs run ∧
      db = before.commit block.height block.floor run := by
  obtain ⟨before, earlier, valid, applied⟩ := acceptBlocks_last ran
  obtain ⟨run, effects, applies⟩ := applyBlock_of_valid block.floor valid
  exact ⟨before, run, earlier, effects, Option.some.inj (applied.symm.trans applies)⟩

theorem hist_height {key : Nat} {state : PoolState} (ran : acceptBlocks env blocks = some db)
    (found : db.hist.lookup key = some state) : ∃ block ∈ blocks, block.height = key := by
  induction blocks using List.reverseRecOn generalizing db state with
  | nil =>
    cases ran
    cases found
  | append_singleton blocks block ih =>
    obtain ⟨before, run, earlier, -, rfl⟩ := commit_of_acceptBlocks ran
    rw [PoolDb.commit] at found
    by_cases same : block.height = key
    · exact ⟨block, by simp, same⟩
    have there : before.hist.lookup key = some state := by
      split at found
      case isTrue =>
        obtain ⟨older, erases, -⟩ := pruneHistory_eq before.hist block.floor _
        rw [erases, lookup_eraseAll, lookup_insert_eq, if_neg (Ne.symm same)] at found
        split at found
        · cases found
        · exact found
      case isFalse => exact found
    obtain ⟨other, mem, isKey⟩ := ih earlier there
    exact ⟨other, mem_append_left _ mem, isKey⟩

theorem restoredState_commit (ran : acceptBlocks env blocks = some before)
    (earlier : ∀ block ∈ blocks, block.height < height) {floor : Nat} (above : floor < bound) :
    restoredState env (before.commit height floor run).hist bound =
      if run.changed = true ∧ height < bound then run.state
      else restoredState env before.hist bound := by
  rw [PoolDb.commit]
  dsimp only
  cases changed : run.changed with
  | true =>
    rw [if_pos rfl, restoredState_prune _ above]
    · simp
    · intro key found there
      obtain ⟨block, mem, rfl⟩ := hist_height ran there
      exact earlier block mem
  | false => simp

theorem begin_accepted (ran : acceptBlocks env blocks = some before)
    (effects : Effects env block.height (before.begin env) block.txs run) :
    (before.commit block.height block.floor run).begin env =
      { run with seenNullifiers := [], seenCommitments := [], changed := false } :=
  begin_commit effects ((accepted_of_acceptBlocks ran).books.effects effects).notes.sized _

/-- Below the cut the last kept state is the state. -/
theorem restoredState_kept (ran : acceptBlocks env kept = some db)
    (order : kept.Pairwise fun first second => first.height < second.height)
    (below : ∀ block ∈ kept, block.height < bound) (floors : ∀ block ∈ kept, block.floor < bound) :
    restoredState env db.hist bound = db.readState env := by
  induction kept using List.reverseRecOn generalizing db with
  | nil =>
    cases ran
    have normal : (PoolState.empty env).normalise = PoolState.empty env := if_pos rfl
    refine (restoredState_of_none fun key state found => ?_).trans normal.symm
    cases found
  | append_singleton blocks block ih =>
    obtain ⟨before, run, earlier, effects, rfl⟩ := commit_of_acceptBlocks ran
    obtain ⟨inOrder, -, last⟩ := pairwise_append.mp order
    obtain ⟨belowOld, belowNew⟩ := forall_mem_append.mp below
    obtain ⟨floorsOld, floorNew⟩ := forall_mem_append.mp floors
    rw [restoredState_commit earlier (fun other mem => last other mem block (by simp))
      (floorNew block (by simp))]
    refine Eq.trans ?_ (congrArg Applying.state (begin_accepted earlier effects)).symm
    cases changed : run.changed with
    | true => exact if_pos ⟨rfl, belowNew block (by simp)⟩
    | false =>
      rw [ih earlier inOrder belowOld floorsOld]
      exact (effects.state_eq changed).2.symm

/-- Over the cut the state to go back to stays, and the blocks add what the rollback takes out. -/
theorem since_cut (cut : Cut bound kept gone) (ran : acceptBlocks env (kept ++ gone) = some db) :
    ∃ before, acceptBlocks env kept = some before ∧
      restoredState env db.hist bound = restoredState env before.hist bound ∧
      Since env (before.begin env) (db.begin env) ((chainTxs gone).filter isDeposit)
        ((chainTxs gone).filter isWithdrawal) := by
  induction gone using List.reverseRecOn generalizing db with
  | nil =>
    rw [append_nil] at ran
    exact ⟨db, ran, rfl, Since.refl _⟩
  | append_singleton blocks block ih =>
    obtain ⟨order, below, above, floors⟩ := cut
    rw [← append_assoc] at ran order floors
    obtain ⟨middle, run, earlier, effects, rfl⟩ := commit_of_acceptBlocks ran
    obtain ⟨inOrder, -, last⟩ := pairwise_append.mp order
    obtain ⟨aboveOld, aboveNew⟩ := forall_mem_append.mp above
    obtain ⟨floorsOld, floorNew⟩ := forall_mem_append.mp floors
    obtain ⟨before, first, restored, since⟩ := ih ⟨inOrder, below, aboveOld, floorsOld⟩ earlier
    have high := not_lt.mpr (aboveNew block (by simp))
    have next := since.effects (accepted_of_acceptBlocks earlier).books effects
    refine ⟨before, first, ?_, ?_⟩
    · rw [restoredState_commit earlier (fun other mem => last other mem block (by simp))
        (floorNew block (by simp)), if_neg fun both => high both.2]
      exact restored
    · rw [begin_accepted earlier effects, chainTxs, flatMap_append, flatMap_singleton,
        filter_append, filter_append]
      exact { next with }

/-- A removed transaction names the nullifiers of a withdrawal, or it is a deposit. -/
theorem mem_removedNullifiers {nullifier : Bytes32} :
    nullifier ∈ txs.flatMap env.unshieldNullifiers ↔
      nullifier ∈ (txs.filter isWithdrawal).flatMap env.unshieldNullifiers ∨
        ∃ tx ∈ txs, isDeposit tx = true ∧ nullifier ∈ env.unshieldNullifiers tx := by
  simp only [mem_flatMap, mem_filter]
  constructor
  · rintro ⟨tx, mem, named⟩
    cases toPool : isDeposit tx with
    | true => exact Or.inr ⟨tx, mem, toPool, named⟩
    | false =>
      have fromPool : isUnshield tx = true := by
        by_contra other
        rw [PoolEnv.unshieldNullifiers, if_neg other] at named
        cases named
      exact Or.inl ⟨tx, ⟨mem, by simp [isWithdrawal, toPool, fromPool]⟩, named⟩
  · rintro (⟨tx, ⟨mem, -⟩, named⟩ | ⟨tx, mem, -, named⟩)
    · exact ⟨tx, mem, named⟩
    · exact ⟨tx, mem, named⟩

/-- What a rollback has to bring back, the nullifiers apart. -/
structure Restored (env : PoolEnv α) (before after : PoolDb) : Prop where
  state : after.readState env = before.readState env
  leaves : ∀ place, after.leaves.lookup place = before.leaves.lookup place
  cidx : ∀ commitment, after.cidx.lookup commitment = before.cidx.lookup commitment

/-- A rollback brings the state, the leaves and the commitments back.  It brings the nullifiers back
if and only if no removed deposit names one that was spent below the height. -/
theorem rollback_restores_iff (cut : Cut height kept gone)
    (ran : acceptBlocks env (kept ++ gone) = some db) :
    ∃ before, acceptBlocks env kept = some before ∧
      Restored env before (rollback env db height (chainTxs gone)) ∧
      ((∀ nullifier, (rollback env db height (chainTxs gone)).nf.lookup nullifier =
          before.nf.lookup nullifier) ↔
        ∀ tx ∈ chainTxs gone, isDeposit tx = true → ∀ nullifier ∈ env.unshieldNullifiers tx,
          before.nullifierSpent nullifier = false) := by
  obtain ⟨before, first, same, since⟩ := since_cut cut ran
  obtain ⟨orderKept, -, -⟩ := pairwise_append.mp cut.order
  have restored := same.trans (restoredState_kept first orderKept cut.below
    (forall_mem_append.mp cut.floors).1)
  have unfold : rollback env db height (chainTxs gone) =
      { state := if db.readState env = before.readState env then db.state
          else some (before.readState env)
        leaves := eraseAll db.leaves (List.range' (before.readState env).nextIndex
          ((db.readState env).nextIndex - (before.readState env).nextIndex))
        cidx := eraseAll db.cidx
          (((chainTxs gone).filter isDeposit).filterMap fun tx => parseShieldMemo tx.memo)
        nf := eraseAll db.nf ((chainTxs gone).flatMap env.unshieldNullifiers)
        hist := db.hist.retain fun other => other < height } := by
    rw [← restored]
    rfl
  rw [unfold]
  refine ⟨before, first, ?_, ?_⟩
  · constructor
    case state =>
      have sized := (accepted_of_acceptBlocks first).books.notes.sized
      split
      case isTrue unchanged => exact unchanged
      case isFalse => exact PoolState.normalise_eq_self sized
    case leaves => exact since.leaves.lookup_eraseAll
    case cidx => exact since.cidx.lookup_eraseAll
  · constructor
    · intro every tx mem toPool nullifier named
      have erased := every nullifier
      rw [lookup_eraseAll, if_pos (mem_removedNullifiers.mpr (Or.inr ⟨tx, mem, toPool, named⟩))]
        at erased
      rw [PoolDb.nullifierSpent, ← erased]
      rfl
    · intro unspent nullifier
      rw [lookup_eraseAll]
      split
      case isTrue removed =>
        rcases mem_removedNullifiers.mp removed with withdrawn | ⟨tx, mem, toPool, named⟩
        · exact (since.nf.fresh nullifier withdrawn).symm
        · have free := unspent tx mem toPool nullifier named
          rw [PoolDb.nullifierSpent, Option.isSome_eq_false_iff, Option.isNone_iff_eq_none] at free
          exact free.symm
      case isFalse kept' =>
        exact since.nf.others nullifier fun mem => kept' (mem_removedNullifiers.mpr (Or.inl mem))

end Blocks

/-! ## Two rollbacks -/

/-- Eleven coins go into the pool and one out of it. -/
def twoBlocks : List PoolBlock :=
  [⟨1, 0, [largeDeposit, depositFrom (utf8 "egot1sender")], fun _ _ _ _ _ _ => true⟩,
    ⟨2, 0, [withdrawTo (utf8 "egot1recipient")], fun _ _ _ _ _ _ => true⟩]

/-- A third block with one transaction to the pool, for another note. -/
def thirdBlock (tx : LedgerTx) : List PoolBlock :=
  [⟨3, 0, [{ tx with memo := some (utf8 "shield:" ++ Text.toHex (List.replicate 32 3)) }],
    fun _ _ _ _ _ _ => true⟩]

theorem cut_third (tx : LedgerTx) : Cut 3 twoBlocks (thirdBlock tx) := by
  constructor <;> simp [twoBlocks, thirdBlock]

theorem rollback_of_deposit : ∃ before db, acceptBlocks plainPoolEnv twoBlocks = some before ∧
      acceptBlocks plainPoolEnv (twoBlocks ++ thirdBlock (depositFrom (utf8 "egot1sender"))) = some db ∧
      Restored plainPoolEnv before (rollback plainPoolEnv db 3
        (chainTxs (thirdBlock (depositFrom (utf8 "egot1sender"))))) ∧
      ∀ nullifier, (rollback plainPoolEnv db 3
          (chainTxs (thirdBlock (depositFrom (utf8 "egot1sender"))))).nf.lookup nullifier =
        before.nf.lookup nullifier := by
  have runs : (acceptBlocks plainPoolEnv
      (twoBlocks ++ thirdBlock (depositFrom (utf8 "egot1sender")))).isSome = true := by
    decide +kernel
  obtain ⟨db, isDb⟩ := Option.isSome_iff_exists.mp runs
  obtain ⟨before, isBefore, restored, exactly⟩ := rollback_restores_iff (cut_third _) isDb
  refine ⟨before, db, isBefore, isDb, restored, exactly.mpr fun tx mem _ nullifier named => ?_⟩
  obtain rfl := List.mem_singleton.mp mem
  cases named

/-- The third block pays from the pool to the pool and names the note that was withdrawn.  Taking it
back takes the note's nullifier out of the set. -/
theorem rollback_forgets_withdrawal :
    ∃ before db nullifier, acceptBlocks plainPoolEnv twoBlocks = some before ∧
      acceptBlocks plainPoolEnv (twoBlocks ++ thirdBlock (withdrawTo shieldedPoolAddr)) = some db ∧
      before.nullifierSpent nullifier = true ∧
      (rollback plainPoolEnv db 3
        (chainTxs (thirdBlock (withdrawTo shieldedPoolAddr)))).nullifierSpent nullifier = false := by
  exact ⟨_, _, List.replicate 32 1, (Option.some_get (by decide +kernel)).symm,
    (Option.some_get (by decide +kernel)).symm, by decide +kernel, by decide +kernel⟩

end EgoChain.Shielded
