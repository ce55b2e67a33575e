import EgoChain.Shielded.PoolSteps

/-!
# The turnstile of the pool

What has gone into the pool and not come out again is what it holds, to the note.
The proof goes along the effects of the transactions, whatever the proof verifier
answers: each step keeps the books, and so does each accepted block.

A transaction from the pool's address to the pool's address is taken for a deposit.
Nobody looks at the nullifiers it carries, though it is an unshield by its source,
its type and its body; the last result needs that no such transaction is in the
blocks, and a chain of two blocks shows why.
-/

namespace EgoChain.Shielded

open EgoChain.Foundations EgoChain.Ledger List Option
open EgoChain.Chain (isDeposit)

variable {α : Type} {env : PoolEnv α}

/-! ## Counts of notes -/

/-- The count of a size among the counts of all sizes. -/
def heldIn (counts : List Nat) (amount : Nat) : Nat :=
  ((denominationIndex amount).bind fun i => counts[i]?).getD 0

variable {amount : Nat} {txs : List LedgerTx}

theorem denominationIndex_spec (size : isDenomination amount = true) :
    ∃ place, denominationIndex amount = some place ∧ denominationsUegoc[place]? = some amount := by
  have mem : amount ∈ denominationsUegoc := by simpa [isDenomination] using size
  have found := isSome_idxOf?.mpr mem
  obtain ⟨place, isPlace⟩ := isSome_iff_exists.mp found
  obtain ⟨inside, here, -⟩ := List.idxOf?_eq_some_iff.mp isPlace
  exact ⟨place, isPlace, by rw [List.getElem?_eq_getElem inside, here]⟩

theorem le_of_isDenomination (size : isDenomination amount = true) : amount ≤ 10000000000 := by
  have all : ∀ amount ∈ denominationsUegoc, amount ≤ 10000000000 := by decide
  exact all amount (by simpa [isDenomination] using size)

/-- Some notes are added to the counts, and some are taken off. -/
structure Recounted (added spent before after : List Nat) : Prop where
  sized : after.length = denominationsUegoc.length
  held : ∀ amount, isDenomination amount = true →
    heldIn after amount + spent.count amount = heldIn before amount + added.count amount
  worth : priced after denominationsUegoc + spent.sum = priced before denominationsUegoc + added.sum
  sum : after.sum + spent.length = before.sum + added.length

theorem Recounted.refl {counts : List Nat} (sized : counts.length = denominationsUegoc.length) :
    Recounted [] [] counts counts :=
  ⟨sized, fun _ _ => rfl, rfl, rfl⟩

theorem Recounted.trans {added spent more others before middle after : List Nat}
    (first : Recounted added spent before middle) (second : Recounted more others middle after) :
    Recounted (added ++ more) (spent ++ others) before after where
  sized := second.sized
  held amount size := by
    have one := first.held amount size
    have two := second.held amount size
    rw [count_append, count_append]
    omega
  worth := by
    have one := first.worth
    have two := second.worth
    rw [sum_append, sum_append]
    omega
  sum := by
    have one := first.sum
    have two := second.sum
    rw [length_append, length_append]
    omega

section Counts

variable {counts : List Nat} (sized : counts.length = denominationsUegoc.length)

include sized

variable {place : Nat}

theorem getElem?_eq_heldIn (isPlace : denominationIndex amount = some place) :
    counts[place]? = some (heldIn counts amount) := by
  obtain ⟨inside, -, -⟩ := List.idxOf?_eq_some_iff.mp isPlace
  rw [← sized] at inside
  rw [heldIn, isPlace, bind_some, List.getElem?_eq_getElem inside, getD_some]

theorem heldIn_le_sum (size : isDenomination amount = true) : heldIn counts amount ≤ counts.sum := by
  obtain ⟨place, isPlace, -⟩ := denominationIndex_spec size
  have taken := sum_modify (fun _ => 0) (getElem?_eq_heldIn sized isPlace)
  omega

theorem recounted_modify (plus minus : Nat) (change : Nat → Nat)
    (isPlace : denominationIndex amount = some place)
    (isPrice : denominationsUegoc[place]? = some amount)
    (net : change (heldIn counts amount) + minus = heldIn counts amount + plus) :
    Recounted (List.replicate plus amount) (List.replicate minus amount) counts
      (counts.modify place change) where
  sized := by rw [length_modify, sized]
  held other size := by
    obtain ⟨otherPlace, isOther, price⟩ := denominationIndex_spec size
    rw [heldIn, isOther, bind_some, List.getElem?_modify, getElem?_eq_heldIn sized isOther,
      count_replicate, count_replicate]
    by_cases same : amount = other
    · subst same
      cases isPlace.symm.trans isOther
      simpa using net
    · have apart : place ≠ otherPlace := by
        rintro rfl
        exact same (Option.some.inj (isPrice.symm.trans price))
      simp [apart, same]
  worth := by
    have grown := priced_modify change (getElem?_eq_heldIn sized isPlace) isPrice
    have part := congrArg (· * amount) net
    simp only [add_mul] at part
    rw [sum_replicate_nat, sum_replicate_nat]
    omega
  sum := by
    have grown := sum_modify change (getElem?_eq_heldIn sized isPlace)
    rw [length_replicate, length_replicate]
    omega

end Counts

namespace PoolState

variable {state : PoolState} (sized : state.outstanding.length = denominationsUegoc.length)

include sized

theorem normalise_eq_self : state.normalise = state := if_pos sized

theorem noteAdded_spec (size : isDenomination amount = true) (few : state.outstanding.sum < maxU64) :
    ∃ counts, Recounted [amount] [] state.outstanding counts ∧
      state.noteAdded amount = { state with outstanding := counts } := by
  obtain ⟨place, isPlace, isPrice⟩ := denominationIndex_spec size
  have below := heldIn_le_sum sized size
  refine ⟨_, recounted_modify sized 1 0 (fun count => satAdd count 1) isPlace isPrice
    (satAdd_eq (by omega)), ?_⟩
  rw [noteAdded, isPlace, normalise_eq_self sized]

theorem noteSpent_spec (size : isDenomination amount = true) (has : 0 < state.held amount) :
    ∃ counts, Recounted [] [amount] state.outstanding counts ∧
      state.noteSpent amount = { state with outstanding := counts } := by
  obtain ⟨place, isPlace, isPrice⟩ := denominationIndex_spec size
  refine ⟨_, recounted_modify sized 0 1 (fun count => count - 1) isPlace isPrice
    (Nat.sub_add_cancel has), ?_⟩
  rw [noteSpent, isPlace, normalise_eq_self sized]
  dsimp only
  rw [getElem?_eq_heldIn sized isPlace]
  exact if_pos has

theorem spendAll_spec {spends : List UnshieldSpend}
    (sizes : ∀ amount ∈ amountsOf spends, isDenomination amount = true)
    (enough : ∀ amount ∈ amountsOf spends, (amountsOf spends).count amount ≤ state.held amount) :
    ∃ counts, Recounted [] (amountsOf spends) state.outstanding counts ∧
      state.spendAll spends = { state with outstanding := counts } := by
  induction spends generalizing state with
  | nil => exact ⟨state.outstanding, .refl sized, rfl⟩
  | cons spend rest ih =>
    have size : isDenomination spend.amountUegoc.toNat = true := sizes _ mem_cons_self
    have count : ∀ amount, (amountsOf (spend :: rest)).count amount =
        [spend.amountUegoc.toNat].count amount + (amountsOf rest).count amount := by
      intro amount
      change ([spend.amountUegoc.toNat] ++ amountsOf rest).count amount = _
      exact count_append
    have here : [spend.amountUegoc.toNat].count spend.amountUegoc.toNat +
        (amountsOf rest).count spend.amountUegoc.toNat ≤ state.held spend.amountUegoc.toNat :=
      count _ ▸ enough _ mem_cons_self
    rw [count_singleton_self] at here
    obtain ⟨counts, first, spent⟩ := noteSpent_spec sized size (by omega)
    have sizesRest := fun amount mem => sizes amount (mem_cons_of_mem _ mem)
    have enoughRest : ∀ amount ∈ amountsOf rest,
        (amountsOf rest).count amount ≤ heldIn counts amount := by
      intro amount mem
      have all := enough amount (mem_cons_of_mem _ mem)
      have left := first.held amount (sizesRest amount mem)
      rw [count] at all
      change _ ≤ heldIn state.outstanding amount at all
      omega
    obtain ⟨last, later, spentAll⟩ :=
      @ih { state with outstanding := counts } first.sized sizesRest enoughRest
    refine ⟨last, first.trans later, ?_⟩
    change (state.noteSpent spend.amountUegoc.toNat).spendAll rest = _
    rw [spent, spentAll]

variable {leaf : Bytes32} {index : Nat} {next : PoolState}

omit sized in
/-- What an insertion into the tree changes besides the tree. -/
theorem insert_eq_ok (inserted : state.insert env leaf = .ok (index, next)) :
    index = state.nextIndex ∧ ∃ tree, next = state.withTree env tree ∧
      tree.nextIndex = state.nextIndex + 1 := by
  simp only [PoolState.insert, PoolState.tree, IncrementalTree.fromParts, bind_eq_ok_iff, pure,
    Except.pure, Except.ok.injEq, Prod.mk.injEq] at inserted
  obtain ⟨tree, ⟨frontier, -, root, -, built⟩, digest, -, ⟨place, grown⟩, added, rfl, rfl⟩ := inserted
  split at built
  · cases built
  split at built
  · cases built
  cases built
  rw [IncrementalTree.insert] at added
  split at added
  · cases added
  · obtain ⟨rfl, rfl⟩ := Prod.mk.inj (Except.ok.inj added)
    exact ⟨rfl, _, rfl, rfl⟩

/-- A note that comes in is counted, paid for and put at the first free place. -/
theorem enter_eq_ok (size : isDenomination amount = true)
    (fits : state.balanceUegoc + amount ≤ maxU64) (few : state.outstanding.sum < maxU64)
    (entered : state.enter env leaf amount = .ok (index, next)) :
    index = state.nextIndex ∧ ∃ tree counts, tree.nextIndex = state.nextIndex + 1 ∧
      Recounted [amount] [] state.outstanding counts ∧
      next = { state.withTree env tree with
        balanceUegoc := state.balanceUegoc + amount, outstanding := counts } := by
  simp only [PoolState.enter, bind_eq_ok_iff, pure, Except.pure, Except.ok.injEq,
    Prod.mk.injEq] at entered
  obtain ⟨⟨place, inserted⟩, done, rfl, rfl⟩ := entered
  obtain ⟨isIndex, tree, rfl, next⟩ := insert_eq_ok done
  have credited : ((state.withTree env tree).credit amount).outstanding.length =
      denominationsUegoc.length := sized
  obtain ⟨counts, recounted, added⟩ := noteAdded_spec credited size few
  refine ⟨isIndex, tree, counts, next, recounted, ?_⟩
  rw [added]
  change { state.withTree env tree with
    balanceUegoc := satAdd state.balanceUegoc amount, outstanding := counts } = _
  rw [satAdd_eq fits]

end PoolState

/-! ## What a withdrawal adds up to -/

theorem foldl_totals (spends : List UnshieldSpend) (amounts fees : Nat) : spends.foldl
        (fun sums spend =>
          (satAdd sums.1 spend.amountUegoc.toNat, satAdd sums.2 spend.feeUegoc.toNat))
        (min amounts maxU64, min fees maxU64) =
      (min (amounts + (amountsOf spends).sum) maxU64,
        min (fees + (spends.map fun spend => spend.feeUegoc.toNat).sum) maxU64) := by
  induction spends generalizing amounts fees with
  | nil => simp [amountsOf]
  | cons spend rest ih =>
    rw [foldl_cons, satAdd_min, satAdd_min, ih]
    simp [amountsOf, add_assoc]

/-- The amount and the fee of a withdrawal are the sums over its notes, and every note has its
nullifier. -/
structure Itemised (env : PoolEnv α) (tx : LedgerTx) (body : UnshieldBody) : Prop where
  parsed : env.parseUnshieldBody tx.callArgs = .ok body
  amount : (amountsOf body.spends).sum = tx.amount.toNat
  fee : (body.spends.map fun spend => spend.feeUegoc.toNat).sum = tx.feeUegoc.toNat
  nullifiers : (env.unshieldNullifiers tx).length = body.spends.length

variable {body : UnshieldBody} {nullifiers : List Bytes32} {run last : Applying} {height : Nat}
  {state : PoolState}

theorem Withdrawal.itemised {tx : LedgerTx}
    (withdrawal : Withdrawal env state tx body nullifiers) (fromPool : isUnshield tx = true) :
    Itemised env tx body := by
  have low := UInt64.lt_iff_toNat_lt.mp withdrawal.lowFee
  have most : (amountsOf body.spends).sum ≤ body.spends.length * 10000000000 := by
    have bound := sum_le_card_nsmul _ 10000000000 fun amount mem =>
      le_of_isDenomination (withdrawal.sizes amount mem)
    rw [amountsOf, length_map] at bound
    exact bound
  have few := withdrawal.few
  have amount := withdrawal.amount
  have fee := withdrawal.fee
  have totals : body.totals = _ := foldl_totals body.spends 0 0
  rw [totals, maxU64] at amount fee
  rw [maxUnshieldSpends] at few
  constructor
  case parsed => exact withdrawal.parsed
  case amount => omega
  case fee => omega
  case nullifiers =>
    rw [withdrawal.unshieldNullifiers fromPool]
    have lengths := congrArg List.length withdrawal.readable
    rw [length_map, length_map] at lengths
    exact lengths.symm

/-! ## The books -/

/-- What the loops take for a withdrawal. -/
def isWithdrawal (tx : LedgerTx) : Bool := !isDeposit tx && isUnshield tx

def amountsIn (txs : List LedgerTx) : List Nat := txs.map fun tx => tx.amount.toNat

/-- The sizes of the notes that the transactions spend. -/
def PoolEnv.notesSpent (env : PoolEnv α) (txs : List LedgerTx) : List Nat :=
  txs.flatMap fun tx =>
    match env.parseUnshieldBody tx.callArgs with
    | .ok body => amountsOf body.spends
    | .error _ => []

/-- A deposit stands in the tree, at the place kept for its commitment. -/
def Stored (env : PoolEnv α) (leaves : KeyedMap Nat Bytes32) (cidx : KeyedMap Bytes32 Nat)
    (tx : LedgerTx) : Prop :=
  ∃ commitment index leaf, parseShieldMemo tx.memo = some commitment ∧
    env.leafFor commitment tx.amount.toNat = some leaf ∧
    cidx.lookup commitment = some index ∧ leaves.lookup index = some leaf

/-- What holds after some deposits and withdrawals: the notes are those that came and did not go,
the balance is what they are worth, and nothing was cut off at a limit. -/
structure Books (env : PoolEnv α) (deposits withdrawals : List LedgerTx) (run : Applying) : Prop where
  notes : Recounted (amountsIn deposits) (env.notesSpent withdrawals) (List.replicate 5 0)
    run.state.outstanding
  counted : run.state.balanceUegoc = run.state.countedUegoc
  depth : run.state.depth = poolTreeDepth
  places : run.state.nextIndex = deposits.length
  room : deposits.length ≤ capacity poolTreeDepth
  noStray : run.state.strayUegoc = 0
  distinct : (withdrawals.flatMap env.unshieldNullifiers).Nodup
  recorded : ∀ nullifier, run.nf.lookup nullifier = none ↔
    nullifier ∉ withdrawals.flatMap env.unshieldNullifiers
  itemised : ∀ tx ∈ withdrawals, ∃ body, Itemised env tx body
  unfilled : ∀ index, run.state.nextIndex ≤ index → run.leaves.lookup index = none
  stored : ∀ tx ∈ deposits, Stored env run.leaves run.cidx tx

namespace Books

variable {deposits withdrawals : List LedgerTx} {after : Applying} {tx : LedgerTx}

theorem empty : Books env [] [] (({} : PoolDb).begin env) where
  notes := .refl rfl
  counted := rfl
  depth := rfl
  places := rfl
  room := Nat.zero_le _
  noStray := rfl
  distinct := nodup_nil
  recorded _ := ⟨fun _ => not_mem_nil, fun _ => rfl⟩
  itemised := by simp
  unfilled _ _ := rfl
  stored := by simp

variable (books : Books env deposits withdrawals run)

include books

/-- There is room for what another note is worth. -/
theorem fits (free : deposits.length < capacity poolTreeDepth) (small : amount ≤ 10000000000) :
    run.state.outstanding.sum < maxU64 ∧ run.state.balanceUegoc + amount ≤ maxU64 := by
  have limit : capacity poolTreeDepth = 536870912 := by decide
  have few := books.notes.sum
  have worth : run.state.countedUegoc ≤ run.state.outstanding.sum * 10000000000 :=
    priced_le fun _ mem => le_of_isDenomination (by simpa [isDenomination] using mem)
  have none : (List.replicate 5 0).sum = 0 := rfl
  rw [amountsIn, length_map] at few
  rw [books.counted, maxU64]
  omega

/-- A note enters at the first free place. -/
theorem entered {leaf : Bytes32} {index : Nat}
    (size : isDenomination amount = true) (room : run.state.isFull = false)
    (entered : run.state.enter env leaf amount = .ok (index, state)) :
    deposits.length < capacity poolTreeDepth ∧ index = run.state.nextIndex ∧
      ∃ tree counts, tree.nextIndex = run.state.nextIndex + 1 ∧
        Recounted [amount] [] run.state.outstanding counts ∧
        state = { run.state.withTree env tree with
          balanceUegoc := run.state.balanceUegoc + amount, outstanding := counts } := by
  rw [PoolState.isFull, books.depth, books.places, decide_eq_false_iff_not, Nat.not_le] at room
  obtain ⟨few, fits⟩ := books.fits room (le_of_isDenomination size)
  exact ⟨room, PoolState.enter_eq_ok books.notes.sized size fits few entered⟩

variable {recorded : RecordedDeposit}

/-- The stored places stay when a leaf goes to the first free one. -/
theorem stored_record (isNext : recorded.index = run.state.nextIndex)
    (fresh : run.cidx.lookup recorded.commitment = none) {old : LedgerTx}
    (stored : Stored env run.leaves run.cidx old) :
    Stored env (run.leaves.insert recorded.index recorded.leaf)
      (run.cidx.insert recorded.commitment recorded.index) old := by
  obtain ⟨commitment, index, leaf, memo, isLeaf, place, there⟩ := stored
  refine ⟨commitment, index, leaf, memo, isLeaf, ?_, ?_⟩
  · rwa [KeyedMap.lookup_insert_eq, if_neg]
    rintro rfl
    cases fresh.symm.trans place
  · rwa [KeyedMap.lookup_insert_eq, if_neg]
    rintro rfl
    cases (books.unfilled _ isNext.ge).symm.trans there

theorem record (memo : parseShieldMemo tx.memo = some recorded.commitment)
    (leaf : env.leafFor recorded.commitment tx.amount.toNat = some recorded.leaf)
    (size : isDenomination tx.amount.toNat = true) (room : run.state.isFull = false)
    (fresh : run.cidx.lookup recorded.commitment = none)
    (entered : run.state.enter env recorded.leaf tx.amount.toNat =
      .ok (recorded.index, recorded.state)) (seen : List Bytes32) :
    Books env (deposits ++ [tx]) withdrawals (run.record seen recorded) := by
  obtain ⟨index, commitment, leafHere, state⟩ := recorded
  obtain ⟨free, isNext, tree, counts, treeNext, recounted, rfl⟩ := books.entered size room entered
  have notes := books.notes.trans recounted
  refine { books with
    notes := ?notes, counted := ?counted, places := ?places, room := ?room, unfilled := ?unfilled
    stored := ?stored }
  case notes =>
    rw [append_nil] at notes
    rw [amountsIn, map_append]
    exact notes
  case counted =>
    have worth := recounted.worth
    have before := books.counted
    change run.state.balanceUegoc + tx.amount.toNat = priced counts denominationsUegoc
    change run.state.balanceUegoc = priced run.state.outstanding denominationsUegoc at before
    rw [sum_nil, sum_singleton] at worth
    omega
  case places =>
    rw [length_append, ← books.places]
    exact treeNext
  case room =>
    rw [length_append]
    exact free
  case unfilled =>
    intro other beyond
    change tree.nextIndex ≤ other at beyond
    change (run.leaves.insert index leafHere).lookup other = none
    dsimp only at isNext
    rw [KeyedMap.lookup_insert_eq, if_neg (by omega)]
    exact books.unfilled other (by omega)
  case stored =>
    refine forall_mem_append.mpr ⟨fun old mem => ?_, forall_mem_singleton.mpr ?_⟩
    · exact books.stored_record isNext fresh (books.stored old mem)
    · exact ⟨commitment, index, leafHere, memo, leaf, AList.lookup_insert _, AList.lookup_insert _⟩

theorem spend (fromPool : isUnshield tx = true) (checked : Withdrawal env run.state tx body nullifiers)
    (fresh : ∀ nullifier ∈ nullifiers, run.nf.lookup nullifier = none) :
    Books env deposits (withdrawals ++ [tx]) (run.spend height tx body nullifiers) := by
  have itemised := checked.itemised fromPool
  have debited : (run.state.debit tx.amount.toNat).outstanding.length =
      denominationsUegoc.length := books.notes.sized
  obtain ⟨counts, recounted, spent⟩ := PoolState.spendAll_spec debited checked.sizes checked.held
  have after : run.spend height tx body nullifiers = { run with
        state := { run.state.debit tx.amount.toNat with outstanding := counts }
        seenNullifiers := nullifiers.reverse ++ run.seenNullifiers
        nf := nullifiers.foldl (fun nf nullifier => nf.insert nullifier height) run.nf
        changed := true } := by
    rw [Applying.spend, spent]
  have names : (withdrawals ++ [tx]).flatMap env.unshieldNullifiers =
      withdrawals.flatMap env.unshieldNullifiers ++ nullifiers := by
    rw [flatMap_append, flatMap_singleton, checked.unshieldNullifiers fromPool]
  rw [after]
  refine { books with
    notes := ?notes, counted := ?counted, distinct := ?distinct, recorded := ?recorded
    itemised := ?itemised }
  case notes =>
    have notes := books.notes.trans recounted
    rw [append_nil] at notes
    rw [PoolEnv.notesSpent, flatMap_append, flatMap_singleton, checked.parsed]
    exact notes
  case counted =>
    have worth := recounted.worth
    have before := books.counted
    change run.state.balanceUegoc - tx.amount.toNat = priced counts denominationsUegoc
    change run.state.balanceUegoc = priced run.state.outstanding denominationsUegoc at before
    change _ = priced run.state.outstanding denominationsUegoc + _ at worth
    rw [sum_nil, itemised.amount] at worth
    omega
  case distinct =>
    rw [names, nodup_append]
    refine ⟨books.distinct, checked.distinct, ?_⟩
    rintro old mem new isNew rfl
    exact (books.recorded old).mp (fresh old isNew) mem
  case recorded =>
    intro nullifier
    rw [lookup_foldl_insert_eq_none, books.recorded nullifier, names, mem_append, not_or]
  case itemised =>
    exact forall_mem_append.mpr ⟨books.itemised, forall_mem_singleton.mpr ⟨body, itemised⟩⟩

/-- The step: whatever an accepted transaction does, the books balance after it. -/
theorem effect (effect : Effect env height run tx after) :
    Books env (deposits ++ [tx].filter isDeposit) (withdrawals ++ [tx].filter isWithdrawal) after := by
  cases effect with
  | deposit recorded toPool memo leaf size room fresh entered =>
    have next := books.record memo leaf size room fresh entered
      (recorded.commitment :: run.seenCommitments)
    simpa [isWithdrawal, toPool] using next
  | withdrawal body nullifiers notDeposit fromPool checked fresh =>
    have next : Books env deposits (withdrawals ++ [tx]) (run.spend height tx body nullifiers) :=
      books.spend fromPool checked fresh
    simpa [isWithdrawal, notDeposit, fromPool] using next
  | other notDeposit notUnshield => simpa [isWithdrawal, notDeposit, notUnshield] using books

/-- The run over a block. -/
theorem effects (effects : Effects env height run txs last) :
    Books env (deposits ++ txs.filter isDeposit) (withdrawals ++ txs.filter isWithdrawal) last := by
  induction effects generalizing deposits withdrawals with
  | nil => simpa using books
  | @cons run after last tx rest first others ih =>
    have next := ih (books.effect first)
    rwa [append_assoc, append_assoc, ← filter_append, ← filter_append] at next

end Books

/-! ## Accepted blocks -/

/-- A block with the finality floor at which it is applied and the proof verifier that was asked. -/
structure PoolBlock where
  height : Nat
  floor : Nat
  txs : List LedgerTx
  verify : ProofVerifier

/-- Blocks that were accepted and applied one after the other, and what they leave. -/
inductive Accepted (env : PoolEnv α) : List PoolBlock → PoolDb → Prop where
  | empty : Accepted env [] {}
  | block {blocks : List PoolBlock} {db next : PoolDb} (block : PoolBlock)
      (before : Accepted env blocks db)
      (valid : validateBlockShieldedTxs env block.verify db block.height block.txs = .ok ())
      (applied : applyBlock env db block.height block.floor block.txs = some next) :
      Accepted env (blocks ++ [block]) next

def chainTxs (blocks : List PoolBlock) : List LedgerTx := blocks.flatMap PoolBlock.txs

/-- A run that changes nothing leaves the state as it is. -/
theorem Effects.state_eq (effects : Effects env height run txs last)
    (same : last.changed = false) : run.changed = false ∧ last.state = run.state := by
  induction effects with
  | nil => exact ⟨same, rfl⟩
  | cons first others ih =>
    obtain ⟨unchanged, stateIs⟩ := ih same
    cases first with
    | deposit | withdrawal => cases unchanged
    | other => exact ⟨unchanged, stateIs⟩

variable {db : PoolDb}

theorem begin_commit (effects : Effects env height (db.begin env) txs run)
    (sized : run.state.outstanding.length = denominationsUegoc.length) (floor : Nat) :
    (db.commit height floor run).begin env =
      { run with seenNullifiers := [], seenCommitments := [], changed := false } := by
  have stateIs : (db.commit height floor run).readState env = run.state := by
    cases changed : run.changed with
    | true =>
      rw [PoolDb.commit, if_pos changed]
      exact PoolState.normalise_eq_self sized
    | false =>
      rw [PoolDb.commit, if_neg (by simp [changed])]
      exact (effects.state_eq changed).2.symm
  rw [PoolDb.begin, stateIs]
  rfl

/-- The books balance after every chain of accepted blocks. -/
theorem Accepted.books {blocks : List PoolBlock} (accepted : Accepted env blocks db) :
    Books env ((chainTxs blocks).filter isDeposit) ((chainTxs blocks).filter isWithdrawal)
      (db.begin env) := by
  induction accepted with
  | empty => exact Books.empty
  | @block _ db _ block _ valid applied ih =>
    obtain ⟨run, effects, applies⟩ := applyBlock_of_valid block.floor valid
    cases applies.symm.trans applied
    have books := ih.effects effects
    rw [begin_commit effects books.notes.sized, chainTxs, flatMap_append,
      flatMap_singleton, filter_append, filter_append]
    exact { books with }

/-- What the turnstile promises after the transactions of a chain.  The numbers are exact, so no
sum was cut off, and no more was taken out than was put in. -/
structure Turnstile (env : PoolEnv α) (txs : List LedgerTx) (db : PoolDb) : Prop where
  worth : (db.readState env).balanceUegoc = (db.readState env).countedUegoc
  balance : (db.readState env).balanceUegoc + (amountsIn (txs.filter isUnshield)).sum =
    (amountsIn (txs.filter isDeposit)).sum
  notes : ∀ amount, isDenomination amount = true →
    (db.readState env).held amount + (env.notesSpent (txs.filter isUnshield)).count amount =
      (amountsIn (txs.filter isDeposit)).count amount
  itemised : ∀ tx ∈ txs.filter isUnshield, ∃ body, Itemised env tx body
  distinct : ((txs.filter isUnshield).flatMap env.unshieldNullifiers).Nodup
  recorded : ∀ nullifier, db.nullifierSpent nullifier = true ↔
    nullifier ∈ (txs.filter isUnshield).flatMap env.unshieldNullifiers
  noStray : (db.readState env).strayUegoc = 0
  stored : ∀ tx ∈ txs.filter isDeposit, Stored env db.leaves db.cidx tx
  applies : ∀ block : PoolBlock,
    validateBlockShieldedTxs env block.verify db block.height block.txs = .ok () →
    ∃ next, applyBlock env db block.height block.floor block.txs = some next

theorem sum_notesSpent (itemised : ∀ tx ∈ txs, ∃ body, Itemised env tx body) :
    (env.notesSpent txs).sum = (amountsIn txs).sum := by
  induction txs with
  | nil => rfl
  | cons tx rest ih =>
    obtain ⟨⟨body, item⟩, later⟩ := forall_mem_cons.mp itemised
    rw [PoolEnv.notesSpent, flatMap_cons, sum_append, item.parsed, amountsIn,
      map_cons, sum_cons, ← item.amount]
    exact congrArg _ (ih later)

/-- The turnstile holds, whatever the proof verifiers answer, unless a transaction goes from the
pool to the pool. -/
theorem pool_turnstile {blocks : List PoolBlock} {db : PoolDb} (accepted : Accepted env blocks db)
    (apart : ∀ tx ∈ chainTxs blocks, ¬ (tx.sender = shieldedPoolAddr ∧ tx.recipient = shieldedPoolAddr)) :
    Turnstile env (chainTxs blocks) db := by
  have books := accepted.books
  have same : (chainTxs blocks).filter isWithdrawal = (chainTxs blocks).filter isUnshield := by
    refine filter_congr fun tx mem => ?_
    simp only [isWithdrawal, isUnshield, isDeposit]
    by_cases fromPool : tx.sender = shieldedPoolAddr
    · have elsewhere : tx.recipient ≠ shieldedPoolAddr := fun toPool => apart tx mem ⟨fromPool, toPool⟩
      simp [elsewhere]
    · simp [fromPool]
  rw [same] at books
  have nothing : ∀ amount, isDenomination amount = true → heldIn (List.replicate 5 0) amount = 0 := by
    intro amount size
    obtain ⟨place, isPlace, -⟩ := denominationIndex_spec size
    rw [heldIn, isPlace, bind_some, List.getElem?_replicate]
    split <;> rfl
  constructor
  case worth => exact books.counted
  case balance =>
    have worth := books.notes.worth
    have counted : (db.readState env).balanceUegoc =
      priced (db.readState env).outstanding denominationsUegoc := books.counted
    rw [sum_notesSpent books.itemised] at worth
    change priced (db.readState env).outstanding denominationsUegoc + _ = 0 + _ at worth
    omega
  case notes =>
    intro amount size
    have held := books.notes.held amount size
    rw [nothing amount size, zero_add] at held
    exact held
  case itemised => exact books.itemised
  case distinct => exact books.distinct
  case recorded =>
    intro nullifier
    have recorded : db.nf.lookup nullifier = none ↔ _ := books.recorded nullifier
    rw [PoolDb.nullifierSpent, isSome_iff_ne_none, Ne, recorded, not_not]
  case noStray => exact books.noStray
  case stored => exact books.stored
  case applies =>
    intro block valid
    obtain ⟨run, -, applied⟩ := applyBlock_of_valid block.floor valid
    exact ⟨_, applied⟩

/-! ## Two runs -/

/-- The blocks of a list one after the other, as long as they are accepted. -/
def acceptBlocks (env : PoolEnv α) (blocks : List PoolBlock) : Option PoolDb :=
  blocks.foldlM (fun db block =>
    match validateBlockShieldedTxs env block.verify db block.height block.txs with
    | .ok _ => applyBlock env db block.height block.floor block.txs
    | .error _ => none) {}

variable {blocks : List PoolBlock}

theorem acceptBlocks_last {block : PoolBlock} (ran : acceptBlocks env (blocks ++ [block]) = some db) :
    ∃ before, acceptBlocks env blocks = some before ∧
      validateBlockShieldedTxs env block.verify before block.height block.txs = .ok () ∧
      applyBlock env before block.height block.floor block.txs = some db := by
  rw [acceptBlocks, foldlM_append, bind_eq_bind, bind_eq_some_iff] at ran
  obtain ⟨before, earlier, last⟩ := ran
  simp only [foldlM_cons, foldlM_nil, bind_pure] at last
  split at last
  case h_1 valid => exact ⟨before, earlier, valid, last⟩
  case h_2 => cases last

theorem accepted_of_acceptBlocks (ran : acceptBlocks env blocks = some db) :
    Accepted env blocks db := by
  induction blocks using List.reverseRecOn generalizing db with
  | nil =>
    cases ran
    exact .empty
  | append_singleton blocks block ih =>
    obtain ⟨before, earlier, valid, applied⟩ := acceptBlocks_last ran
    exact .block block (ih earlier) valid applied

/-- A pool in which every digest is the same. -/
def plainPoolEnv : PoolEnv Unit where
  hash := ⟨fun _ _ => (), ()⟩
  digestFromBytes _ := some ()
  fromDigest _ := List.replicate 32 0
  starkLeafFor _ _ := some ()
  hashData _ := []
  readBody recipient := .ok
    { spends := [⟨Text.toHex (List.replicate 32 0), Text.toHex (List.replicate 32 1), 1000000, 1000, []⟩]
      recipient := recipient
      amountUegoc := 1000000
      feeUegoc := 1000 }
  canonicalJson _ := []
  ruleActive _ := true

/-- The note of one coin, spent to a recipient. -/
def withdrawTo (recipient : Text) : LedgerTx where
  hash := utf8 "0x"
  sender := shieldedPoolAddr
  recipient := recipient
  amount := 1000000
  feeUegoc := 1000
  txType := utf8 "unshield"
  callArgs := recipient
  memo := some (utf8 "shield:" ++ Text.toHex (List.replicate 32 2))

/-- One coin for a note. -/
def depositFrom (sender : Text) : LedgerTx where
  hash := utf8 "0xdeposit"
  sender := sender
  recipient := shieldedPoolAddr
  amount := 1000000
  memo := some (utf8 "shield:" ++ Text.toHex (List.replicate 32 2))

/-- A transaction, and then the withdrawal of a note. -/
def thenWithdraw (first : LedgerTx) : List PoolBlock :=
  [⟨1, 0, [first], fun _ _ _ _ _ _ => true⟩,
    ⟨2, 0, [withdrawTo (utf8 "egot1recipient")], fun _ _ _ _ _ _ => true⟩]

theorem deposit_then_withdraw :
    ∃ db, acceptBlocks plainPoolEnv (thenWithdraw (depositFrom (utf8 "egot1sender"))) = some db ∧
      Turnstile plainPoolEnv (chainTxs (thenWithdraw (depositFrom (utf8 "egot1sender")))) db := by
  refine ⟨_, (some_get (by decide)).symm, ?_⟩
  exact pool_turnstile (accepted_of_acceptBlocks (some_get _).symm) (by decide)

/-- Ten coins for a note. -/
def largeDeposit : LedgerTx :=
  { depositFrom (utf8 "egot1sender") with
    hash := utf8 "0xlarge"
    amount := 10000000
    memo := some (utf8 "shield:" ++ Text.toHex (List.replicate 32 4)) }

/-- A deposit, a withdrawal from the pool to the pool, and a withdrawal of the same note. -/
def spentTwice : List PoolBlock :=
  [⟨1, 0, [largeDeposit], fun _ _ _ _ _ _ => true⟩,
    ⟨2, 0, [withdrawTo shieldedPoolAddr], fun _ _ _ _ _ _ => true⟩,
    ⟨3, 0, [withdrawTo (utf8 "egot1recipient")], fun _ _ _ _ _ _ => true⟩]

/-- A withdrawal from the pool to the pool is taken for a deposit, its nullifier is not recorded, and
the same note is withdrawn again: the pool counts more than came in and did not go out. -/
theorem pool_pays_itself_twice :
    ∃ db, Accepted plainPoolEnv spentTwice db ∧
      (amountsIn ((chainTxs spentTwice).filter isDeposit)).sum < (db.readState plainPoolEnv).balanceUegoc +
        (amountsIn ((chainTxs spentTwice).filter isUnshield)).sum ∧
      ¬ (((chainTxs spentTwice).filter isUnshield).flatMap plainPoolEnv.unshieldNullifiers).Nodup := by
  exact ⟨_, accepted_of_acceptBlocks (some_get (by decide)).symm, by decide⟩

end EgoChain.Shielded
