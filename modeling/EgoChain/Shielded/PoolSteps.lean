import EgoChain.Shielded.Pool

/-!
# Validation and application take the same steps

A transaction that passes validation is applied as a deposit, as a withdrawal or
not at all, and the two loops end with the same state and have seen the same
commitments and nullifiers.  Every fact about accepted blocks is derived from the
three ways a transaction can go.
-/

namespace EgoChain.Shielded

open EgoChain.Foundations EgoChain.Ledger List
open EgoChain.Chain (isDeposit)

variable {α : Type} {env : PoolEnv α} {verify : ProofVerifier} {db : PoolDb}

/-! ## What validation checks -/

variable {state : PoolState} {tx : LedgerTx} {nullifiers : List Bytes32} {height : Nat}
  {seen : List Bytes32} {recipient : Bytes32} {spending : Spending}
  {spends : List UnshieldSpend} {txs : List LedgerTx} {validating : Validating}

theorem validateDepositIn_eq_ok {next : List Bytes32}
    (passed : validateDepositIn db state tx seen = .ok next) :
    ∃ commitment, parseShieldMemo tx.memo = some commitment ∧
      isDenomination tx.amount.toNat = true ∧ state.isFull = false ∧
      (db.knows commitment = false ∧ commitment ∉ seen) ∧ next = commitment :: seen := by
  simp only [validateDepositIn, bind_eq_ok_iff, need_eq_ok_iff, ensure_eq_ok_iff, pure, Except.pure,
    Except.ok.injEq] at passed
  obtain ⟨commitment, memo, -, size, -, room, -, fresh, same⟩ := passed
  exact ⟨commitment, memo, size, room, fresh, same.symm⟩

/-- The amounts of the notes that are spent. -/
def amountsOf (spends : List UnshieldSpend) : List Nat :=
  spends.map fun spend => spend.amountUegoc.toNat

theorem checkSpend_eq_ok {next : Spending} {spend : UnshieldSpend}
    (passed : checkSpend verify db state tx recipient spending spend = .ok next) :
    ∃ nullifier, spend.nullifierBytes = .ok nullifier ∧
      (db.nullifierSpent nullifier = false ∧ nullifier ∉ spending.seen) ∧
      isDenomination spend.amountUegoc.toNat = true ∧
      (spending.wanted.lookup spend.amountUegoc.toNat).getD 0 + 1 ≤ state.held spend.amountUegoc.toNat ∧
      next = ⟨nullifier :: spending.seen, spending.wanted.insert spend.amountUegoc.toNat
        ((spending.wanted.lookup spend.amountUegoc.toNat).getD 0 + 1)⟩ := by
  simp only [checkSpend, bind_eq_ok_iff, ensure_eq_ok_iff, pure, Except.pure, Except.ok.injEq] at passed
  obtain ⟨-, size, -, -, -, -, nullifier, read, -, fresh, -, enough, -, -, -, -, same⟩ := passed
  exact ⟨nullifier, read, fresh, size, enough, same.symm⟩

/-- What the loop over the spends has checked. -/
structure SpendsPass (db : PoolDb) (state : PoolState) (spending : Spending)
    (spends : List UnshieldSpend) (nullifiers : List Bytes32) : Prop where
  readable : spends.map UnshieldSpend.nullifierBytes = nullifiers.map Except.ok
  distinct : nullifiers.Nodup
  unspent : ∀ nullifier ∈ nullifiers, db.nullifierSpent nullifier = false
  unseen : ∀ nullifier ∈ nullifiers, nullifier ∉ spending.seen
  sizes : ∀ amount ∈ amountsOf spends, isDenomination amount = true
  enough : ∀ amount ∈ amountsOf spends,
    (spending.wanted.lookup amount).getD 0 + (amountsOf spends).count amount ≤ state.held amount

theorem checkSpends_eq_ok {next : Spending}
    (passed : spends.foldlM (checkSpend verify db state tx recipient) spending = .ok next) :
    ∃ nullifiers, SpendsPass db state spending spends nullifiers ∧
      next.seen = nullifiers.reverse ++ spending.seen := by
  induction spends generalizing spending with
  | nil =>
    cases passed
    refine ⟨[], ⟨rfl, nodup_nil, ?_, ?_, ?_, ?_⟩, rfl⟩ <;> simp [amountsOf]
  | cons spend rest ih =>
    rw [foldlM_cons, bind_eq_ok_iff] at passed
    obtain ⟨after, first, others⟩ := passed
    obtain ⟨nullifier, read, ⟨unspent, unseen⟩, size, enough, rfl⟩ := checkSpend_eq_ok first
    obtain ⟨nullifiers, pass, seen⟩ := ih others
    have notLater := fun mem => pass.unseen nullifier mem mem_cons_self
    refine ⟨nullifier :: nullifiers, ?_, by simp [seen]⟩
    constructor
    case readable => rw [map_cons, map_cons, read, pass.readable]
    case distinct => exact nodup_cons.mpr ⟨notLater, pass.distinct⟩
    case unspent => exact forall_mem_cons.mpr ⟨unspent, pass.unspent⟩
    case unseen =>
      refine forall_mem_cons.mpr ⟨unseen, fun later mem inSeen => ?_⟩
      exact pass.unseen later mem (mem_cons_of_mem _ inSeen)
    case sizes => exact forall_mem_cons.mpr ⟨size, pass.sizes⟩
    case enough =>
      -- The count of a size goes up by one here, and so does what was wanted of it before.
      intro amount mem
      change _ + (spend.amountUegoc.toNat :: amountsOf rest).count amount ≤ _
      rw [count_cons]
      have wanted := pass.enough amount
      rw [KeyedMap.lookup_insert_eq] at wanted
      by_cases same : amount = spend.amountUegoc.toNat
      · subst same
        by_cases again : spend.amountUegoc.toNat ∈ amountsOf rest
        · have more := wanted again
          rw [if_pos rfl, Option.getD_some] at more
          simp only [BEq.rfl, if_true]
          omega
        · have none' := count_eq_zero_of_not_mem again
          simp only [BEq.rfl, if_true]
          omega
      · have later := (mem_cons.mp mem).resolve_left same
        have more := wanted later
        rw [if_neg same] at more
        have differs : (spend.amountUegoc.toNat == amount) = false := by
          simpa using fun equal => same equal.symm
        rw [differs]
        simpa using more

theorem nullifiers_of_readable
    (readable : spends.map UnshieldSpend.nullifierBytes = nullifiers.map Except.ok) :
    (spends.filterMap fun spend => spend.nullifierBytes.toOption) = nullifiers := by
  induction spends generalizing nullifiers with
  | nil =>
    rw [map_nil, eq_comm, map_eq_nil_iff] at readable
    rw [readable]
    rfl
  | cons spend rest ih =>
    cases nullifiers with
    | nil => cases readable
    | cons nullifier more =>
      obtain ⟨read, others⟩ := List.cons.inj readable
      rw [filterMap_cons, read]
      exact congrArg _ (ih others)

/-- What a withdrawal that passes validation is like. -/
structure Withdrawal (env : PoolEnv α) (state : PoolState) (tx : LedgerTx) (body : UnshieldBody)
    (nullifiers : List Bytes32) : Prop where
  parsed : env.parseUnshieldBody tx.callArgs = .ok body
  readable : body.spends.map UnshieldSpend.nullifierBytes = nullifiers.map Except.ok
  distinct : nullifiers.Nodup
  few : body.spends.length ≤ maxUnshieldSpends
  sizes : ∀ amount ∈ amountsOf body.spends, isDenomination amount = true
  held : ∀ amount ∈ amountsOf body.spends, (amountsOf body.spends).count amount ≤ state.held amount
  amount : body.totals.1 = tx.amount.toNat
  fee : body.totals.2 = tx.feeUegoc.toNat
  lowFee : tx.feeUegoc < tx.amount
  covered : tx.amount.toNat ≤ state.balanceUegoc

theorem validateUnshieldIn_eq_ok {next : List Bytes32}
    (passed : validateUnshieldIn env verify db state tx seen = .ok next) :
    ∃ body nullifiers, Withdrawal env state tx body nullifiers ∧
      (∀ nullifier ∈ nullifiers, db.nullifierSpent nullifier = false ∧ nullifier ∉ seen) ∧
      next = nullifiers.reverse ++ seen := by
  simp only [validateUnshieldIn, bind_eq_ok_iff, ensure_eq_ok_iff, pure, Except.pure,
    Except.ok.injEq] at passed
  obtain ⟨-, -, body, parsed, done, fields, spending, spends, -, covered, rfl⟩ := passed
  simp only [checkBody, unit_bind_eq_ok_iff, ensure_eq_ok_iff] at fields
  obtain ⟨-, -, -, -, few, amount, fee, range, -⟩ := fields
  obtain ⟨nullifiers, pass, seenAfter⟩ := checkSpends_eq_ok spends
  refine ⟨body, nullifiers, ?_, fun nullifier mem => ⟨pass.unspent _ mem, pass.unseen _ mem⟩, seenAfter⟩
  exact
    { parsed := parsed
      readable := pass.readable
      distinct := pass.distinct
      few := few
      sizes := pass.sizes
      held := fun size mem => by simpa using pass.enough size mem
      amount := amount
      fee := fee
      lowFee := range.2
      covered := covered }

theorem Withdrawal.unshieldNullifiers {body : UnshieldBody}
    (withdrawal : Withdrawal env state tx body nullifiers) (fromPool : isUnshield tx = true) :
    env.unshieldNullifiers tx = nullifiers := by
  rw [PoolEnv.unshieldNullifiers, if_pos fromPool, withdrawal.parsed]
  exact nullifiers_of_readable withdrawal.readable

/-! ## The steps -/

/-- The ways an accepted transaction can go. -/
inductive Effect (env : PoolEnv α) (height : Nat) (run : Applying) (tx : LedgerTx) :
    Applying → Prop where
  | deposit (recorded : RecordedDeposit) (toPool : isDeposit tx = true)
      (memo : parseShieldMemo tx.memo = some recorded.commitment)
      (leaf : env.leafFor recorded.commitment tx.amount.toNat = some recorded.leaf)
      (size : isDenomination tx.amount.toNat = true) (room : run.state.isFull = false)
      (fresh : run.cidx.lookup recorded.commitment = none)
      (entered : run.state.enter env recorded.leaf tx.amount.toNat =
        .ok (recorded.index, recorded.state)) :
      Effect env height run tx (run.record (recorded.commitment :: run.seenCommitments) recorded)
  | withdrawal (body : UnshieldBody) (nullifiers : List Bytes32) (notDeposit : isDeposit tx = false)
      (fromPool : isUnshield tx = true) (checked : Withdrawal env run.state tx body nullifiers)
      (fresh : ∀ nullifier ∈ nullifiers, run.nf.lookup nullifier = none) :
      Effect env height run tx (run.spend height tx body nullifiers)
  | other (notDeposit : isDeposit tx = false) (notUnshield : isUnshield tx = false) :
      Effect env height run tx run

/-- The loop of validation stands where the loop of application stands, and the keys written so
far are those stored before the block and those seen in it. -/
structure InStep (db : PoolDb) (validating : Validating) (run : Applying) : Prop where
  state : validating.state = run.state
  seenNullifiers : validating.seenNullifiers = run.seenNullifiers
  seenCommitments : validating.seenCommitments = run.seenCommitments
  cidx : ∀ commitment, run.cidx.lookup commitment = none ↔
    db.knows commitment = false ∧ commitment ∉ run.seenCommitments
  nf : ∀ nullifier, run.nf.lookup nullifier = none ↔
    db.nullifierSpent nullifier = false ∧ nullifier ∉ run.seenNullifiers

theorem lookup_foldl_insert_eq_none {nf : KeyedMap Bytes32 Nat} {nullifier : Bytes32} :
    (nullifiers.foldl (fun nf nullifier => nf.insert nullifier height) nf).lookup nullifier = none ↔
      nf.lookup nullifier = none ∧ nullifier ∉ nullifiers := by
  induction nullifiers generalizing nf with
  | nil => simp
  | cons first rest ih =>
    rw [foldl_cons, ih]
    by_cases same : nullifier = first <;> simp [same]

theorem InStep.deposit {next : Validating} {run : Applying}
    (together : InStep db validating run) (toPool : isDeposit tx = true)
    (valid : validateTx env verify db validating tx = .ok next) :
    ∃ after, applyTx env db height run tx = some after ∧ Effect env height run tx after ∧
      InStep db next after := by
  rw [validateTx, if_pos toPool] at valid
  simp only [bind_eq_ok_iff, need_eq_ok_iff, mapError_eq_ok_iff, pure, Except.pure,
    Except.ok.injEq] at valid
  obtain ⟨seen, checked, commitment, memo, leaf, isLeaf, ⟨index, state⟩, entered, rfl⟩ := valid
  obtain ⟨again, memoToo, size, room, ⟨unknown, unseen⟩, rfl⟩ := validateDepositIn_eq_ok checked
  obtain rfl : commitment = again := Option.some.inj (memo.symm.trans memoToo)
  rw [together.seenCommitments] at unseen
  rw [together.state] at room entered
  have fresh := (together.cidx commitment).mpr ⟨unknown, unseen⟩
  refine ⟨run.record (commitment :: run.seenCommitments) ⟨index, commitment, leaf, state⟩, ?_, ?_, ?_⟩
  · have record : recordDeposit env db run.state run.seenCommitments tx =
        some (commitment :: run.seenCommitments, .ok ⟨index, commitment, leaf, state⟩) := by
      rw [recordDeposit, memo]
      dsimp only
      rw [if_neg (by simp [size]), if_neg (by simp [unknown, unseen]), isLeaf, Option.map_some, entered]
      rfl
    rw [applyTx, if_pos toPool, record]
    rfl
  · exact .deposit ⟨index, commitment, leaf, state⟩ toPool memo isLeaf size room fresh entered
  · constructor
    case state => rfl
    case seenNullifiers => exact together.seenNullifiers
    case seenCommitments =>
      exact congrArg (commitment :: ·) together.seenCommitments
    case cidx =>
      intro other
      change (run.cidx.insert commitment index).lookup other = none ↔
        db.knows other = false ∧ other ∉ commitment :: run.seenCommitments
      rw [KeyedMap.lookup_insert_eq]
      by_cases same : other = commitment
      · simp [same]
      · rw [if_neg same, together.cidx other]
        simp [same]
    case nf => exact together.nf

theorem InStep.withdrawal {next : Validating} {run : Applying} (together : InStep db validating run)
    (notDeposit : isDeposit tx = false)
    (fromPool : isUnshield tx = true)
    (valid : validateTx env verify db validating tx = .ok next) :
    ∃ after, applyTx env db height run tx = some after ∧ Effect env height run tx after ∧
      InStep db next after := by
  rw [validateTx, if_neg (by simp [notDeposit]), if_pos fromPool] at valid
  simp only [bind_eq_ok_iff, pure, Except.pure, Except.ok.injEq] at valid
  obtain ⟨seen, checked, rfl⟩ := valid
  rw [together.state, together.seenNullifiers] at checked
  obtain ⟨body, nullifiers, withdrawal, new, rfl⟩ := validateUnshieldIn_eq_ok checked
  have fresh := fun nullifier mem => (together.nf nullifier).mpr (new nullifier mem)
  have named := withdrawal.unshieldNullifiers fromPool
  refine ⟨run.spend height tx body nullifiers, ?_, ?_, ?_⟩
  · have count : nullifiers.length = body.spends.length := by
      have lengths := congrArg List.length withdrawal.readable
      rw [length_map, length_map] at lengths
      exact lengths.symm
    have unspent : (nullifiers.any fun nullifier =>
        db.nullifierSpent nullifier || nullifier ∈ run.seenNullifiers) = false := by
      rw [any_eq_false]
      intro nullifier mem
      simp [new nullifier mem]
    rw [applyTx, if_neg (by simp [notDeposit]), if_pos fromPool, withdrawal.parsed]
    dsimp only
    rw [named, if_neg (by simp [count]), if_neg (by simp [unspent])]
  · exact .withdrawal body nullifiers notDeposit fromPool withdrawal fresh
  · constructor
    case state =>
      rw [withdrawal.parsed, together.state]
      rfl
    case seenNullifiers => rfl
    case seenCommitments => exact together.seenCommitments
    case cidx => exact together.cidx
    case nf =>
      intro nullifier
      change (nullifiers.foldl (fun nf nullifier => nf.insert nullifier height) run.nf).lookup
          nullifier = none ↔
        db.nullifierSpent nullifier = false ∧ nullifier ∉ nullifiers.reverse ++ run.seenNullifiers
      rw [lookup_foldl_insert_eq_none, together.nf nullifier, mem_append, mem_reverse, not_or]
      tauto

theorem InStep.next {next : Validating} {run : Applying} (together : InStep db validating run)
    (valid : validateTx env verify db validating tx = .ok next) :
    ∃ after, applyTx env db height run tx = some after ∧ Effect env height run tx after ∧
      InStep db next after := by
  cases toPool : isDeposit tx with
  | true => exact together.deposit toPool valid
  | false =>
    cases fromPool : isUnshield tx with
    | true => exact together.withdrawal toPool fromPool valid
    | false =>
      rw [validateTx, if_neg (by simp [toPool]), if_neg (by simp [fromPool])] at valid
      cases valid
      refine ⟨run, ?_, .other toPool fromPool, together⟩
      rw [applyTx, if_neg (by simp [toPool]), if_neg (by simp [fromPool])]

/-- The effects of the transactions of a block in order. -/
inductive Effects (env : PoolEnv α) (height : Nat) : Applying → List LedgerTx → Applying → Prop where
  | nil (run : Applying) : Effects env height run [] run
  | cons {run after last : Applying} {tx : LedgerTx} {rest : List LedgerTx}
      (first : Effect env height run tx after) (others : Effects env height after rest last) :
      Effects env height run (tx :: rest) last

theorem InStep.run {next : Validating} {run : Applying} (together : InStep db validating run)
    (valid : txs.foldlM (validateTx env verify db) validating = .ok next) :
    ∃ last, txs.foldlM (applyTx env db height) run = some last ∧ Effects env height run txs last := by
  induction txs generalizing validating run with
  | nil => exact ⟨run, rfl, .nil run⟩
  | cons tx rest ih =>
    rw [foldlM_cons, bind_eq_ok_iff] at valid
    obtain ⟨middle, first, others⟩ := valid
    obtain ⟨after, applied, effect, still⟩ := together.next first
    obtain ⟨last, appliedAll, effects⟩ := ih still others
    refine ⟨last, ?_, .cons effect effects⟩
    rw [foldlM_cons, applied]
    exact appliedAll

/-- Where the loops over a block begin. -/
def PoolDb.begin (env : PoolEnv α) (db : PoolDb) : Applying :=
  ⟨db.readState env, [], [], db.leaves, db.cidx, db.nf, false⟩

theorem inStep_begin : InStep db ⟨db.readState env, [], []⟩ (db.begin env) where
  state := rfl
  seenNullifiers := rfl
  seenCommitments := rfl
  cidx := by
    intro commitment
    change db.cidx.lookup commitment = none ↔ db.knows commitment = false ∧ commitment ∉ []
    simp [PoolDb.knows]
  nf := by
    intro nullifier
    change db.nf.lookup nullifier = none ↔ db.nullifierSpent nullifier = false ∧ nullifier ∉ []
    simp [PoolDb.nullifierSpent]

/-- Transactions that have nothing to do with the pool change nothing. -/
theorem effects_of_untouched (untouched : txs.any touchesPool = false) (run : Applying) :
    txs.foldlM (applyTx env db height) run = some run ∧ Effects env height run txs run := by
  induction txs with
  | nil => exact ⟨rfl, .nil run⟩
  | cons tx rest ih =>
    rw [any_cons, Bool.or_eq_false_iff, touchesPool, Bool.or_eq_false_iff] at untouched
    obtain ⟨⟨notDeposit, notUnshield⟩, others⟩ := untouched
    obtain ⟨applied, effects⟩ := ih others
    have same : applyTx env db height run tx = some run := by
      rw [applyTx, if_neg (by simp [notDeposit]), if_neg (by simp [notUnshield])]
    refine ⟨?_, .cons (.other notDeposit notUnshield) effects⟩
    rw [foldlM_cons, same]
    exact applied

/-- What a run leaves behind. -/
def PoolDb.commit (db : PoolDb) (height floor : Nat) (run : Applying) : PoolDb where
  state := if run.changed then some run.state else db.state
  leaves := run.leaves
  cidx := run.cidx
  nf := run.nf
  hist :=
    if run.changed then pruneHistory db.hist floor (db.hist.insert height run.state) else db.hist

/-- An accepted block is applied, without a panic, by the effects of its transactions. -/
theorem applyBlock_of_valid (floor : Nat)
    (valid : validateBlockShieldedTxs env verify db height txs = .ok ()) :
    ∃ run, Effects env height (db.begin env) txs run ∧
      applyBlock env db height floor txs = some (db.commit height floor run) := by
  have applied : ∃ run, txs.foldlM (applyTx env db height) (db.begin env) = some run ∧
      Effects env height (db.begin env) txs run := by
    rw [validateBlockShieldedTxs] at valid
    split at valid
    case isTrue untouched => exact ⟨_, effects_of_untouched untouched _⟩
    case isFalse =>
      rw [unit_bind_eq_ok_iff, bind_eq_ok_iff] at valid
      obtain ⟨-, next, loop, -⟩ := valid
      exact inStep_begin.run loop
  obtain ⟨run, loop, effects⟩ := applied
  refine ⟨run, effects, ?_⟩
  change (txs.foldlM (applyTx env db height) (db.begin env)).map (db.commit height floor) = _
  rw [loop, Option.map_some]

end EgoChain.Shielded
