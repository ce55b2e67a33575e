import EgoChain.Ledger.BlockRules

/-!
# Blocks that pass the rules

What the rules for the transactions of a block make sure of, one fact for each
group of checks.
-/

namespace EgoChain.Ledger

open EgoChain.Foundations List

variable {block : LedgerBlock} {txs : List LedgerTx} {env : TxEnv} {rules : RewardRules}

theorem checkHashes_ok {seen : List Text} (passed : checkHashes block seen txs = .ok ()) :
    (txs.map LedgerTx.hash).Nodup ∧ ∀ tx ∈ txs, tx.hash ∉ seen := by
  induction txs generalizing seen with
  | nil => simp
  | cons tx rest ih =>
    simp only [checkHashes, bind_eq_ok_iff, ensure_eq_ok_iff, exists_const] at passed
    obtain ⟨-, fresh, later⟩ := passed
    obtain ⟨distinct, apart⟩ := ih later
    refine ⟨nodup_cons.mpr ⟨?_, distinct⟩, ?_⟩
    · intro again
      obtain ⟨other, mem, same⟩ := mem_map.mp again
      exact apart other mem (same ▸ mem_cons_self)
    · exact forall_mem_cons.mpr
        ⟨fresh, fun other later isSeen => apart other later (mem_cons_of_mem _ isSeen)⟩

/-- What the rules for the transactions of a block make sure of, apart from the simulation. -/
structure Accepted (env : TxEnv) (rules : RewardRules) (state : ChainState) (block : LedgerBlock)
    (txs : List LedgerTx) : Prop where
  kinds : ∀ tx ∈ txs, checkKind env state block (sortByNonce txs) tx = .ok ()
  coinbase : ∀ tx ∈ txs, isCoinbase block tx = true → tx.sender = nodePoolAddr

theorem perm_sortByNonce (txs : List LedgerTx) : (sortByNonce txs).Perm txs :=
  mergeSort_perm _ _

variable {expected : Nat} {tx : LedgerTx} {state : ChainState}

/-- The transaction that a block names as its coinbase is a reward out of the node pool. -/
theorem checkCoinbase_spec (passed : checkCoinbase env rules block expected txs = .ok ())
    (distinct : (txs.map LedgerTx.hash).Nodup) (mem : tx ∈ txs)
    (isCoin : isCoinbase block tx = true) :
    tx.sender = nodePoolAddr ∧ tx.txType = utf8 "reward" := by
  have listed := mem_filter.mpr ⟨mem, isCoin⟩
  unfold checkCoinbase at passed
  split at passed
  case isTrue =>
    simp only [bind_eq_ok_iff, need_eq_ok_iff, ensure_eq_ok_iff] at passed
    obtain ⟨coinbase, head, source, -, -, -, type, -⟩ := passed
    obtain ⟨inBlock, names⟩ := mem_filter.mp (mem_of_mem_head? head)
    have hashes := Option.some.inj ((of_decide_eq_true names).symm.trans (of_decide_eq_true isCoin))
    rw [← inj_on_of_nodup_map distinct inBlock mem hashes]
    exact ⟨source, type⟩
  case isFalse =>
    rw [ensure_eq_ok_iff] at passed
    rw [passed.2] at listed
    cases listed

/-- The checks of one block, for the same transactions in the order of their nonces. -/
structure ProtocolChecks (env : TxEnv) (rules : RewardRules) (state : ChainState)
    (block : LedgerBlock) (txs : List LedgerTx) : Prop where
  distinct : (txs.map LedgerTx.hash).Nodup
  coinbase : ∃ expected, checkCoinbase env rules block expected txs = .ok ()
  kinds : ∀ tx ∈ txs, checkKind env state block txs tx = .ok ()

theorem validateBlockProtocolTxs_checks
    (passed : validateBlockProtocolTxs env rules state block txs = .ok ()) :
    ProtocolChecks env rules state block (sortByNonce txs) := by
  simp only [validateBlockProtocolTxs, unit_bind_eq_ok_iff, checkAll_eq_ok_iff] at passed
  obtain ⟨-, hashes, -, coinbase, -, kinds, -⟩ := passed
  exact ⟨(checkHashes_ok hashes).1, ⟨_, coinbase⟩, kinds⟩

theorem validateBlockProtocolTxs_ok
    (passed : validateBlockProtocolTxs env rules state block txs = .ok ()) :
    Accepted env rules state block txs := by
  obtain ⟨distinct, ⟨expected, coinbase⟩, kinds⟩ := validateBlockProtocolTxs_checks passed
  have perm := perm_sortByNonce txs
  refine ⟨?_, ?_⟩
  · exact fun tx mem => kinds tx (perm.mem_iff.mpr mem)
  · exact fun tx mem isCoin =>
      (checkCoinbase_spec coinbase distinct (perm.mem_iff.mpr mem) isCoin).1

end EgoChain.Ledger
