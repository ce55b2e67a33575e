import EgoChain.Ledger.Credits
import Mathlib.Tactic.Ring

/-!
# Credits are conserved unless an account is overdrawn

Each payment is checked on its own against the balance before the block, while
the updates are summed up over the block.  What an account gains and loses in a
block is a sum over its transactions; the write is exact for an account as long
as the sum stays within range, and the checks ensure that for an account with a
single payment only.
-/

namespace EgoChain.Ledger

open EgoChain.Foundations KeyedMap List

/-! ## What a transaction moves -/

namespace LedgerTx

variable (tx : LedgerTx) (addr : Text)

/-- The credits that leave the sender. -/
def creditsSpent : Nat :=
  if tx.txType = utf8 "credits_pay" then (parseCreditsPayMemo tx.memo).getD 0
  else if tx.txType = utf8 "credits_escrow" then
    ((parseCreditsReleaseMemo tx.memo).map Prod.fst).getD 0
  else 0

/-- The credits that the sender gets for the EGOC it burns. -/
def creditsMinted : Nat :=
  if tx.txType = utf8 "credits_mint" then
    ((parseCreditsMintMemo tx.memo).map (creditsMintAmount tx.amount.toNat)).getD 0
  else 0

def creditsLost : Nat := if addr = tx.sender then tx.creditsSpent else 0

def creditsGained : Nat :=
  (if addr = tx.recipient then tx.creditsSpent else 0) +
    if addr = tx.sender then tx.creditsMinted else 0

end LedgerTx

variable (value : Int) (txs : List LedgerTx) (addr : Text)

def creditsLost : Nat :=
  (txs.map fun tx => tx.creditsLost addr).sum

def creditsGained : Nat :=
  (txs.map fun tx => tx.creditsGained addr).sum

def creditsMinted : Nat := (txs.map LedgerTx.creditsMinted).sum

/-! ## The summed updates -/

variable (updates : CreditUpdates)

/-- The sum written down for an account. -/
def CreditUpdates.delta (addr : Text) : Int :=
  (updates.deltas.lookup addr).getD 0

def CreditUpdates.total : Int :=
  updates.deltas.total fun _ delta => delta

variable (tx : LedgerTx)

/-- What a transaction does to the sums: nothing, a mint or a payment. -/
theorem creditUpdate_cases : (tx.creditsSpent = 0 ∧ tx.creditsMinted = 0 ∧
      (creditUpdate updates tx).deltas = updates.deltas) ∨
    (tx.creditsSpent = 0 ∧
      (creditUpdate updates tx).deltas = updates.deltas.addTo tx.sender tx.creditsMinted) ∨
    (tx.creditsMinted = 0 ∧ (creditUpdate updates tx).deltas =
      (updates.deltas.addTo tx.sender (-tx.creditsSpent)).addTo tx.recipient tx.creditsSpent) := by
  unfold creditUpdate LedgerTx.creditsSpent LedgerTx.creditsMinted
  by_cases isMint : tx.txType = utf8 "credits_mint"
  · simp only [isMint, if_true]
    cases parseCreditsMintMemo tx.memo with
    | none => simp
    | some price => by_cases nothing : creditsMintAmount tx.amount.toNat price = 0 <;> simp [nothing]
  by_cases isPay : tx.txType = utf8 "credits_pay"
  · simp only [isPay, if_true]
    cases parseCreditsPayMemo tx.memo with
    | none => simp
    | some credits => by_cases nothing : credits = 0 <;> simp [nothing]
  by_cases isEscrow : tx.txType = utf8 "credits_escrow"
  · simp only [isEscrow, if_true]
    cases parseCreditsReleaseMemo tx.memo with
    | none => simp
    | some release => by_cases nothing : release.1 = 0 <;> simp [nothing]
  · simp [isMint, isPay, isEscrow]

theorem delta_creditUpdate : (creditUpdate updates tx).delta addr + tx.creditsLost addr =
      updates.delta addr + tx.creditsGained addr := by
  unfold CreditUpdates.delta LedgerTx.creditsLost LedgerTx.creditsGained
  rcases creditUpdate_cases updates tx with ⟨spent, minted, same⟩ | ⟨spent, same⟩ | ⟨minted, same⟩
  · simp [same, spent, minted]
  · rw [same, getD_lookup_addTo, spent]
    split <;> simp
  · rw [same, getD_lookup_addTo, getD_lookup_addTo, minted]
    split <;> split <;> simp

theorem total_creditUpdate : (creditUpdate updates tx).total = updates.total + tx.creditsMinted := by
  unfold CreditUpdates.total
  rcases creditUpdate_cases updates tx with ⟨_, minted, same⟩ | ⟨_, same⟩ | ⟨minted, same⟩
  · simp [same, minted]
  · rw [same, total_addTo]
  · rw [same, total_addTo, total_addTo, minted]
    simp

theorem delta_foldl : (txs.foldl creditUpdate updates).delta addr + creditsLost txs addr =
      updates.delta addr + creditsGained txs addr := by
  induction txs generalizing updates with
  | nil => simp [creditsLost, creditsGained]
  | cons tx rest ih =>
    have later := ih (creditUpdate updates tx)
    have step := delta_creditUpdate addr updates tx
    simp only [creditsLost, creditsGained, map_cons, sum_cons, Nat.cast_add, foldl_cons] at later ⊢
    omega

theorem total_foldl :
    (txs.foldl creditUpdate updates).total = updates.total + creditsMinted txs := by
  induction txs generalizing updates with
  | nil => simp [creditsMinted]
  | cons tx rest ih =>
    have later := ih (creditUpdate updates tx)
    rw [total_creditUpdate] at later
    simp only [creditsMinted, map_cons, sum_cons, foldl_cons] at later ⊢
    omega

theorem delta_creditUpdates :
    (creditUpdates txs).delta addr + creditsLost txs addr = creditsGained txs addr := by
  have sums := delta_foldl txs addr .empty
  rwa [show CreditUpdates.empty.delta addr = 0 from rfl, zero_add] at sums

theorem total_creditUpdates : (creditUpdates txs).total = creditsMinted txs := by
  have sums := total_foldl txs .empty
  rwa [show CreditUpdates.empty.total = 0 from rfl, zero_add] at sums

/-! ## Writing -/

theorem toNat_clampU64 : (clampU64 value).toNat = min value.toNat maxU64 := by
  unfold clampU64 maxU64
  exact UInt64.toNat_ofNat_of_lt' (by change _ < 18446744073709551616; omega)

/-- A value is written as it is exactly if it is in range. -/
theorem clampU64_exact_iff : ((clampU64 value).toNat : Int) = value ↔ 0 ≤ value ∧ value ≤ maxU64 := by
  rw [toNat_clampU64]
  omega

theorem clampU64_toNat (value : UInt64) : clampU64 value.toNat = value := by
  have small := value.toNat_lt
  refine UInt64.toNat_inj.mp ?_
  rw [toNat_clampU64]
  unfold maxU64
  omega

section Writes

variable (credits : KeyedMap Text UInt64) (entry : Sigma fun _ : Text => Int) (addr : Text)

def creditsAt : Nat := ((credits.lookup addr).getD 0).toNat

def creditsTotal : Nat := credits.total fun _ value => value.toNat

theorem creditsAt_write : creditsAt (writeCredits credits entry) addr =
      if addr = entry.1 then (clampU64 (creditsAt credits addr + entry.2)).toNat
      else creditsAt credits addr := by
  unfold creditsAt writeCredits
  rw [lookup_insert_eq]
  split
  case isTrue same => rw [same, Option.getD_some]
  case isFalse => rfl

theorem creditsTotal_write : creditsTotal (writeCredits credits entry) + creditsAt credits entry.1 =
      creditsTotal credits + (clampU64 (creditsAt credits entry.1 + entry.2)).toNat := by
  have written := total_insert credits (fun _ value => value.toNat) entry.1
    (clampU64 (creditsAt credits entry.1 + entry.2))
  have stood : credits.weightAt (fun _ value => value.toNat) entry.1 = creditsAt credits entry.1 := by
    unfold KeyedMap.weightAt creditsAt
    cases credits.lookup entry.1 <;> rfl
  rw [stood] at written
  exact written

variable (entries : List (Sigma fun _ : Text => Int))

include entries

/-- An account that is in none of the sums keeps its credits. -/
theorem creditsAt_foldl_of_absent (absent : addr ∉ entries.keys) :
    creditsAt (entries.foldl writeCredits credits) addr = creditsAt credits addr := by
  induction entries generalizing credits with
  | nil => rfl
  | cons entry rest ih =>
    rw [keys_cons, mem_cons, not_or] at absent
    rw [foldl_cons, ih _ absent.2, creditsAt_write, if_neg absent.1]

theorem creditsAt_foldl_of_mem (distinct : entries.NodupKeys) (mem : entry ∈ entries) :
    creditsAt (entries.foldl writeCredits credits) entry.1 =
      (clampU64 (creditsAt credits entry.1 + entry.2)).toNat := by
  induction entries generalizing credits with
  | nil => cases mem
  | cons first rest ih =>
    rw [nodupKeys_cons] at distinct
    rcases mem_cons.mp mem with rfl | isLater
    · rw [foldl_cons, creditsAt_foldl_of_absent _ _ _ distinct.1, creditsAt_write, if_pos rfl]
    · have unlike : entry.1 ≠ first.1 := fun same =>
        distinct.1 (same ▸ mem_keys_of_mem isLater)
      rw [foldl_cons, ih _ distinct.2 isLater, creditsAt_write, if_neg unlike]

/-- Without a clamp the total moves by the sum of the sums. -/
theorem creditsTotal_foldl (distinct : entries.NodupKeys)
    (inRange : ∀ entry ∈ entries, 0 ≤ creditsAt credits entry.1 + entry.2 ∧
      creditsAt credits entry.1 + entry.2 ≤ maxU64) :
    (creditsTotal (entries.foldl writeCredits credits) : Int) =
      creditsTotal credits + (entries.map Sigma.snd).sum := by
  induction entries generalizing credits with
  | nil => simp
  | cons first rest ih =>
    rw [nodupKeys_cons] at distinct
    have later := ih _ distinct.2 fun entry mem => by
      have unlike : entry.1 ≠ first.1 := fun same => distinct.1 (same ▸ mem_keys_of_mem mem)
      rw [creditsAt_write, if_neg unlike]
      exact inRange entry (mem_cons_of_mem _ mem)
    have step := creditsTotal_write credits first
    have exactly := (clampU64_exact_iff _).mpr (inRange first mem_cons_self)
    rw [foldl_cons, map_cons, sum_cons]
    omega

end Writes

/-! ## Blocks -/

namespace CreditsLedger

variable (ledger : CreditsLedger)

/-- The sum of all credits balances. -/
def total : Nat := creditsTotal ledger.credits

variable (height : Nat) (stored : List Text) (txs : List LedgerTx) (addr : Text)

theorem balance_applyBlock : (ledger.applyBlock txs height stored).balance addr =
      (clampU64 (ledger.balance addr + (creditUpdates (creditTxs txs height stored)).delta addr)).toNat := by
  change creditsAt ((creditUpdates (creditTxs txs height stored)).deltas.entries.foldl writeCredits
    ledger.credits) addr = (clampU64 (creditsAt ledger.credits addr + _)).toNat
  generalize creditUpdates (creditTxs txs height stored) = updates
  unfold CreditUpdates.delta
  cases found : updates.deltas.lookup addr with
  | none =>
    have absent := AList.lookup_eq_none.mp found
    rw [creditsAt_foldl_of_absent _ _ _ absent]
    exact congrArg UInt64.toNat (clampU64_toNat _).symm
  | some delta =>
    have mem := (mem_entries_iff _ addr delta).mpr found
    exact creditsAt_foldl_of_mem _ ⟨addr, delta⟩ _ updates.deltas.nodupKeys mem

/-- No clamp changes what is written for the account. -/
def Unclamped : Prop :=
  (ledger.applyBlock txs height stored).balance addr + creditsLost (creditTxs txs height stored) addr =
    ledger.balance addr + creditsGained (creditTxs txs height stored) addr

theorem unclamped_iff : ledger.Unclamped height stored txs addr ↔
      creditsLost (creditTxs txs height stored) addr ≤
          ledger.balance addr + creditsGained (creditTxs txs height stored) addr ∧
        ledger.balance addr + creditsGained (creditTxs txs height stored) addr ≤
          maxU64 + creditsLost (creditTxs txs height stored) addr := by
  have sums := delta_creditUpdates (creditTxs txs height stored) addr
  have written := clampU64_exact_iff
    (ledger.balance addr + (creditUpdates (creditTxs txs height stored)).delta addr)
  rw [← balance_applyBlock] at written
  unfold Unclamped
  constructor
  · intro exactly
    omega
  · intro inRange
    omega

theorem total_applyBlock (unclamped : ∀ addr, ledger.Unclamped height stored txs addr) :
    (ledger.applyBlock txs height stored).total =
      ledger.total + creditsMinted (creditTxs txs height stored) := by
  have minted := total_creditUpdates (creditTxs txs height stored)
  have moved := creditsTotal_foldl ledger.credits
    (creditUpdates (creditTxs txs height stored)).deltas.entries
    (creditUpdates (creditTxs txs height stored)).deltas.nodupKeys fun entry mem => by
      have inRange := (ledger.unclamped_iff height stored txs entry.1).mp (unclamped entry.1)
      have sums := delta_creditUpdates (creditTxs txs height stored) entry.1
      have found := (mem_entries_iff _ entry.1 entry.2).mp mem
      rw [CreditUpdates.delta, found, Option.getD_some] at sums
      change 0 ≤ (ledger.balance entry.1 : Int) + entry.2 ∧
        (ledger.balance entry.1 : Int) + entry.2 ≤ maxU64
      omega
  change ((creditUpdates _).deltas.entries.map fun entry => entry.2).sum = _ at minted
  rw [minted] at moved
  exact_mod_cast moved

end CreditsLedger

/-! ## What the checks give -/

variable {view : CreditsView} {ledger : CreditsLedger} {height : Nat} {blockTime : Int}

theorem validateAllCredits_ok {txs : List LedgerTx}
    (checked : validateAllCredits view ledger height blockTime txs = .ok ()) :
    ∀ tx ∈ txs, validateCredits view ledger height blockTime tx = .ok () := by
  induction txs with
  | nil => simp
  | cons tx rest ih =>
    rw [validateAllCredits] at checked
    split at checked
    case h_1 => cases checked
    case h_2 passed =>
      exact forall_mem_cons.mpr ⟨passed, ih checked⟩

/-- A payment that passes its check is covered by the balance before the block. -/
theorem creditsSpent_le_balance {tx : LedgerTx} (isPay : tx.txType = utf8 "credits_pay")
    (passed : validateCredits view ledger height blockTime tx = .ok ()) :
    tx.creditsSpent ≤ ledger.balance tx.sender := by
  have payIsNoMint : utf8 "credits_pay" ≠ utf8 "credits_mint" := by simp
  simp only [validateCredits, validateCreditsTxAt, validateCreditsTx, isPay, payIsNoMint, or_true,
    false_and, if_false, if_true] at passed
  unfold validateCreditsPay at passed
  rw [LedgerTx.creditsSpent, if_pos isPay]
  split at passed
  · cases passed
  split at passed
  · cases passed
  split at passed
  · cases passed
  case h_2 credits parsed =>
  split at passed
  · cases passed
  split at passed
  · cases passed
  case isFalse enough =>
    rw [parsed]
    exact not_lt.mp enough

/-- The transactions of a block by which an account's credits go out. -/
def outgoing : List LedgerTx :=
  txs.filter fun tx =>
    addr = tx.sender ∧ (tx.txType = utf8 "credits_pay" ∨ tx.txType = utf8 "credits_escrow")

/-- More goes out of the account than one checked payment: several payments, or a release from
escrow, which is not checked against the account's credits. -/
def Strained : Prop :=
  2 ≤ (outgoing txs addr).length ∨ ∃ tx ∈ outgoing txs addr, tx.txType = utf8 "credits_escrow"

theorem creditsLost_eq_sum_outgoing :
    creditsLost txs addr = ((outgoing txs addr).map LedgerTx.creditsSpent).sum := by
  induction txs with
  | nil => rfl
  | cons tx rest ih =>
    have first : tx.creditsLost addr = if addr = tx.sender ∧ (tx.txType = utf8 "credits_pay" ∨
          tx.txType = utf8 "credits_escrow") then tx.creditsSpent else 0 := by
      unfold LedgerTx.creditsLost LedgerTx.creditsSpent
      by_cases isPay : tx.txType = utf8 "credits_pay"
      · simp [isPay]
      · by_cases isEscrow : tx.txType = utf8 "credits_escrow" <;> simp [isPay, isEscrow]
    unfold creditsLost at ih ⊢
    unfold outgoing at ih ⊢
    rw [map_cons, sum_cons, ih, first]
    split
    case isTrue counts => simp [counts]
    case isFalse skipped => simp [skipped]

theorem creditsLost_le_of_not_strained {txs : List LedgerTx} {addr : Text}
    (checked : ∀ tx ∈ txs, validateCredits view ledger height blockTime tx = .ok ())
    (calm : ¬ Strained txs addr) : creditsLost txs addr ≤ ledger.balance addr := by
  rw [creditsLost_eq_sum_outgoing]
  unfold Strained at calm
  rw [not_or, not_exists] at calm
  cases all : outgoing txs addr with
  | nil => exact Nat.zero_le _
  | cons tx rest =>
    cases rest with
    | cons second more =>
      rw [all] at calm
      exact absurd (by simp) calm.1
    | nil =>
      have mem : tx ∈ outgoing txs addr := by simp [all]
      obtain ⟨inBlock, fits⟩ := mem_filter.mp mem
      obtain ⟨isSender, isPay | isEscrow⟩ := of_decide_eq_true fits
      · have covered := creditsSpent_le_balance isPay (checked tx inBlock)
        simpa [isSender] using covered
      · exact absurd ⟨mem, isEscrow⟩ (calm.2 tx)

theorem mem_of_mem_creditTxs {txs : List LedgerTx} {stored : List Text} {tx : LedgerTx}
    (mem : tx ∈ creditTxs txs height stored) : tx ∈ txs := by
  unfold creditTxs at mem
  split at mem
  · exact mem_of_mem_filter mem
  · exact mem

/-- A block whose credit transactions pass their checks is written without a clamp, and the
sum of all balances grows by what is minted, exactly if every account that sends more than
one payment or releases from escrow is covered by its balance and what it gets in the block,
and no account ends above the range.  From height 32000 on, the transactions of the block are
those that are not on the chain yet. -/
theorem credits_conserved_iff (view : CreditsView) (ledger : CreditsLedger) (height : Nat)
    (blockTime : Int) (stored : List Text) (txs : List LedgerTx)
    (checked : validateAllCredits view ledger height blockTime txs = .ok ()) :
    ((∀ addr, ledger.Unclamped height stored txs addr) ∧
        (ledger.applyBlock txs height stored).total =
          ledger.total + creditsMinted (creditTxs txs height stored)) ↔
      (∀ addr, Strained (creditTxs txs height stored) addr →
        creditsLost (creditTxs txs height stored) addr ≤
          ledger.balance addr + creditsGained (creditTxs txs height stored) addr) ∧
      ∀ addr, ledger.balance addr + creditsGained (creditTxs txs height stored) addr ≤
        maxU64 + creditsLost (creditTxs txs height stored) addr := by
  constructor
  · intro ⟨unclamped, _⟩
    have inRange (addr : Text) := (ledger.unclamped_iff height stored txs addr).mp (unclamped addr)
    exact ⟨fun addr _ => (inRange addr).1, fun addr => (inRange addr).2⟩
  · intro ⟨covered, bounded⟩
    have unclamped (addr : Text) : ledger.Unclamped height stored txs addr := by
      refine (ledger.unclamped_iff height stored txs addr).mpr ⟨?_, bounded addr⟩
      by_cases strained : Strained (creditTxs txs height stored) addr
      · exact covered addr strained
      · have enough := creditsLost_le_of_not_strained (fun tx mem =>
          validateAllCredits_ok checked tx (mem_of_mem_creditTxs mem)) strained
        omega
    exact ⟨unclamped, ledger.total_applyBlock height stored txs unclamped⟩

/-! ## A block that overspends -/

/-- A view without reservations and prices. -/
def plainView : CreditsView where
  reservations _ := none
  localMicro := 0
  agreedMicro _ := none

/-- One account with a hundred credits. -/
def hundredCredits : CreditsLedger where
  credits := (∅ : KeyedMap Text UInt64).insert (utf8 "egot1alice") 100
  released := ∅

def payHundred (hash recipient : Text) (nonce : UInt64) : LedgerTx where
  hash := hash
  sender := utf8 "egot1alice"
  recipient := recipient
  memo := some (utf8 "credits_pay:100")
  nonce := nonce
  txType := utf8 "credits_pay"

/-- A payment, and one that is on the chain already. -/
def payAndRepeat : List LedgerTx :=
  [payHundred (utf8 "0x1") (utf8 "egot1bob") 1, payHundred (utf8 "0x0") (utf8 "egot1carol") 0]

/-- Only the new one of two payments that pass their checks is made. -/
theorem single_payment_conserves_credits :
    (hundredCredits.applyBlock payAndRepeat 40000 [utf8 "0x0"]).total = hundredCredits.total := by
  have fresh : creditTxs payAndRepeat 40000 [utf8 "0x0"] =
      [payHundred (utf8 "0x1") (utf8 "egot1bob") 1] := by
    decide
  have spent : (payHundred (utf8 "0x1") (utf8 "egot1bob") 1).creditsSpent = 100 := by decide
  have minted : (payHundred (utf8 "0x1") (utf8 "egot1bob") 1).creditsMinted = 0 := by decide
  refine ((credits_conserved_iff plainView hundredCredits 40000 0 [utf8 "0x0"] payAndRepeat
    (by decide)).mpr ⟨fun addr strained => ?_, fun addr => ?_⟩).2.trans ?_
  · rw [fresh] at strained
    rcases strained with several | ⟨tx, mem, isEscrow⟩
    · exact absurd (several.trans (length_filter_le _ _)) (by decide)
    · rw [mem_singleton.mp (mem_filter.mp mem).1] at isEscrow
      exact absurd isEscrow (by simp [payHundred])
  · have held : hundredCredits.balance addr ≤ 100 := by
      unfold CreditsLedger.balance hundredCredits
      rw [lookup_insert_eq]
      split
      · decide
      · simp
    have gained : creditsGained (creditTxs payAndRepeat 40000 [utf8 "0x0"]) addr ≤ 100 := by
      rw [fresh]
      simp only [creditsGained, LedgerTx.creditsGained, spent, minted, map_cons,
        map_nil, sum_cons, sum_nil]
      split <;> split <;> decide
    unfold maxU64
    omega
  · rw [fresh, creditsMinted, map_singleton, minted]
    rfl

/-- Two payments of all the credits an account has pass, and the sum of all balances doubles. -/
theorem two_payments_double_credits :
    let txs := [payHundred (utf8 "0x1") (utf8 "egot1bob") 1,
      payHundred (utf8 "0x2") (utf8 "egot1carol") 2]
    validateAllCredits plainView hundredCredits 40000 0 txs = .ok () ∧
      creditsMinted txs = 0 ∧ hundredCredits.total = 100 ∧
      (hundredCredits.applyBlock txs 40000 []).total = 200 := by
  decide

end EgoChain.Ledger
