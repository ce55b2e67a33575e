import EgoChain.Foundations.Lists
import EgoChain.Ledger.PeerBlock

/-!
# The agreed price

Blocks record the price reports of the nodes that may report, by epoch and reporter.
The price of an epoch is the upper median of the reports of the last epoch before it
that has any.  A report is written under the epoch of its block, so no block moves the
price that its own epoch pays with.
-/

namespace EgoChain.Storage

open EgoChain.Foundations EgoChain.Ledger List Option

def storagePayEpoch : Nat := 100
def priceLookbackEpochs : Nat := 10

def isPriceReport (tx : LedgerTx) : Bool :=
  tx.txType = utf8 "price_report" && tx.sender ≠ [] && tx.recipient = tx.sender && tx.amount = 0

def priceReportValue (tx : LedgerTx) : Option Nat :=
  (tx.memo.bind fun memo => (memo.afterStart (utf8 "price:")).bind Text.parseU64).filter fun value =>
    1 ≤ value ∧ value ≤ 1000000000000

/-- A block, with a mark on the transactions that the store had before it, and with the answers
of `may_report_price_in` for its height. -/
structure PriceBlock where
  height : Nat
  mayReport : Text → Bool
  txs : List (LedgerTx × Bool)

/-- The entries `price_rep`: by epoch, in twenty digits, and reporter. -/
abbrev PriceReports : Type := KeyedMap (Nat × Text) Nat

section

variable (block : PriceBlock)

def epochOf : Nat := block.height / storagePayEpoch

/-- The report that a transaction brings, if `write_block_batch` accepts it. -/
def acceptedReport (tx : LedgerTx × Bool) : Option ((Nat × Text) × Nat) :=
  if storagePayFromHeight ≤ block.height ∧ tx.2 = false ∧ isPriceReport tx.1 = true ∧
      block.mayReport tx.1.sender = true then
    (priceReportValue tx.1).map fun value => ((epochOf block, tx.1.sender), value)
  else none

def acceptedReports : List ((Nat × Text) × Nat) := block.txs.filterMap (acceptedReport block)

def writeReports (reports : PriceReports) : PriceReports :=
  (acceptedReports block).foldl (fun reports report => reports.insert report.1 report.2) reports

end

def valuesIn (reports : PriceReports) (epoch : Nat) : List Nat :=
  ((reports.entries.filter fun entry => entry.1.1 = epoch).map fun entry => entry.2).filter
    fun value => 0 < value

/-- The loop of `consensus_price_in`, over so many epochs before this one. -/
def lookBack (reports : PriceReports) : Nat → Nat → Option Nat
  | 0, _ => none
  | _ + 1, 0 => none
  | steps + 1, epoch + 1 => (upperMedian (valuesIn reports epoch)).or (lookBack reports steps epoch)

def consensusPriceIn (reports : PriceReports) (epoch : Nat) : Option Nat :=
  lookBack reports priceLookbackEpochs epoch

/-! ## The last report of a reporter -/

def written (blocks : List PriceBlock) : PriceReports :=
  blocks.foldl (fun reports block => writeReports block reports) ∅

def lastReport (blocks : List PriceBlock) (epoch : Nat) (addr : Text) : Option Nat :=
  ((blocks.flatMap acceptedReports).reverse.find? fun report => report.1 = (epoch, addr)).map Prod.snd

variable {blocks : List PriceBlock} {reports other : PriceReports} {epoch : Nat} {addr : Text}
  {report : (Nat × Text) × Nat}

theorem lookup_written : (written blocks).lookup (epoch, addr) = lastReport blocks epoch addr := by
  have inserted (history : List ((Nat × Text) × Nat)) :
      (history.foldl (fun reports report => reports.insert report.1 report.2)
        (∅ : PriceReports)).lookup (epoch, addr) =
        (history.reverse.find? fun report => report.1 = (epoch, addr)).map Prod.snd := by
    induction history using List.reverseRecOn with
    | nil => rfl
    | append_singleton history report ih =>
      rw [foldl_append, foldl_cons, foldl_nil, KeyedMap.lookup_insert_eq, ih,
        reverse_append, reverse_singleton, singleton_append, List.find?_cons]
      by_cases same : report.1 = (epoch, addr)
      · simp [same]
      · simp [same, Ne.symm same]
  rw [lastReport, ← inserted, foldl_flatMap]
  rfl

theorem accepted_spec {block : PriceBlock}
    (mem : report ∈ acceptedReports block) : report.1.1 = epochOf block ∧ 0 < report.2 := by
  obtain ⟨tx, -, accepted⟩ := mem_filterMap.mp mem
  obtain ⟨-, accepted⟩ := ite_none_right_eq_some.mp accepted
  obtain ⟨value, found, rfl⟩ := map_eq_some_iff.mp accepted
  exact ⟨rfl, (of_decide_eq_true (filter_eq_some_iff.mp found).2).1⟩

theorem lastReport_pos {value : Nat} (last : lastReport blocks epoch addr = some value) : 0 < value := by
  obtain ⟨report, found, rfl⟩ := map_eq_some_iff.mp last
  obtain ⟨block, -, mem⟩ := mem_flatMap.mp (mem_reverse.mp (mem_of_find?_eq_some found))
  exact (accepted_spec mem).2

/-- The values of an epoch are the last reports of its reporters. -/
theorem valuesIn_written (blocks : List PriceBlock) (epoch : Nat) :
    ∃ reporters : List Text, reporters.Nodup ∧
      (∀ addr, addr ∈ reporters ↔ lastReport blocks epoch addr ≠ none) ∧
      valuesIn (written blocks) epoch =
        reporters.map fun addr => (lastReport blocks epoch addr).getD 0 := by
  have found {entry : Sigma fun _ : Nat × Text => Nat}
      (mem : entry ∈ (written blocks).entries.filter fun entry => entry.1.1 = epoch) :
      entry.1.1 = epoch ∧ lastReport blocks epoch entry.1.2 = some entry.2 := by
    obtain ⟨listed, own⟩ := mem_filter.mp mem
    have isEpoch := of_decide_eq_true own
    subst isEpoch
    exact ⟨rfl, lookup_written.symm.trans ((KeyedMap.mem_entries_iff _ _ _).mp listed)⟩
  refine ⟨((written blocks).entries.filter fun entry => entry.1.1 = epoch).map fun entry => entry.1.2,
    ?_, fun addr => ⟨fun mem => ?_, fun reported => ?_⟩, ?_⟩
  · have keys := KeyedMap.filter_keys_nodup (written blocks) fun entry => entry.1.1 = epoch
    refine List.Nodup.map_on (fun one first two second same => ?_) (List.Nodup.of_map _ keys)
    exact inj_on_of_nodup_map keys first second
      (Prod.ext ((found first).1.trans (found second).1.symm) same)
  · obtain ⟨entry, inside, rfl⟩ := mem_map.mp mem
    rw [(found inside).2]
    exact some_ne_none _
  · obtain ⟨value, last⟩ := ne_none_iff_exists'.mp reported
    rw [← lookup_written, ← KeyedMap.mem_entries_iff] at last
    exact mem_map.mpr ⟨_, mem_filter.mpr ⟨last, decide_eq_true rfl⟩, rfl⟩
  · rw [valuesIn, List.filter_eq_self.mpr, List.map_map]
    · refine map_congr_left fun entry mem => ?_
      rw [Function.comp_apply, (found mem).2]
      rfl
    · intro value mem
      obtain ⟨entry, inside, rfl⟩ := mem_map.mp mem
      exact decide_eq_true (lastReport_pos (found inside).2)

/-! ## The price -/

/-- The price comes from the last epoch before this one that has a median. -/
theorem lookBack_spec {steps price : Nat} (found : lookBack reports steps epoch = some price) :
    ∃ used < epoch, epoch ≤ used + steps ∧ upperMedian (valuesIn reports used) = some price ∧
      ∀ later, used < later → later < epoch → upperMedian (valuesIn reports later) = none := by
  induction steps generalizing epoch with
  | zero => cases found
  | succ steps ih =>
    cases epoch with
    | zero => cases found
    | succ epoch =>
      rcases or_eq_some_iff.mp found with here | ⟨none', before⟩
      · exact ⟨epoch, Nat.lt_succ_self _, by omega, here, fun later after upTo => by omega⟩
      · obtain ⟨used, below, near, isPrice, between⟩ := ih before
        refine ⟨used, Nat.lt_succ_of_lt below, by omega, isPrice, fun later after upTo => ?_⟩
        rcases Nat.lt_succ_iff_lt_or_eq.mp upTo with earlier | rfl
        · exact between later after earlier
        · exact none'

theorem lookBack_congr (same : ∀ before < epoch, valuesIn reports before = valuesIn other before)
    (steps : Nat) : lookBack reports steps epoch = lookBack other steps epoch := by
  induction steps generalizing epoch with
  | zero => rfl
  | succ steps ih =>
    cases epoch with
    | zero => rfl
    | succ epoch =>
      rw [lookBack, lookBack, same epoch (Nat.lt_succ_self _),
        ih fun before below => same before (Nat.lt_succ_of_lt below)]

/-- A report leaves the values of the other epochs alone. -/
theorem valuesIn_insert (apart : report.1.1 ≠ epoch) :
    valuesIn (reports.insert report.1 report.2) epoch = valuesIn reports epoch := by
  rw [valuesIn, valuesIn, AList.entries_insert, filter_cons_of_neg (by simpa using apart)]
  by_cases mem : report.1 ∈ reports.entries.keys
  · obtain ⟨value, before, after, -, whole, erased⟩ := exists_of_kerase mem
    rw [erased, whole]
    simp [apart]
  · rw [kerase_of_notMem_keys mem]

/-- No block moves the price of its own epoch.  The price is the upper median of the last reports
of the latest epoch that has any, and where most of its reporters are honest, it lies between two
of their reports. -/
theorem agreed_price_is_robust (blocks : List PriceBlock) :
    (∀ block, consensusPriceIn (writeReports block (written blocks)) (epochOf block) =
      consensusPriceIn (written blocks) (epochOf block)) ∧
    ∀ epoch price, consensusPriceIn (written blocks) epoch = some price →
      ∃ (used : Nat) (reporters : List Text), used < epoch ∧ epoch ≤ used + priceLookbackEpochs ∧
        (∀ later, used < later → later < epoch → ∀ addr, lastReport blocks later addr = none) ∧
        reporters.Nodup ∧ (∀ addr, addr ∈ reporters ↔ lastReport blocks used addr ≠ none) ∧
        upperMedian (reporters.map fun addr => (lastReport blocks used addr).getD 0) = some price ∧
        ∀ honest : Text → Bool, reporters.length < 2 * reporters.countP honest →
          (∃ addr ∈ reporters, honest addr = true ∧ (lastReport blocks used addr).getD 0 ≤ price) ∧
          ∃ addr ∈ reporters, honest addr = true ∧ price ≤ (lastReport blocks used addr).getD 0 := by
  refine ⟨fun block => ?_, fun epoch price found => ?_⟩
  · refine lookBack_congr (fun before below => ?_) _
    refine List.foldlRecOn (motive := fun reached => valuesIn reached before =
      valuesIn _ before) _ _ rfl fun reached same report mem => ?_
    have own := (accepted_spec mem).1
    rw [valuesIn_insert (by omega), same]
  · obtain ⟨used, below, near, isPrice, between⟩ := lookBack_spec found
    obtain ⟨reporters, distinct, members, values⟩ := valuesIn_written blocks used
    rw [values] at isPrice
    refine ⟨used, reporters, below, near, fun later after upTo addr => ?_, distinct, members, isPrice,
      fun honest majority => upperMedian_between majority isPrice⟩
    obtain ⟨nobody, -, membersThen, valuesThen⟩ := valuesIn_written blocks later
    have empty := eq_nil_of_upperMedian (between later after upTo)
    rw [valuesThen, map_eq_nil_iff] at empty
    by_contra reported
    have mem := (membersThen addr).mpr reported
    rw [empty] at mem
    cases mem

end EgoChain.Storage
