import EgoChain.Nodes.Weights

/-!
# Weights in time

After every block the weight of each record is the one that the record has at the
time of the block, and the queue holds the next moment at which it falls.  The
keys of new registrations are the exception: they are written after the weights.
-/

namespace EgoChain.Nodes

open EgoChain.Foundations EgoChain.Ledger List KeyedMap

/-! ## Moments at which weights fall -/

/-- No part of the weight falls away after the first time and not after the second. -/
def Steady (node : NodeRec) (now later : Int) : Prop :=
  ∀ time ∈ dropTimes node, now < time → later < time

variable {node : NodeRec} {now : Int}

theorem nextDrop_eq_some {time : Int} (next : nextDrop node now = some time) :
    time ∈ dropTimes node ∧ now < time ∧ ∀ other ∈ dropTimes node, now < other → time ≤ other := by
  obtain ⟨mem, least⟩ := List.min?_eq_some_iff.mp next
  obtain ⟨isDrop, later⟩ := mem_filter.mp mem
  refine ⟨isDrop, of_decide_eq_true later, fun other otherDrop after => ?_⟩
  exact least other (mem_filter.mpr ⟨otherDrop, decide_eq_true after⟩)

theorem steady_of_nextDrop {later : Int}
    (next : ∀ time, nextDrop node now = some time → later < time) : Steady node now later := by
  intro time isDrop after
  have listed : time ∈ (dropTimes node).filter fun time => now < time :=
    mem_filter.mpr ⟨isDrop, decide_eq_true after⟩
  cases first : nextDrop node now with
  | none =>
    rw [List.min?_eq_none_iff.mp first] at listed
    cases listed
  | some least => exact (next least first).trans_le ((nextDrop_eq_some first).2.2 time isDrop after)

theorem nextDrop_of_steady {later : Int} (order : now ≤ later)
    (steady : Steady node now later) : nextDrop node later = nextDrop node now := by
  unfold nextDrop
  congr 1
  refine filter_congr fun time isDrop => decide_eq_decide.mpr ⟨fun after => ?_, ?_⟩
  · exact order.trans_lt after
  · exact steady time isDrop

/-- Up to the moment after its limit, what counts stays as it is. -/
theorem le_limit_of_steady {limit later : Int} (nonneg : 0 ≤ now) (order : now ≤ later)
    (high : later < 2 ^ 63) (steady : now < wrapI64 (limit + 1) → later < wrapI64 (limit + 1)) :
    later ≤ limit ↔ now ≤ limit := by
  unfold wrapI64 at steady
  omega

theorem streak_gap_iff (nonneg : 0 ≤ now) (high : now < 2 ^ 63) :
    streakGapSecs < satI64 (now - node.lastCheckin) ↔
      ¬ now ≤ satI64 (node.lastCheckin + streakGapSecs) := by
  unfold satI64 streakGapSecs
  omega

theorem one_le_minStreak (period : Nat) : 1 ≤ minStreak period := by
  unfold minStreak fullMinStreak
  split <;> omega

section Steady

variable {later : Int}

section

variable (nonneg : 0 ≤ now) (order : now ≤ later) (high : later < 2 ^ 63)
  (steady : Steady node now later)

include nonneg order high steady

theorem storagePoints_of_steady : storagePoints node later = storagePoints node now := by
  unfold storagePoints
  by_cases enough : gb ≤ node.storageBytes
  · have same := le_limit_of_steady nonneg order high
      (steady (wrapI64 (node.storageUntil + 1)) (by simp [dropTimes, enough]))
    simp [same]
  · have nothing : node.storageBytes / gb = 0 := Nat.div_eq_of_lt (by omega)
    simp [nothing, satMul]

theorem coveragePoints_of_steady : coveragePoints node later = coveragePoints node now := by
  unfold coveragePoints
  by_cases covered : 0 < node.coverage
  · have same := le_limit_of_steady nonneg order high
      (steady (wrapI64 (satI64 (node.coverageAt + coverageValidSecs) + 1))
        (by simp [dropTimes, covered]))
    simp [same]
  · have nothing : node.coverage = 0 := by omega
    simp [nothing]

/-- The weight stays as it is until the next moment at which it falls. -/
theorem weightOf_of_steady (keysOk : Bool) {period other : Nat}
    (streaks : minStreak period = minStreak other) :
    weightOf node later keysOk period = weightOf node now keysOk other := by
  unfold weightOf
  rw [storagePoints_of_steady nonneg order high steady,
    coveragePoints_of_steady nonneg order high steady, streaks]
  by_cases idle : node.streak < minStreak other
  · simp [idle]
  have running : 0 < node.streak := by
    have least := one_le_minStreak other
    omega
  have same := le_limit_of_steady nonneg order high
    (steady (wrapI64 (satI64 (node.lastCheckin + streakGapSecs) + 1)) (by simp [dropTimes, running]))
  have gaps : streakGapSecs < satI64 (later - node.lastCheckin) ↔
      streakGapSecs < satI64 (now - node.lastCheckin) := by
    rw [streak_gap_iff (nonneg.trans order) high, streak_gap_iff nonneg (order.trans_lt high), same]
  simp [gaps]

end

end Steady

variable (node) (since weight : Nat)

theorem reweigh_eq : node.reweigh since weight =
    { node with weight := (node.reweigh since weight).weight } := by
  unfold NodeRec.reweigh
  split <;> rfl

theorem next_reweigh : (node.reweigh since weight).weight.next = weight := by
  unfold NodeRec.reweigh
  split
  case isTrue same => exact same.symm
  case isFalse => rfl

namespace NodeBooks

/-! ## What a touch does -/

/-- Only sums change, and the queue grows. -/
structure Counts (books next : NodeBooks) : Prop where
  records : next.records = books.records
  dilithium : next.dilithium = books.dilithium
  addrs : next.addrs = books.addrs
  count : next.count = books.count
  expiries : books.expiries ⊆ next.expiries

theorem Counts.refl (books : NodeBooks) : Counts books books :=
  ⟨rfl, rfl, rfl, rfl, List.Subset.refl _⟩

theorem Counts.trans {books middle next : NodeBooks} (first : Counts books middle)
    (second : Counts middle next) : Counts books next :=
  ⟨second.records.trans first.records, second.dilithium.trans first.dilithium,
    second.addrs.trans first.addrs, second.count.trans first.count,
    List.Subset.trans first.expiries second.expiries⟩

section

variable (books : NodeBooks)

include books

variable (time : Int) (addr : Text) (node : NodeRec)

theorem counts_weighStorage (period points : Nat) :
    Counts books (books.weighStorage addr period points) := by
  unfold weighStorage
  dsimp only
  split <;> exact ⟨rfl, rfl, rfl, rfl, List.Subset.refl _⟩

theorem counts_countWeight (period weight : Nat) :
    Counts books (books.countWeight node period weight) := by
  unfold countWeight
  dsimp only
  split
  · exact Counts.refl books
  · unfold countEligible
    split <;> exact ⟨rfl, rfl, rfl, rfl, List.Subset.refl _⟩

theorem counts_countStorage (now : Int) (period weight : Nat) :
    Counts books (books.countStorage addr node now period weight) := by
  unfold countStorage
  split
  · exact counts_weighStorage _ _ _ _
  · exact Counts.refl books

theorem counts_schedule : Counts books (books.schedule time addr) := by
  unfold schedule
  split
  · exact Counts.refl books
  · exact ⟨rfl, rfl, rfl, rfl, subset_cons_self _ _⟩

theorem mem_schedule : expiryKey time addr ∈ (books.schedule time addr).expiries := by
  unfold schedule
  split
  case isTrue there => exact there
  case isFalse => exact mem_cons_self

theorem counts_scheduleNext (next : Option Int) : Counts books (books.scheduleNext addr next) := by
  cases next with
  | none => exact Counts.refl books
  | some time => exact counts_schedule books time addr

end

variable {env : NodeEnv} {books next : NodeBooks} {addr other : Text} {node : NodeRec}
  {now before : Int} {period height : Nat}

theorem counts_refresh : Counts books (books.refresh env addr node now period).1 :=
  ((counts_countWeight books node period _).trans (counts_countStorage _ addr node now period _)).trans
    (counts_scheduleNext _ addr _)

/-- The record is weighed and saved, and its next fall is in the queue. -/
structure Touched (env : NodeEnv) (books : NodeBooks) (addr : Text) (node : NodeRec) (now : Int)
    (period : Nat) (next : NodeBooks) : Prop where
  records : next.records = books.records.insert addr
    (node.reweigh period (weightOf node now (books.hasConsensusKey env addr) period))
  dilithium : next.dilithium = books.dilithium
  addrs : next.addrs = books.addrs
  count : next.count = books.count
  expiries : books.expiries ⊆ next.expiries
  queued : ∀ time, nextDrop node now = some time → expiryKey time addr ∈ next.expiries

theorem touch_touched : Touched env books addr node now period (books.touch env addr node now period) := by
  have counts := @counts_refresh env books addr node now period
  refine ⟨?_, counts.dilithium, counts.addrs, counts.count, counts.expiries, fun time next => ?_⟩
  · change (books.refresh env addr node now period).1.records.insert addr _ = _
    rw [counts.records]
    rfl
  change expiryKey time addr ∈ (books.refresh env addr node now period).1.expiries
  unfold refresh
  rw [next]
  exact mem_schedule _ time addr

/-! ## What holds of one record -/

/-- The weight of the record is the one it has now. -/
def FreshAt (env : NodeEnv) (now : Int) (period : Nat) (addr : Text) (books : NodeBooks) : Prop :=
  ∀ node, books.records.lookup addr = some node →
    node.weight.next = weightOf node now (books.hasConsensusKey env addr) period

/-- The next moment at which the weight falls is in the queue. -/
def ScheduledAt (now : Int) (addr : Text) (books : NodeBooks) : Prop :=
  ∀ node, books.records.lookup addr = some node →
    ∀ time, nextDrop node now = some time → expiryKey time addr ∈ books.expiries

def NoStreakAt (addr : Text) (books : NodeBooks) : Prop :=
  ∀ node, books.records.lookup addr = some node → node.streak = 0

/-- The address of the record can be found by an index. -/
def IndexedAt (addr : Text) (books : NodeBooks) : Prop :=
  ∀ node, books.records.lookup addr = some node →
    ∃ idx, idx < books.count ∧ books.addrs.lookup idx = some addr

theorem hasConsensusKey_congr (same : next.dilithium = books.dilithium) (addr : Text) :
    next.hasConsensusKey env addr = books.hasConsensusKey env addr := by
  unfold hasConsensusKey
  rw [same]

/-- A record that is not there has nothing to be weighed. -/
theorem weighed_of_absent (absent : books.records.lookup addr = none) :
    books.FreshAt env now period addr ∧ books.ScheduledAt now addr := by
  simp [FreshAt, ScheduledAt, absent]

/-- What the steps of a block keep of every record; check-ins give streaks to those they name. -/
structure Keeps (env : NodeEnv) (now : Int) (period : Nat) (checked : Text → Prop)
    (books next : NodeBooks) : Prop where
  fresh : ∀ addr, books.FreshAt env now period addr → next.FreshAt env now period addr
  scheduled : ∀ addr, books.ScheduledAt now addr → next.ScheduledAt now addr
  idle : ∀ addr, ¬ checked addr → books.NoStreakAt addr → next.NoStreakAt addr
  indexed : ∀ addr, books.IndexedAt addr → next.IndexedAt addr
  indices : ∀ idx, idx < books.count → next.addrs.lookup idx = books.addrs.lookup idx
  grows : books.count ≤ next.count
  keys : next.dilithium = books.dilithium

section Keeps

variable {checked : Text → Prop} {rates : CheckinRates} {idx : Nat} {keys : List (Int × Text)}
  {record : NodeRec}

theorem Keeps.refl (books : NodeBooks) : Keeps env now period checked books books :=
  ⟨fun _ holds => holds, fun _ holds => holds, fun _ _ holds => holds, fun _ holds => holds,
    fun _ _ => rfl, le_rfl, rfl⟩

theorem Keeps.trans {middle : NodeBooks} (first : Keeps env now period checked books middle)
    (second : Keeps env now period checked middle next) : Keeps env now period checked books next where
  fresh addr holds := second.fresh addr (first.fresh addr holds)
  scheduled addr holds := second.scheduled addr (first.scheduled addr holds)
  idle addr other holds := second.idle addr other (first.idle addr other holds)
  indexed addr holds := second.indexed addr (first.indexed addr holds)
  indices idx known :=
    (second.indices idx (known.trans_le first.grows)).trans (first.indices idx known)
  grows := first.grows.trans second.grows
  keys := second.keys.trans first.keys

theorem keeps_foldl {α : Type} {step : NodeBooks → α → NodeBooks}
    (each : ∀ books item, Keeps env now period checked books (step books item)) (items : List α)
    (books : NodeBooks) : Keeps env now period checked books (items.foldl step books) := by
  induction items generalizing books with
  | nil => exact Keeps.refl books
  | cons item rest ih => exact (each books item).trans (ih _)

theorem Counts.keeps (counts : Counts books next) : Keeps env now period checked books next where
  fresh addr holds node found := by
    rw [hasConsensusKey_congr counts.dilithium]
    exact holds node (counts.records ▸ found)
  scheduled addr holds node found time drop :=
    counts.expiries (holds node (counts.records ▸ found) time drop)
  idle addr _ holds node found := holds node (counts.records ▸ found)
  indexed addr holds node found := by
    rw [counts.count, counts.addrs]
    exact holds node (counts.records ▸ found)
  indices idx _ := by rw [counts.addrs]
  grows := counts.count.ge
  keys := counts.dilithium

theorem Touched.found (touched : Touched env books addr node now period next)
    (found : next.records.lookup other = some record) :
    other = addr ∧ record =
        node.reweigh period (weightOf node now (books.hasConsensusKey env addr) period) ∨
      other ≠ addr ∧ books.records.lookup other = some record := by
  rw [touched.records, lookup_insert_eq] at found
  split at found
  case isTrue same => exact Or.inl ⟨same, (Option.some.inj found).symm⟩
  case isFalse apart => exact Or.inr ⟨apart, found⟩

section

variable (touched : Touched env books addr node now period next)

include touched

theorem Touched.freshAt : next.FreshAt env now period addr := by
  intro record found
  obtain ⟨-, rfl⟩ | ⟨apart, -⟩ := touched.found found
  · rw [next_reweigh, hasConsensusKey_congr touched.dilithium, reweigh_eq]
    rfl
  · exact absurd rfl apart

theorem Touched.scheduledAt : next.ScheduledAt now addr := by
  intro record found time drop
  obtain ⟨-, rfl⟩ | ⟨apart, -⟩ := touched.found found
  · rw [reweigh_eq] at drop
    exact touched.queued time drop
  · exact absurd rfl apart

/-- Weighing a record that has an index, with the streak it had or one of a check-in. -/
theorem Touched.keeps
    (known : books.IndexedAt addr → ∃ idx, idx < books.count ∧ books.addrs.lookup idx = some addr)
    (streak : ¬ checked addr → books.NoStreakAt addr → node.streak = 0) :
    Keeps env now period checked books next where
  fresh other holds := by
    by_cases same : other = addr
    · exact same ▸ touched.freshAt
    · intro record found
      obtain ⟨is, -⟩ | ⟨-, before⟩ := touched.found found
      · exact absurd is same
      · rw [hasConsensusKey_congr touched.dilithium]
        exact holds record before
  scheduled other holds := by
    by_cases same : other = addr
    · exact same ▸ touched.scheduledAt
    · intro record found time drop
      obtain ⟨is, -⟩ | ⟨-, before⟩ := touched.found found
      · exact absurd is same
      · exact touched.expiries (holds record before time drop)
  idle other apart holds record found := by
    obtain ⟨rfl, rfl⟩ | ⟨-, before⟩ := touched.found found
    · rw [reweigh_eq]
      exact streak apart holds
    · exact holds record before
  indexed other holds record found := by
    rw [touched.count, touched.addrs]
    obtain ⟨rfl, -⟩ | ⟨-, before⟩ := touched.found found
    · exact known holds
    · exact holds record before
  indices idx _ := by rw [touched.addrs]
  grows := touched.count.ge
  keys := touched.dilithium

end

/-- Weighing a record that is there. -/
theorem keeps_touch (found : books.records.lookup addr = some record)
    (streak : ¬ checked addr → record.streak = 0 → node.streak = 0) :
    Keeps env now period checked books (books.touch env addr node now period) :=
  touch_touched.keeps (fun indexed => indexed record found)
    fun apart idle => streak apart (idle record found)

/-! ## The steps of a block -/

theorem keeps_expire {key : Int × Text} (nonneg : 0 ≤ now) (due : key.1 ≤ now) :
    Keeps env now period checked books (books.expire env now period key) := by
  have removed : Keeps env now period checked books
      { books with expiries := books.expiries.filter fun other => other ≠ key } :=
    { Keeps.refl books with
      scheduled := fun addr holds node found time drop => by
        -- A moment that is still to come is not the one that is due.
        have later := (nextDrop_eq_some drop).2.1
        refine mem_filter.mpr ⟨holds node found time drop, decide_eq_true fun same => ?_⟩
        have first : max time 0 = key.1 := congrArg Prod.fst same
        omega }
  unfold expire
  dsimp only
  split
  · exact removed
  case h_2 record found => exact removed.trans (keeps_touch found fun _ idle => idle)

/-- What falls due is weighed. -/
theorem expire_weighs (key : Int × Text) :
    (books.expire env now period key).FreshAt env now period key.2 ∧
      (books.expire env now period key).ScheduledAt now key.2 := by
  unfold expire
  dsimp only
  split
  case h_1 none' => exact weighed_of_absent none'
  case h_2 record found =>
    have touched := @touch_touched env
    exact ⟨touched.freshAt, touched.scheduledAt⟩

theorem keeps_expireAll (nonneg : 0 ≤ now) (due : ∀ key ∈ keys, key.1 ≤ now) :
    Keeps env now period checked books (keys.foldl (expire env now period) books) := by
  induction keys generalizing books with
  | nil => exact Keeps.refl books
  | cons key rest ih =>
    obtain ⟨here, later⟩ := forall_mem_cons.mp due
    exact (keeps_expire nonneg here).trans (ih later)

theorem expireAll_weighs (nonneg : 0 ≤ now) (due : ∀ key ∈ keys, key.1 ≤ now)
    {key : Int × Text} (mem : key ∈ keys) :
    (keys.foldl (expire env now period) books).FreshAt env now period key.2 ∧
      (keys.foldl (expire env now period) books).ScheduledAt now key.2 := by
  induction keys generalizing books with
  | nil => cases mem
  | cons head rest ih =>
    obtain ⟨-, later⟩ := forall_mem_cons.mp due
    rcases mem_cons.mp mem with rfl | inRest
    · obtain ⟨fresh, scheduled⟩ := @expire_weighs env _ now _ key
      have kept := @keeps_expireAll env (books.expire env now period key) now period (fun _ => True) rest
        nonneg later
      exact ⟨kept.fresh _ fresh, kept.scheduled _ scheduled⟩
    · exact ih later inRest

theorem keeps_applyRegistration (registration : Registration) :
    Keeps env now period checked books (books.applyRegistration env now period registration) := by
  unfold applyRegistration
  split
  case h_1 record found => exact keeps_touch found fun _ idle => idle
  case h_2 absent =>
  have indexed : Keeps env now period checked books { books with
        count := books.count + 1
        addrs := books.addrs.insert books.count registration.addr } :=
    { Keeps.refl books with
      indexed := fun addr holds node found => by
        obtain ⟨idx, known, isIdx⟩ := holds node found
        refine ⟨idx, Nat.lt_succ_of_lt known, ?_⟩
        rw [lookup_insert_eq, if_neg (by omega)]
        exact isIdx
      indices := fun idx known => by
        rw [lookup_insert_eq, if_neg (by omega)]
      grows := Nat.le_succ _ }
  refine indexed.trans (touch_touched.keeps (fun _ => ?_) fun _ _ => rfl)
  exact ⟨books.count, Nat.lt_succ_self _, by rw [lookup_insert_eq, if_pos rfl]⟩

theorem keeps_recount (idx : Nat) :
    Keeps env now period checked books (books.recount env now period idx) := by
  unfold recount
  repeat' split
  any_goals exact Keeps.refl books
  exact keeps_touch ‹_› fun _ idle => idle

theorem recount_weighs (known : books.addrs.lookup idx = some addr) :
    (books.recount env now period idx).FreshAt env now period addr := by
  unfold recount
  rw [known]
  dsimp only
  split
  case h_1 none' => exact (weighed_of_absent none').1
  case h_2 record found => exact touch_touched.freshAt

theorem recountEach_weighs {ids : List Nat} (mem : idx ∈ ids) (inside : idx < books.count)
    (known : books.addrs.lookup idx = some addr) :
    (ids.foldl (recount env now period) books).FreshAt env now period addr := by
  induction ids generalizing books with
  | nil => cases mem
  | cons head rest ih =>
    rcases mem_cons.mp mem with rfl | inRest
    · exact (@keeps_foldl env now _ (fun _ => True) Nat _
        (fun _ => keeps_recount) rest _).fresh addr (recount_weighs known)
    · have kept := @keeps_recount env books now period (fun _ => True) head
      exact ih inRest (inside.trans_le kept.grows) ((kept.indices idx inside).trans known)

theorem keeps_recountAll : Keeps env now period checked books (books.recountAll env now period) := by
  unfold recountAll
  split
  · exact Keeps.refl books
  · exact keeps_foldl (fun _ => keeps_recount) _ books

/-- A recount of not too many nodes weighs every record. -/
theorem recountAll_weighs (few : books.count ≤ fastStartRecountMax) (indexed : books.IndexedAt addr) :
    (books.recountAll env now period).FreshAt env now period addr := by
  cases before : books.records.lookup addr with
  | none =>
    exact (@keeps_recountAll env _ now _ fun _ => True).fresh addr (weighed_of_absent before).1
  | some record =>
    obtain ⟨idx, inside, known⟩ := indexed record before
    unfold recountAll
    rw [if_neg (by omega)]
    exact recountEach_weighs (mem_range.mpr inside) inside known

theorem addrs_checkIn {sums : CheckinSums} :
    (checkIn env rates now period sums idx).books.addrs = sums.books.addrs := by
  unfold checkIn
  split
  · rfl
  split
  · rfl
  split
  · exact touch_touched.addrs
  · rfl

theorem keeps_checkIn {sums : CheckinSums}
    (named : ∀ addr, sums.books.addrs.lookup idx = some addr → checked addr) :
    Keeps env now period checked sums.books (checkIn env rates now period sums idx).books := by
  unfold checkIn
  split
  · exact Keeps.refl _
  case h_2 addr known =>
  split
  · exact Keeps.refl _
  case h_2 record found =>
  split
  · exact keeps_touch found fun apart => absurd (named addr known) apart
  · exact Keeps.refl _

/-- Check-ins give streaks to the nodes they name only. -/
theorem keeps_checkIns {members : List Nat} {sums : CheckinSums}
    (named : ∀ idx ∈ members, ∀ addr, sums.books.addrs.lookup idx = some addr → checked addr) :
    Keeps env now period checked sums.books
      (members.foldl (checkIn env rates now period) sums).books := by
  induction members generalizing sums with
  | nil => exact Keeps.refl _
  | cons idx rest ih =>
    obtain ⟨here, later⟩ := forall_mem_cons.mp named
    refine (keeps_checkIn here).trans (ih fun other mem addr known => ?_)
    rw [addrs_checkIn] at known
    exact later other mem addr known

theorem keeps_recordCoverage {witnesses : Nat} (same : periodOf height = period) :
    Keeps env now period checked books (books.recordCoverage env addr witnesses now height) := by
  unfold recordCoverage
  repeat' split
  any_goals exact Keeps.refl books
  next record found _ =>
    rw [same]
    exact keeps_touch found fun _ idle => idle

theorem keeps_recordStorage {bytes : Nat} {until' : Int} (same : periodOf height = period) :
    Keeps env now period checked books (books.recordStorage env addr bytes until' now height) := by
  unfold recordStorage
  repeat' split
  any_goals exact Keeps.refl books
  next record found =>
    rw [same]
    exact keeps_touch found fun _ idle => idle

theorem keeps_applyCoverage {reader : NodeReader} {txs : List LedgerTx}
    (same : periodOf height = period) :
    Keeps reader.toNodeEnv now period checked books (books.applyCoverage reader height now txs) := by
  unfold applyCoverage
  split
  · exact Keeps.refl books
  refine keeps_foldl (fun books proof => ?_) _ books
  unfold applyCoverageProof
  split
  · exact Keeps.refl books
  · exact keeps_recordCoverage same

/-- Noting the maker of a block changes nothing that is weighed. -/
theorem keeps_recordMiner {miner : Text} :
    Keeps env now period checked books (books.recordMiner height miner) := by
  unfold recordMiner
  split
  · exact Keeps.refl books
  have maker (books : NodeBooks) : Counts books
      { books with toNodeState := books.toNodeState.recordMaker height miner } := by
    unfold NodeState.recordMaker
    split <;> exact ⟨rfl, rfl, rfl, rfl, List.Subset.refl _⟩
  refine Keeps.trans ?_ (maker _).keeps
  split
  · exact Keeps.refl books
  case h_2 record found =>
  have seen {other : Text} {node : NodeRec}
      (saved : (books.saveRec miner { record with served := epochOf height + 1 }).records.lookup other =
        some node) : ∃ before, books.records.lookup other = some before ∧
          node.weight = before.weight ∧ node.streak = before.streak ∧
          (∀ keysOk, weightOf node now keysOk period = weightOf before now keysOk period) ∧
          nextDrop node now = nextDrop before now := by
    change (books.records.insert miner _).lookup other = some node at saved
    rw [lookup_insert_eq] at saved
    split at saved
    case isTrue same =>
      rw [← Option.some.inj saved, same]
      exact ⟨record, found, rfl, rfl, fun _ => rfl, rfl⟩
    case isFalse => exact ⟨node, saved, rfl, rfl, fun _ => rfl, rfl⟩
  exact {
    fresh := fun addr holds node saved => by
      obtain ⟨before, was, weight, -, weighs, -⟩ := seen saved
      rw [weight, weighs]
      exact holds before was
    scheduled := fun addr holds node saved time drop => by
      obtain ⟨before, was, -, -, -, drops⟩ := seen saved
      exact holds before was time (drops ▸ drop)
    idle := fun addr _ holds node saved => by
      obtain ⟨before, was, -, streak, -⟩ := seen saved
      rw [streak]
      exact holds before was
    indexed := fun addr holds node saved => by
      obtain ⟨before, was, -⟩ := seen saved
      exact holds before was
    indices := fun _ _ => rfl
    grows := le_rfl
    keys := rfl }

theorem counts_drawNextRota {seed : Text} :
    Counts books (books.drawNextRota env height period seed) := by
  unfold drawNextRota
  dsimp only
  split <;> exact ⟨rfl, rfl, rfl, rfl, List.Subset.refl _⟩

theorem counts_recordTurns {skipped : List Text} {miner : Text} :
    Counts books (books.recordTurns height skipped miner) := by
  have missed (addrs : List Text) (books : NodeBooks) :
      Counts books (addrs.foldl (missTurn (epochOf height)) books) := by
    induction addrs generalizing books with
    | nil => exact Counts.refl books
    | cons addr rest ih =>
      have first : Counts books (books.missTurn (epochOf height) addr) :=
        ⟨rfl, rfl, rfl, rfl, List.Subset.refl _⟩
      exact first.trans (ih _)
  unfold recordTurns
  split
  · split
    · exact (missed _ books).trans ⟨rfl, rfl, rfl, rfl, List.Subset.refl _⟩
    · exact missed _ books
  · exact Counts.refl books

theorem keeps_registerNodes {reader : NodeReader} {block : NodeBlock} :
    Keeps reader.toNodeEnv block.timestamp (periodOf block.height) checked books
      (books.registerNodes reader block) := by
  unfold registerNodes
  have registered := @keeps_foldl reader.toNodeEnv block.timestamp (periodOf block.height) checked _ _
    (fun _ => keeps_applyRegistration) (registrationsOf reader block.txs) books
  split
  · exact registered.trans keeps_recountAll
  · exact registered

theorem count_applyRegistrations (registrations : List Registration) (books : NodeBooks) :
    (registrations.foldl (applyRegistration env now period) books).count ≤
      books.count + registrations.length := by
  induction registrations generalizing books with
  | nil => exact le_rfl
  | cons registration rest ih =>
    have first : (books.applyRegistration env now period registration).count ≤ books.count + 1 := by
      unfold applyRegistration
      split
      · exact touch_touched.count.le.trans (Nat.le_succ _)
      · exact touch_touched.count.le
    rw [foldl_cons, length_cons]
    have others := ih (books.applyRegistration env now period registration)
    omega

/-- At the height where the rule for streaks changes, every record is weighed. -/
theorem registerNodes_weighs {reader : NodeReader} {block : NodeBlock}
    (switches : block.height = fastStartHeight)
    (few : books.count + (registrationsOf reader block.txs).length ≤ fastStartRecountMax)
    (indexed : books.IndexedAt addr) :
    (books.registerNodes reader block).FreshAt reader.toNodeEnv block.timestamp (periodOf block.height)
      addr := by
  unfold registerNodes
  rw [if_pos (Or.inl switches)]
  refine recountAll_weighs ((count_applyRegistrations _ books).trans few) ?_
  exact (@keeps_foldl _ _ _ (fun _ => True) _ _
    (fun _ => keeps_applyRegistration) _ books).indexed addr indexed

end Keeps

/-! ## The start of a block -/

theorem due_of_mem_dueExpiries {key : Int × Text} (mem : key ∈ books.dueExpiries now) : key.1 ≤ now := by
  have sorted := mem_of_mem_take mem
  have listed := (perm_insertionSort _ _).mem_iff.mp sorted
  exact of_decide_eq_true (mem_filter.mp listed).2

theorem mem_dueExpiries {key : Int × Text}
    (few : (books.expiries.filter fun key => key.1 ≤ now).length ≤ maxExpiriesPerBlock)
    (queued : key ∈ books.expiries) (due : key.1 ≤ now) : key ∈ books.dueExpiries now := by
  unfold dueExpiries
  rw [take_of_length_le (by rw [length_insertionSort]; exact few)]
  exact (perm_insertionSort _ _).mem_iff.mpr (mem_filter.mpr ⟨queued, decide_eq_true due⟩)

/-- A record that nothing is due for weighs what it weighed before. -/
theorem steady_of_not_due (nonneg : 0 ≤ before) (order : before ≤ now)
    (scheduled : books.ScheduledAt before addr) (quiet : ∀ key ∈ books.expiries, key.2 = addr → now < key.1)
    (found : books.records.lookup addr = some node) : Steady node before now := by
  refine steady_of_nextDrop fun time drop => ?_
  have later : now < max time 0 := quiet _ (scheduled node found time drop) rfl
  omega

theorem processExpiries_weighs (nonneg : 0 ≤ before) (order : before ≤ now) (high : now < 2 ^ 63)
    (few : (books.expiries.filter fun key => key.1 ≤ now).length ≤ maxExpiriesPerBlock)
    (scheduled : books.ScheduledAt before addr) :
    (books.processExpiries env now period).ScheduledAt now addr ∧
      ∀ old, minStreak period = minStreak old → books.FreshAt env before old addr →
        (books.processExpiries env now period).FreshAt env now period addr := by
  have nonneg' := nonneg.trans order
  have due : ∀ key ∈ books.dueExpiries now, key.1 ≤ now := fun _ => due_of_mem_dueExpiries
  by_cases some' : ∃ key ∈ books.expiries, key.2 = addr ∧ key.1 ≤ now
  · obtain ⟨key, queued, rfl, isDue⟩ := some'
    obtain ⟨fresh, later⟩ := @expireAll_weighs env _ now _ _ nonneg' due key
      (mem_dueExpiries few queued isDue)
    exact ⟨later, fun _ _ _ => fresh⟩
  · have quiet : ∀ key ∈ books.expiries, key.2 = addr → now < key.1 := by
      intro key queued same
      by_contra early
      exact some' ⟨key, queued, same, not_lt.mp early⟩
    have kept := @keeps_expireAll env books now period (fun _ => True) _ nonneg' due
    refine ⟨kept.scheduled addr ?_, fun old streaks fresh => kept.fresh addr ?_⟩
    · intro node found time drop
      have steady := steady_of_not_due nonneg order scheduled quiet found
      rw [nextDrop_of_steady order steady] at drop
      exact scheduled node found time drop
    · intro node found
      have steady := steady_of_not_due nonneg order scheduled quiet found
      rw [fresh node found, weightOf_of_steady nonneg order high steady _ streaks]

/-! ## Before the first check-in -/

/-- Nothing but a registration happened to the record. -/
def UntouchedAt (addr : Text) (books : NodeBooks) : Prop :=
  ∀ node, books.records.lookup addr = some node →
    node.streak = 0 ∧ node.storageBytes = 0 ∧ node.coverage = 0

theorem weightOf_of_no_streak (idle : node.streak = 0) (keysOk : Bool) :
    weightOf node now keysOk period = 0 := by
  have short : node.streak < minStreak period := by
    have least := one_le_minStreak period
    omega
  unfold weightOf
  rw [if_pos (Or.inr (Or.inr (Or.inl short)))]

theorem nextDrop_of_untouched (untouched : node.streak = 0 ∧ node.storageBytes = 0 ∧ node.coverage = 0) :
    nextDrop node now = none := by
  obtain ⟨streak, bytes, coverage⟩ := untouched
  have never : dropTimes node = [] := by simp [dropTimes, streak, bytes, coverage, gb]
  unfold nextDrop
  rw [never]
  rfl

/-- A record that nothing happened to weighs nothing at any time. -/
theorem UntouchedAt.weighs {old : Nat} (untouched : books.UntouchedAt addr)
    (fresh : books.FreshAt env before old addr) :
    books.FreshAt env now period addr ∧ books.ScheduledAt now addr := by
  constructor
  · intro node found
    have idle := (untouched node found).1
    rw [fresh node found, weightOf_of_no_streak idle, weightOf_of_no_streak idle]
  · intro node found time drop
    rw [nextDrop_of_untouched (untouched node found)] at drop
    cases drop

theorem Touched.untouchedAt (touched : Touched env books addr node now period next)
    (untouched : node.streak = 0 ∧ node.storageBytes = 0 ∧ node.coverage = 0)
    (holds : books.UntouchedAt other) : next.UntouchedAt other := by
  intro record found
  obtain ⟨-, rfl⟩ | ⟨-, before⟩ := touched.found found
  · rw [reweigh_eq]
    exact untouched
  · exact holds record before

theorem untouchedAt_applyRegistration {registration : Registration} (holds : ∀ addr, books.UntouchedAt addr)
    (addr : Text) : (books.applyRegistration env now period registration).UntouchedAt addr := by
  unfold applyRegistration
  split
  case h_1 record found =>
    refine touch_touched.untouchedAt ?_ (holds addr)
    exact holds registration.addr record found
  case h_2 => exact touch_touched.untouchedAt ⟨rfl, rfl, rfl⟩ (holds addr)

theorem untouchedAt_registerNodes {reader : NodeReader} {block : NodeBlock}
    (early : block.height < checkinFromHeight) (holds : ∀ addr, books.UntouchedAt addr) (addr : Text) :
    (books.registerNodes reader block).UntouchedAt addr := by
  have noRecount : ¬ (block.height = fastStartHeight ∨ block.height = splitFromHeight) := by
    unfold checkinFromHeight at early
    unfold fastStartHeight splitFromHeight
    omega
  unfold registerNodes
  rw [if_neg noRecount]
  generalize registrationsOf reader block.txs = registrations
  induction registrations generalizing books with
  | nil => exact holds addr
  | cons registration rest ih =>
    exact ih (untouchedAt_applyRegistration holds)

/-! ## The rest of a block -/

/-- The books once the block has begun. -/
def begun (reader : NodeReader) (books : NodeBooks) (block : NodeBlock) : NodeBooks :=
  if block.height < checkinFromHeight then books
  else books.processExpiries reader.toNodeEnv block.timestamp (periodOf block.height)

section Rest

variable {reader : NodeReader} {block : NodeBlock} {checked : Text → Prop}

theorem keeps_begun (nonneg : 0 ≤ block.timestamp) :
    Keeps reader.toNodeEnv block.timestamp (periodOf block.height) checked books
      (books.begun reader block) := by
  unfold begun
  split
  · exact Keeps.refl books
  · exact keeps_expireAll nonneg fun _ => due_of_mem_dueExpiries

theorem count_begun : (books.begun reader block).count = books.count := by
  have expired (keys : List (Int × Text)) (books : NodeBooks) :
      (keys.foldl (expire reader.toNodeEnv block.timestamp (periodOf block.height)) books).count =
        books.count := by
    induction keys generalizing books with
    | nil => rfl
    | cons key rest ih =>
      rw [foldl_cons, ih, expire]
      split
      · rfl
      · exact touch_touched.count
  unfold begun
  split
  · rfl
  · exact expired _ books

section

variable (named : ∀ idx ∈ checkinMembers reader block.txs, ∀ addr, ((books.begun reader
    block).registerNodes reader block).addrs.lookup idx = some addr → checked addr)

include named

theorem keeps_applyBlock : Keeps reader.toNodeEnv block.timestamp (periodOf block.height) checked
      ((books.begun reader block).registerNodes reader block) (books.applyBlock reader block).1 := by
  unfold applyBlock
  unfold begun at named ⊢
  split
  · exact Keeps.refl _
  case isFalse late =>
  rw [if_neg late] at named
  have paid := @keeps_checkIns reader.toNodeEnv block.timestamp (periodOf block.height) checked
    (((books.processExpiries reader.toNodeEnv block.timestamp (periodOf block.height)).registerNodes reader
      block).checkinRates block.height block.timestamp (periodOf block.height))
    _ ⟨(books.processExpiries reader.toNodeEnv block.timestamp
      _).registerNodes reader block, block.poolBalance, []⟩ named
  have marked (books : NodeBooks) : Counts books { books with
        ready := markReady reader (utf8 "ready_batch") books.ready block.txs
        tmReady := markReady reader (utf8 "tm_ready_batch") books.tmReady block.txs } :=
    ⟨rfl, rfl, rfl, rfl, List.Subset.refl _⟩
  refine Keeps.trans ?_ counts_drawNextRota.keeps
  refine Keeps.trans ?_ keeps_recordMiner
  refine Keeps.trans ?_ (keeps_applyCoverage rfl)
  exact paid.trans (marked _).keeps

theorem keeps_weighBlock : Keeps reader.toNodeEnv block.timestamp (periodOf block.height) checked
      ((books.begun reader block).registerNodes reader block) (books.weighBlock reader block) := by
  refine Keeps.trans ?_ (keeps_foldl (fun books prover => keeps_recordCoverage rfl) block.covered _)
  have turned := (keeps_applyBlock named).trans
    (@counts_recordTurns (books.applyBlock reader block).1 block.height block.skipped block.miner).keeps
  split
  · exact turned.trans (keeps_foldl (fun books host => keeps_recordStorage rfl) block.hosted _)
  · exact turned

end

/-- Before the first check-in, a block only registers nodes. -/
theorem records_weighBlock_early (early : block.height < checkinFromHeight) :
    (books.weighBlock reader block).records = (books.registerNodes reader block).records := by
  have noStorage : ¬ storagePayFromHeight ≤ block.height := by
    unfold checkinFromHeight at early
    unfold storagePayFromHeight
    omega
  have noCoverage (provers : List (Text × Nat)) (books : NodeBooks) :
      provers.foldl (fun books prover => books.recordCoverage reader.toNodeEnv prover.1 prover.2
        block.timestamp block.height) books = books := by
    induction provers with
    | nil => rfl
    | cons prover rest ih =>
      rw [foldl_cons, recordCoverage, if_pos early]
      exact ih
  unfold weighBlock
  rw [noCoverage, if_neg noStorage, counts_recordTurns.records, applyBlock]
  rw [if_pos early]

theorem lookup_recordKeys {before : KeyedMap Text Text} {committed : Text → Bool} (txs : List LedgerTx)
    (keys : KeyedMap Text Text) (addr : Text) :
    (txs.foldl (recordKeys reader before committed) keys).lookup addr = keys.lookup addr ∨
      before.lookup addr = none ∧ ∃ tx ∈ txs, committed tx.hash = false ∧
        (∃ bls, reader.parseRegistration tx = some (addr, bls)) ∧
        (reader.registrationDilithiumKey tx).isSome = true := by
  induction txs generalizing keys with
  | nil => exact Or.inl rfl
  | cons tx rest ih =>
    rw [foldl_cons]
    rcases ih _ with same | ⟨absent, other, mem, brings⟩
    · rw [same]
      unfold recordKeys
      split
      · exact Or.inl rfl
      case isFalse new =>
      split
      case h_1 named bls key parsed brings =>
        split
        case isTrue absent =>
          rw [lookup_insert_eq]
          split
          case isTrue isIt =>
            refine Or.inr ⟨isIt ▸ absent, tx, mem_cons_self, by simpa using new,
              ⟨bls, isIt ▸ parsed⟩, by rw [brings]; rfl⟩
          case isFalse => exact Or.inl rfl
        case isFalse => exact Or.inl rfl
      · exact Or.inl rfl
    · exact Or.inr ⟨absent, other, mem_cons_of_mem _ mem, brings⟩

end Rest

/-! ## Runs -/

/-- What the weights need of a block: a time that is not negative, not too much that falls due, not
too many nodes where the rule for streaks changes, check-ins of nodes that are known, and no first key
for a node that has a streak or checks in. -/
structure Regular (reader : NodeReader) (books : NodeBooks) (block : NodeBlock) : Prop where
  nonneg : 0 ≤ block.timestamp
  high : block.timestamp < 2 ^ 63
  due : (books.expiries.filter fun key => key.1 ≤ block.timestamp).length ≤ maxExpiriesPerBlock
  recount : block.height = fastStartHeight →
    books.count + (registrationsOf reader block.txs).length ≤ fastStartRecountMax
  known : ∀ idx ∈ checkinMembers reader block.txs, idx < books.count
  keys : ∀ tx ∈ block.txs, block.committed tx.hash = false → ∀ addr bls,
    reader.parseRegistration tx = some (addr, bls) →
    (reader.registrationDilithiumKey tx).isSome = true →
    books.hasConsensusKey reader.toNodeEnv addr = false →
      books.NoStreakAt addr ∧ ∀ idx ∈ checkinMembers reader block.txs, books.addrs.lookup idx ≠ some addr

/-- The books that blocks of consecutive heights and times that do not go back lead to, with the
height and the time of the last block. -/
inductive Reached (reader : NodeReader) (allowed : NodeBooks → NodeBlock → Prop) :
    NodeBooks → Nat → Int → Prop
  | start (height : Nat) (now : Int) (nonneg : 0 ≤ now) : Reached reader allowed {} height now
  | next {books : NodeBooks} {height : Nat} {now : Int} {block : NodeBlock}
      (reached : Reached reader allowed books height now) (follows : block.height = height + 1)
      (later : now ≤ block.timestamp) (ok : allowed books block) :
      Reached reader allowed (books.writeBlock reader block) block.height block.timestamp

/-- What blocks keep of the books. -/
structure Kept (env : NodeEnv) (books : NodeBooks) (height : Nat) (now : Int) : Prop where
  nonneg : 0 ≤ now
  fresh : ∀ addr, books.FreshAt env now (periodOf height) addr
  scheduled : ∀ addr, books.ScheduledAt now addr
  indexed : ∀ addr, books.IndexedAt addr
  untouched : height < checkinFromHeight → ∀ addr, books.UntouchedAt addr

/-- The rule for streaks changes at one height. -/
theorem minStreak_of_follows (other : height + 1 ≠ fastStartHeight) :
    minStreak (periodOf (height + 1)) = minStreak (periodOf height) := by
  unfold fastStartHeight at other
  unfold minStreak periodOf fastStartHeight weightLead epoch
  split <;> split <;> omega

section Blocks

variable {reader : NodeReader} {block : NodeBlock}

/-- An address whose key comes with the block has no streak after it. -/
theorem noStreakAt_of_regular (regular : books.Regular reader block) {tx : LedgerTx} (mem : tx ∈ block.txs)
    (new : block.committed tx.hash = false) {bls : Text}
    (parsed : reader.parseRegistration tx = some (addr, bls))
    (brings : (reader.registrationDilithiumKey tx).isSome = true)
    (keyless : books.hasConsensusKey reader.toNodeEnv addr = false) :
    (books.weighBlock reader block).NoStreakAt addr := by
  obtain ⟨idle, away⟩ := regular.keys tx mem new addr bls parsed brings keyless
  let checked (addr : Text) : Prop :=
    ∃ idx ∈ checkinMembers reader block.txs, books.addrs.lookup idx = some addr
  have start := @keeps_begun books reader _ checked regular.nonneg
  have registered := @keeps_registerNodes (books.begun reader block) checked reader block
  have rest := @keeps_weighBlock _ _ _ checked (by
    intro idx member addr found
    have known := regular.known idx member
    rw [registered.indices idx (known.trans_le start.grows), start.indices idx known] at found
    exact ⟨idx, member, found⟩)
  have apart : ¬ checked addr := fun ⟨idx, member, found⟩ => away idx member found
  exact ((start.trans registered).trans rest).idle addr apart idle

/-- The keys that a block brings leave every weight as it should be. -/
theorem freshAt_writeBlock (regular : books.Regular reader block)
    (fresh : (books.weighBlock reader block).FreshAt reader.toNodeEnv block.timestamp
      (periodOf block.height) addr) :
    (books.writeBlock reader block).FreshAt reader.toNodeEnv block.timestamp (periodOf block.height)
      addr := by
  rcases @lookup_recordKeys _ _ _ _
    (books.weighBlock reader block).dilithium addr with unchanged | ⟨absent, tx, mem, new, ⟨bls, parsed⟩, brings⟩
  · intro node found
    have keys : (books.writeBlock reader block).hasConsensusKey reader.toNodeEnv addr =
        (books.weighBlock reader block).hasConsensusKey reader.toNodeEnv addr := by
      unfold hasConsensusKey writeBlock
      rw [unchanged]
    rw [keys]
    exact fresh node found
  · by_cases keyless : books.hasConsensusKey reader.toNodeEnv addr = false
    · have idle := noStreakAt_of_regular regular mem new parsed brings keyless
      intro node found
      rw [fresh node found, weightOf_of_no_streak (idle node found), weightOf_of_no_streak (idle node found)]
    · -- A key in the genesis counts before and after.
      have genesis : (reader.genesis.any fun validator =>
          validator.address = addr && !validator.dilithiumPubkey.isEmpty) = true := by
        simpa [hasConsensusKey, absent] using keyless
      intro node found
      have before := fresh node found
      unfold hasConsensusKey at before ⊢
      rw [genesis] at before ⊢
      exact before

theorem Kept.empty (nonneg : 0 ≤ now) : Kept env {} height now where
  nonneg := nonneg
  fresh := nofun
  scheduled := nofun
  indexed := nofun
  untouched := nofun

variable (kept : Kept reader.toNodeEnv books height now)

include kept

section

variable (follows : block.height = height + 1) (later : now ≤ block.timestamp)
  (regular : books.Regular reader block)

include follows later regular

theorem Kept.begun (addr : Text) :
    (books.begun reader block).ScheduledAt block.timestamp addr ∧ (block.height ≠ fastStartHeight →
        (books.begun reader block).FreshAt reader.toNodeEnv block.timestamp (periodOf block.height)
          addr) := by
  unfold NodeBooks.begun
  split
  case isTrue early =>
    obtain ⟨fresh, scheduled⟩ := (kept.untouched (by omega) addr).weighs (kept.fresh addr)
    exact ⟨scheduled, fun _ => fresh⟩
  case isFalse =>
  obtain ⟨scheduled, fresh⟩ := processExpiries_weighs kept.nonneg later regular.high regular.due
    (kept.scheduled addr)
  refine ⟨scheduled, fun other => fresh _ ?_ (kept.fresh addr)⟩
  rw [follows] at other ⊢
  exact minStreak_of_follows other

/-- Every record weighs what it should before the new keys are written. -/
theorem Kept.weighed (addr : Text) :
    (books.weighBlock reader block).FreshAt reader.toNodeEnv block.timestamp (periodOf block.height) addr ∧
      (books.weighBlock reader block).ScheduledAt block.timestamp addr ∧
      (books.weighBlock reader block).IndexedAt addr := by
  obtain ⟨scheduled, fresh⟩ := kept.begun follows later regular addr
  have start := @keeps_begun books reader _ (fun _ => True) regular.nonneg
  have registered := @keeps_registerNodes (books.begun reader block) (fun _ => True) reader block
  have rest := @keeps_weighBlock books reader block (fun _ => True) fun _ _ _ _ => trivial
  have indexed := start.indexed addr (kept.indexed addr)
  refine ⟨rest.fresh addr ?_, rest.scheduled addr (registered.scheduled addr scheduled),
    rest.indexed addr (registered.indexed addr indexed)⟩
  by_cases switches : block.height = fastStartHeight
  · refine registerNodes_weighs switches ?_ indexed
    rw [count_begun]
    exact regular.recount switches
  · exact registered.fresh addr (fresh switches)

theorem Kept.after :
    Kept reader.toNodeEnv (books.writeBlock reader block) block.height block.timestamp where
  nonneg := regular.nonneg
  fresh addr := freshAt_writeBlock regular (kept.weighed follows later regular addr).1
  scheduled addr := (kept.weighed follows later regular addr).2.1
  indexed addr := (kept.weighed follows later regular addr).2.2
  untouched early addr := by
    have holds := @untouchedAt_registerNodes _ reader _ early (kept.untouched (by omega)) addr
    intro node found
    rw [show (books.writeBlock reader block).records = (books.weighBlock reader block).records from rfl,
      records_weighBlock_early early] at found
    exact holds node found

end

omit kept in
theorem kept_of_reached (reached : Reached reader (Regular reader) books height now) :
    Kept reader.toNodeEnv books height now := by
  induction reached with
  | start height now nonneg => exact Kept.empty nonneg
  | next _ follows later regular ih => exact ih.after follows later regular

/-- A weight that is to fall later has its moment in the queue. -/
theorem Kept.falls (found : books.records.lookup addr = some node) {later : Int}
    (order : now ≤ later) (high : later < 2 ^ 63)
    (lighter : weightOf node later (books.hasConsensusKey reader.toNodeEnv addr) (periodOf height) <
      node.weight.next) : ∃ time ≤ later, (time, addr) ∈ books.expiries := by
  by_contra quiet
  have steady : Steady node now later := by
    refine steady_of_not_due kept.nonneg order (kept.scheduled addr) ?_ found
    rintro ⟨time, other⟩ queued rfl
    by_contra early
    exact quiet ⟨time, not_lt.mp early, queued⟩
  rw [kept.fresh addr node found, weightOf_of_steady kept.nonneg order high steady _ rfl] at lighter
  exact lt_irrefl _ lighter

end Blocks

/-- Along every run, the weight that counts from the next period on is the weight that the record
has at the time of the last block, and whenever it is to fall by time alone, the node is in the queue
for a moment not after that. -/
theorem weights_are_never_stale (reader : NodeReader) (books : NodeBooks) (height : Nat) (now : Int)
    (reached : Reached reader (Regular reader) books height now) (addr : Text) (node : NodeRec)
    (found : books.records.lookup addr = some node) :
    node.weight.next = weightOf node now (books.hasConsensusKey reader.toNodeEnv addr)
        (periodOf height) ∧
      ∀ later, now ≤ later → later < 2 ^ 63 →
        weightOf node later (books.hasConsensusKey reader.toNodeEnv addr) (periodOf height) <
          node.weight.next →
        ∃ time ≤ later, (time, addr) ∈ books.expiries := by
  have kept := kept_of_reached reached
  exact ⟨kept.fresh addr node found, fun _ => kept.falls found⟩

/-! ## A key that comes late -/

/-- Registrations are told from check-ins by their type, and bring the keys of the transaction. -/
def plainReader : NodeReader where
  blake3 := id
  genesis := []
  parseRegistration tx := if tx.txType = utf8 "validator_register" then some (tx.sender, tx.sender) else none
  registrationPop _ bls := some bls
  registrationDilithiumKey tx := if tx.dilithiumPubkey = [] then none else some tx.dilithiumPubkey
  readCheckins _ := some [some [0]]
  readReady _ := none
  readCoverage _ := none

variable (height) (key : Text)

def registerAt : NodeBlock where
  height := height
  timestamp := 1000 + height
  txs := [{ hash := [1], sender := utf8 "ego1node", recipient := [], dilithiumPubkey := key,
            txType := utf8 "validator_register" }]

def checkInAt : NodeBlock where
  height := height
  timestamp := 1000 + height
  txs := [{ hash := [2], sender := [], recipient := [], txType := utf8 "checkin_batch" }]

/-- Check-ins are active, less falls due than a block takes, and check-ins are of known nodes. -/
structure Ordinary (reader : NodeReader) (books : NodeBooks) (block : NodeBlock) : Prop where
  active : checkinFromHeight ≤ block.height
  nonneg : 0 ≤ block.timestamp
  high : block.timestamp < 2 ^ 63
  due : (books.expiries.filter fun key => key.1 ≤ block.timestamp).length < maxExpiriesPerBlock
  known : ∀ idx ∈ checkinMembers reader block.txs, idx < books.count

def onceRegistered : NodeBooks :=
  ({} : NodeBooks).writeBlock plainReader (registerAt 40001 key)

def onceCheckedIn : NodeBooks := (onceRegistered key).writeBlock plainReader (checkInAt 40002)

/-- A node that checked in without a key registers again with one: it should weigh something, and
still weighs nothing. -/
theorem late_key_leaves_weight_stale :
    ∃ (reader : NodeReader) (books : NodeBooks) (height : Nat) (now : Int) (addr : Text) (node : NodeRec),
      Reached reader (Ordinary reader) books height now ∧ books.records.lookup addr = some node ∧
      node.weight.next = 0 ∧
      weightOf node now (books.hasConsensusKey reader.toNodeEnv addr) (periodOf height) = 1 := by
  let books := (onceCheckedIn []).writeBlock plainReader (registerAt 40003 [7])
  have registered : Reached plainReader (Ordinary plainReader) (onceRegistered []) 40001 41001 :=
    Reached.next (Reached.start 40000 0 le_rfl) rfl (by decide)
      ⟨by decide, by decide, by decide, by decide, nofun⟩
  have checkedIn : Reached plainReader (Ordinary plainReader) (onceCheckedIn []) 40002 41002 :=
    Reached.next registered rfl (by decide)
      ⟨by decide, by decide, by decide, by decide, by decide⟩
  refine ⟨plainReader, books, 40003, 41003, utf8 "ego1node", _, ?_,
    (Option.some_get (by decide)).symm, by decide, by decide⟩
  exact Reached.next checkedIn rfl (by decide)
    ⟨by decide, by decide, by decide, by decide, by decide⟩

/-- A node that registers with its key and checks in weighs something from then on. -/
theorem weight_after_checkin_is_fresh :
    ∃ node, (onceCheckedIn [7]).records.lookup (utf8 "ego1node") = some node ∧
      node.weight.next = weightOf node 41002
        ((onceCheckedIn [7]).hasConsensusKey plainReader.toNodeEnv (utf8 "ego1node")) (periodOf 40002) ∧
      node.weight.next = 1 := by
  have weighs : ∃ node ∈ (onceCheckedIn [7]).records.lookup (utf8 "ego1node"), node.weight.next = 1 := by
    decide
  have other : ∀ tx ∈ (checkInAt 40002).txs, plainReader.parseRegistration tx = none := by
    decide
  obtain ⟨node, found, heavy⟩ := weighs
  have registered : Reached plainReader (Regular plainReader) (onceRegistered [7]) 40001 41001 := by
    refine Reached.next (Reached.start 40000 0 le_rfl) rfl (by decide)
      ⟨by decide, by decide, by decide, fun switches => absurd switches (by decide), by decide, ?_⟩
    intro tx _ _ addr bls _ _ _
    exact ⟨nofun, fun _ _ => nofun⟩
  have checkedIn : Reached plainReader (Regular plainReader) (onceCheckedIn [7]) 40002 41002 := by
    refine Reached.next registered rfl (by decide)
      ⟨by decide, by decide, by decide, fun switches => absurd switches (by decide),
        by decide, ?_⟩
    intro tx mem _ addr bls parsed
    rw [other tx mem] at parsed
    cases parsed
  obtain ⟨fresh, -⟩ := weights_are_never_stale plainReader _ _ _ checkedIn _ node found
  exact ⟨node, found, fresh, heavy⟩

end NodeBooks

end EgoChain.Nodes
