import EgoChain.Nodes.Weights

/-!
# Epochs and rotas

The epochs divide the heights, with one length up to a switch and a shorter one
from there on.  At the end of every epoch the rota of the epoch after the next one
is drawn.
-/

namespace EgoChain.Nodes

open EgoChain.Foundations EgoChain.Ledger List

/-! ## Epochs -/

/-- The heights whose successors and epochs are not cut off at the end of `u64`. -/
def lastPlainHeight : Nat := 2 ^ 64 - 3

section Epochs

variable {height number : Nat}

theorem epochStart_le (first : 1 ≤ height) : epochStart (epochOf height) ≤ height := by
  unfold epochStart epochOf satAdd satMul shortEpochFirst shortEpochFromHeight epoch shortEpoch
  split <;> split <;> omega

theorem lt_epochStart_succ (first : 1 ≤ height) (plain : height ≤ lastPlainHeight) :
    height < epochStart (epochOf height + 1) := by
  unfold lastPlainHeight at plain
  unfold epochStart epochOf satAdd satMul maxU64 epoch shortEpoch
  split <;> split <;> omega

/-- From one height to the next the epoch stays or is the next one. -/
theorem epochOf_succ (plain : height ≤ lastPlainHeight) :
    endsEpoch height = false ∧ epochOf (height + 1) = epochOf height ∨
      endsEpoch height = true ∧ epochOf (height + 1) = epochOf height + 1 := by
  unfold lastPlainHeight at plain
  have next : satAdd height 1 = height + 1 := by
    unfold satAdd maxU64
    omega
  have step : epochOf (height + 1) = epochOf height ∨ epochOf (height + 1) = epochOf height + 1 := by
    unfold epochOf shortEpochFirst epoch shortEpoch
    split <;> split <;> omega
  unfold endsEpoch
  rw [next]
  rcases step with same | later
  · exact Or.inl ⟨by simp [same], same⟩
  · exact Or.inr ⟨by simp [later], later⟩

theorem endsEpoch_iff (first : 1 ≤ height) (plain : height ≤ lastPlainHeight) :
    endsEpoch height = true ↔ height + 1 = epochStart (epochOf height + 1) := by
  have unplain := plain
  unfold lastPlainHeight at unplain
  constructor
  · intro ends
    rcases epochOf_succ plain with ⟨stays, -⟩ | ⟨-, later⟩
    · rw [stays] at ends
      cases ends
    · unfold epochOf shortEpochFromHeight epoch shortEpoch at later ⊢
      unfold epochStart satAdd satMul maxU64 shortEpochFirst shortEpochFromHeight epoch shortEpoch
      split at later <;> split at later <;> split <;> split <;> omega
  · intro starts
    rcases epochOf_succ plain with ⟨-, same⟩ | ⟨ends, -⟩
    · unfold epochOf shortEpochFromHeight epoch shortEpoch at same starts
      unfold epochStart satAdd satMul maxU64 shortEpochFromHeight epoch shortEpoch at starts
      split at same <;> split at same <;> split at starts <;> split at starts <;> omega
    · exact ends

/-- An epoch is the one whose first height comes next exactly where the epoch before it ends. -/
theorem succ_eq_epochStart_iff (first : 1 ≤ height) (plain : height ≤ lastPlainHeight) :
    height + 1 = epochStart (number + 1) ↔ endsEpoch height = true ∧ epochOf height = number := by
  constructor
  · intro starts
    have here : epochOf height = number := by
      unfold lastPlainHeight at plain
      unfold epochStart satAdd satMul maxU64 at starts
      unfold epochOf
      unfold shortEpochFirst shortEpochFromHeight epoch shortEpoch at starts ⊢
      split at starts <;> split <;> omega
    refine ⟨(endsEpoch_iff first plain).mpr ?_, here⟩
    rw [here]
    exact starts
  · rintro ⟨ends, rfl⟩
    exact (endsEpoch_iff first plain).mp ends

end Epochs

/-! ## The members of a rota -/

namespace NodeBooks

/-- The draw so far holds every address once. -/
structure RotaDraw.Distinct (draw : RotaDraw) : Prop where
  seen : ∀ addr ∈ draw.picked ++ draw.deferred, addr ∈ draw.seen
  nodup : (draw.picked ++ draw.deferred).Nodup

theorem distinct_drawRotaSeat {env : NodeEnv} {books : NodeBooks} {period epoch : Nat} {seed : Text}
    {cooldown : Nat} {draw : RotaDraw} (distinct : draw.Distinct) (round : Nat) :
    (drawRotaSeat env books period epoch seed cooldown draw round).Distinct := by
  unfold drawRotaSeat
  split
  · exact distinct
  dsimp only
  split
  · exact distinct
  case h_2 addr _ =>
  split
  · exact distinct
  case isFalse new =>
  have apart := fun mem => new (distinct.seen addr mem)
  split
  · constructor
    · intro other mem
      have mem : other ∈ draw.picked ++ addr :: draw.deferred := by simpa using mem
      rcases mem_cons.mp (perm_middle.mem_iff.mp mem) with rfl | before
      · exact mem_cons_self
      · exact mem_cons_of_mem _ (distinct.seen other before)
    · rw [append_assoc]
      exact perm_middle.nodup_iff.mpr (nodup_cons.mpr ⟨apart, distinct.nodup⟩)
  · constructor
    · rw [← append_assoc]
      exact forall_mem_append.mpr ⟨fun other mem => mem_cons_of_mem _ (distinct.seen other mem),
        forall_mem_singleton.mpr mem_cons_self⟩
    · rw [← append_assoc]
      exact List.Nodup.append distinct.nodup (nodup_singleton _) (disjoint_singleton.mpr apart)

/-- The members of a rota are distinct. -/
theorem nodup_drawRota (env : NodeEnv) (books : NodeBooks) (period epoch : Nat) (seed : Text) :
    (books.drawRota env period epoch seed).Nodup := by
  have all (rounds : List Nat) (cooldown : Nat) (draw : RotaDraw) (distinct : draw.Distinct) :
      (rounds.foldl (drawRotaSeat env books period epoch seed cooldown) draw).Distinct := by
    induction rounds generalizing draw with
    | nil => exact distinct
    | cons round rest ih => exact ih _ (distinct_drawRotaSeat distinct round)
  unfold drawRota
  split
  · exact nodup_nil
  · have drawn := all (List.range (rotaLen * 8)) (books.eligible.at' period / (2 * fullCommitteeSize)) {}
      ⟨fun addr mem => absurd mem not_mem_nil, nodup_nil⟩
    exact drawn.nodup.sublist ((List.Sublist.refl _).append (take_sublist _ _))

/-! ## What leaves the rotas as they are -/

section Frame

variable {env : NodeEnv} {books : NodeBooks} {now : Int} {period : Nat} {reader : NodeReader}
  {addr : Text}

theorem rotas_touch {node : NodeRec} :
    (books.touch env addr node now period).rotas = books.rotas := by
  unfold touch refresh saveRec scheduleNext schedule countStorage weighStorage countWeight countEligible
  dsimp only
  repeat' split
  all_goals rfl

theorem rotas_foldl {σ : Type} {step : NodeBooks → σ → NodeBooks}
    (keeps : ∀ books item, (step books item).rotas = books.rotas) (items : List σ) (books : NodeBooks) :
    (items.foldl step books).rotas = books.rotas := by
  induction items generalizing books with
  | nil => rfl
  | cons item rest ih => rw [foldl_cons, ih, keeps]

theorem rotas_processExpiries : (books.processExpiries env now period).rotas = books.rotas := by
  refine rotas_foldl (fun books key => ?_) _ books
  unfold expire
  dsimp only
  split
  · rfl
  · exact rotas_touch

theorem rotas_registerNodes {block : NodeBlock} :
    (books.registerNodes reader block).rotas = books.rotas := by
  have registered (books : NodeBooks) (registration : Registration) :
      (books.applyRegistration reader.toNodeEnv block.timestamp (periodOf block.height)
        registration).rotas = books.rotas := by
    unfold applyRegistration
    split <;> exact rotas_touch
  have recounted (books : NodeBooks) (idx : Nat) :
      (books.recount reader.toNodeEnv block.timestamp (periodOf block.height) idx).rotas = books.rotas := by
    unfold recount
    repeat' split
    any_goals rfl
    exact rotas_touch
  unfold registerNodes
  dsimp only
  split
  · unfold recountAll
    split
    · exact rotas_foldl registered _ books
    · rw [rotas_foldl recounted, rotas_foldl registered]
  · exact rotas_foldl registered _ books

variable {height : Nat} {txs : List LedgerTx} {miner : Text}

theorem rotas_applyCheckins {pool : Nat} :
    (books.applyCheckins reader height now period txs pool).1.rotas = books.rotas := by
  have all (members : List Nat) (rates : CheckinRates) (sums : CheckinSums) :
      (members.foldl (checkIn reader.toNodeEnv rates now period) sums).books.rotas = sums.books.rotas := by
    induction members generalizing sums with
    | nil => rfl
    | cons idx rest ih =>
      rw [foldl_cons, ih]
      unfold checkIn
      repeat' split
      any_goals rfl
      exact rotas_touch
  exact all _ _ _

theorem rotas_recordCoverage {witnesses : Nat} :
    (books.recordCoverage env addr witnesses now height).rotas = books.rotas := by
  unfold recordCoverage
  repeat' split
  any_goals rfl
  exact rotas_touch

theorem rotas_applyCoverage : (books.applyCoverage reader height now txs).rotas = books.rotas := by
  unfold applyCoverage
  split
  · rfl
  · refine rotas_foldl (fun books proof => ?_) _ books
    unfold applyCoverageProof
    split
    · rfl
    · exact rotas_recordCoverage

theorem rotas_recordMiner : (books.recordMiner height miner).rotas = books.rotas := by
  have maker (state : NodeState) : (state.recordMaker height miner).rotas = state.rotas := by
    unfold NodeState.recordMaker
    split <;> rfl
  unfold recordMiner
  split
  · rfl
  · rw [maker]
    split <;> rfl

theorem rotas_recordTurns {skipped : List Text} :
    (books.recordTurns height skipped miner).rotas = books.rotas := by
  unfold recordTurns
  have missed := @rotas_foldl _ (missTurn (epochOf height)) (fun _ _ => rfl)
    (skipped.filter fun addr => addr ≠ miner) books
  split
  · split
    · exact missed
    · exact missed
  · rfl

theorem rotas_recordStorage {bytes : Nat} {until' : Int} :
    (books.recordStorage env addr bytes until' now height).rotas = books.rotas := by
  unfold recordStorage
  split
  · rfl
  · split
    · rfl
    · exact rotas_touch

end Frame

/-! ## What a block does to the rotas -/

section Block

variable {reader : NodeReader} {books : NodeBooks} {block : NodeBlock}

theorem rotas_drawNextRota {made : NodeBooks} {period : Nat} {seed : Text}
    (kept : made.rotas = books.rotas) : ∃ members : List Text, members.Nodup ∧
      (made.drawNextRota reader.toNodeEnv height period seed).rotas =
        if endsEpoch height = true ∧ firstDrsEpoch ≤ epochOf height + 2 ∧
            books.rotas.lookup (epochOf height + 2) = none then
          books.rotas.insert (epochOf height + 2) ⟨seed, members⟩
        else books.rotas := by
  rw [← kept]
  refine ⟨_, nodup_drawRota reader.toNodeEnv made period (epochOf height + 2) seed, ?_⟩
  unfold drawNextRota
  dsimp only
  split <;> rfl

/-- A block writes no rota but the one of the epoch after the next, where its own epoch ends. -/
theorem rotas_writeBlock : ∃ members : List Text, members.Nodup ∧
      (books.writeBlock reader block).rotas =
        if checkinFromHeight ≤ block.height ∧ endsEpoch block.height = true ∧
            firstDrsEpoch ≤ epochOf block.height + 2 ∧
            books.rotas.lookup (epochOf block.height + 2) = none then
          books.rotas.insert (epochOf block.height + 2) ⟨block.rotaSeed, members⟩
        else books.rotas := by
  have same : (books.writeBlock reader block).rotas = (books.applyBlock reader block).1.rotas := by
    have stored := @rotas_foldl _ (fun books (host : Text × Nat) => books.recordStorage reader.toNodeEnv
      host.1 host.2 maxI64 block.timestamp block.height) (fun _ _ => rotas_recordStorage) block.hosted
    have covered := @rotas_foldl _ (fun books (prover : Text × Nat) => books.recordCoverage reader.toNodeEnv
      prover.1 prover.2 block.timestamp block.height) (fun _ _ => rotas_recordCoverage) block.covered
    unfold writeBlock weighBlock
    rw [covered]
    split
    · rw [stored, rotas_recordTurns]
    · exact rotas_recordTurns
  rw [same]
  unfold applyBlock
  split
  case isTrue early =>
    refine ⟨[], nodup_nil, ?_⟩
    rw [if_neg (by omega), rotas_registerNodes]
  case isFalse late =>
  refine (rotas_drawNextRota ?_).imp fun members => And.imp_right fun drawn =>
    drawn.trans (if_congr (and_iff_right (not_lt.mp late)).symm rfl rfl)
  rw [rotas_recordMiner, rotas_applyCoverage]
  exact rotas_applyCheckins.trans (rotas_registerNodes.trans rotas_processExpiries)

/-- The block changes the rota of an epoch. -/
def WritesRota (reader : NodeReader) (books : NodeBooks) (block : NodeBlock) (number : Nat) : Prop :=
  (books.writeBlock reader block).rotas.lookup number ≠ books.rotas.lookup number

/-- There is no rota yet of an epoch after the next one. -/
def NoneAhead (books : NodeBooks) (height : Nat) : Prop :=
  ∀ number, epochOf height + 2 ≤ number → books.rotas.lookup number = none

/-- What a block does to the rotas when none is drawn ahead. -/
structure RotaStep (reader : NodeReader) (books : NodeBooks) (block : NodeBlock) : Prop where
  writes : ∀ number, WritesRota reader books block number ↔
    firstDrsEpoch ≤ number ∧ endsEpoch block.height = true ∧ number = epochOf block.height + 2
  distinct : ∀ number, WritesRota reader books block number → books.rotas.lookup number = none ∧
      ∃ rota, (books.writeBlock reader block).rotas.lookup number = some rota ∧ rota.members.Nodup
  ahead : NoneAhead (books.writeBlock reader block) (block.height + 1)

theorem rotaStep_of_noneAhead (plain : block.height ≤ lastPlainHeight)
    (ahead : NoneAhead books block.height) : RotaStep reader books block := by
  obtain ⟨members, distinct, result⟩ := @rotas_writeBlock _ _ _
  have unwritten := ahead _ le_rfl
  by_cases draws : firstDrsEpoch ≤ epochOf block.height + 2 ∧ endsEpoch block.height = true
  · have active : checkinFromHeight ≤ block.height := by
      have late := draws.1
      unfold firstDrsEpoch epochOf drsFromHeight shortEpochFirst epoch shortEpoch at late
      unfold checkinFromHeight
      split at late <;> split at late <;> omega
    rw [if_pos ⟨active, draws.2, draws.1, unwritten⟩] at result
    have written (number : Nat) : (books.writeBlock reader block).rotas.lookup number =
        if number = epochOf block.height + 2 then some ⟨block.rotaSeed, members⟩
        else books.rotas.lookup number := by
      rw [result, KeyedMap.lookup_insert_eq]
    have writes (number : Nat) : WritesRota reader books block number ↔ number = epochOf block.height + 2 := by
      unfold WritesRota
      rw [written]
      split
      case isTrue same =>
        rw [same, unwritten]
        exact iff_of_true (by simp) rfl
      case isFalse other => exact iff_of_false (not_not.mpr rfl) other
    refine ⟨fun number => (writes number).trans ?_, fun number changes => ?_, fun number far => ?_⟩
    · constructor
      · rintro rfl
        exact ⟨draws.1, draws.2, rfl⟩
      · exact fun all => all.2.2
    · have same := (writes number).mp changes
      rw [same]
      exact ⟨unwritten, _, (written _).trans (if_pos rfl), distinct⟩
    · rcases epochOf_succ plain with ⟨stays, -⟩ | ⟨-, later⟩
      · rw [stays] at draws
        cases draws.2
      · rw [written, if_neg (by omega)]
        exact ahead number (by omega)
  · rw [if_neg (fun all => draws ⟨all.2.2.1, all.2.1⟩)] at result
    have writes (number : Nat) : ¬ WritesRota reader books block number := by
      unfold WritesRota
      rw [result]
      exact not_not.mpr rfl
    refine ⟨fun number => iff_of_false (writes number) ?_, fun number changes => absurd changes (writes number),
      fun number far => ?_⟩
    · rintro ⟨late, ends, rfl⟩
      exact draws ⟨late, ends⟩
    · rw [result]
      refine ahead number (le_trans ?_ far)
      rcases epochOf_succ plain with ⟨-, same⟩ | ⟨-, later⟩ <;> omega

end Block

/-! ## Runs -/

/-- The books after the first blocks of a run. -/
def afterBlocks (reader : NodeReader) (books : NodeBooks) (blocks : List NodeBlock) (count : Nat) :
    NodeBooks :=
  (blocks.take count).foldl (writeBlock reader) books

/-- The blocks have consecutive heights. -/
def Consecutive (start : Nat) (blocks : List NodeBlock) : Prop :=
  ∀ i block, blocks[i]? = some block → block.height = start + i

section Runs

variable {reader : NodeReader} {books : NodeBooks} {start : Nat} {blocks : List NodeBlock}

theorem afterBlocks_succ {i : Nat} {block : NodeBlock} (found : blocks[i]? = some block) :
    afterBlocks reader books blocks (i + 1) = (afterBlocks reader books blocks i).writeBlock reader block := by
  unfold afterBlocks
  rw [take_add_one, found, foldl_append]
  rfl

section

variable (consecutive : Consecutive start blocks)
  (plain : start + blocks.length ≤ lastPlainHeight + 1) (ahead : NoneAhead books start)

include consecutive plain ahead

theorem noneAhead_afterBlocks {i : Nat} (inside : i ≤ blocks.length) :
    NoneAhead (afterBlocks reader books blocks i) (start + i) := by
  induction i with
  | zero => exact ahead
  | succ i ih =>
    have found := List.getElem?_eq_getElem (show i < blocks.length by omega)
    have height := consecutive i _ found
    have step := @rotaStep_of_noneAhead reader _ _
      (by rw [height]; omega) (by rw [height]; exact ih (by omega))
    rw [afterBlocks_succ found, ← add_assoc, ← height]
    exact step.ahead

theorem rotaStep_of_consecutive {i : Nat} {block : NodeBlock} (found : blocks[i]? = some block) :
    RotaStep reader (afterBlocks reader books blocks i) block := by
  have inside := (List.getElem?_eq_some_iff.mp found).1
  have height := consecutive i block found
  refine rotaStep_of_noneAhead (by omega) ?_
  rw [height]
  exact noneAhead_afterBlocks consecutive plain ahead (by omega)

end

/-- A block writes the rota of an epoch exactly if the epoch before it comes next. -/
theorem writesRota_iff (first : 1 ≤ start) (consecutive : Consecutive start blocks)
    (plain : start + blocks.length ≤ lastPlainHeight + 1) (ahead : NoneAhead books start) {i : Nat}
    {block : NodeBlock} (found : blocks[i]? = some block) {number : Nat} (drs : firstDrsEpoch ≤ number) :
    WritesRota reader (afterBlocks reader books blocks i) block number ↔
      block.height + 1 = epochStart (number - 1) := by
  have inside := (List.getElem?_eq_some_iff.mp found).1
  have height := consecutive i block found
  have large : 2 ≤ number := le_trans (by decide) drs
  obtain ⟨before, rfl⟩ := Nat.exists_eq_add_of_le' large
  rw [(rotaStep_of_consecutive consecutive plain ahead found).writes, and_iff_right drs,
    show before + 2 - 1 = before + 1 by omega, succ_eq_epochStart_iff (by omega) (by omega)]
  refine and_congr_right fun _ => ?_
  omega

end Runs

end NodeBooks

theorem epochStart_le_succ (number : Nat) : epochStart number ≤ epochStart (number + 1) := by
  unfold epochStart satAdd satMul shortEpochFirst epoch shortEpoch
  split <;> split <;> omega

open NodeBooks in
/-- Below the end of `u64`, the epochs divide the heights and an epoch ends where the next one starts;
over every run of consecutive blocks that starts with no rota drawn ahead, the rota of each epoch is
written exactly once, before the epoch starts, with distinct members. -/
theorem epochs_partition_and_rotas_are_drawn_once : (∀ height, 1 ≤ height → height ≤ lastPlainHeight →
      epochStart (epochOf height) ≤ height ∧ height < epochStart (epochOf height + 1) ∧
        (endsEpoch height = true ↔ height + 1 = epochStart (epochOf height + 1))) ∧
    ∀ (reader : NodeReader) (books : NodeBooks) (start : Nat) (blocks : List NodeBlock), 1 ≤ start →
      start + blocks.length ≤ lastPlainHeight + 1 → Consecutive start blocks → NoneAhead books start →
      (∀ number i block, blocks[i]? = some block →
        WritesRota reader (afterBlocks reader books blocks i) block number →
        firstDrsEpoch ≤ number ∧ block.height < epochStart number ∧
          (afterBlocks reader books blocks i).rotas.lookup number = none ∧
          ∃ rota, (afterBlocks reader books blocks (i + 1)).rotas.lookup number = some rota ∧
            rota.members.Nodup) ∧
      ∀ number, firstDrsEpoch ≤ number → start < epochStart (number - 1) →
        epochStart (number - 1) ≤ start + blocks.length →
        ∃! i, ∃ block, blocks[i]? = some block ∧
          WritesRota reader (afterBlocks reader books blocks i) block number := by
  refine ⟨fun height first plain => ⟨epochStart_le first, lt_epochStart_succ first plain,
    endsEpoch_iff first plain⟩, ?_⟩
  intro reader books start blocks first plain consecutive ahead
  constructor
  · intro number i block found changes
    have step := @rotaStep_of_consecutive reader books start blocks consecutive plain ahead i block found
    obtain ⟨drs, -, rfl⟩ := (step.writes number).mp changes
    obtain ⟨unwritten, rota, written, distinct⟩ := step.distinct _ changes
    have height := consecutive i block found
    have inside := (List.getElem?_eq_some_iff.mp found).1
    have early := lt_epochStart_succ (show 1 ≤ block.height by omega) (by omega)
    rw [afterBlocks_succ found]
    exact ⟨drs, Nat.lt_of_lt_of_le early (epochStart_le_succ _), unwritten, rota, written, distinct⟩
  · intro number drs after before
    have inside : epochStart (number - 1) - 1 - start < blocks.length := by omega
    have found := List.getElem?_eq_getElem inside
    refine ⟨epochStart (number - 1) - 1 - start, ⟨_, found, ?_⟩, ?_⟩
    · rw [writesRota_iff first consecutive plain ahead found drs, consecutive _ _ found]
      omega
    · rintro i ⟨block, isBlock, changes⟩
      rw [writesRota_iff first consecutive plain ahead isBlock drs, consecutive _ _ isBlock] at changes
      omega

/-! ## A draw -/

section Draw

open NodeBooks

/-- A reader without batches, whose lots go through the weights one by one. -/
def roundReader : NodeReader where
  blake3 text := text.drop 20
  genesis := []
  parseRegistration _ := none
  registrationPop _ _ := none
  registrationDilithiumKey _ := none
  readCheckins _ := none
  readReady _ := none
  readCoverage _ := none

/-- Two nodes with the weights 5 and 7. -/
def weighedNodes : NodeBooks :=
  let nodes : NodeBooks := {
    records := ((∅ : KeyedMap Text NodeRec).insert (utf8 "a") { idx := 0, weight := ⟨0, 5, 1⟩ }).insert
      (utf8 "b") { idx := 1, weight := ⟨0, 7, 1⟩ }
    addrs := ((∅ : KeyedMap Nat Text).insert 0 (utf8 "a")).insert 1 (utf8 "b")
    count := 2 }
  (nodes.treeAdd 0 0 5).treeAdd 1 0 7

/-- The last block of epoch 324 and the first one of the next. -/
def lastBlocks : List NodeBlock :=
  [{ height := 32500, timestamp := 0 }, { height := 32501, timestamp := 0 }]

theorem drawRota_weighedNodes : weighedNodes.drawRota roundReader.toNodeEnv (periodOf 32500) 326 [] =
    [utf8 "a", utf8 "b"] := by
  let both : RotaDraw := ⟨[utf8 "a", utf8 "b"], [utf8 "b", utf8 "a"], []⟩
  have first : (List.range 6).foldl
      (drawRotaSeat roundReader.toNodeEnv weighedNodes (periodOf 32500) 326 [] 0) {} = both := by
    rfl
  -- once both are drawn, the other rounds find nobody new
  have later (round : Nat) :
      drawRotaSeat roundReader.toNodeEnv weighedNodes (periodOf 32500) 326 [] 0 both round = both := by
    unfold drawRotaSeat
    rw [if_neg (by decide)]
    dsimp only
    split
    · rfl
    case h_2 addr found =>
      obtain ⟨idx, -, listed⟩ := Option.bind_eq_some_iff.mp found
      change (((∅ : KeyedMap Nat Text).insert 0 (utf8 "a")).insert 1 (utf8 "b")).lookup idx = _ at listed
      rw [KeyedMap.lookup_insert_eq, KeyedMap.lookup_insert_eq] at listed
      refine if_pos ?_
      split at listed
      · simp [both, Option.some.inj listed]
      · split at listed
        · simp [both, Option.some.inj listed]
        · cases listed
  have drawn : (List.range (rotaLen * 8)).foldl
      (drawRotaSeat roundReader.toNodeEnv weighedNodes (periodOf 32500) 326 [] 0) {} = both := by
    rw [show rotaLen * 8 = 6 + 1018 from rfl, List.range_add, foldl_append, first, foldl_fixed' later]
  have total : weighedNodes.totalWeight (periodOf 32500) ≠ 0 := by decide
  have cooldown : weighedNodes.eligible.at' (periodOf 32500) / (2 * fullCommitteeSize) = 0 := by decide
  rw [drawRota, if_neg total]
  dsimp only
  rw [cooldown, drawn]
  rfl

/-- The block that ends epoch 324 writes the rota of epoch 326, with both nodes. -/
theorem rota_of_first_drs_epoch :
    (∃! i, ∃ block, lastBlocks[i]? = some block ∧
      WritesRota roundReader (afterBlocks roundReader weighedNodes lastBlocks i) block 326) ∧
    ∃ rota, (afterBlocks roundReader weighedNodes lastBlocks 1).rotas.lookup 326 = some rota ∧
      rota.members = [utf8 "a", utf8 "b"] ∧ rota.members.Nodup := by
  have consecutive : Consecutive 32500 lastBlocks := by
    intro i block found
    match i, found with
    | 0, found => rw [← Option.some.inj found]
    | 1, found => rw [← Option.some.inj found]
  obtain ⟨written, once⟩ := epochs_partition_and_rotas_are_drawn_once.2 roundReader weighedNodes 32500
    lastBlocks (by decide) (by decide) consecutive fun _ _ => rfl
  have drawn : (afterBlocks roundReader weighedNodes lastBlocks 1).rotas.lookup 326 =
      some ⟨[], weighedNodes.drawRota roundReader.toNodeEnv (periodOf 32500) 326 []⟩ := rfl
  have changes : WritesRota roundReader weighedNodes { height := 32500, timestamp := 0 } 326 := by
    intro same
    cases drawn.symm.trans same
  obtain ⟨-, -, -, rota, isRota, distinct⟩ := written 326 0 _ rfl changes
  refine ⟨once 326 (by decide) (by decide) (by decide), rota, isRota, ?_, distinct⟩
  rw [← Option.some.inj (drawn.symm.trans isRota), drawRota_weighedNodes]

end Draw

/-- The last height of all does not lie before the start of the next epoch, which is cut off there,
and the last but one seems to come before it. -/
theorem last_height_starts_next_epoch : ¬ 2 ^ 64 - 1 < epochStart (epochOf (2 ^ 64 - 1) + 1) ∧
      2 ^ 64 - 2 + 1 = epochStart (epochOf (2 ^ 64 - 2) + 1) ∧ endsEpoch (2 ^ 64 - 2) = false := by
  decide

end EgoChain.Nodes
