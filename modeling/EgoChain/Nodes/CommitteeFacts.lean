import EgoChain.Nodes.Committees

/-!
# Committees are well drawn

Every committee has no repetition, takes its members from the pool or from the
outsiders admitted to it, and has the size the rules ask for.  Whoever is drawn
first proposes first, and has made none of the last blocks.
-/

namespace EgoChain.Nodes

open EgoChain.Foundations Nat List

/-! ## Seats -/

section Seats

variable {height : Nat} {order : List Text} {size : Nat}

theorem seatOf_lt (height : Nat) (k : Nat) (some' : 0 < size) :
    seatOf height size k < size := mod_lt _ some'

/-- Below the largest heights the sums do not wrap around. -/
theorem seatOf_eq {k : Nat} (low : height + size ≤ 2 ^ 64) (bound : k < size) :
    seatOf height size k = (height + k) % size := by
  unfold seatOf
  rw [mod_eq_of_lt (by omega : height + k < 2 ^ 64)]

theorem seatOf_injOn (low : height + size ≤ 2 ^ 64) :
    Set.InjOn (seatOf height size) { k | k < size } := by
  intro one oneBound two twoBound same
  rw [seatOf_eq low oneBound, seatOf_eq low twoBound] at same
  exact add_mod_injOn height size oneBound twoBound same

theorem length_seatInTurn (height : Nat) (order : List Text) :
    (seatInTurn height order).length = order.length := length_seatAll _ _ _

theorem perm_seatInTurn (low : height + order.length ≤ 2 ^ 64) : (seatInTurn height order).Perm order :=
  perm_seatAll (fun k bound => seatOf_lt height k (by omega)) (seatOf_injOn low) []

/-- The member drawn in turn `round` proposes in that round. -/
theorem proposerOf_seatInTurn (low : height + order.length ≤ 2 ^ 64) {round : Nat}
    (bound : round < order.length) :
    proposerOf (seatInTurn height order) height round = order[round]? := by
  have some' : (seatInTurn height order).isEmpty = false := by
    rw [isEmpty_eq_false_iff, ← length_pos_iff, length_seatInTurn]
    omega
  unfold proposerOf
  rw [some', length_seatInTurn]
  exact getElem?_seatAll (fun k bound => seatOf_lt height k (by omega)) (seatOf_injOn low) [] bound

end Seats

/-! ## Picks -/

variable {candidates : List (Text × Nat)} {place : Nat} {pool : List Text}

theorem pickIndex_lt {r : Nat} (picked : pickIndex candidates r = some place) :
    place < candidates.length := by
  induction candidates generalizing r place with
  | nil => cases picked
  | cons first rest ih =>
    unfold pickIndex at picked
    split at picked
    · cases picked
      exact succ_pos _
    · obtain ⟨before, pickedBefore, rfl⟩ := Option.map_eq_some_iff.mp picked
      exact succ_lt_succ (ih pickedBefore)

theorem weightedPick_lt (some' : candidates ≠ []) (r : Nat) :
    weightedPick candidates r < candidates.length := by
  have positive := length_pos_iff.mpr some'
  unfold weightedPick
  dsimp only
  cases picked : pickIndex candidates _ with
  | none => exact sub_lt positive one_pos
  | some place => exact pickIndex_lt picked

variable {recent : List Text} {remaining : List (Text × Nat)} (env : NodeEnv)

theorem mem_restedPlaces : place ∈ restedPlaces recent remaining ↔
      ∃ entry, remaining[place]? = some entry ∧ entry.1 ∉ recent := by
  simp [restedPlaces, mem_zipIdx_iff_getElem?]

/-- The first pick falls on a candidate that made none of the last blocks, if there is one. -/
theorem firstPick_rested (r : Nat) (some' : restedPlaces recent remaining ≠ []) :
    ∃ entry, remaining[firstPick recent remaining r]? = some entry ∧ entry.1 ∉ recent := by
  refine mem_restedPlaces.mp ?_
  have candidates : ((restedPlaces recent remaining).filterMap fun place => remaining[place]?).length =
      (restedPlaces recent remaining).length := by
    refine filterMap_length_eq_length.mpr ?_
    intro place mem
    obtain ⟨entry, found, -⟩ := mem_restedPlaces.mp mem
    rw [found]
    rfl
  have picked := weightedPick_lt (length_pos_iff.mp (candidates ▸ length_pos_iff.mpr some')) r
  rw [candidates] at picked
  unfold firstPick
  rw [if_neg (by simpa using some'), getD_eq_getElem?_getD, List.getElem?_eq_getElem picked]
  exact getElem_mem picked

theorem firstPick_lt (r : Nat) (some' : remaining ≠ []) :
    firstPick recent remaining r < remaining.length := by
  by_cases none' : restedPlaces recent remaining = []
  · unfold firstPick
    rw [if_pos (by rw [none']; rfl)]
    exact weightedPick_lt some' r
  · obtain ⟨entry, found, -⟩ := firstPick_rested r none'
    exact (List.getElem?_eq_some_iff.mp found).1

theorem chooses_chooseSeat (height : Nat) (attempt : Int) (seed : Text)
    (recent : List Text) : Chooses (chooseSeat env height attempt seed recent) := by
  intro pick remaining some'
  unfold chooseSeat
  split
  · exact firstPick_lt _ some'
  · exact weightedPick_lt some' _

/-! ## Draws from a pool -/

/-- A group without repetition, with members that are allowed and of a given size. -/
structure WellDrawn (allowed : Text → Prop) (size : Nat) (group : List Text) : Prop where
  distinct : group.Nodup
  members : ∀ addr ∈ group, allowed addr
  size : group.length = size

theorem WellDrawn.perm {allowed : Text → Prop} {size : Nat} {group other : List Text}
    (drawn : WellDrawn allowed size group) (perm : other.Perm group) :
    WellDrawn allowed size other :=
  ⟨perm.nodup_iff.mpr drawn.distinct, fun addr mem => drawn.members addr (perm.mem_iff.mp mem),
    perm.length_eq.trans drawn.size⟩

variable (state : NodeState) (height : Nat)

theorem map_fst_withLots (pool : List Text) : (withLots state height pool).map Prod.fst = pool := by
  unfold withLots
  rw [map_map]
  exact map_id pool

/-- Whatever is drawn from a pool by weight is well drawn. -/
theorem wellDrawn_drawOut {choose : Nat → List (Text × Nat) → Nat} (chooses : Chooses choose)
    (distinct : pool.Nodup) (count : Nat) :
    WellDrawn (· ∈ pool) (min count pool.length)
      ((drawOut choose 0 count (withLots state height pool)).map Prod.fst) := by
  have part := subperm_map Prod.fst (drawOut_subperm chooses 0 count (withLots state height pool))
  rw [map_fst_withLots] at part
  have drawn : WellDrawn (· ∈ pool) _ _ :=
    ⟨nodup_of_subperm part distinct, fun _ mem => part.subset mem, rfl⟩
  have lots : (withLots state height pool).length = pool.length := length_map _
  rwa [length_map, length_drawOut chooses, lots] at drawn

section Weighted

variable (env : NodeEnv) (state : NodeState) {height : Nat} (attempt : Int) (seed : Text)
  {pool : List Text}

theorem wellDrawn_drawOrder (height : Nat) (distinct : pool.Nodup) :
    WellDrawn (· ∈ pool) (committeeSize height pool.length)
      (drawOrder env state height attempt seed pool) := by
  have drawn := wellDrawn_drawOut state height
    (chooses_chooseSeat env height attempt seed (recentMakers state pool.length)) distinct
    (committeeSize height pool.length)
  have small : committeeSize height pool.length ≤ pool.length := min_le_right _ _
  rwa [min_eq_left small] at drawn

theorem length_weightedCommittee (height : Nat) (distinct : pool.Nodup) :
    (weightedCommittee env state height attempt seed pool).length = committeeSize height pool.length :=
  (length_seatInTurn _ _).trans (wellDrawn_drawOrder env state attempt seed height distinct).size

theorem wellDrawn_weightedCommittee (distinct : pool.Nodup)
    (low : height + committeeSize height pool.length ≤ 2 ^ 64) :
    WellDrawn (· ∈ pool) (committeeSize height pool.length)
      (weightedCommittee env state height attempt seed pool) := by
  have drawn := wellDrawn_drawOrder env state attempt seed height distinct
  refine drawn.perm (perm_seatInTurn ?_)
  rwa [drawn.size]

/-- Fewer makers rest than there are nodes in the pool. -/
theorem exists_rested (distinct : pool.Nodup) (some' : pool ≠ []) :
    ∃ addr ∈ pool, addr ∉ recentMakers state pool.length := by
  by_contra none'
  push Not at none'
  have fits := (subperm_of_subset distinct none').length_le
  have positive := length_pos_iff.mpr some'
  have few : (recentMakers state pool.length).length ≤ pool.length / 2 :=
    (length_take_le _ _).trans (min_le_left _ _)
  omega

/-- The first member drawn has made none of the last blocks. -/
theorem head_drawOrder (distinct : pool.Nodup) {first : Text}
    (head : (drawOrder env state height attempt seed pool)[0]? = some first) :
    first ∉ recentMakers state pool.length := by
  have chooses := chooses_chooseSeat env height attempt seed (recentMakers state pool.length)
  unfold drawOrder at head
  cases count : committeeSize height pool.length with
  | zero =>
    rw [count] at head
    cases head
  | succ size =>
    have some' : pool ≠ [] := by
      rintro rfl
      simp [committeeSize] at count
    have lots : withLots state height pool ≠ [] := by simpa [withLots] using some'
    obtain ⟨addr, mem, rests⟩ := exists_rested state distinct some'
    obtain ⟨drawn, found, step⟩ := drawOut_succ chooses 0 size lots
    rw [count, step] at head
    cases head
    have rested : restedPlaces (recentMakers state pool.length) (withLots state height pool) ≠ [] := by
      obtain ⟨place, inside, same⟩ := mem_iff_getElem.mp mem
      have listed : (withLots state height pool)[place]? =
          some (addr, state.lots (periodOf height) addr) := by
        simp [withLots, inside, same]
      exact ne_nil_of_mem (mem_restedPlaces.mpr ⟨_, listed, rests⟩)
    obtain ⟨entry, foundToo, restsToo⟩ := firstPick_rested _ rested
    have picked : chooseSeat env height attempt seed (recentMakers state pool.length) 0
        (withLots state height pool) = firstPick (recentMakers state pool.length)
        (withLots state height pool) (drawHash env seed height attempt 0) := rfl
    rw [picked, foundToo] at found
    cases found
    exact restsToo

/-- The proposer of the first round made none of the blocks that ask for a rest. -/
def RestedProposer (state : NodeState) (pool : Nat) (height : Nat) (group : List Text) : Prop :=
  ∀ proposer, proposerOf group height 0 = some proposer → proposer ∉ recentMakers state pool

theorem restedProposer_weightedCommittee (distinct : pool.Nodup)
    (low : height + committeeSize height pool.length ≤ 2 ^ 64) :
    RestedProposer state pool.length height (weightedCommittee env state height attempt seed pool) := by
  intro proposer proposes
  have drawn := wellDrawn_drawOrder env state attempt seed height distinct
  by_cases some' : 0 < (drawOrder env state height attempt seed pool).length
  · unfold weightedCommittee at proposes
    rw [proposerOf_seatInTurn (by rwa [drawn.size]) some'] at proposes
    exact head_drawOrder env state attempt seed distinct proposes
  · have empty : (weightedCommittee env state height attempt seed pool).isEmpty = true := by
      rw [isEmpty_iff_length_eq_zero, weightedCommittee, length_seatInTurn]
      omega
    rw [proposerOf, empty] at proposes
    cases proposes

end Weighted

/-! ## Outsiders -/

/-- What is gathered comes once, was not seen before and can vote. -/
theorem gatherOutsiders_spec (votes : Text → Bool) (candidates seen out : List Text) :
    ∃ more, gatherOutsiders votes candidates seen out = out ++ more ∧ more.Nodup ∧
      ∀ addr ∈ more, addr ∉ seen ∧ votes addr = true := by
  induction candidates generalizing seen out with
  | nil => exact ⟨[], (append_nil out).symm, nodup_nil, by simp⟩
  | cons addr rest ih =>
    unfold gatherOutsiders
    split
    · exact ⟨[], (append_nil out).symm, nodup_nil, by simp⟩
    split
    · exact ih seen out
    case isFalse new =>
    split
    case isTrue can =>
      obtain ⟨more, gathered, distinct, fresh⟩ := ih _ _
      refine ⟨addr :: more, by rw [gathered, append_assoc]; rfl, ?_, ?_⟩
      · refine nodup_cons.mpr ⟨fun again => ?_, distinct⟩
        exact (fresh addr again).1 mem_cons_self
      · exact forall_mem_cons.mpr ⟨⟨new, can⟩, fun other later =>
          ⟨fun known => (fresh other later).1 (mem_cons_of_mem _ known), (fresh other later).2⟩⟩
    case isFalse =>
      obtain ⟨more, gathered, distinct, fresh⟩ := ih _ out
      exact ⟨more, gathered, distinct, fun other mem =>
        ⟨fun known => (fresh other mem).1 (mem_cons_of_mem _ known), (fresh other mem).2⟩⟩

variable (attempt : Nat)

/-- Outsiders come once each, are not inside and can vote. -/
theorem outsiders_spec (inside : List Text) : (outsiders env state height inside).Nodup ∧
      ∀ addr ∈ outsiders env state height inside, addr ∉ inside ∧ canVote env state addr = true := by
  have all : (anyOutsiders env state height inside).Nodup ∧
      ∀ addr ∈ anyOutsiders env state height inside, addr ∉ inside ∧ canVote env state addr = true := by
    obtain ⟨more, gathered, distinct, fresh⟩ := gatherOutsiders_spec _ _ inside []
    unfold anyOutsiders
    rw [gathered]
    exact ⟨distinct, fresh⟩
  unfold outsiders
  dsimp only
  split
  · exact all
  split
  · exact all
  · exact ⟨all.1.filter _, fun addr mem => all.2 addr (mem_of_mem_filter mem)⟩

theorem wellDrawn_drawFrom (seed : Text) {candidates : List Text} (distinct : candidates.Nodup)
    (count : Nat) :
    WellDrawn (· ∈ candidates) (min count candidates.length)
      (drawFrom env state height attempt seed candidates count) :=
  wellDrawn_drawOut state height (fun _ _ some' => weightedPick_lt some' _) distinct count

/-! ## Wider committees -/

section Widened

variable (env : NodeEnv) (state : NodeState) {height attempt : Nat} (seed : Text)
  {pool base : List Text}

/-- The nodes that a widened committee may have. -/
def MayWiden (env : NodeEnv) (state : NodeState) (height : Nat) (pool base : List Text)
    (addr : Text) : Prop :=
  addr ∈ pool ∨ addr ∈ outsiders env state height base ∨ addr ∈ outsiders env state height pool

theorem wellDrawn_anchored (drawn : WellDrawn (· ∈ pool) base.length base) (seats : Nat)
    (low : height + (base ++ drawFrom env state height attempt seed
      (outsiders env state height base) seats).length ≤ 2 ^ 64) :
    WellDrawn (MayWiden env state height pool base)
      (base.length + min seats (outsiders env state height base).length)
      (seatInTurn height (base ++ drawFrom env state height attempt seed
        (outsiders env state height base) seats)) := by
  obtain ⟨once, apart⟩ := outsiders_spec env state height base
  have extra := wellDrawn_drawFrom env state height attempt seed once seats
  refine WellDrawn.perm ⟨?_, ?_, ?_⟩ (perm_seatInTurn low)
  · refine List.Nodup.append drawn.distinct extra.distinct ?_
    intro addr inBase inExtra
    exact (apart addr (extra.members addr inExtra)).1 inBase
  · exact forall_mem_append.mpr ⟨fun addr mem => Or.inl (drawn.members addr mem),
      fun addr mem => Or.inr (Or.inl (extra.members addr mem))⟩
  · rw [length_append, extra.size]

theorem wellDrawn_everyone (distinct : pool.Nodup) :
    WellDrawn (· ∈ pool ++ outsiders env state height pool)
      (min minCommittee (pool.length + (outsiders env state height pool).length))
      (drawFrom env state height attempt seed (pool ++ outsiders env state height pool) minCommittee) := by
  obtain ⟨once, apart⟩ := outsiders_spec env state height pool
  rw [← length_append]
  exact wellDrawn_drawFrom env state height attempt seed (List.Nodup.append distinct once
    fun addr inPool outside => (apart addr outside).1 inPool) minCommittee

theorem wellDrawn_fresh (distinct : pool.Nodup) (low : height + (drawFrom env state height attempt seed
      (pool ++ outsiders env state height pool) minCommittee).length ≤ 2 ^ 64) :
    WellDrawn (MayWiden env state height pool base)
      (min minCommittee (pool.length + (outsiders env state height pool).length))
      (seatInTurn height (drawFrom env state height attempt seed
        (pool ++ outsiders env state height pool) minCommittee)) := by
  have drawn := @wellDrawn_everyone env state height attempt seed pool distinct
  refine WellDrawn.perm ⟨drawn.distinct, fun addr mem => ?_, drawn.size⟩ (perm_seatInTurn low)
  rcases mem_append.mp (drawn.members addr mem) with inPool | outside
  · exact Or.inl inPool
  · exact Or.inr (Or.inr outside)

/-- The size that the rules ask of a widened committee. -/
def widenedSize (height attempt base : Nat) : Nat :=
  if anchored height attempt then base + extraSeatsAt height base else minCommittee

/-- There are candidates for every seat of a widened committee. -/
def EnoughToWiden (env : NodeEnv) (state : NodeState) (height attempt : Nat)
    (pool base : List Text) : Prop :=
  if anchored height attempt then
    extraSeatsAt height base.length ≤ (outsiders env state height base).length
  else minCommittee ≤ pool.length + (outsiders env state height pool).length

theorem wellDrawn_widenedCommittee (distinct : pool.Nodup)
    (drawn : height + base.length ≤ 2 ^ 64 → WellDrawn (· ∈ pool) base.length base)
    (low : height + (widenedCommittee env state height attempt seed pool base).length ≤ 2 ^ 64) :
    (widenedCommittee env state height attempt seed pool base).Nodup ∧
      (∀ addr ∈ widenedCommittee env state height attempt seed pool base,
        MayWiden env state height pool base addr) ∧
      (EnoughToWiden env state height attempt pool base →
        (widenedCommittee env state height attempt seed pool base).length =
          widenedSize height attempt base.length) := by
  have kept : height + base.length ≤ 2 ^ 64 →
      base.Nodup ∧ ∀ addr ∈ base, MayWiden env state height pool base addr := fun lowBase =>
    ⟨(drawn lowBase).distinct, fun addr mem => Or.inl ((drawn lowBase).members addr mem)⟩
  unfold widenedCommittee at low ⊢
  unfold EnoughToWiden widenedSize
  dsimp only at low ⊢
  split at low
  case isTrue isAnchored =>
    rw [if_pos isAnchored, if_pos isAnchored, if_pos isAnchored]
    split at low
    case isTrue noSeats =>
      rw [noSeats]
      exact ⟨(kept low).1, (kept low).2, fun _ => rfl⟩
    case isFalse someSeats =>
    rw [if_neg someSeats]
    split at low
    case isTrue noExtra =>
      rw [if_pos noExtra]
      refine ⟨(kept low).1, (kept low).2, fun enough => ?_⟩
      have extra := wellDrawn_drawFrom env state height attempt seed
        (outsiders_spec env state height base).1 (extraSeatsAt height base.length)
      have none' : (drawFrom env state height attempt seed (outsiders env state height base)
          (extraSeatsAt height base.length)).length = 0 := by
        rw [isEmpty_iff.mp noExtra]
        rfl
      rw [extra.size] at none'
      omega
    case isFalse someExtra =>
      rw [if_neg someExtra]
      rw [length_seatInTurn] at low
      have lowBase : height + base.length ≤ 2 ^ 64 := by
        rw [length_append] at low
        omega
      have wide := wellDrawn_anchored env state seed (drawn lowBase) _ low
      refine ⟨wide.distinct, wide.members, fun enough => ?_⟩
      rw [wide.size, min_eq_left enough]
  case isFalse notAnchored =>
    rw [if_neg notAnchored, if_neg notAnchored, if_neg notAnchored]
    split at low
    case isTrue few =>
      rw [if_pos few]
      refine ⟨(kept low).1, (kept low).2, fun enough => ?_⟩
      rw [(wellDrawn_everyone env state seed distinct).size] at few
      omega
    case isFalse enoughDrawn =>
      rw [if_neg enoughDrawn]
      rw [length_seatInTurn] at low
      have wide : WellDrawn (MayWiden env state height pool base) _ _ :=
        wellDrawn_fresh env state seed distinct low
      refine ⟨wide.distinct, wide.members, fun enough => ?_⟩
      rw [wide.size, min_eq_left enough]

end Widened

/-! ## Committees -/

/-- The size that the rules ask of the committee of a height. -/
def drawnSize (height pool : Nat) : Nat :=
  if drawV3FromHeight ≤ height then committeeSize height pool else min blockCommittee pool

theorem wellDrawn_committee (state : NodeState) (height : Nat) (attempt : Int)
    (distinct : (state.drawPool height).Nodup)
    (low : height + (committee env state height attempt).length ≤ 2 ^ 64) :
    WellDrawn (· ∈ state.drawPool height) (drawnSize height (state.drawPool height).length)
      (committee env state height attempt) := by
  unfold committee at low ⊢
  unfold drawnSize
  dsimp only at low ⊢
  split at low
  case isTrue weighted =>
    rw [if_pos weighted, if_pos weighted]
    rw [length_weightedCommittee env state attempt _ height distinct] at low
    exact wellDrawn_weightedCommittee env state attempt _ distinct low
  case isFalse early =>
  rw [if_neg early, if_neg early]
  split
  case isTrue few =>
    exact ⟨distinct, fun _ mem => mem, by omega⟩
  split
  · exact ⟨distinct.sublist (take_sublist _ _), fun _ => mem_of_mem_take, by rw [length_take]; omega⟩
  generalize ((state.loadRota (epochOf height)).getD {}).seed = seed
  have ranked : (((state.drawPool height).map fun addr =>
      (rankHash env seed height attempt addr, addr)).mergeSort rankBefore).Perm
      ((state.drawPool height).map fun addr => (rankHash env seed height attempt addr, addr)) :=
    mergeSort_perm _ _
  have names := ranked.map Prod.snd
  rw [map_map, show Prod.snd ∘ (fun addr => (rankHash env seed height attempt addr, addr)) =
    id from rfl, map_id] at names
  rw [map_take]
  refine ⟨(names.nodup_iff.mpr distinct).sublist (take_sublist _ _),
    fun addr mem => names.mem_iff.mp (mem_of_mem_take mem), ?_⟩
  rw [length_take, names.length_eq]
  omega

theorem skipPool_sublist : (skipPool state height).Sublist (state.drawPool height) := by
  unfold skipPool
  dsimp only
  split
  · exact filter_sublist
  · exact List.Sublist.refl _

/-- The size that the rules ask of the committee of an attempt to skip. -/
def skipSize (attempt : Nat) : Nat :=
  let base := committeeSize height (skipPool state height).length
  if widened height attempt = false ∨ base = 0 then base else widenedSize height attempt base

section Skip

variable {height attempt} (distinct : (state.drawPool height).Nodup)
include distinct

theorem length_skipBase (attempt : Nat) : (skipBase env state height attempt).length =
      committeeSize height (skipPool state height).length :=
  length_weightedCommittee env state _ _ height ((skipPool_sublist state height).nodup distinct)

theorem wellDrawn_skipBase (low : height + (skipBase env state height attempt).length ≤ 2 ^ 64) :
    WellDrawn (· ∈ state.drawPool height) (skipBase env state height attempt).length
      (skipBase env state height attempt) := by
  have pool := (skipPool_sublist state height).nodup distinct
  have sized := length_skipBase env state distinct attempt
  rw [sized] at low ⊢
  have drawn := wellDrawn_weightedCommittee env state attempt
    ((state.loadRota (epochOf height)).getD {}).seed pool low
  exact ⟨drawn.distinct,
    fun addr mem => (skipPool_sublist state height).subset (drawn.members addr mem), drawn.size⟩

theorem wellDrawn_skipCommittee
    (low : height + (skipCommittee env state height attempt).length ≤ 2 ^ 64) :
    (skipCommittee env state height attempt).Nodup ∧ (∀ addr ∈ skipCommittee env state height attempt,
        MayWiden env state height (state.drawPool height) (skipBase env state height attempt) addr) ∧
      (EnoughToWiden env state height attempt (state.drawPool height)
          (skipBase env state height attempt) →
        (skipCommittee env state height attempt).length = skipSize state height attempt) := by
  have sized := length_skipBase env state distinct attempt
  have isEmpty : ((skipBase env state height attempt).isEmpty = true) ↔
      committeeSize height (skipPool state height).length = 0 := by
    rw [← sized, isEmpty_iff_length_eq_zero]
  unfold skipCommittee at low ⊢
  unfold skipSize
  dsimp only at low ⊢
  split at low
  case isTrue asDrawn =>
    have drawn := wellDrawn_skipBase env state distinct low
    rw [if_pos asDrawn, if_pos (asDrawn.imp_right isEmpty.mp)]
    exact ⟨drawn.distinct, fun addr mem => Or.inl (drawn.members addr mem), fun _ => sized⟩
  case isFalse wide =>
    rw [if_neg wide, if_neg fun asDrawn => wide (asDrawn.imp_right isEmpty.mpr), ← sized]
    exact wellDrawn_widenedCommittee env state _ distinct (wellDrawn_skipBase env state distinct) low

end Skip

/-! ## The draw as a whole -/

/-- Every committee of a height is well drawn and seated in the order of its draw. -/
structure CommitteesWellFormed (env : NodeEnv) (state : NodeState) (height : Nat) : Prop where
  seated : ∀ order : List Text, height + order.length ≤ 2 ^ 64 → (seatInTurn height order).Perm order ∧
      ∀ round < order.length, proposerOf (seatInTurn height order) height round = order[round]?
  weighted : ∀ (attempt : Int) (seed : Text) (pool : List Text), pool.Nodup →
    height + committeeSize height pool.length ≤ 2 ^ 64 →
    WellDrawn (· ∈ pool) (committeeSize height pool.length)
        (weightedCommittee env state height attempt seed pool) ∧
      RestedProposer state pool.length height (weightedCommittee env state height attempt seed pool)
  drawn : (state.drawPool height).Nodup → ∀ attempt : Int,
    height + (committee env state height attempt).length ≤ 2 ^ 64 →
    WellDrawn (· ∈ state.drawPool height) (drawnSize height (state.drawPool height).length)
        (committee env state height attempt) ∧
      (drawV3FromHeight ≤ height → RestedProposer state (state.drawPool height).length height
        (committee env state height attempt))
  wider : ∀ (attempt : Nat) (seed : Text) (pool base : List Text), pool.Nodup → base.Nodup →
    (∀ addr ∈ base, addr ∈ pool) →
    height + (widenedCommittee env state height attempt seed pool base).length ≤ 2 ^ 64 →
    (widenedCommittee env state height attempt seed pool base).Nodup ∧
      (∀ addr ∈ widenedCommittee env state height attempt seed pool base,
        MayWiden env state height pool base addr) ∧
      (EnoughToWiden env state height attempt pool base →
        (widenedCommittee env state height attempt seed pool base).length =
          widenedSize height attempt base.length)
  skips : (state.drawPool height).Nodup → ∀ attempt : Nat,
    height + (skipCommittee env state height attempt).length ≤ 2 ^ 64 →
    (skipCommittee env state height attempt).Nodup ∧ (∀ addr ∈ skipCommittee env state height attempt,
        MayWiden env state height (state.drawPool height) (skipBase env state height attempt) addr) ∧
      (EnoughToWiden env state height attempt (state.drawPool height)
          (skipBase env state height attempt) →
        (skipCommittee env state height attempt).length = skipSize state height attempt) ∧
      (widened height attempt = false → RestedProposer state (skipPool state height).length height
        (skipCommittee env state height attempt))
  /-- Those who rest are the makers of the last blocks. -/
  makers : ∀ (blocks : List (Nat × Text)) (pool : Nat),
    (∀ block ∈ blocks, drawV3FromHeight ≤ block.1 ∧ block.2 ≠ []) →
    recentMakers (blocks.foldl (fun state block => state.recordMaker block.1 block.2) state) pool =
      ((blocks.map Prod.snd).reverse ++ state.lastMakers).take (makerCooldown pool)

theorem committee_draw_well_formed (env : NodeEnv) (state : NodeState) (height : Nat) :
    CommitteesWellFormed env state height where
  seated order low := ⟨perm_seatInTurn low, fun _ => proposerOf_seatInTurn low⟩
  weighted attempt seed pool distinct low :=
    ⟨wellDrawn_weightedCommittee env state attempt seed distinct low,
      restedProposer_weightedCommittee env state attempt seed distinct low⟩
  drawn distinct attempt low := by
    refine ⟨wellDrawn_committee env state height attempt distinct low, fun weighted => ?_⟩
    have isWeighted : committee env state height attempt = weightedCommittee env state height attempt
        ((state.loadRota (epochOf height)).getD {}).seed (state.drawPool height) := if_pos weighted
    rw [isWeighted, length_weightedCommittee env state attempt _ height distinct] at low
    rw [isWeighted]
    exact restedProposer_weightedCommittee env state attempt _ distinct low
  wider attempt seed pool base distinct distinctBase inPool low :=
    wellDrawn_widenedCommittee env state seed distinct (fun _ => ⟨distinctBase, inPool, rfl⟩) low
  skips distinct attempt low := by
    obtain ⟨once, members, size⟩ := wellDrawn_skipCommittee env state distinct low
    refine ⟨once, members, size, fun asDrawn => ?_⟩
    have isBase : skipCommittee env state height attempt = skipBase env state height attempt :=
      if_pos (Or.inl asDrawn)
    rw [isBase, length_skipBase env state distinct] at low
    rw [isBase]
    exact restedProposer_weightedCommittee env state attempt _
      ((skipPool_sublist state height).nodup distinct) low
  makers blocks pool weighted :=
    take_lastMakers_recordMaker blocks state weighted (min_le_right _ _)

/-! ## A widened committee whose first proposer does not rest -/

/-- Two nodes take turns, the first made the last block and a third one before it. -/
def twoNodes : NodeState where
  rotas := (∅ : KeyedMap Nat Rota).insert 491 ⟨[], [[1], [2]]⟩
  lastMakers := [[1], [3]]
  dilithium := (∅ : KeyedMap Text Text).insert [3] [0]

theorem twoNodes_pool : twoNodes.drawPool 42301 = [[1], [2]] ∧ skipPool twoNodes 42301 = [[1], [2]] ∧
    recentMakers twoNodes 2 = [[1]] := by
  decide

theorem twoNodes_skipBase : skipBase env twoNodes 42301 2 = [[1], [2]] := by
  obtain ⟨-, pool, recent⟩ := twoNodes_pool
  have distinct : (skipPool twoNodes 42301).Nodup := by
    rw [pool]
    decide
  generalize isSeed : ((twoNodes.loadRota (epochOf 42301)).getD {}).seed = seed
  have drawn := wellDrawn_drawOrder env twoNodes 2 seed 42301 distinct
  have rested := @head_drawOrder env twoNodes 42301 2 seed _ distinct
  have order : drawOrder env twoNodes 42301 2 seed (skipPool twoNodes 42301) = [[2], [1]] := by
    obtain ⟨once, members, size⟩ := drawn
    rw [pool] at once members size rested ⊢
    rw [length_cons, length_cons, length_nil, recent] at rested
    obtain ⟨first, second, isOrder⟩ := length_eq_two.mp size
    rw [isOrder] at once members rested ⊢
    have one := members first (by simp)
    have two := members second (by simp)
    have notMaker := rested rfl
    simp only [mem_cons, not_mem_nil, or_false, nodup_cons] at one two notMaker once
    rcases one with rfl | rfl
    · exact absurd rfl notMaker
    · rcases two with rfl | rfl
      · rfl
      · exact absurd rfl once.1
  unfold skipBase weightedCommittee
  rw [isSeed]
  change seatInTurn 42301 (drawOrder env twoNodes 42301 2 seed (skipPool twoNodes 42301)) = _
  rw [order]
  decide

theorem twoNodes_outsiders : outsiders env twoNodes 42301 [[1], [2]] = [[3]] := by
  have votes : canVote env twoNodes [3] = true := by
    unfold canVote
    rw [Bool.or_eq_true]
    exact Or.inr (by decide)
  have candidates : (epochsBack (epochOf 42301) (List.range' 1 widenReadyEpochs)).flatMap
      twoNodes.tmReadyIn ++ twoNodes.lastMakers ++
        ((twoNodes.loadRota (epochOf 42301)).map Rota.members).getD [] = [[1], [3], [1], [2]] := by
    decide
  unfold outsiders anyOutsiders
  dsimp only
  rw [if_pos (by decide), candidates]
  simp [gatherOutsiders, votes, widenMaxOutsiders]

/-- The maker of the last block proposes first in a widened committee, though another member made
none of the blocks that ask for a rest; and at the largest height a seating loses a member. -/
theorem widened_committee_forgets_the_rest : (∀ env : NodeEnv, (twoNodes.drawPool 42301).Nodup ∧
      proposerOf (skipCommittee env twoNodes 42301 2) 42301 0 = some [1] ∧
      [1] ∈ recentMakers twoNodes (skipPool twoNodes 42301).length ∧
      [2] ∈ skipCommittee env twoNodes 42301 2 ∧
      [2] ∉ recentMakers twoNodes (skipPool twoNodes 42301).length) ∧
    ¬ (seatInTurn (2 ^ 64 - 1) [[1], [2], [3]]).Perm [[1], [2], [3]] := by
  refine ⟨fun env => ?_, by decide⟩
  obtain ⟨full, pool, recent⟩ := twoNodes_pool
  have extra : drawFrom env twoNodes 42301 2 ((twoNodes.loadRota (epochOf 42301)).getD {}).seed
      [[3]] 1 = [[3]] := by
    obtain ⟨-, members, size⟩ := wellDrawn_drawFrom env twoNodes 42301 2
      ((twoNodes.loadRota (epochOf 42301)).getD {}).seed (nodup_singleton [3]) 1
    obtain ⟨only, isOnly⟩ := length_eq_one_iff.mp size
    rw [isOnly] at members ⊢
    rw [mem_singleton.mp (members only mem_cons_self)]
  have group : skipCommittee env twoNodes 42301 2 = seatInTurn 42301 [[1], [2], [3]] := by
    unfold skipCommittee
    rw [twoNodes_skipBase, if_neg (by decide), widenedCommittee, if_pos (by decide)]
    dsimp only
    rw [twoNodes_outsiders, show extraSeatsAt 42301 ([[1], [2]] : List Text).length = 1 by decide,
      extra]
    rfl
  rw [group, full, pool, length_cons, length_cons, length_nil, recent]
  decide

end EgoChain.Nodes
