import EgoChain.Shielded.Trees

/-!
# The commitment trees agree

Both trees have the root of the padded tree over their leaves.  The full tree holds
every level as far as it is not over zeros alone.  Of the frontier, the entry of a
level matters where that bit of the number of leaves is set: it is then the last
node of the level that is full.
-/

namespace EgoChain.Shielded

open EgoChain.Foundations List Nat

variable {α : Type} {hash : NodeHash α} {depth : Nat} {leaves more : List α} {leaf : α}

/-- The node of the padded tree over some leaves. -/
def NodeHash.nodeOf (hash : NodeHash α) (leaves : List α) (level place : Nat) : α :=
  paddedNode hash.mergeNodes hash.default leaves level place

/-- The root of the padded tree over some leaves. -/
def NodeHash.rootOf (hash : NodeHash α) (leaves : List α) (depth : Nat) : α := hash.nodeOf leaves depth 0

theorem nodeOf_succ (leaves : List α) (level place : Nat) : hash.nodeOf leaves (level + 1) place =
      hash.mergeNodes (hash.nodeOf leaves level (2 * place)) (hash.nodeOf leaves level (2 * place + 1)) :=
  rfl

theorem emptySubtreeRoots_eq (depth : Nat) : emptySubtreeRoots hash depth =
      (List.range (depth + 1)).map (zeroNode hash.mergeNodes hash.default) := by
  induction depth with
  | zero => rfl
  | succ depth ih =>
    unfold emptySubtreeRoots at ih ⊢
    rw [List.range'_concat, foldl_append, ih,
      show List.range (depth + 1 + 1) = List.range (depth + 1) ++ [depth + 1] from range_succ,
      map_append]
    simp [zeroNode]

theorem getD_emptySubtreeRoots {level : Nat} (inside : level ≤ depth) :
    (emptySubtreeRoots hash depth)[level]?.getD hash.default =
      zeroNode hash.mergeNodes hash.default level := by
  rw [emptySubtreeRoots_eq, List.getElem?_map, List.getElem?_range (by omega)]
  rfl

theorem capacity_le (depth : Nat) : capacity depth ≤ 2 ^ depth :=
  Nat.pow_le_pow_right (by decide) (mod_le _ _)

theorem div_two_pow_succ (number level : Nat) : number / 2 ^ (level + 1) = number / 2 ^ level / 2 := by
  rw [pow_succ, Nat.div_div_eq_div_mul]

/-- What every level hands on to the next holds after all levels. -/
theorem foldl_range_rule {σ : Type} {holds : Nat → σ → Prop} {step : σ → Nat → σ} {state : σ}
    {count : Nat} (start : holds 0 state)
    (next : ∀ {level state}, level < count → holds level state → holds (level + 1) (step state level)) :
    holds count ((List.range count).foldl step state) := by
  induction count with
  | zero => exact start
  | succ count ih =>
    rw [range_succ, foldl_append]
    exact next (lt_succ_self count) (ih fun inside => next (by omega))

/-! ## The tree with all its nodes -/

namespace MerkleTree

/-- The tree holds the levels over some leaves. -/
structure Cached (hash : NodeHash α) (depth : Nat) (leaves : List α) (tree : MerkleTree α) : Prop where
  deep : tree.depth = depth
  length : tree.levels.length = depth + 1
  zeros : tree.zeros = emptySubtreeRoots hash depth
  levels : ∀ level ≤ depth, tree.levelAt level = levelOf hash.mergeNodes hash.default leaves level

variable {tree : MerkleTree α}

theorem cached_new : Cached hash depth [] (new hash depth) where
  deep := rfl
  length := length_replicate
  zeros := rfl
  levels level inside := by
    have none' : nodeCount 0 level = 0 := by
      have positive : 0 < 2 ^ level := Nat.two_pow_pos level
      exact div_eq_of_lt (by omega)
    unfold levelAt new levelOf
    rw [List.getElem?_replicate_of_lt (by omega), length_nil, none']
    rfl

theorem levelAt_modify {levels : List (List α)} {level : Nat} (inside : level < levels.length)
    (change : List α → List α) (other : Nat) :
    (levels.modify level change)[other]?.getD [] =
      if other = level then change (levels[level]?.getD []) else levels[other]?.getD [] := by
  rw [List.getElem?_modify]
  by_cases same : other = level
  · rw [same, List.getElem?_eq_getElem inside]
    simp
  · rw [if_neg same]
    simp [Ne.symm same]

variable (cached : Cached hash depth leaves tree) {state : Extending α}

include cached

theorem Cached.len : tree.len = leaves.length := by
  rw [MerkleTree.len, cached.levels 0 (zero_le _), levelOf_zero]

theorem Cached.node {level : Nat} (inside : level ≤ depth) (idx : Nat) :
    tree.node hash level idx = hash.nodeOf leaves level idx := by
  unfold MerkleTree.node
  rw [cached.levels level inside, cached.zeros, getD_emptySubtreeRoots inside, getD_levelOf]
  rfl

theorem Cached.root : tree.root hash = hash.rootOf leaves depth := by
  unfold MerkleTree.root
  rw [cached.deep, cached.node le_rfl]
  rfl

/-- What computing some parents of a level does to the tree. -/
structure Written (hash : NodeHash α) (level : Nat) (parents : List Nat) (tree next : MerkleTree α) :
    Prop where
  depth : next.depth = tree.depth
  zeros : next.zeros = tree.zeros
  length : next.levels.length = tree.levels.length
  others : ∀ other, other ≠ level + 1 → next.levelAt other = tree.levelAt other
  above : next.levelAt (level + 1) = parents.foldl (fun above parent => writeAt above parent
      (hash.mergeNodes (tree.node hash level (parent * 2)) (tree.node hash level (parent * 2 + 1))))
    (tree.levelAt (level + 1))

omit cached in
theorem written_setParents {level : Nat} (inside : level + 1 < tree.levels.length) (parents : List Nat) :
    Written hash level parents tree (parents.foldl (setParent hash level) tree) := by
  induction parents generalizing tree with
  | nil => exact ⟨rfl, rfl, rfl, fun _ _ => rfl, rfl⟩
  | cons parent rest ih =>
    have lengths : (tree.setParent hash level parent).levels.length = tree.levels.length :=
      length_modify _ _ _
    have levels := levelAt_modify inside fun above => writeAt above parent
      (hash.mergeNodes (tree.node hash level (parent * 2)) (tree.node hash level (parent * 2 + 1)))
    have later := @ih (tree.setParent hash level parent) (by rwa [lengths])
    have below : (tree.setParent hash level parent).node hash level = tree.node hash level := by
      funext idx
      unfold node
      rw [show (tree.setParent hash level parent).levelAt level = tree.levelAt level from
        (levels level).trans (if_neg (by omega))]
      rfl
    refine ⟨later.depth, later.zeros, later.length.trans lengths, fun other away => ?_, ?_⟩
    · rw [foldl_cons, later.others other away]
      exact (levels other).trans (if_neg away)
    · rw [foldl_cons, later.above, below, foldl_cons]
      congr 1
      exact (levels (level + 1)).trans (if_pos rfl)

/-! ### Batches -/

/-- The state of `extend` at a level: up to it all nodes are over the new leaves. -/
structure Extended (hash : NodeHash α) (depth : Nat) (leaves more : List α) (level : Nat)
    (state : Extending α) : Prop where
  first : state.first = leaves.length / 2 ^ level
  count : state.count = nodeCount (leaves ++ more).length level
  deep : state.tree.depth = depth
  length : state.tree.levels.length = depth + 1
  zeros : state.tree.zeros = emptySubtreeRoots hash depth
  done : ∀ other ≤ level, other ≤ depth →
    state.tree.levelAt other = levelOf hash.mergeNodes hash.default (leaves ++ more) other
  todo : ∀ other, level < other → other ≤ depth →
    state.tree.levelAt other = levelOf hash.mergeNodes hash.default leaves other

theorem Cached.extended (more : List α) :
    Extended hash depth leaves more 0 ⟨tree.pushLeaves more, tree.len, (tree.pushLeaves more).len⟩ := by
  have bottom : 0 < tree.levels.length := by
    rw [cached.length]
    omega
  have levels := levelAt_modify bottom fun level => level ++ more
  have first : (tree.pushLeaves more).levelAt 0 = leaves ++ more := by
    refine (levels 0).trans ?_
    rw [if_pos rfl, show tree.levels[0]?.getD [] = tree.levelAt 0 from rfl, cached.levels 0 (zero_le _),
      levelOf_zero]
  refine ⟨?_, ?_, cached.deep, (length_modify _ _ _).trans cached.length, cached.zeros, ?_, ?_⟩
  · rw [cached.len, pow_zero, Nat.div_one]
  · rw [nodeCount_zero]
    exact congrArg List.length first
  · intro other low _
    rw [le_zero.mp low, levelOf_zero]
    exact first
  · intro other high inside
    rw [← cached.levels other inside]
    exact (levels other).trans (if_neg (by omega))

omit cached in
/-- The level above, written from the first parent that changes. -/
theorem write_levelOf (leaves more : List α) (level : Nat) : (List.range' (leaves.length / 2 ^ level)
      (nodeCount (leaves ++ more).length level - leaves.length / 2 ^ level)).foldl
        (fun above parent => writeAt above parent (hash.nodeOf (leaves ++ more) level parent))
        (levelOf hash.mergeNodes hash.default leaves level) =
      levelOf hash.mergeNodes hash.default (leaves ++ more) level := by
  have longer : nodeCount leaves.length level ≤ nodeCount (leaves ++ more).length level :=
    Nat.div_le_div_right (by rw [length_append]; omega)
  have start := div_le_nodeCount leaves.length level
  have near : leaves.length / 2 ^ level ≤
      (levelOf hash.mergeNodes hash.default leaves level).length := by
    rw [levelOf, length_map, length_range]
    exact start
  refine ext_getElem? fun place => ?_
  rw [getElem?_writeRange near, getElem?_levelOf, getElem?_levelOf]
  by_cases inside : place < nodeCount (leaves ++ more).length level
  · rw [if_pos inside]
    by_cases early : place < leaves.length / 2 ^ level
    · have before : (place + 1) * 2 ^ level ≤ leaves.length :=
        le_trans (mul_le_mul_right _ early) (div_mul_le_self _ _)
      rw [if_neg (by omega), if_pos (by omega), paddedNode_append before]
    · rw [if_pos (by omega)]
      rfl
  · rw [if_neg inside, if_neg (by omega), if_neg (by omega)]

omit cached in
theorem Extended.next {level : Nat} (extended : Extended hash depth leaves more level state)
    (inside : level < depth) : Extended hash depth leaves more (level + 1) (extendLevel hash state level) := by
  have firstParent : state.first >>> 1 = leaves.length / 2 ^ (level + 1) := by
    rw [extended.first, div_two_pow_succ, shiftRight_eq_div_pow]
  have parents : (state.count + 1) >>> 1 = nodeCount (leaves ++ more).length (level + 1) := by
    rw [extended.count, nodeCount_succ, shiftRight_eq_div_pow]
  have written := @written_setParents _ hash state.tree level (by rw [extended.length]; omega)
    (List.range' (state.first >>> 1) ((state.count + 1) >>> 1 - state.first >>> 1))
  have below (idx : Nat) : state.tree.node hash level idx = hash.nodeOf (leaves ++ more) level idx := by
    unfold MerkleTree.node
    rw [extended.done level le_rfl (by omega), extended.zeros, getD_emptySubtreeRoots (by omega),
      getD_levelOf]
    rfl
  have above : (extendLevel hash state level).tree.levelAt (level + 1) =
      levelOf hash.mergeNodes hash.default (leaves ++ more) (level + 1) := by
    refine written.above.trans ?_
    rw [extended.todo (level + 1) (lt_succ_self _) inside, firstParent, parents]
    simp only [below, mul_comm _ 2, ← nodeOf_succ]
    exact write_levelOf leaves more (level + 1)
  refine ⟨firstParent, parents, written.depth.trans extended.deep, written.length.trans extended.length,
    written.zeros.trans extended.zeros, ?_, ?_⟩
  · intro other low small
    by_cases top : other = level + 1
    · rw [top]
      exact above
    · exact (written.others other top).trans (extended.done other (by omega) small)
  · intro other high small
    exact (written.others other (by omega)).trans (extended.todo other (by omega) small)

theorem Cached.extend (more : List α) (fits : (leaves ++ more).length ≤ capacity depth) :
    ∃ next, tree.extend hash more = .ok next ∧ Cached hash depth (leaves ++ more) next := by
  unfold MerkleTree.extend
  by_cases none' : more = []
  · rw [none', append_nil]
    exact ⟨tree, rfl, cached⟩
  rw [length_append] at fits
  rw [if_neg none', cached.len, cached.deep, if_neg (by omega)]
  refine ⟨_, rfl, ?_⟩
  have extended := foldl_range_rule (cached.extended more) fun inside state => state.next inside
  rw [cached.len] at extended
  exact ⟨extended.deep, extended.length, extended.zeros, fun level inside =>
    extended.done level inside inside⟩

theorem Cached.extendAll {batches : List (List α)}
    (fits : (leaves ++ batches.flatten).length ≤ capacity depth) :
    ∃ next, tree.extendAll hash batches = .ok next ∧ Cached hash depth (leaves ++ batches.flatten) next := by
  induction batches generalizing leaves tree with
  | nil => exact ⟨tree, rfl, by rwa [flatten_nil, append_nil]⟩
  | cons batch rest ih =>
    rw [flatten_cons, ← append_assoc] at fits ⊢
    obtain ⟨first, done, cachedFirst⟩ := cached.extend batch (by
      rw [length_append] at fits
      omega)
    obtain ⟨next, later, cachedNext⟩ := ih cachedFirst fits
    refine ⟨next, ?_, cachedNext⟩
    unfold MerkleTree.extendAll at later ⊢
    rw [foldlM_cons, done]
    exact later

/-! ### Single leaves -/

omit cached in
/-- One leaf changes one parent on each level. -/
theorem extendLevel_single (tree : MerkleTree α) (idx level : Nat) :
    extendLevel hash ⟨tree, idx, idx + 1⟩ level =
      ⟨tree.setParent hash level (idx >>> 1), idx >>> 1, idx >>> 1 + 1⟩ := by
  have parents : (idx + 1 + 1) >>> 1 = idx >>> 1 + 1 := by
    rw [shiftRight_eq_div_pow, shiftRight_eq_div_pow]
    omega
  unfold extendLevel
  dsimp only
  rw [parents, Nat.add_sub_cancel_left]
  rfl

theorem Cached.insert (leaf : α) (fits : (leaves ++ [leaf]).length ≤ capacity depth) :
    ∃ next, tree.insert hash leaf = .ok (leaves.length, next) ∧ Cached hash depth (leaves ++ [leaf]) next := by
  obtain ⟨next, done, cachedNext⟩ := cached.extend [leaf] fits
  refine ⟨next, ?_, cachedNext⟩
  rw [length_append, length_singleton] at fits
  have pushed : (tree.pushLeaves [leaf]).len = leaves.length + 1 := by
    refine (cached.extended [leaf]).count.trans ?_
    rw [nodeCount_zero]
    simp
  unfold MerkleTree.extend at done
  rw [if_neg (cons_ne_nil _ _), cached.len, cached.deep, length_singleton, if_neg (by omega)] at done
  dsimp only at done
  rw [pushed, @foldl_hom _ _ _ (fun state => ⟨state.1, state.2, state.2 + 1⟩)
    (fun state level => (state.1.setParent hash level (state.2 >>> 1), state.2 >>> 1)) (extendLevel hash) _
    (tree.pushLeaves [leaf], leaves.length) fun state => extendLevel_single state.1 state.2] at done
  unfold MerkleTree.insert
  rw [cached.len, cached.deep, if_neg (by omega)]
  exact congrArg (fun tree => Except.ok _) (Except.ok.inj done)

theorem Cached.insertAll (fits : (leaves ++ more).length ≤ capacity depth) :
    ∃ next, tree.insertAll hash more = .ok next ∧ Cached hash depth (leaves ++ more) next := by
  induction more generalizing leaves tree with
  | nil => exact ⟨tree, rfl, by rwa [append_nil]⟩
  | cons leaf rest ih =>
    rw [append_cons] at fits ⊢
    obtain ⟨first, done, cachedFirst⟩ := cached.insert leaf (by
      rw [length_append] at fits
      omega)
    obtain ⟨next, later, cachedNext⟩ := ih cachedFirst fits
    refine ⟨next, ?_, cachedNext⟩
    unfold MerkleTree.insertAll at later ⊢
    rw [foldlM_cons, done]
    exact later

/-! ### Paths -/

/-- The siblings on some levels lead from a node to the node that many levels above. -/
theorem Cached.climb {level count : Nat} (inside : level + count ≤ depth) (idx : Nat) :
    (tree.pathSteps hash (List.range' level count) idx).foldl (joinBeside hash.mergeNodes)
        (hash.nodeOf leaves level idx) =
      hash.nodeOf leaves (level + count) (idx / 2 ^ count) := by
  induction count generalizing level idx with
  | zero => rw [pow_zero, Nat.div_one]; rfl
  | succ count ih =>
    have parent : joinBeside hash.mergeNodes (hash.nodeOf leaves level idx)
        (tree.node hash level (if idx % 2 = 1 then idx - 1 else idx + 1), decide (idx % 2 = 1)) =
          hash.nodeOf leaves (level + 1) (idx / 2) := by
      rw [cached.node (by omega), nodeOf_succ]
      unfold joinBeside
      by_cases right : idx % 2 = 1
      · rw [if_pos (decide_eq_true right), if_pos right, show 2 * (idx / 2) = idx - 1 by omega,
          show idx - 1 + 1 = idx by omega]
      · rw [if_neg (by simpa using right), if_neg right, show 2 * (idx / 2) = idx by omega]
    rw [List.range'_succ, pathSteps, foldl_cons, parent, shiftRight_eq_div_pow, pow_one,
      ih (by omega), show level + 1 + count = level + (count + 1) by omega, Nat.div_div_eq_div_mul,
      ← pow_succ']

theorem Cached.path (fits : leaves.length ≤ capacity depth) {index : Nat}
    (found : leaves[index]? = some leaf) :
    ∃ path, tree.path hash index = .ok path ∧ path.computeRoot hash leaf = hash.rootOf leaves depth := by
  have inside := (List.getElem?_eq_some_iff.mp found).1
  have small : index < 2 ^ depth := lt_of_lt_of_le inside (fits.trans (capacity_le depth))
  unfold MerkleTree.path
  rw [cached.len, cached.deep, if_neg (not_le.mpr inside)]
  refine ⟨_, rfl, ?_⟩
  have zipped (steps : List (α × Bool)) : (steps.map Prod.fst).zip (steps.map Prod.snd) = steps :=
    (zip_map' ..).trans (map_id _)
  have start : leaf = hash.nodeOf leaves 0 index := by
    rw [NodeHash.nodeOf, paddedNode, found]
    rfl
  unfold MerklePath.computeRoot
  rw [zipped, start, range_eq_range', cached.climb (by omega), div_eq_of_lt small, zero_add]
  rfl

end MerkleTree

/-! ## The frontier -/

namespace IncrementalTree

/-- The frontier and the root belong to some leaves. -/
structure Fronted (hash : NodeHash α) (depth : Nat) (leaves : List α) (tree : IncrementalTree α) :
    Prop where
  deep : tree.depth = depth
  number : tree.nextIndex = leaves.length
  length : tree.frontier.length = depth
  root : tree.root = hash.rootOf leaves depth
  zeros : tree.zeros = emptySubtreeRoots hash depth
  frontier : ∀ level < depth, leaves.length / 2 ^ level % 2 = 1 →
    tree.frontier[level]? = some (hash.nodeOf leaves level (leaves.length / 2 ^ level - 1))

variable {tree : IncrementalTree α}

theorem fronted_new : Fronted hash depth [] (new hash depth) where
  deep := rfl
  number := rfl
  length := by simp [new, emptySubtreeRoots_eq]
  root := by
    refine (getD_emptySubtreeRoots le_rfl).trans (paddedNode_of_length_le ?_).symm
    exact zero_le _
  zeros := rfl
  frontier level _ odd := by simp at odd

/-- The last node of a level whose bit is set is over leaves alone. -/
theorem full_of_odd {number level : Nat} (odd : number / 2 ^ level % 2 = 1) :
    (number / 2 ^ level - 1 + 1) * 2 ^ level ≤ number := by
  have positive : 0 < number / 2 ^ level := by
    by_contra zero
    rw [Nat.eq_zero_of_not_pos zero] at odd
    cases odd
  rw [Nat.sub_add_cancel positive]
  exact div_mul_le_self _ _

/-- The number of leaves of a level grows by one at most, and then its last bit is cleared. -/
theorem div_succ_cases (number level : Nat) :
    (number + 1) / 2 ^ level = number / 2 ^ level ∨ (number + 1) / 2 ^ level = number / 2 ^ level + 1 := by
  have positive : 0 < 2 ^ level := Nat.two_pow_pos level
  have lower : number / 2 ^ level ≤ (number + 1) / 2 ^ level := Nat.div_le_div_right (le_succ _)
  have upper : (number + 1) / 2 ^ level ≤ (number + 2 ^ level) / 2 ^ level :=
    Nat.div_le_div_right (by omega)
  rw [add_div_right _ positive] at upper
  omega

variable (fronted : Fronted hash depth leaves tree) {state : Climbing α}

include fronted

theorem Fronted.reload (fits : leaves.length ≤ capacity depth) :
    fromParts hash tree.parts = .ok tree := by
  unfold fromParts parts
  rw [fronted.length, fronted.deep, if_neg (not_not.mpr rfl), fronted.number, if_neg (not_lt.mpr fits),
    ← fronted.zeros, ← fronted.number, ← fronted.deep]

/-- The way of a new leaf at a level: the node reached is over all leaves, and below it the frontier
holds the nodes that stand on the left. -/
structure Climbed (hash : NodeHash α) (depth : Nat) (leaves : List α) (leaf : α) (frontier : List α)
    (level : Nat) (state : Climbing α) : Prop where
  idx : state.idx = leaves.length / 2 ^ level
  cur : state.cur = hash.nodeOf (leaves ++ [leaf]) level (leaves.length / 2 ^ level)
  length : state.frontier.length = depth
  left : ∀ other < depth, other < level → leaves.length / 2 ^ other % 2 = 0 →
    state.frontier[other]? = some (hash.nodeOf (leaves ++ [leaf]) other (leaves.length / 2 ^ other))
  kept : ∀ other, level ≤ other ∨ leaves.length / 2 ^ other % 2 = 1 →
    state.frontier[other]? = frontier[other]?

theorem Climbed.next {level : Nat}
    (climbed : Climbed hash depth leaves leaf tree.frontier level state) (inside : level < depth) :
    Climbed hash depth leaves leaf tree.frontier (level + 1) (climbLevel hash tree.zeros state level) := by
  have up : state.idx >>> 1 = leaves.length / 2 ^ (level + 1) := by
    rw [climbed.idx, div_two_pow_succ, shiftRight_eq_div_pow]
  have half := div_two_pow_succ leaves.length level
  unfold climbLevel
  rw [climbed.idx]
  split
  case isTrue even =>
    have behind : (leaves ++ [leaf]).length ≤ (leaves.length / 2 ^ level + 1) * 2 ^ level := by
      have parts := div_add_mod leaves.length (2 ^ level)
      rw [length_append, length_singleton, add_mul, mul_comm]
      omega
    have empty : hash.nodeOf (leaves ++ [leaf]) level (leaves.length / 2 ^ level + 1) =
        zeroNode hash.mergeNodes hash.default level := paddedNode_of_length_le behind
    refine ⟨by rw [← climbed.idx]; exact up, ?_, ?_, ?_, ?_⟩
    · rw [fronted.zeros, getD_emptySubtreeRoots (by omega), climbed.cur, nodeOf_succ, half,
        show 2 * (leaves.length / 2 ^ level / 2) = leaves.length / 2 ^ level by omega, empty]
    · rw [length_set, climbed.length]
    · intro other small low isEven
      by_cases here : other = level
      · rw [here, List.getElem?_set_self (climbed.length ▸ inside), climbed.cur]
      · rw [List.getElem?_set_ne (Ne.symm here)]
        exact climbed.left other small (by omega) isEven
    · intro other away
      have here : level ≠ other := by
        rintro rfl
        omega
      rw [List.getElem?_set_ne here]
      exact climbed.kept other (by omega)
  case isFalse odd =>
    have isOdd : leaves.length / 2 ^ level % 2 = 1 := by omega
    have stored : state.frontier[level]?.getD hash.default =
        hash.nodeOf (leaves ++ [leaf]) level (leaves.length / 2 ^ level - 1) := by
      rw [climbed.kept level (Or.inl le_rfl), fronted.frontier level inside isOdd]
      exact (paddedNode_append (full_of_odd isOdd)).symm
    refine ⟨by rw [← climbed.idx]; exact up, ?_, climbed.length, ?_, ?_⟩
    · rw [stored, climbed.cur, nodeOf_succ, half,
        show 2 * (leaves.length / 2 ^ level / 2) = leaves.length / 2 ^ level - 1 by omega,
        show leaves.length / 2 ^ level - 1 + 1 = leaves.length / 2 ^ level by omega]
    · intro other small low isEven
      refine climbed.left other small ?_ isEven
      have here : other ≠ level := by
        rintro rfl
        omega
      omega
    · intro other away
      refine climbed.kept other ?_
      by_cases here : other = level
      · exact Or.inl here.ge
      · omega

theorem Fronted.insert (leaf : α) (fits : (leaves ++ [leaf]).length ≤ capacity depth) :
    ∃ next, tree.insert hash leaf = .ok (leaves.length, next) ∧ Fronted hash depth (leaves ++ [leaf]) next := by
  rw [length_append, length_singleton] at fits
  have small := lt_of_lt_of_le fits (capacity_le depth)
  have start : Climbed hash depth leaves leaf tree.frontier 0 ⟨tree.frontier, leaf, leaves.length⟩ := by
    refine ⟨by rw [pow_zero, Nat.div_one], ?_, fronted.length, fun other _ low => by omega,
      fun _ _ => rfl⟩
    rw [pow_zero, Nat.div_one, NodeHash.nodeOf, paddedNode, List.getElem?_concat_length]
    rfl
  have climbed := foldl_range_rule start fun inside state => state.next fronted inside
  unfold IncrementalTree.insert
  rw [fronted.deep, fronted.number, if_neg (by omega)]
  refine ⟨_, rfl, rfl, by simp, climbed.length, ?_, fronted.zeros, ?_⟩
  · exact climbed.cur.trans (by rw [div_eq_of_lt small]; rfl)
  · intro level inside isOdd
    rw [length_append, length_singleton] at isOdd ⊢
    by_cases odd : leaves.length / 2 ^ level % 2 = 1
    · -- The bit stays, so the node is the one that was there before.
      have same : (leaves.length + 1) / 2 ^ level = leaves.length / 2 ^ level := by
        have := div_succ_cases leaves.length level
        omega
      rw [same, climbed.kept level (Or.inr odd), fronted.frontier level inside odd]
      exact congrArg some (paddedNode_append (full_of_odd odd)).symm
    · have next : (leaves.length + 1) / 2 ^ level = leaves.length / 2 ^ level + 1 := by
        have := div_succ_cases leaves.length level
        omega
      rw [next, climbed.left level inside inside (mod_two_ne_one.mp odd), Nat.add_sub_cancel]

theorem Fronted.run {steps : List (Option α)}
    (fits : (leaves ++ steps.filterMap id).length ≤ capacity depth) :
    ∃ next, tree.run hash steps = .ok next ∧ Fronted hash depth (leaves ++ steps.filterMap id) next := by
  induction steps generalizing leaves tree with
  | nil => exact ⟨tree, rfl, by rwa [filterMap_nil, append_nil]⟩
  | cons step rest ih =>
    unfold IncrementalTree.run
    rw [foldlM_cons]
    cases step with
    | none =>
      have reloaded : tree.step hash none = .ok tree := fronted.reload (by
        rw [length_append] at fits
        omega)
      rw [reloaded]
      exact ih fronted fits
    | some leaf =>
      have first : (some leaf :: rest).filterMap id = leaf :: rest.filterMap id := rfl
      rw [first, append_cons] at fits ⊢
      obtain ⟨first, done, frontedFirst⟩ := fronted.insert leaf (by
        rw [length_append] at fits
        omega)
      have stepped : tree.step hash (some leaf) = .ok first := by
        rw [step, done]
        rfl
      rw [stepped]
      exact ih frontedFirst fits

end IncrementalTree

/-! ## Agreement -/

/-- For leaves up to the capacity, the frontier tree, however often it is saved and built again, the
full tree from single leaves and the full tree from any batches have the root of the padded tree, and
every path of the full trees leads from its leaf to that root. -/
theorem commitment_trees_agree (hash : NodeHash α) (depth : Nat) (leaves : List α)
    (fits : leaves.length ≤ capacity depth) :
    (∀ steps : List (Option α), steps.filterMap id = leaves →
      ∃ tree, (IncrementalTree.new hash depth).run hash steps = .ok tree ∧
        tree.root = hash.rootOf leaves depth) ∧
    (∃ tree, (MerkleTree.new hash depth).insertAll hash leaves = .ok tree ∧
      tree.root hash = hash.rootOf leaves depth ∧
      ∀ index leaf, leaves[index]? = some leaf → ∃ path, tree.path hash index = .ok path ∧
          path.computeRoot hash leaf = hash.rootOf leaves depth) ∧
    ∀ batches : List (List α), batches.flatten = leaves →
      ∃ tree, (MerkleTree.new hash depth).extendAll hash batches = .ok tree ∧
        tree.root hash = hash.rootOf leaves depth ∧
        ∀ index leaf, leaves[index]? = some leaf → ∃ path, tree.path hash index = .ok path ∧
            path.computeRoot hash leaf = hash.rootOf leaves depth := by
  refine ⟨?_, ?_, ?_⟩
  · rintro steps rfl
    obtain ⟨tree, ran, fronted⟩ := IncrementalTree.fronted_new.run fits
    exact ⟨tree, ran, fronted.root⟩
  · obtain ⟨tree, built, cached⟩ := MerkleTree.cached_new.insertAll fits
    exact ⟨tree, built, cached.root, fun _ _ => cached.path fits⟩
  · rintro batches rfl
    obtain ⟨tree, built, cached⟩ := MerkleTree.cached_new.extendAll fits
    exact ⟨tree, built, cached.root, fun _ _ => cached.path fits⟩

/-- Five leaves, with the frontier saved after two of them and the full tree built in two batches. -/
theorem trees_of_five_leaves :
    ∃ (hash : NodeHash Nat) (frontier : IncrementalTree Nat) (tree : MerkleTree Nat),
      (IncrementalTree.new hash 3).run hash [some 1, some 2, none, some 3, some 4, some 5] = .ok frontier ∧
      (MerkleTree.new hash 3).extendAll hash [[1, 2, 3], [4, 5]] = .ok tree ∧
      frontier.root = tree.root hash ∧
      ∃ path, tree.path hash 4 = .ok path ∧ path.computeRoot hash 5 = frontier.root := by
  let hash : NodeHash Nat := ⟨fun left right => 3 * left + 5 * right + 1, 0⟩
  obtain ⟨saved, -, batched⟩ := commitment_trees_agree hash 3 [1, 2, 3, 4, 5] (by decide)
  obtain ⟨frontier, ran, root⟩ := saved [some 1, some 2, none, some 3, some 4, some 5] rfl
  obtain ⟨tree, built, sameRoot, paths⟩ := batched [[1, 2, 3], [4, 5]] rfl
  obtain ⟨path, found, leads⟩ := paths 4 5 rfl
  exact ⟨hash, frontier, tree, ran, built, root.trans sameRoot.symm, path, found, leads.trans root.symm⟩

end EgoChain.Shielded
