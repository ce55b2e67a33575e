import EgoChain.Foundations.Merkle
import EgoChain.Foundations.PaddedTree
import EgoChain.Foundations.Texts

/-!
# The commitment trees

The prover keeps a tree with all its nodes, to give paths; the chain keeps only a
frontier, one node for each level.  Both hold the commitments of a pool in order,
with zeros where there are none yet.
-/

namespace EgoChain.Shielded

open EgoChain.Foundations

/-- How nodes are merged, and the digest of an empty leaf. -/
structure NodeHash (α : Type) where
  mergeNodes : α → α → α
  default : α

variable {α : Type} (hash : NodeHash α) (depth : Nat)

/-- The nodes over empty leaves, level by level. -/
def emptySubtreeRoots : List α :=
  (List.range' 1 depth).foldl (fun zeros i =>
      let below := zeros[i - 1]?.getD hash.default
      zeros ++ [hash.mergeNodes below below]) [hash.default]

/-- `1usize << depth`; the shift takes the low bits of the depth only. -/
def capacity : Nat := 2 ^ (depth % 64)

def fullError : Text := utf8 "tree of depth " ++ Text.decimal depth ++ utf8 " is full"

/-! ## Paths -/

structure MerklePath (α : Type) where
  siblings : List α
  isRight : List Bool

def MerklePath.computeRoot (path : MerklePath α) (leaf : α) : α :=
  (path.siblings.zip path.isRight).foldl (joinBeside hash.mergeNodes) leaf

/-! ## The tree with all its nodes -/

structure MerkleTree (α : Type) where
  depth : Nat
  levels : List (List α)
  zeros : List α

namespace MerkleTree

def new (depth : Nat) : MerkleTree α where
  depth := depth
  levels := List.replicate (depth + 1) []
  zeros := emptySubtreeRoots hash depth

variable (tree : MerkleTree α)

def levelAt (level : Nat) : List α := tree.levels[level]?.getD []

def len : Nat := (tree.levelAt 0).length

def node (level idx : Nat) : α :=
  (tree.levelAt level)[idx]?.getD (tree.zeros[level]?.getD hash.default)

def pushLeaves (leaves : List α) : MerkleTree α :=
  { tree with levels := tree.levels.modify 0 fun level => level ++ leaves }

/-- Compute a node of the level above from the two under it. -/
def setParent (level : Nat) (tree : MerkleTree α) (parent : Nat) : MerkleTree α :=
  { tree with
    levels := tree.levels.modify (level + 1) fun above =>
      writeAt above parent
        (hash.mergeNodes (tree.node hash level (parent * 2)) (tree.node hash level (parent * 2 + 1))) }

def insert (tree : MerkleTree α) (leaf : α) : Except Text (Nat × MerkleTree α) :=
  if capacity tree.depth ≤ tree.len then .error (fullError tree.depth)
  else
    let index := tree.len
    .ok (index, ((List.range tree.depth).foldl (fun state level =>
        let parent := state.2 >>> 1
        (state.1.setParent hash level parent, parent))
      (tree.pushLeaves [leaf], index)).1)

/-- A level of `extend`: the first place that changes and the number of places. -/
structure Extending (α : Type) where
  tree : MerkleTree α
  first : Nat
  count : Nat

def extendLevel (state : Extending α) (level : Nat) : Extending α :=
  let firstParent := state.first >>> 1
  let parents := (state.count + 1) >>> 1
  { tree := (List.range' firstParent (parents - firstParent)).foldl (setParent hash level) state.tree
    first := firstParent
    count := parents }

def extend (leaves : List α) : Except Text (MerkleTree α) :=
  if leaves = [] then .ok tree
  else if capacity tree.depth < tree.len + leaves.length then .error (fullError tree.depth)
  else
    let pushed := tree.pushLeaves leaves
    .ok ((List.range tree.depth).foldl (extendLevel hash) ⟨pushed, tree.len, pushed.len⟩).tree

def root : α := tree.node hash tree.depth 0

/-- The siblings on some levels from a place on. -/
def pathSteps (tree : MerkleTree α) : List Nat → Nat → List (α × Bool)
  | [], _ => []
  | level :: above, idx =>
    (tree.node hash level (if idx % 2 = 1 then idx - 1 else idx + 1), decide (idx % 2 = 1)) ::
      pathSteps tree above (idx >>> 1)

def path (index : Nat) : Except Text (MerklePath α) :=
  if tree.len ≤ index then
    .error (utf8 "no leaf at index " ++ Text.decimal index ++ utf8 "; tree has " ++ Text.decimal tree.len)
  else
    let steps := tree.pathSteps hash (List.range tree.depth) index
    .ok ⟨steps.map Prod.fst, steps.map Prod.snd⟩

def insertAll (leaves : List α) : Except Text (MerkleTree α) :=
  leaves.foldlM (fun tree leaf => (tree.insert hash leaf).map Prod.snd) tree

def extendAll (batches : List (List α)) : Except Text (MerkleTree α) :=
  batches.foldlM (extend hash) tree

end MerkleTree

/-! ## The frontier -/

structure IncrementalTree (α : Type) where
  depth : Nat
  nextIndex : Nat
  frontier : List α
  root : α
  zeros : List α

namespace IncrementalTree

def new (depth : Nat) : IncrementalTree α :=
  let zeros := emptySubtreeRoots hash depth
  { depth := depth
    nextIndex := 0
    frontier := zeros.take depth
    root := zeros[depth]?.getD hash.default
    zeros := zeros }

/-- What is saved of a frontier. -/
structure Parts (α : Type) where
  depth : Nat
  nextIndex : Nat
  frontier : List α
  root : α

variable (tree : IncrementalTree α)

def parts : Parts α := ⟨tree.depth, tree.nextIndex, tree.frontier, tree.root⟩

def fromParts (parts : Parts α) : Except Text (IncrementalTree α) :=
  if parts.frontier.length ≠ parts.depth then
    .error (utf8 "frontier has " ++ Text.decimal parts.frontier.length ++ utf8 " entries for depth " ++
      Text.decimal parts.depth)
  else if capacity parts.depth < parts.nextIndex then
    .error (utf8 "next index " ++ Text.decimal parts.nextIndex ++ utf8 " exceeds a depth-" ++
      Text.decimal parts.depth ++ utf8 " tree")
  else .ok ⟨parts.depth, parts.nextIndex, parts.frontier, parts.root, emptySubtreeRoots hash parts.depth⟩

/-- The way of a new leaf up: the frontier, the node reached and its place. -/
structure Climbing (α : Type) where
  frontier : List α
  cur : α
  idx : Nat

def climbLevel (zeros : List α) (state : Climbing α) (level : Nat) : Climbing α :=
  if state.idx % 2 = 0 then
    { frontier := state.frontier.set level state.cur
      cur := hash.mergeNodes state.cur (zeros[level]?.getD hash.default)
      idx := state.idx >>> 1 }
  else
    { frontier := state.frontier
      cur := hash.mergeNodes (state.frontier[level]?.getD hash.default) state.cur
      idx := state.idx >>> 1 }

def insert (leaf : α) : Except Text (Nat × IncrementalTree α) :=
  if capacity tree.depth ≤ tree.nextIndex then .error (fullError tree.depth)
  else
    let climbed := (List.range tree.depth).foldl (climbLevel hash tree.zeros)
      ⟨tree.frontier, leaf, tree.nextIndex⟩
    .ok (tree.nextIndex, { tree with
        frontier := climbed.frontier
        root := climbed.cur
        nextIndex := tree.nextIndex + 1 })

/-- Insert a leaf, or save the tree and build it again. -/
def step : Option α → Except Text (IncrementalTree α)
  | some leaf => (tree.insert hash leaf).map Prod.snd
  | none => fromParts hash tree.parts

def run (steps : List (Option α)) : Except Text (IncrementalTree α) :=
  steps.foldlM (step hash) tree

end IncrementalTree

end EgoChain.Shielded
