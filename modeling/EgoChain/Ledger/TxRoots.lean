import EgoChain.Foundations.Merkle
import EgoChain.Ledger.PeerBlock

/-!
# Roots of transaction hashes and proofs of inclusion

A light client is shown that a transaction is under the root of a block by the
neighbours of its digest on the way up.  The root is bound to the list as long as
no two texts that are hashed for it have the same digest; the root of no
transactions is not a digest, and a text as long as two digests could stand for
the join of both.
-/

namespace EgoChain.Ledger

open EgoChain.Foundations List

/-! ## The tree under a root -/

variable (hash : Text → Text) (layer hashes : List Text)

/-- The digest of two digests. -/
def joinTexts (left right : Text) : Text := hash (left ++ right)

theorem merkleLayer_eq_nextLayer : merkleLayer hash layer = nextLayer (joinTexts hash) layer := by
  induction layer using pairsOf.induct with
  | case1 => simp [merkleLayer, nextLayer, pairsOf]
  | case2 last => simp [merkleLayer, nextLayer, pairsOf, joinPair, joinTexts]
  | case3 first second rest ih =>
    simp only [merkleLayer, ih, nextLayer, pairsOf, map_cons, joinPair, joinTexts]

theorem merkleTop_eq_climb (fuel : Nat) :
    merkleTop hash fuel layer = climb (joinTexts hash) fuel layer := by
  induction fuel generalizing layer with
  | zero => rfl
  | succ fuel ih => rw [merkleTop, climb, merkleLayer_eq_nextLayer, ih]

/-- The root if there are no transactions. -/
def emptyRoot : Text := List.replicate 64 48

/-- The pairs of digests that are joined under the root. -/
def pairsUnder : List (Text × Text) :=
  climbed (joinTexts hash) hashes.length (hashes.map hash)

/-- The texts that are hashed for the root. -/
def rootTexts : List Text :=
  hashes ++ (pairsUnder hash hashes).map fun pair => pair.1 ++ pair.2

/-- The digests of the texts are of one length, and no two of them are the same. -/
structure Collisionless (hash : Text → Text) (digits : Nat) (texts : List Text) : Prop where
  length : ∀ text ∈ texts, (hash text).length = digits
  apart : ∀ first ∈ texts, ∀ second ∈ texts, hash first = hash second → first = second

variable {hashes layer} {pos : Nat} {digest : Text}

section Root

variable {hash} {digits : Nat} {texts : List Text}

/-- The root of some hashes is the digest of one of the texts. -/
theorem exists_climb_eq_digest (hash : Text → Text) (some' : hashes ≠ []) :
    ∃ text ∈ rootTexts hash hashes,
      climb (joinTexts hash) hashes.length (hashes.map hash) = [hash text] := by
  have enough : (hashes.map hash).length ≤ hashes.length + 1 := by
    rw [length_map]
    omega
  obtain ⟨top, isTop⟩ := exists_climb_eq_singleton _ enough (by simpa using some')
  rcases climb_eq_or_joined _ hashes.length _ with stays | joined
  · rw [stays] at isTop
    have leaf : top ∈ hashes.map hash := by simp [isTop]
    obtain ⟨text, mem, rfl⟩ := mem_map.mp leaf
    exact ⟨text, mem_append_left _ mem, stays.trans isTop⟩
  · obtain ⟨pair, isPair, rfl⟩ := joined top (by simp [isTop])
    exact ⟨pair.1 ++ pair.2, mem_append_right _ (mem_map.mpr ⟨pair, isPair, rfl⟩), isTop⟩

variable (free : Collisionless hash digits texts) {more : List Text}
  (listed : ∀ text ∈ rootTexts hash hashes, text ∈ texts)
  (listedToo : ∀ text ∈ rootTexts hash more, text ∈ texts)

include listed

theorem leaf_hashed {text : Text} (mem : text ∈ hashes) : text ∈ texts :=
  listed text (mem_append_left _ mem)

variable {pair : Text × Text} {width : Nat}

theorem pair_hashed (mem : pair ∈ pairsUnder hash hashes) : pair.1 ++ pair.2 ∈ texts :=
  listed _ (mem_append_right _ (mem_map.mpr ⟨pair, mem, rfl⟩))

include free

/-- Both parts of a pair under the root are digests. -/
theorem length_of_pairsUnder (mem : pair ∈ pairsUnder hash hashes) :
    pair.1.length = digits ∧ pair.2.length = digits := by
  have part {digest : Text} (isPart : digest = pair.1 ∨ digest = pair.2) : digest.length = digits := by
    rcases parts_of_climbed mem isPart with leaf | ⟨below, isBelow, rfl⟩
    · obtain ⟨text, isText, rfl⟩ := mem_map.mp leaf
      exact free.length _ (leaf_hashed listed isText)
    · exact free.length _ (pair_hashed listed isBelow)
  exact ⟨part (Or.inl rfl), part (Or.inr rfl)⟩

theorem nodup_leaves (distinct : hashes.Nodup) : (hashes.map hash).Nodup :=
  distinct.map_on fun _ mem _ memToo same =>
    free.apart _ (leaf_hashed listed mem) _ (leaf_hashed listed memToo) same

include listedToo

/-- Pairs under two roots are told apart by their digests. -/
theorem pairsUnder_apart :
    NoCollision (joinTexts hash) (pairsUnder hash hashes ++ pairsUnder hash more) := by
  have known (pair : Text × Text) (mem : pair ∈ pairsUnder hash hashes ++ pairsUnder hash more) :
      pair.1 ++ pair.2 ∈ texts ∧ pair.1.length = digits := by
    rcases mem_append.mp mem with here | there
    · exact ⟨pair_hashed listed here, (length_of_pairsUnder free listed here).1⟩
    · exact ⟨pair_hashed listedToo there, (length_of_pairsUnder free listedToo there).1⟩
  intro first mem second memToo same
  obtain ⟨firstHashed, firstLength⟩ := known first mem
  obtain ⟨secondHashed, secondLength⟩ := known second memToo
  have joins := free.apart _ firstHashed _ secondHashed same
  obtain ⟨left, right⟩ := append_inj joins (firstLength.trans secondLength.symm)
  exact Prod.ext left right

/-- A hash that is not as long as two digests is not the join of two digests. -/
theorem leaves_not_joined (wide : ∀ text ∈ more, text.length = width) (other : width ≠ 2 * digits)
    (some' : more ≠ []) :
    ¬ ∀ digest ∈ more.map hash, JoinedFrom (joinTexts hash) (pairsUnder hash hashes) digest := by
  intro joined
  obtain ⟨text, isText⟩ := exists_mem_of_ne_nil more some'
  obtain ⟨pair, isPair, same⟩ := joined (hash text) (mem_map_of_mem isText)
  have equal := free.apart _ (leaf_hashed listedToo isText) _ (pair_hashed listed isPair) same
  have lengths := congrArg List.length equal
  obtain ⟨one, two⟩ := length_of_pairsUnder free listed isPair
  rw [wide text isText, length_append] at lengths
  omega

/-- The root of distinct hashes tells the hashes. -/
theorem hashes_eq_of_root (wide : ∀ text ∈ hashes, text.length = width)
    (wideToo : ∀ text ∈ more, text.length = width) (other : width ≠ 2 * digits)
    (nonzero : ∀ text ∈ texts, hash text ≠ emptyRoot) (distinct : hashes.Nodup)
    (distinctToo : more.Nodup)
    (same : computeMerkleRoot hash hashes = computeMerkleRoot hash more) : hashes = more := by
  unfold computeMerkleRoot at same
  rw [merkleTop_eq_climb, merkleTop_eq_climb] at same
  by_cases none' : hashes = []
  · by_cases noneToo : more = []
    · rw [none', noneToo]
    · obtain ⟨text, mem, top⟩ := exists_climb_eq_digest hash noneToo
      rw [top, none'] at same
      exact absurd same.symm (nonzero text (listedToo text mem))
  · obtain ⟨text, mem, top⟩ := exists_climb_eq_digest hash none'
    by_cases noneToo : more = []
    · rw [top, noneToo] at same
      exact absurd same (nonzero text (listed text mem))
    obtain ⟨second, -, topToo⟩ := exists_climb_eq_digest hash noneToo
    have tops : climb (joinTexts hash) hashes.length (hashes.map hash) =
        climb (joinTexts hash) more.length (more.map hash) := by
      rw [top, topToo] at same ⊢
      exact congrArg (fun root => [root]) same
    rcases climb_inj (nodup_leaves free listed distinct) (nodup_leaves free listedToo distinctToo)
      (pairsUnder_apart free listed listedToo) tops with leaves | joined | joined
    · exact map_inj_of_mem (fun _ mem _ memToo => free.apart _ (leaf_hashed listed mem) _
        (leaf_hashed listedToo memToo)) leaves
    · exact absurd joined (leaves_not_joined free listedToo listed wide other none')
    · exact absurd joined (leaves_not_joined free listed listedToo wideToo other noneToo)

end Root

/-! ## Proofs of inclusion -/

/-- The neighbours from the digest of a transaction up to the root, and whether each stands to the
left. -/
structure MerkleProof where
  txHash : Text
  root : Text
  path : List Text
  indices : List Bool
  deriving DecidableEq

/-- The neighbours on the way up from a place; a place outside the layer would stop the program. -/
def merklePath (hash : Text → Text) : Nat → List Text → Nat → Option (List (Text × Bool))
  | 0, _, _ => some []
  | fuel + 1, layer, pos =>
    if 1 < layer.length then do
      let sibling ← (padded layer)[siblingPlace pos]?
      let rest ← merklePath hash fuel (merkleLayer hash layer) (pos / 2)
      return (sibling, decide (pos % 2 = 1)) :: rest
    else some []

def proveTxInclusion (hash : Text → Text) (hashes : List Text) (target : Text) :
    Option MerkleProof := do
  let pos ← hashes.idxOf? target
  let steps ← merklePath hash hashes.length (hashes.map hash) pos
  return {
    txHash := target
    root := computeMerkleRoot hash hashes
    path := steps.map Prod.fst
    indices := steps.map Prod.snd }

def verifyMerkleProof (hash : Text → Text) (proof : MerkleProof) : Bool :=
  proof.path.length = proof.indices.length &&
    (proof.path.zip proof.indices).foldl (joinBeside (joinTexts hash)) (hash proof.txHash) = proof.root

/-- From every place of a layer there is a way, and it leads to the top. -/
theorem exists_merklePath (hash : Text → Text) {fuel : Nat} (enough : layer.length ≤ fuel + 1)
    (here : layer[pos]? = some digest) :
    ∃ steps, merklePath hash fuel layer pos = some steps ∧
      merkleTop hash fuel layer = [steps.foldl (joinBeside (joinTexts hash)) digest] := by
  induction fuel generalizing layer pos digest with
  | zero => exact ⟨[], rfl, layer_eq_singleton here (not_lt.mpr enough)⟩
  | succ fuel ih =>
    by_cases large : 1 < layer.length
    · obtain ⟨sibling, beside, above⟩ := nextLayer_above (joinTexts hash) here
      rw [← merkleLayer_eq_nextLayer] at above
      have half : (merkleLayer hash layer).length = (layer.length + 1) / 2 := by
        rw [merkleLayer_eq_nextLayer, nextLayer, length_map, length_pairsOf]
      obtain ⟨steps, path, top⟩ := ih (by omega) above
      refine ⟨(sibling, decide (pos % 2 = 1)) :: steps, ?_, ?_⟩
      · rw [merklePath, if_pos large, beside, path]
        rfl
      · rw [merkleTop, if_pos large, top]
        rfl
    · refine ⟨[], by rw [merklePath, if_neg large], ?_⟩
      rw [merkleTop, if_neg large]
      exact layer_eq_singleton here large

/-- Every transaction of a list has a proof, and the proof is accepted. -/
theorem exists_accepted_proof (hash : Text → Text) {target : Text} (mem : target ∈ hashes) :
    ∃ proof, proveTxInclusion hash hashes target = some proof ∧ proof.txHash = target ∧
      proof.root = computeMerkleRoot hash hashes ∧ verifyMerkleProof hash proof = true := by
  obtain ⟨pos, place⟩ : ∃ pos, hashes.idxOf? target = some pos := by
    rw [← Option.ne_none_iff_exists']
    exact fun absent => List.idxOf?_eq_none_iff.mp absent mem
  have here : (hashes.map hash)[pos]? = some (hash target) := by
    obtain ⟨inside, found, -⟩ := List.idxOf?_eq_some_iff.mp place
    rw [List.getElem?_map, List.getElem?_eq_getElem inside, found]
    rfl
  have enough : (hashes.map hash).length ≤ hashes.length + 1 := by
    rw [length_map]
    exact Nat.le_succ _
  obtain ⟨steps, path, top⟩ := exists_merklePath hash enough here
  refine ⟨⟨target, computeMerkleRoot hash hashes, steps.map Prod.fst, steps.map Prod.snd⟩, ?_, rfl, rfl, ?_⟩
  · rw [proveTxInclusion, place, Option.bind_eq_bind, Option.bind_some, path]
    rfl
  · have zipped : (steps.map Prod.fst).zip (steps.map Prod.snd) = steps :=
      (zip_map' ..).trans (map_id _)
    unfold verifyMerkleProof
    simp only [length_map, decide_true, Bool.true_and, zipped, decide_eq_true_eq]
    rw [computeMerkleRoot, top]
    rfl

/-- Proofs of inclusion are complete, and the root of distinct hashes of one length is bound to them:
no two of the texts that are hashed have the same digest, no digest is the root of no transactions,
and no hash is as long as two digests. -/
theorem inclusion_proofs_complete_and_binding (hash : Text → Text) :
    (∀ (hashes : List Text) (target : Text), target ∈ hashes →
      ∃ proof, proveTxInclusion hash hashes target = some proof ∧ proof.txHash = target ∧
        proof.root = computeMerkleRoot hash hashes ∧ verifyMerkleProof hash proof = true) ∧
    ∀ (first second : List Text) (digits width : Nat),
      Collisionless hash digits (rootTexts hash first ++ rootTexts hash second) →
      (∀ text ∈ rootTexts hash first ++ rootTexts hash second, hash text ≠ emptyRoot) →
      (∀ text ∈ first ++ second, text.length = width) → width ≠ 2 * digits →
      first.Nodup → second.Nodup →
      computeMerkleRoot hash first = computeMerkleRoot hash second → first = second := by
  refine ⟨fun _ _ => exists_accepted_proof hash, ?_⟩
  intro first second digits width free nonzero wide other distinct distinctToo same
  exact hashes_eq_of_root free (fun text => mem_append_left _) (fun text => mem_append_right _)
    (fun text mem => wide text (mem_append_left _ mem))
    (fun text mem => wide text (mem_append_right _ mem)) other nonzero distinct distinctToo same

theorem roots_of_one_and_two : ∃ hash : Text → Text,
      (∃ proof, proveTxInclusion hash [[1, 1], [2, 2]] [2, 2] = some proof ∧
        verifyMerkleProof hash proof = true) ∧
      computeMerkleRoot hash [[1, 1]] ≠ computeMerkleRoot hash [[1, 1], [2, 2]] := by
  refine ⟨fun text => [text.sum, 0, 1], ?_, fun same => ?_⟩
  · obtain ⟨proof, proves, -, -, accepted⟩ :=
      (inclusion_proofs_complete_and_binding fun text => [text.sum, 0, 1]).1 [[1, 1], [2, 2]] [2, 2] (by decide)
    exact ⟨proof, proves, accepted⟩
  · have equal := (inclusion_proofs_complete_and_binding fun text => [text.sum, 0, 1]).2 [[1, 1]]
      [[1, 1], [2, 2]] 3 2 ⟨by decide, by decide⟩ (by decide) (by decide) (by decide) (by decide) (by decide)
      same
    exact absurd equal (by decide)

/-- A text whose digest is 64 zeros has the root of no transactions, and a hash as long as two
digests has the root of the transactions with these digests. -/
theorem roots_of_different_lists : (∃ (hash : Text → Text) (second : List Text),
      Collisionless hash 64 (rootTexts hash [] ++ rootTexts hash second) ∧
      (∀ text ∈ second, text.length = 64) ∧ second.Nodup ∧ second ≠ [] ∧
      computeMerkleRoot hash [] = computeMerkleRoot hash second) ∧
    ∃ (hash : Text → Text) (first second : List Text),
      Collisionless hash 1 (rootTexts hash first ++ rootTexts hash second) ∧
      (∀ text ∈ first ++ second, text.length = 2) ∧ first.Nodup ∧ second.Nodup ∧ first ≠ second ∧
      (∀ text ∈ rootTexts hash first ++ rootTexts hash second, hash text ≠ emptyRoot) ∧
      computeMerkleRoot hash first = computeMerkleRoot hash second := by
  constructor
  · refine ⟨fun text => (text ++ emptyRoot).take 64, [emptyRoot], ⟨?_, ?_⟩, ?_, ?_, ?_, ?_⟩
    all_goals decide
  · refine ⟨fun text => [text.sum], [[1, 1], [2, 2]], [[2, 4]], ⟨?_, ?_⟩, ?_, ?_, ?_, ?_, ?_, ?_⟩
    all_goals decide

end EgoChain.Ledger
