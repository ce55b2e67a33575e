import EgoChain.Foundations.Merkle
import Mathlib.Data.Nat.Bitwise

/-!
# Hash trees that promote the last digest

Neighbours are joined as in other hash trees, but a last digest without a
neighbour goes up as it is.  Where a way up has neighbours is then a matter of the
place and of the number of digests alone.  A way that leads to the top of a tree
starts at the digest that the tree has there, unless two of the pairs that are
joined have the same digest.
-/

namespace EgoChain.Foundations

open List

variable {α : Type}

/-- The pairs of neighbours of a layer. -/
def neighbours : List α → List (α × α)
  | first :: second :: rest => (first, second) :: neighbours rest
  | _ => []

theorem xor_one_eq_siblingPlace (place : Nat) : place ^^^ 1 = siblingPlace place := by
  have halves : (place ^^^ 1) / 2 = place / 2 := by
    rw [Nat.xor_div_two]
    simp
  have parities : (place ^^^ 1) % 2 = (place + 1) % 2 := Nat.xor_mod_two_eq
  unfold siblingPlace
  split <;> omega

section Tree

variable (join : α → α → α)

def layerUp : List α → List α
  | first :: second :: rest => join first second :: layerUp rest
  | [last] => [last]
  | [] => []

/-- Go up as long as there is more than one digest. -/
def ascend : Nat → List α → List α
  | 0, layer => layer
  | fuel + 1, layer => if 1 < layer.length then ascend fuel (layerUp join layer) else layer

/-- The pairs that are joined on the way up. -/
def ascended : Nat → List α → List (α × α)
  | 0, _ => []
  | fuel + 1, layer =>
    if 1 < layer.length then neighbours layer ++ ascended fuel (layerUp join layer) else []

/-- The neighbours on the way up from a place. -/
def waySiblings : Nat → List α → Nat → List α
  | 0, _, _ => []
  | fuel + 1, layer, place =>
    if 1 < layer.length then
      layer[place ^^^ 1]?.toList ++ waySiblings fuel (layerUp join layer) (place / 2)
    else []

/-- A digest with its neighbour, in the order of their places. -/
def besideAt (place : Nat) (digest sibling : α) : α × α :=
  if place % 2 = 0 then (digest, sibling) else (sibling, digest)

/-- Go up from a digest with given neighbours, all of which have to be used. -/
def walkUp : Nat → α → Nat → Nat → List α → Option α
  | 0, digest, _, _, siblings => if siblings = [] then some digest else none
  | fuel + 1, digest, place, count, siblings =>
    if 1 < count then
      if place ^^^ 1 < count then
        match siblings with
        | [] => none
        | sibling :: rest =>
          walkUp fuel (joinPair join (besideAt place digest sibling)) (place / 2) ((count + 1) / 2) rest
      else walkUp fuel digest (place / 2) ((count + 1) / 2) siblings
    else if siblings = [] then some digest
    else none

/-- The pairs that are joined on such a way. -/
def walked : Nat → α → Nat → Nat → List α → List (α × α)
  | 0, _, _, _, _ => []
  | fuel + 1, digest, place, count, siblings =>
    if 1 < count then
      if place ^^^ 1 < count then
        match siblings with
        | [] => []
        | sibling :: rest =>
          besideAt place digest sibling ::
            walked fuel (joinPair join (besideAt place digest sibling)) (place / 2) ((count + 1) / 2) rest
      else walked fuel digest (place / 2) ((count + 1) / 2) siblings
    else []

variable {join}

theorem length_layerUp (layer : List α) : (layerUp join layer).length = (layer.length + 1) / 2 := by
  induction layer using pairsOf.induct with
  | case1 | case2 last => simp [layerUp]
  | case3 first second rest ih =>
    rw [layerUp, length_cons, length_cons, length_cons]
    omega

variable {layer : List α} {place fuel : Nat} {digest : α}

/-- Above a digest stands its join with the neighbour, or the digest if there is none. -/
theorem layerUp_above (here : layer[place]? = some digest) :
    (∀ sibling, layer[place ^^^ 1]? = some sibling →
      (layerUp join layer)[place / 2]? = some (joinPair join (besideAt place digest sibling)) ∧
        besideAt place digest sibling ∈ neighbours layer) ∧
      (layer[place ^^^ 1]? = none → (layerUp join layer)[place / 2]? = some digest) := by
  induction layer using pairsOf.induct generalizing place with
  | case1 => cases here
  | case2 last =>
    cases place with
    | zero => exact ⟨fun sibling found => absurd found (by simp), fun _ => here⟩
    | succ place => cases here
  | case3 first second rest ih =>
    rcases place with _ | _ | place
    · obtain rfl : first = digest := Option.some.inj here
      refine ⟨fun sibling beside => ?_, fun alone => by cases alone⟩
      obtain rfl : second = sibling := Option.some.inj beside
      exact ⟨rfl, mem_cons_self⟩
    · obtain rfl : second = digest := Option.some.inj here
      refine ⟨fun sibling beside => ?_, fun alone => by cases alone⟩
      obtain rfl : first = sibling := Option.some.inj beside
      exact ⟨rfl, mem_cons_self⟩
    · obtain ⟨joined, promoted⟩ := ih (show rest[place]? = some digest from here)
      have shift : (place + 2) ^^^ 1 = (place ^^^ 1) + 2 := by
        rw [xor_one_eq_siblingPlace, xor_one_eq_siblingPlace]
        unfold siblingPlace
        split <;> split <;> omega
      have beside (sibling : α) : besideAt (place + 2) digest sibling = besideAt place digest sibling := by
        unfold besideAt
        rw [show (place + 2) % 2 = place % 2 by omega]
      rw [shift, show (place + 2) / 2 = place / 2 + 1 by omega]
      refine ⟨fun sibling found => ?_, promoted⟩
      obtain ⟨above, mem⟩ := joined sibling found
      rw [beside]
      exact ⟨above, mem_cons_of_mem _ mem⟩

/-! ## Ways of the tree -/

/-- With its own neighbours, a digest leads to the top. -/
theorem walkUp_waySiblings (enough : layer.length ≤ fuel + 1) (here : layer[place]? = some digest) :
    ∃ top, ascend join fuel layer = [top] ∧
      walkUp join fuel digest place layer.length (waySiblings join fuel layer place) = some top := by
  induction fuel generalizing layer place digest with
  | zero => exact ⟨digest, layer_eq_singleton here (not_lt.mpr enough), rfl⟩
  | succ fuel ih =>
    by_cases large : 1 < layer.length
    case neg =>
      refine ⟨digest, ?_, ?_⟩
      · rw [ascend, if_neg large, layer_eq_singleton here large]
      · unfold walkUp waySiblings
        rw [if_neg large, if_neg large, if_pos rfl]
    unfold ascend walkUp waySiblings
    rw [if_pos large, if_pos large, if_pos large]
    have half := @length_layerUp _ join layer
    obtain ⟨joined, promoted⟩ := @layerUp_above _ join _ _ _ here
    cases beside : layer[place ^^^ 1]? with
    | some sibling =>
      obtain ⟨above, -⟩ := joined sibling beside
      obtain ⟨top, isTop, walk⟩ := ih (by omega) above
      rw [half] at walk
      rw [if_pos (List.getElem?_eq_some_iff.mp beside).1]
      exact ⟨top, isTop, walk⟩
    | none =>
      obtain ⟨top, isTop, walk⟩ := ih (by omega) (promoted beside)
      rw [half] at walk
      rw [if_neg (not_lt.mpr (List.getElem?_eq_none_iff.mp beside))]
      exact ⟨top, isTop, walk⟩

/-- A way with any neighbours that leads to the top of a tree starts at the digest of the tree. -/
theorem eq_of_walkUp {top : α} {siblings : List α} (enough : layer.length ≤ fuel + 1)
    (inside : place < layer.length) (isTop : ascend join fuel layer = [top])
    (walk : walkUp join fuel digest place layer.length siblings = some top)
    (free : NoCollision join
      (ascended join fuel layer ++ walked join fuel digest place layer.length siblings)) :
    layer[place]? = some digest := by
  induction fuel generalizing layer place digest siblings with
  | zero =>
    have here := List.getElem?_eq_getElem inside
    have single := layer_eq_singleton here (not_lt.mpr enough)
    obtain ⟨-, start⟩ := Option.ite_none_right_eq_some.mp walk
    rw [ascend, single, singleton_inj] at isTop
    rw [here, isTop, Option.some.inj start]
  | succ fuel ih =>
    have here := List.getElem?_eq_getElem inside
    obtain ⟨joined, promoted⟩ := @layerUp_above _ _ _ _ _ here
    have half := @length_layerUp _ join layer
    unfold walkUp at walk
    by_cases large : 1 < layer.length
    case neg =>
      have single := layer_eq_singleton here large
      rw [if_neg large] at walk
      obtain ⟨-, start⟩ := Option.ite_none_right_eq_some.mp walk
      rw [ascend, if_neg large, single, singleton_inj] at isTop
      rw [here, isTop, Option.some.inj start]
    unfold ascended walked at free
    rw [ascend, if_pos large] at isTop
    rw [if_pos large] at walk
    rw [if_pos large, if_pos large] at free
    by_cases beside : place ^^^ 1 < layer.length
    · rw [if_pos beside] at walk free
      match siblings, walk, free with
      | sibling :: rest, walk, free =>
        rw [← half] at walk free
        obtain ⟨above, isPair⟩ := joined _ (List.getElem?_eq_getElem beside)
        have same := ih (by omega) (by omega) isTop walk (free.mono fun pair mem => by
          simp only [mem_append] at mem ⊢
          tauto)
        -- Two pairs with the same digest are the same pair.
        have pairs := free _ (mem_append_left _ (mem_append_left _ isPair)) _
          (mem_append_right _ mem_cons_self) (Option.some.inj (above.symm.trans same))
        unfold besideAt at pairs
        rw [here]
        split at pairs
        · exact congrArg some (Prod.mk.inj pairs).1
        · exact congrArg some (Prod.mk.inj pairs).2
    · rw [if_neg beside] at walk free
      rw [← half] at walk free
      have same := ih (by omega) (by omega) isTop walk (free.mono fun pair mem => by
        simp only [mem_append] at mem ⊢
        tauto)
      rw [here, ← promoted (List.getElem?_eq_none (not_lt.mp beside)), same]

end Tree

end EgoChain.Foundations
