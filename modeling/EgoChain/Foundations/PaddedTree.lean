import Mathlib.Tactic.Ring

/-!
# Hash trees of a fixed depth

The leaves that are not there yet are zeros.  The node at a place of a level joins
the two nodes under it; it depends only on the leaves under it, and over zeros
alone it is the same everywhere on its level.
-/

namespace EgoChain.Foundations

open Nat

variable {α : Type} (join : α → α → α) (zero : α)

/-- The node over zeros. -/
def zeroNode : Nat → α
  | 0 => zero
  | level + 1 => join (zeroNode level) (zeroNode level)

/-- The node at a place of a level. -/
def paddedNode (leaves : List α) : Nat → Nat → α
  | 0, place => leaves[place]?.getD zero
  | level + 1, place =>
    join (paddedNode leaves level (2 * place)) (paddedNode leaves level (2 * place + 1))

variable {join zero} {level place : Nat} {leaves list : List α}

theorem paddedNode_of_length_le (behind : leaves.length ≤ place * 2 ^ level) :
    paddedNode join zero leaves level place = zeroNode join zero level := by
  induction level generalizing place with
  | zero =>
    rw [pow_zero, mul_one] at behind
    rw [paddedNode, List.getElem?_eq_none behind]
    rfl
  | succ level ih =>
    have double : place * 2 ^ (level + 1) = 2 * place * 2 ^ level := by ring
    have right : 2 * place * 2 ^ level ≤ (2 * place + 1) * 2 ^ level :=
      mul_le_mul_right _ (le_succ _)
    rw [paddedNode, zeroNode, ih (by omega), ih (by omega)]

/-- Leaves elsewhere do not matter. -/
theorem paddedNode_append {more : List α} (before : (place + 1) * 2 ^ level ≤ leaves.length) :
    paddedNode join zero (leaves ++ more) level place = paddedNode join zero leaves level place := by
  induction level generalizing place with
  | zero =>
    rw [pow_zero, mul_one] at before
    rw [paddedNode, paddedNode, List.getElem?_append_left before]
  | succ level ih =>
    have double : (place + 1) * 2 ^ (level + 1) = (2 * place + 1 + 1) * 2 ^ level := by ring
    have left : (2 * place + 1) * 2 ^ level ≤ (2 * place + 1 + 1) * 2 ^ level :=
      mul_le_mul_right _ (le_succ _)
    rw [paddedNode, paddedNode, ih (by omega), ih (by omega)]

variable (leaves : Nat) (level : Nat)

/-- The nodes of a level that are not over zeros alone. -/
def nodeCount (level : Nat) : Nat := (leaves + 2 ^ level - 1) / 2 ^ level

theorem nodeCount_zero : nodeCount leaves 0 = leaves := by
  simp [nodeCount]

theorem nodeCount_succ : nodeCount leaves (level + 1) = (nodeCount leaves level + 1) / 2 := by
  have positive : 0 < 2 ^ level := Nat.two_pow_pos level
  unfold nodeCount
  rw [pow_succ, ← Nat.div_div_eq_div_mul]
  have shift : (leaves + 2 ^ level * 2 - 1) / 2 ^ level = (leaves + 2 ^ level - 1) / 2 ^ level + 1 := by
    rw [← add_div_right _ positive]
    congr 1
    omega
  rw [shift]

theorem le_nodeCount_mul : leaves ≤ nodeCount leaves level * 2 ^ level := by
  have parts := div_add_mod (leaves + 2 ^ level - 1) (2 ^ level)
  rw [mul_comm] at parts
  unfold nodeCount
  omega

theorem div_le_nodeCount : leaves / 2 ^ level ≤ nodeCount leaves level := by
  have positive : 0 < 2 ^ level := Nat.two_pow_pos level
  exact Nat.div_le_div_right (by omega)

/-- A level as far as it is not over zeros alone. -/
def levelOf (join : α → α → α) (zero : α) (leaves : List α) (level : Nat) : List α :=
  (List.range (nodeCount leaves.length level)).map (paddedNode join zero leaves level)

variable (leaves : List α)

theorem getElem?_levelOf (place : Nat) : (levelOf join zero leaves level)[place]? =
      if place < nodeCount leaves.length level then some (paddedNode join zero leaves level place)
      else none := by
  unfold levelOf
  rw [List.getElem?_map]
  split
  case isTrue inside => rw [List.getElem?_range inside]; rfl
  case isFalse outside =>
    rw [List.getElem?_eq_none (List.length_range ▸ not_lt.mp outside)]
    rfl

/-- Behind the end of a level stand zeros. -/
theorem getD_levelOf (place : Nat) :
    (levelOf join zero leaves level)[place]?.getD (zeroNode join zero level) =
      paddedNode join zero leaves level place := by
  rw [getElem?_levelOf]
  split
  case isTrue => rfl
  case isFalse outside =>
    have behind := le_trans (le_nodeCount_mul _ _) (mul_le_mul_right _ (not_lt.mp outside))
    rw [paddedNode_of_length_le behind]
    rfl

theorem levelOf_zero : levelOf join zero leaves 0 = leaves := by
  refine List.ext_getElem? fun place => ?_
  rw [getElem?_levelOf, nodeCount_zero]
  split
  case isTrue inside => rw [paddedNode, List.getElem?_eq_getElem inside]; rfl
  case isFalse outside => rw [List.getElem?_eq_none (not_lt.mp outside)]

/-! ## Lists that are written place by place -/

/-- Put a value at a place, which may be the end. -/
def writeAt (list : List α) (place : Nat) (value : α) : List α :=
  if place < list.length then list.set place value else list ++ [value]

theorem getElem?_writeAt (near : place ≤ list.length) (value : α) (other : Nat) :
    (writeAt list place value)[other]? = if other = place then some value else list[other]? := by
  unfold writeAt
  split
  case isTrue inside =>
    by_cases same : other = place
    · rw [if_pos same, same, List.getElem?_set_self inside]
    · rw [if_neg same, List.getElem?_set_ne (Ne.symm same)]
  case isFalse outside =>
    obtain rfl : place = list.length := le_antisymm near (not_lt.mp outside)
    by_cases same : other = list.length
    · rw [if_pos same, same, List.getElem?_concat_length]
    · rw [if_neg same]
      by_cases inside : other < list.length
      · rw [List.getElem?_append_left inside]
      · rw [List.getElem?_eq_none (by simp; omega), List.getElem?_eq_none (not_lt.mp inside)]

/-- Write a range of places. -/
theorem getElem?_writeRange {value : Nat → α} {start count : Nat} (near : start ≤ list.length)
    (other : Nat) :
    ((List.range' start count).foldl (fun list place => writeAt list place (value place)) list)[other]? =
      if start ≤ other ∧ other < start + count then some (value other) else list[other]? := by
  induction count generalizing start list with
  | zero => rw [if_neg (by omega)]; rfl
  | succ count ih =>
    have written := getElem?_writeAt near (value start)
    have longer : start + 1 ≤ (writeAt list start (value start)).length := by
      have here := written start
      rw [if_pos rfl] at here
      exact (List.getElem?_eq_some_iff.mp here).1
    rw [List.range'_succ, List.foldl_cons, ih longer, written]
    by_cases same : other = start
    · rw [if_neg (by omega), if_pos same, if_pos (by omega), same]
    · rw [if_neg same]
      by_cases inside : start + 1 ≤ other ∧ other < start + 1 + count
      · rw [if_pos inside, if_pos (by omega)]
      · rw [if_neg inside, if_neg (by omega)]

end EgoChain.Foundations
