import Mathlib.Algebra.Order.Ring.Int
import Mathlib.Data.List.Perm.Subperm
import Mathlib.Data.List.Nodup
import Mathlib.Data.Nat.ModEq

/-!
# Draws and seats

Drawing from a list without putting back, where the choice may depend on the
number of the draw and on what remains, and seating a list in places that are all
different.
-/

namespace EgoChain.Foundations

open List

variable {α : Type}

/-! ## Drawing without putting back -/

/-- Draw `count` times, the first draw having the number `pick`; an empty list ends it. -/
def drawOut (choose : Nat → List α → Nat) : Nat → Nat → List α → List α
  | _, 0, _ => []
  | pick, count + 1, remaining =>
    match remaining[choose pick remaining]? with
    | none => []
    | some drawn =>
      drawn :: drawOut choose (pick + 1) count (remaining.eraseIdx (choose pick remaining))

/-- The choice falls on something as long as something remains. -/
def Chooses (choose : Nat → List α → Nat) : Prop :=
  ∀ pick remaining, remaining ≠ [] → choose pick remaining < remaining.length

section Drawn

variable {choose : Nat → List α → Nat} (chooses : Chooses choose)
include chooses

theorem drawOut_succ (pick count : Nat) {remaining : List α} (some' : remaining ≠ []) :
    ∃ drawn, remaining[choose pick remaining]? = some drawn ∧
      drawOut choose pick (count + 1) remaining =
        drawn :: drawOut choose (pick + 1) count (remaining.eraseIdx (choose pick remaining)) := by
  have inside := chooses pick remaining some'
  refine ⟨remaining[choose pick remaining], List.getElem?_eq_getElem inside, ?_⟩
  rw [drawOut, List.getElem?_eq_getElem inside]

/-- What is drawn is part of the list, each entry at most as often as it stands there. -/
theorem drawOut_subperm (pick count : Nat) (remaining : List α) :
    (drawOut choose pick count remaining).Subperm remaining := by
  induction count generalizing pick remaining with
  | zero => exact nil_subperm
  | succ count ih =>
    rcases eq_or_ne remaining [] with rfl | some'
    · exact nil_subperm
    · obtain ⟨drawn, found, step⟩ := drawOut_succ chooses pick count some'
      obtain ⟨inside, rfl⟩ := List.getElem?_eq_some_iff.mp found
      rw [step]
      refine ((subperm_cons _).mpr (ih (pick + 1) _)).trans ?_
      exact (getElem_cons_eraseIdx_perm inside).subperm

theorem length_drawOut (pick count : Nat) (remaining : List α) :
    (drawOut choose pick count remaining).length = min count remaining.length := by
  induction count generalizing pick remaining with
  | zero => simp [drawOut]
  | succ count ih =>
    rcases eq_or_ne remaining [] with rfl | some'
    · simp [drawOut]
    · obtain ⟨drawn, -, step⟩ := drawOut_succ chooses pick count some'
      have inside := chooses pick remaining some'
      rw [step, length_cons, ih, length_eraseIdx_of_lt inside]
      omega

end Drawn

variable {drawn list : List α} {entries : List (α × Nat)}

theorem nodup_of_subperm (part : drawn.Subperm list) (distinct : list.Nodup) : drawn.Nodup := by
  obtain ⟨middle, same, inside⟩ := part
  exact same.nodup_iff.mp (inside.nodup distinct)

theorem subperm_map {β : Type} (f : α → β) (part : drawn.Subperm list) :
    (drawn.map f).Subperm (list.map f) := by
  obtain ⟨middle, same, inside⟩ := part
  exact ⟨middle.map f, same.map f, inside.map f⟩

/-! ## Seats -/

variable (place : Nat → Nat) (seats : List α)

/-- Put each entry into its place; a later entry replaces an earlier one. -/
def seatAll (empty : α) (order : List α) : List α :=
  order.zipIdx.foldl (fun seats entry => seats.set (place entry.2) entry.1)
    (List.replicate order.length empty)

theorem length_foldl_set (entries : List (α × Nat)) :
    (entries.foldl (fun seats entry => seats.set (place entry.2) entry.1) seats).length =
      seats.length := by
  induction entries generalizing seats with
  | nil => rfl
  | cons entry rest ih => rw [foldl_cons, ih, length_set]

@[simp]
theorem length_seatAll (empty : α) (order : List α) :
    (seatAll place empty order).length = order.length := by
  rw [seatAll, length_foldl_set, length_replicate]

theorem foldl_set_free {seat : Nat} (free : ∀ entry ∈ entries, place entry.2 ≠ seat) :
    (entries.foldl (fun seats entry => seats.set (place entry.2) entry.1) seats)[seat]? =
      seats[seat]? := by
  induction entries generalizing seats with
  | nil => rfl
  | cons entry rest ih =>
    obtain ⟨here, there⟩ := forall_mem_cons.mp free
    rw [foldl_cons, ih _ there, List.getElem?_set_ne here]

theorem foldl_set_placed
    (distinct : (entries.map fun entry => place entry.2).Nodup) {entry : α × Nat}
    (mem : entry ∈ entries) (inside : place entry.2 < seats.length) :
    (entries.foldl (fun seats entry => seats.set (place entry.2) entry.1) seats)[place entry.2]? =
      some entry.1 := by
  induction entries generalizing seats with
  | nil => cases mem
  | cons first rest ih =>
    obtain ⟨apart, distinctRest⟩ := nodup_cons.mp distinct
    rw [foldl_cons]
    rcases mem_cons.mp mem with rfl | later
    · rw [foldl_set_free place _ fun other otherMem same =>
        apart (mem_map.mpr ⟨other, otherMem, same⟩)]
      exact List.getElem?_set_self inside
    · exact ih _ distinctRest later (by rwa [length_set])

section Seated

variable {place} {order : List α} (inside : ∀ k < order.length, place k < order.length)
  (apart : Set.InjOn place { k | k < order.length }) (empty : α)
include inside apart

/-- Everyone sits in the place meant for them. -/
theorem getElem?_seatAll {k : Nat} (bound : k < order.length) :
    (seatAll place empty order)[place k]? = order[k]? := by
  have listed : (order[k], k) ∈ order.zipIdx := by
    rw [mem_zipIdx_iff_getElem?]
    exact List.getElem?_eq_getElem bound
  have distinct : (order.zipIdx.map fun entry => place entry.2).Nodup := by
    have places : (order.zipIdx.map fun entry => place entry.2) =
        (List.range order.length).map place := by
      rw [range_eq_range', ← zipIdx_map_snd 0 order, map_map]
      rfl
    rw [places]
    refine List.Nodup.map_on ?_ nodup_range
    intro one oneMem two twoMem same
    exact apart (mem_range.mp oneMem) (mem_range.mp twoMem) same
  rw [seatAll, foldl_set_placed place _ distinct listed (length_replicate ▸ inside k bound)]
  exact (List.getElem?_eq_getElem bound).symm

/-- Seating rearranges the list. -/
theorem perm_seatAll : (seatAll place empty order).Perm order := by
  have places : ((List.range order.length).map place).Perm (List.range order.length) := by
    refine (subperm_of_subset ?_ ?_).perm_of_length_le (by simp)
    · refine List.Nodup.map_on ?_ nodup_range
      intro one oneMem two twoMem same
      exact apart (mem_range.mp oneMem) (mem_range.mp twoMem) same
    · intro seat mem
      obtain ⟨k, kMem, rfl⟩ := mem_map.mp mem
      exact mem_range.mpr (inside k (mem_range.mp kMem))
  have listing (list : List α) : list.map some = (List.range list.length).map (list[·]?) := by
    refine ext_getElem? fun k => ?_
    by_cases bound : k < list.length <;> simp [bound]
  have same : (List.range order.length).map (fun k => (seatAll place empty order)[place k]?) =
      order.map some := by
    rw [listing order]
    refine map_congr_left fun k mem => ?_
    exact getElem?_seatAll inside apart empty (mem_range.mp mem)
  have seated := (places.map fun seat => (seatAll place empty order)[seat]?).symm
  rw [map_map] at seated
  have rearranged : ((seatAll place empty order).map some).Perm (order.map some) := by
    rw [listing _, length_seatAll, ← same]
    exact seated
  exact (map_perm_map_iff (Option.some_injective α)).mp rearranged

end Seated

/-- Places that follow one another around a circle are different. -/
theorem add_mod_injOn (start size : Nat) :
    Set.InjOn (fun k => (start + k) % size) { k | k < size } := by
  intro one oneBound two twoBound same
  have congruent : one ≡ two [MOD size] := Nat.ModEq.add_left_cancel' start same
  exact congruent.eq_of_lt_of_lt oneBound twoBound

end EgoChain.Foundations
