import EgoChain.Ledger.PeerBlock
import Mathlib.Order.Bounds.Basic

/-!
# The floor below which history is pruned

`recent_floor` searches for the last block that is two weeks older than the tip, and no chunk of
blocks is pruned that reaches above it.  Where the clock of the tip is so low that the cutoff
saturates, or the last chunk of heights wraps, young blocks are prunable.
-/

namespace EgoChain.Chain

open EgoChain.Ledger

def chunkSize : Nat := 4096
def recentMinBlocks : Nat := 10000
def recentMinSecs : Int := 14 * 86400

section Floor

variable (oldEnough : Nat → Bool)

/-- The loop of the search; it fails where `mid - 1` underflows. -/
def searchFloor (lo hi : Nat) : Option Nat :=
  if lo < hi then
    let mid := lo + (hi - lo + 1) / 2
    if oldEnough mid then searchFloor mid hi
    else if mid = 0 then none else searchFloor lo (mid - 1)
  else some lo
termination_by hi - lo

variable (tip : Nat) (tipTs : Int) (tsAt : Nat → Option Int) (contractHeight : Option Nat)

def recentFloor : Option Nat :=
  if tip < drsFromHeight then some 0
  else
    let byBlocks := tip - recentMinBlocks
    let cutoff := max (-2 ^ 63) (tipTs - recentMinSecs)
    let oldEnough := fun h => (tsAt h).all (· ≤ cutoff)
    let floor := if oldEnough byBlocks then some byBlocks else searchFloor oldEnough 0 byBlocks
    floor.map fun floor => contractHeight.elim floor (min floor)

/-- In 64 bits. -/
def Prunable (chunk floor : Nat) : Prop := (chunk + 1) * chunkSize % 2 ^ 64 ≤ floor

/-- Block times do not go back, and blocks are missing at the bottom only. -/
structure Chronicle : Prop where
  rising : ∀ {low high s t}, low ≤ high → high ≤ tip → tsAt low = some s → tsAt high = some t → s ≤ t
  bottom : ∀ {low high}, low ≤ high → high ≤ tip → tsAt high = none → tsAt low = none

/-- The first block, one that is missing, and one that is older than the tip by two weeks. -/
def Settled (h : Nat) : Prop := h = 0 ∨ ∀ t ∈ tsAt h, t + recentMinSecs ≤ tipTs

end Floor

variable {oldEnough : Nat → Bool} {tip lo hi : Nat} {tipTs : Int} {tsAt : Nat → Option Int}

/-- The search finds the last of the heights that are old enough. -/
theorem searchFloor_isGreatest (order : lo ≤ hi) (first : lo = 0 ∨ oldEnough lo)
    (closed : ∀ low high, 0 < low → low ≤ high → high ≤ hi → oldEnough high → oldEnough low) :
    ∃ floor, searchFloor oldEnough lo hi = some floor ∧
      IsGreatest {h | h ≤ hi ∧ (h = 0 ∨ oldEnough h)} floor := by
  fun_induction searchFloor oldEnough lo hi with
  | case1 lo hi less mid old ih =>
    exact ih (by omega) (Or.inr old) closed
  | case2 lo hi less mid young none =>
    omega
  | case3 lo hi less mid young positive ih =>
    obtain ⟨floor, found, ⟨below, ok⟩, most⟩ := ih (by omega) first
      fun low high positive order top => closed low high positive order (by omega)
    refine ⟨floor, found, ⟨by omega, ok⟩, fun h mem => most ⟨?_, mem.2⟩⟩
    by_contra above
    rcases mem.2 with rfl | old
    · omega
    · exact young (closed mid h (by omega) (by omega) mem.1 old)
  | case4 lo hi done =>
    obtain rfl : lo = hi := by omega
    exact ⟨lo, rfl, ⟨le_rfl, first⟩, fun h mem => mem.1⟩

theorem Chronicle.settled {low high : Nat} (times : Chronicle tip tsAt) (order : low ≤ high)
    (below : high ≤ tip) (settled : Settled tipTs tsAt high) : Settled tipTs tsAt low := by
  rcases settled with rfl | old
  · exact Or.inl (Nat.le_zero.mp order)
  refine Or.inr fun s atLow => ?_
  cases atHigh : tsAt high with
  | none =>
    rw [times.bottom order below atHigh] at atLow
    cases atLow
  | some t =>
    have later := times.rising order below atLow atHigh
    have early := old t atHigh
    omega

/-- With a clock that does not saturate, below the last chunk of heights, the floor is the last
settled height that the number of recent blocks and the contracts leave, and every block of a
prunable chunk is settled. -/
theorem recentFloor_isGreatest (contractHeight : Option Nat) (active : drsFromHeight ≤ tip)
    (small : tip + chunkSize < 2 ^ 64) (clock : -2 ^ 63 + recentMinSecs ≤ tipTs)
    (times : Chronicle tip tsAt) :
    ∃ floor, recentFloor tip tipTs tsAt contractHeight = some floor ∧
      IsGreatest {h | h ≤ tip - recentMinBlocks ∧ (∀ c ∈ contractHeight, h ≤ c) ∧
        Settled tipTs tsAt h} floor ∧
      ∀ h ≤ tip, Prunable (h / chunkSize) floor → Settled tipTs tsAt h := by
  have isOld (h : Nat) : (tsAt h).all (· ≤ tipTs - recentMinSecs) = true ↔
      ∀ t ∈ tsAt h, t + recentMinSecs ≤ tipTs := by
    simp [Option.all_eq_true, le_sub_iff_add_le]
  obtain ⟨last, found, ⟨below, old⟩, most⟩ := searchFloor_isGreatest (Nat.zero_le _) (Or.inl rfl)
    fun low high positive order top old => (isOld low).mpr ((times.settled order
      (top.trans (Nat.sub_le tip recentMinBlocks)) (Or.inr ((isOld high).mp old))).resolve_left positive.ne')
  simp only [isOld] at old most
  have settled (h : Nat) (under : h ≤ last) : Settled tipTs tsAt h :=
    times.settled under (by omega) old
  have under : contractHeight.elim last (min last) ≤ last := by
    cases contractHeight with
    | none => exact le_rfl
    | some c => exact min_le_left last c
  refine ⟨contractHeight.elim last (min last), ?_, ⟨⟨under.trans below, ?_, settled _ under⟩, ?_⟩, ?_⟩
  · unfold recentFloor
    rw [if_neg (by omega), max_eq_right (by omega)]
    dsimp only
    split
    case isTrue old =>
      rw [le_antisymm below (most ⟨le_rfl, Or.inr ((isOld _).mp old)⟩)]
      rfl
    case isFalse =>
      rw [found]
      rfl
  · rintro c rfl
    exact min_le_right last c
  · rintro h ⟨recent, executed, isSettled⟩
    have least := most ⟨recent, isSettled⟩
    cases contractHeight with
    | none => exact least
    | some c => exact le_min least (executed c rfl)
  · intro h inside prunable
    unfold Prunable at prunable
    rw [Nat.mod_eq_of_lt (by unfold chunkSize at *; omega)] at prunable
    exact settled h (by unfold chunkSize at *; omega)

/-- One block a second, and a tip after more than two weeks. -/
theorem floor_of_steady_chain : ∃ floor, recentFloor 1500000 1500000 (fun h => some h) none = some floor ∧
    Settled 1500000 (fun h => some h) floor := by
  obtain ⟨floor, found, ⟨⟨-, -, settled⟩, -⟩, -⟩ :=
    @recentFloor_isGreatest 1500000 1500000 (fun h => some h) none (by decide) (by decide) (by decide)
      ⟨fun order _ low high => by cases low; cases high; exact Int.ofNat_le.mpr order, nofun⟩
  exact ⟨floor, found, settled⟩

/-- All blocks have the least time, at which the cutoff saturates, and none is settled; and the last
chunk of heights is prunable under every floor. -/
theorem young_blocks_are_prunable :
    recentFloor 32601 (-2 ^ 63) (fun _ => some (-2 ^ 63)) none = some 22601 ∧
      Chronicle 32601 (fun _ => some (-2 ^ 63)) ∧ ¬ Settled (-2 ^ 63) (fun _ => some (-2 ^ 63)) 22601 ∧
      ∀ floor, Prunable ((2 ^ 64 - 1) / chunkSize) floor := by
  refine ⟨by decide, ⟨?_, nofun⟩, ?_, fun floor => Nat.zero_le _⟩
  · exact fun _ _ low high => (Option.some.inj (low.symm.trans high)).le
  · rintro (first | old)
    · cases first
    · exact absurd (old _ rfl) (by decide)

end EgoChain.Chain
