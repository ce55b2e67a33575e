import Mathlib.Algebra.Order.Ring.Int
import Mathlib.Data.Finset.Card

/-!
# Quorum intersection

Two sets of members that together exceed the committee by more than the faulty
members share a correct member.
-/

namespace EgoChain.Foundations

variable {Member : Type} [DecidableEq Member] {committee first second : Finset Member}

/-- What two sets count above the size of the committee they have in common. -/
theorem card_add_card_le_inter (firstIn : first ⊆ committee) (secondIn : second ⊆ committee) :
    first.card + second.card ≤ committee.card + (first ∩ second).card := by
  have union := Finset.card_le_card (Finset.union_subset firstIn secondIn)
  have count := Finset.card_union_add_card_inter first second
  omega

theorem exists_correct_in_both {faulty : Finset Member} (firstIn : first ⊆ committee)
    (secondIn : second ⊆ committee)
    (large : committee.card + faulty.card < first.card + second.card) :
    ∃ member, member ∈ first ∧ member ∈ second ∧ member ∉ faulty := by
  have count := card_add_card_le_inter firstIn secondIn
  have more : faulty.card < (first ∩ second).card := by omega
  obtain ⟨member, inBoth, correct⟩ := Finset.exists_mem_notMem_of_card_lt_card more
  obtain ⟨inFirst, inSecond⟩ := Finset.mem_inter.mp inBoth
  exact ⟨member, inFirst, inSecond, correct⟩

end EgoChain.Foundations
