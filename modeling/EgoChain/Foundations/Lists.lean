import Mathlib.Algebra.Order.Ring.Int
import Mathlib.Data.Finset.Card
import Mathlib.Data.List.Sort

/-!
# Lists

Splitting a list at an element, lists with the same images, the places at which a
list of names stands in another, and the upper median.
-/

namespace EgoChain.Foundations

open List

variable {α : Type} {place : Nat}

/-- An element of a joined list lies in its second part or in its first. -/
theorem append_eq_append_cons {front back before after : List α} {item : α}
    (joined : front ++ back = before ++ item :: after) :
    (∃ rest, before = front ++ rest ∧ back = rest ++ item :: after) ∨
      ∃ rest, front = before ++ item :: rest := by
  rcases append_eq_append_iff.mp joined with inBack | ⟨rest, frontIs, tailIs⟩
  · exact Or.inl inBack
  · cases rest with
    | nil => exact Or.inl ⟨[], by simp [frontIs], by simpa using tailIs.symm⟩
    | cons head rest =>
      obtain ⟨rfl, rfl⟩ := List.cons.inj tailIs
      exact Or.inr ⟨rest, frontIs⟩

/-- Lists with the same images under one function have the same images under any function that
it decides. -/
theorem map_eq_of_map_eq {β γ : Type} {f : α → β} {g : α → γ} {first second : List α}
    (decides : ∀ one ∈ first, ∀ two ∈ second, f one = f two → g one = g two)
    (same : first.map f = second.map f) : first.map g = second.map g := by
  induction first generalizing second with
  | nil =>
    rw [map_eq_nil_iff.mp same.symm]
  | cons one rest ih =>
    cases second with
    | nil => cases same
    | cons two more =>
      obtain ⟨heads, tails⟩ := List.cons.inj same
      have later := ih (fun member mem other memToo =>
        decides member (mem_cons_of_mem _ mem) other (mem_cons_of_mem _ memToo)) tails
      rw [map_cons, map_cons, later, decides one mem_cons_self two mem_cons_self heads]

theorem map_inj_of_mem {β : Type} {f : α → β} {first second : List α}
    (apart : ∀ one ∈ first, ∀ two ∈ second, f one = f two → one = two)
    (same : first.map f = second.map f) : first = second := by
  have ids := @map_eq_of_map_eq _ _ _ f id _ _ apart same
  rwa [map_id, map_id] at ids

section Places

variable [BEq α] [LawfulBEq α]

/-- The places in a list at which some of the given items stand first. -/
def placesOf (list items : List α) : Finset Nat :=
  (Finset.range list.length).filter fun place => ∃ item ∈ items, list.idxOf? item = some place

theorem mem_placesOf {list items : List α} :
    place ∈ placesOf list items ↔ ∃ item ∈ items, list.idxOf? item = some place := by
  unfold placesOf
  rw [Finset.mem_filter, Finset.mem_range, and_iff_right_iff_imp]
  rintro ⟨item, -, found⟩
  exact (List.idxOf?_eq_some_iff.mp found).1

omit [LawfulBEq α] in
theorem placesOf_subset (list items : List α) : placesOf list items ⊆ Finset.range list.length :=
  Finset.filter_subset _ _

theorem idxOf?_inj {list : List α} {item other : α}
    (found : list.idxOf? item = some place) (again : list.idxOf? other = some place) :
    item = other := by
  obtain ⟨_, here, _⟩ := List.idxOf?_eq_some_iff.mp found
  obtain ⟨_, there, _⟩ := List.idxOf?_eq_some_iff.mp again
  exact here.symm.trans there

/-- Distinct items of a list stand at as many places. -/
theorem length_le_card_placesOf [DecidableEq α] {list items : List α} (distinct : items.Nodup)
    (inside : ∀ item ∈ items, item ∈ list) : items.length ≤ (placesOf list items).card := by
  have placed : ∀ item ∈ items, list.idxOf? item = some ((list.idxOf? item).getD 0) := by
    intro item mem
    obtain ⟨place, found⟩ := Option.isSome_iff_exists.mp (isSome_idxOf?.mpr (inside item mem))
    rw [found]
    rfl
  rw [← toFinset_card_of_nodup distinct]
  refine Finset.card_le_card_of_injOn (fun item => (list.idxOf? item).getD 0) ?_ ?_
  · intro item mem
    have mem : item ∈ items := mem_toFinset.mp mem
    exact mem_placesOf.mpr ⟨item, mem, placed item mem⟩
  · intro item mem other otherMem same
    have foundItem := placed item (mem_toFinset.mp mem)
    have foundOther := placed other (mem_toFinset.mp otherMem)
    dsimp only at same
    rw [← same] at foundOther
    exact idxOf?_inj foundItem foundOther

/-- Items stand at no more places than there are different ones of them in the list. -/
theorem card_placesOf_le [DecidableEq α] {list items : List α} :
    (placesOf list items).card ≤ (list.toFinset.filter (· ∈ items)).card := by
  refine Finset.card_le_card_of_surjOn (fun item => (list.idxOf? item).getD 0) ?_
  intro place mem
  obtain ⟨item, isItem, found⟩ := mem_placesOf.mp mem
  refine ⟨item, ?_, by simp [found]⟩
  have inList : item ∈ list := isSome_idxOf?.mp (by simp [found])
  simp [inList, isItem]

end Places

/-! ## Pieces -/

section Pieces

variable (size : Nat) (list : List α)

/-- The piece of a list at an index, all pieces but the last having the same size. -/
def pieceAt (index : Nat) : List α := (list.drop (index * size)).take size

def pieces : List (List α) :=
  (List.range ((list.length + size - 1) / size)).map (pieceAt size list)

theorem flatten_pieceAt (count : Nat) :
    ((List.range count).map (pieceAt size list)).flatten = list.take (count * size) := by
  induction count with
  | zero => rw [zero_mul, take_zero]; rfl
  | succ count ih =>
    rw [range_succ, map_append, flatten_append, ih, add_mul, take_add]
    simp [pieceAt]

theorem flatten_pieces {size : Nat} (positive : 0 < size) (list : List α) :
    (pieces size list).flatten = list := by
  rw [pieces, flatten_pieceAt, take_of_length_le]
  have covered := Nat.div_add_mod (list.length + size - 1) size
  have rest := Nat.mod_lt (list.length + size - 1) positive
  rw [mul_comm] at covered
  omega

theorem getElem?_pieces {index : Nat} (inside : index < (pieces size list).length) :
    (pieces size list)[index]? = some (pieceAt size list index) := by
  rw [pieces, length_map, length_range] at inside
  rw [pieces, List.getElem?_map, List.getElem?_range inside]
  rfl

theorem pieceAt_append {size index : Nat} {list : List α} (inside : (index + 1) * size ≤ list.length)
    (more : List α) : pieceAt size (list ++ more) index = pieceAt size list index := by
  rw [add_mul] at inside
  rw [pieceAt, drop_append_of_le_length (by omega), take_append_of_le_length]
  · rfl
  · rw [length_drop]
    omega

end Pieces

/-! ## Counts at prices -/

/-- So many of each kind, each at the price of its kind. -/
def priced (counts prices : List Nat) : Nat :=
  ((counts.zip prices).map fun pair => pair.1 * pair.2).sum

theorem priced_cons (count price : Nat) (counts prices : List Nat) :
    priced (count :: counts) (price :: prices) = count * price + priced counts prices := by
  rfl

variable (change : Nat → Nat) {counts prices : List Nat}

/-- Another count of one kind changes the price by the difference. -/
theorem priced_modify {count price : Nat}
    (counted : counts[place]? = some count) (isPrice : prices[place]? = some price) :
    priced (counts.modify place change) prices + count * price =
      priced counts prices + change count * price := by
  induction counts generalizing prices place with
  | nil => cases counted
  | cons first rest ih =>
    cases prices with
    | nil => cases isPrice
    | cons firstPrice restPrices =>
      cases place with
      | zero =>
        cases counted
        cases isPrice
        rw [modify_zero_cons, priced_cons, priced_cons]
        omega
      | succ place =>
        have later := ih counted isPrice
        rw [modify_succ_cons, priced_cons, priced_cons]
        omega

theorem sum_modify {count : Nat} (counted : counts[place]? = some count) :
    (counts.modify place change).sum + count = counts.sum + change count := by
  induction counts generalizing place with
  | nil => cases counted
  | cons first rest ih =>
    cases place with
    | zero =>
      cases counted
      rw [modify_zero_cons, sum_cons, sum_cons]
      omega
    | succ place =>
      have later := ih counted
      rw [modify_succ_cons, sum_cons, sum_cons]
      omega

theorem priced_le {most : Nat} (dear : ∀ price ∈ prices, price ≤ most) :
    priced counts prices ≤ counts.sum * most := by
  induction counts generalizing prices with
  | nil => simp [priced]
  | cons first rest ih =>
    cases prices with
    | nil => simp [priced]
    | cons price restPrices =>
      obtain ⟨here, later⟩ := forall_mem_cons.mp dear
      rw [sum_cons, add_mul]
      exact Nat.add_le_add (Nat.mul_le_mul_left first here) (ih later)

section Median

variable {ι : Type} [LinearOrder α] {values : List α} {median : α}

/-- The middle of the values in their order, the upper one if there are two. -/
def upperMedian (values : List α) : Option α :=
  (values.insertionSort (· ≤ ·))[values.length / 2]?

/-- As many values lie below the upper median as half of them, and fewer above it. -/
theorem upperMedian_splits (found : upperMedian values = some median) :
    values.countP (· < median) ≤ values.length / 2 ∧
      values.countP (median < ·) + values.length / 2 < values.length := by
  have perm := values.perm_insertionSort (· ≤ ·)
  have sorted := pairwise_insertionSort (· ≤ ·) values
  rw [upperMedian] at found
  rw [← perm.countP_eq, ← perm.countP_eq, ← perm.length_eq] at *
  generalize values.insertionSort (· ≤ ·) = ordered at *
  obtain ⟨inside, isMedian⟩ := List.getElem?_eq_some_iff.mp found
  have cut : ordered = ordered.take (ordered.length / 2) ++ median ::
      ordered.drop (ordered.length / 2 + 1) := by
    rw [← isMedian, getElem_cons_drop, take_append_drop]
  have counts (test : α → Bool) := congrArg (List.countP test) cut
  simp only [countP_append, countP_cons] at counts
  rw [cut, pairwise_append, pairwise_cons] at sorted
  obtain ⟨-, ⟨least, -⟩, most⟩ := sorted
  have none' : (ordered.drop (ordered.length / 2 + 1)).countP (· < median) = 0 :=
    countP_eq_zero.mpr fun value mem => by simpa using least value mem
  have noneToo : (ordered.take (ordered.length / 2)).countP (median < ·) = 0 :=
    countP_eq_zero.mpr fun value mem => by simpa using most value mem median mem_cons_self
  have front := (ordered.take (ordered.length / 2)).countP_le_length (p := (· < median))
  have back := (ordered.drop (ordered.length / 2 + 1)).countP_le_length (p := (median < ·))
  rw [length_take] at front
  rw [length_drop] at back
  rw [counts, counts]
  simp only [lt_irrefl, decide_false, Bool.false_eq_true, if_false]
  omega

theorem eq_nil_of_upperMedian (none' : upperMedian values = none) : values = [] := by
  rw [upperMedian, List.getElem?_eq_none_iff, length_insertionSort] at none'
  exact eq_nil_of_length_eq_zero (by omega)

theorem upperMedian_between {items : List ι} {value : ι → α} {honest : ι → Bool}
    (majority : items.length < 2 * items.countP honest)
    (found : upperMedian (items.map value) = some median) :
    (∃ item ∈ items, honest item = true ∧ value item ≤ median) ∧
      ∃ item ∈ items, honest item = true ∧ median ≤ value item := by
  obtain ⟨below, above⟩ := upperMedian_splits found
  rw [length_map, countP_map] at below above
  constructor
  · by_contra none'
    have most : items.countP honest ≤ items.countP ((fun other => decide (median < other)) ∘ value) :=
      countP_mono_left fun item mem isHonest => decide_eq_true (not_le.mp fun low =>
        none' ⟨item, mem, isHonest, low⟩)
    omega
  · by_contra none'
    have most : items.countP honest ≤ items.countP ((fun other => decide (other < median)) ∘ value) :=
      countP_mono_left fun item mem isHonest => decide_eq_true (not_le.mp fun high =>
        none' ⟨item, mem, isHonest, high⟩)
    omega

end Median

end EgoChain.Foundations
