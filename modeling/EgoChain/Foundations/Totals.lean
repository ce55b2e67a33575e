import EgoChain.Foundations.KeyedMap
import Mathlib.Algebra.Order.BigOperators.Group.List

/-!
# Totals over a keyed map

Each entry of a map has a weight, and the total of a map is the sum of the
weights.  Writing one key changes the total by the difference of the weight
written and the weight that stood there.
-/

namespace EgoChain.Foundations.KeyedMap

open List

variable {κ ν M : Type} [AddCommMonoid M]

def total (map : KeyedMap κ ν) (weight : κ → ν → M) : M :=
  (map.entries.map fun entry => weight entry.1 entry.2).sum

variable [DecidableEq κ]

/-- The weight of what stands at a key. -/
def weightAt (map : KeyedMap κ ν) (weight : κ → ν → M) (key : κ) : M :=
  ((map.lookup key).map (weight key)).getD 0

variable {map : KeyedMap κ ν} {weight : κ → ν → M} {key : κ} {other : KeyedMap κ ν}

theorem weightAt_of_lookup {value : ν} (found : map.lookup key = some value) :
    map.weightAt weight key = weight key value := by
  simp [weightAt, found]

theorem weightAt_of_absent (absent : map.lookup key = none) : map.weightAt weight key = 0 := by
  simp [weightAt, absent]

theorem sum_kerase (weight : κ → ν → M) (key : κ) (entries : List (Sigma fun _ : κ => ν)) :
    ((entries.kerase key).map fun entry => weight entry.1 entry.2).sum +
        ((entries.dlookup key).map (weight key)).getD 0 =
      (entries.map fun entry => weight entry.1 entry.2).sum := by
  induction entries with
  | nil => simp
  | cons entry rest ih =>
    obtain ⟨other, value⟩ := entry
    by_cases same : key = other
    · subst same
      simp [add_comm]
    · have lookups : (⟨other, value⟩ :: rest : List (Sigma fun _ : κ => ν)).dlookup key =
          rest.dlookup key := dlookup_cons_ne _ _ same
      rw [kerase_cons_ne (by exact same), lookups, map_cons, map_cons,
        sum_cons, sum_cons, add_assoc, ih]

/-- Writing a key exchanges the weight that stood there for the weight written. -/
theorem total_insert (map : KeyedMap κ ν) (weight : κ → ν → M) (key : κ) (value : ν) :
    total (map.insert key value) weight + map.weightAt weight key =
      map.total weight + weight key value := by
  have erased := sum_kerase weight key map.entries
  change weight key value + _ + _ = _
  rw [add_assoc, add_comm]
  exact congrArg (· + weight key value) erased

theorem total_erase (map : KeyedMap κ ν) (weight : κ → ν → M) (key : κ) :
    total (map.erase key) weight + map.weightAt weight key = map.total weight :=
  sum_kerase weight key map.entries

/-- The total depends only on what is found at each key. -/
theorem total_congr (same : ∀ key, map.lookup key = other.lookup key) (weight : κ → ν → M) :
    map.total weight = other.total weight := by
  have entries := lookup_ext map.nodupKeys other.nodupKeys fun key value => by
    have here := same key
    change map.entries.dlookup key = other.entries.dlookup key at here
    rw [here]
  exact (entries.map fun entry => weight entry.1 entry.2).sum_eq

/-- The weights at distinct keys are parts of the total. -/
theorem sum_weightAt_le_total [PartialOrder M] [IsOrderedAddMonoid M] [CanonicallyOrderedAdd M]
    (weight : κ → ν → M) {keys : List κ} (distinct : keys.Nodup) (map : KeyedMap κ ν) :
    (keys.map (map.weightAt weight)).sum ≤ map.total weight := by
  induction keys generalizing map with
  | nil => exact zero_le
  | cons key rest ih =>
    obtain ⟨absent, distinctRest⟩ := nodup_cons.mp distinct
    have others : rest.map (map.weightAt weight) =
        rest.map (KeyedMap.weightAt (map.erase key) weight) := by
      refine map_congr_left fun other mem => ?_
      have apart : other ≠ key := fun same => absent (same ▸ mem)
      unfold weightAt
      rw [AList.lookup_erase_ne apart]
    rw [map_cons, sum_cons, others, add_comm, ← total_erase map weight key]
    exact add_le_add_left (ih distinctRest _) _

/-- The total is the sum of the weights at the keys. -/
theorem total_eq_sum_weightAt (map : KeyedMap κ ν) (weight : κ → ν → M) :
    map.total weight = (map.keys.map (map.weightAt weight)).sum := by
  unfold AList.keys List.keys
  rw [map_map]
  refine congrArg List.sum (map_congr_left fun entry mem => ?_)
  exact (weightAt_of_lookup ((mem_entries_iff map entry.1 entry.2).mp mem)).symm

/-- A map that weighs no more at any key weighs no more in total. -/
theorem total_le_total [PartialOrder M] [IsOrderedAddMonoid M] [CanonicallyOrderedAdd M]
    (below : ∀ key, map.weightAt weight key ≤ other.weightAt weight key) :
    map.total weight ≤ other.total weight := by
  calc map.total weight = (map.keys.map (map.weightAt weight)).sum := total_eq_sum_weightAt map weight
    _ ≤ (map.keys.map _).sum := sum_le_sum fun key _ => below key
    _ ≤ other.total weight := sum_weightAt_le_total weight map.keys_nodup other

/-- Writing one more key over a map changes the total as writing that key does. -/
theorem total_overwrite_insert (map writes : KeyedMap κ ν) (weight : κ → ν → M) (key : κ) (value : ν) :
    total (map.overwrite (writes.insert key value)) weight +
        weightAt (map.overwrite writes) weight key =
      total (map.overwrite writes) weight + weight key value := by
  rw [← total_insert]
  congr 1
  refine total_congr (fun other => ?_) weight
  rw [lookup_overwrite, lookup_insert_eq, lookup_insert_eq, lookup_overwrite]
  split <;> rfl

/-! ## Sums at keys -/

variable (map : KeyedMap κ M) (key : κ)

/-- `*map.entry(key).or_default() += amount`. -/
def addTo (amount : M) : KeyedMap κ M :=
  map.insert key ((map.lookup key).getD 0 + amount)

theorem getD_lookup_addTo (other : κ) (amount : M) : ((map.addTo key amount).lookup other).getD 0 =
      (map.lookup other).getD 0 + if other = key then amount else 0 := by
  rw [addTo, lookup_insert_eq]
  split
  case isTrue same =>
    subst same
    rfl
  case isFalse => simp

theorem total_addTo [IsRightCancelAdd M] (map : KeyedMap κ M) (key : κ) (amount : M) :
    total (map.addTo key amount) (fun _ value => value) =
      total map (fun _ value => value) + amount := by
  have written := total_insert map (fun _ value => value) key ((map.lookup key).getD 0 + amount)
  have stood : map.weightAt (fun _ value => value) key = (map.lookup key).getD 0 := by
    simp [weightAt]
  rw [stood, ← add_assoc, add_right_comm] at written
  exact add_right_cancel written

end EgoChain.Foundations.KeyedMap
