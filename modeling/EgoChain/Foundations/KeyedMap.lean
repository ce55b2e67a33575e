import Mathlib.Algebra.Order.Ring.Int
import Mathlib.Data.List.AList
import Mathlib.Data.List.Sort

/-!
# Keyed maps

A finite map is an association list with distinct keys.  Hash maps and ordered
maps of a program share this carrier: an ordered traversal sorts the keys, an
unordered one fixes no order.
-/

namespace EgoChain.Foundations

open List

/-- A finite map from `κ` to `ν`. -/
abbrev KeyedMap (κ ν : Type) : Type := AList (fun _ : κ => ν)

namespace KeyedMap

variable {κ ν : Type} [DecidableEq κ]

theorem lookup_insert_eq (map : KeyedMap κ ν) (key other : κ) (value : ν) :
    (map.insert key value).lookup other = if other = key then some value else map.lookup other := by
  by_cases same : other = key
  · subst same
    simp
  · simp [same]

variable {map : KeyedMap κ ν} {key : κ} {value : ν} {other : κ} {found : ν}

/-- What is found after an insertion was put there or was there before. -/
theorem lookup_of_insert (there : (map.insert key value).lookup other = some found) :
    (other = key ∧ found = value) ∨ map.lookup other = some found := by
  rw [lookup_insert_eq] at there
  split at there
  case isTrue same => exact Or.inl ⟨same, (Option.some.inj there).symm⟩
  case isFalse => exact Or.inr there

/-- `entry(key).or_insert(value)`: keep a value that is already there. -/
def orInsert (map : KeyedMap κ ν) (key : κ) (value : ν) : KeyedMap κ ν :=
  match map.lookup key with
  | some _ => map
  | none => map.insert key value

theorem lookup_orInsert (map : KeyedMap κ ν) (key other : κ) (value : ν) :
    (orInsert map key value).lookup other =
      if other = key then some ((map.lookup key).getD value) else map.lookup other := by
  unfold orInsert
  cases found : map.lookup key with
  | some old =>
    by_cases same : other = key
    · subst same
      simp [found]
    · simp [same]
  | none => simp [lookup_insert_eq]

theorem lookup_of_orInsert (there : (orInsert map key value).lookup other = some found) :
    (other = key ∧ found = value) ∨ map.lookup other = some found := by
  unfold orInsert at there
  split at there
  · exact Or.inr there
  · exact lookup_of_insert there

/-- A new entry and the old ones are all the entries. -/
@[elab_as_elim]
theorem put_rule {motive : κ → ν → Prop}
    (there : (other = key ∧ found = value) ∨ map.lookup other = some found) (new : motive key value)
    (old : ∀ {other found}, map.lookup other = some found → motive other found) : motive other found := by
  rcases there with ⟨rfl, rfl⟩ | before
  · exact new
  · exact old before

/-- Later entries do not come back to a key, so the entry of a key is what is found there. -/
theorem lookup_foldl_insert (entries : List (Sigma fun _ : κ => ν)) (distinct : entries.NodupKeys)
    (map : KeyedMap κ ν) (key : κ) :
    (entries.foldl (fun map entry => map.insert entry.1 entry.2) map).lookup key =
      (entries.dlookup key).or (map.lookup key) := by
  induction entries generalizing map with
  | nil => rfl
  | cons entry rest ih =>
    obtain ⟨written, value⟩ := entry
    obtain ⟨absent, distinctRest⟩ := nodupKeys_cons.mp distinct
    rw [foldl_cons, ih distinctRest, lookup_insert_eq]
    by_cases same : key = written
    · subst same
      have nothing := dlookup_eq_none.mpr absent
      rw [nothing, dlookup_cons_eq, if_pos rfl]
      rfl
    · rw [dlookup_cons_ne _ _ (by exact same), if_neg same]

/-- Write every entry of one map into another. -/
def overwrite (map writes : KeyedMap κ ν) : KeyedMap κ ν :=
  writes.entries.foldl (fun map entry => map.insert entry.1 entry.2) map

theorem lookup_overwrite (map writes : KeyedMap κ ν) (key : κ) :
    (overwrite map writes).lookup key = (writes.lookup key).or (map.lookup key) :=
  lookup_foldl_insert writes.entries writes.nodupKeys map key

theorem mem_entries_iff (map : KeyedMap κ ν) (key : κ) (value : ν) :
    (⟨key, value⟩ : Sigma fun _ : κ => ν) ∈ map.entries ↔ map.lookup key = some value :=
  AList.mem_lookup_iff.symm

omit [DecidableEq κ] in
/-- The keys whose value satisfies a test, without repetition. -/
theorem filter_keys_nodup (map : KeyedMap κ ν) (test : (Sigma fun _ : κ => ν) → Bool) :
    ((map.entries.filter test).map Sigma.fst).Nodup :=
  (filter_sublist.map Sigma.fst).nodup map.nodupKeys

omit [DecidableEq κ] in
/-- The entries in the order of their keys. -/
def ascending [LE κ] [DecidableLE κ] (map : KeyedMap κ ν) : List (κ × ν) :=
  (map.entries.map fun entry => (entry.1, entry.2)).insertionSort fun a b => a.1 ≤ b.1

theorem mem_ascending [LE κ] [DecidableLE κ] (map : KeyedMap κ ν) (key : κ) (value : ν) :
    (key, value) ∈ map.ascending ↔ map.lookup key = some value := by
  rw [ascending, mem_insertionSort, mem_map, ← mem_entries_iff]
  constructor
  · rintro ⟨⟨other, found⟩, mem, same⟩
    cases same
    exact mem
  · intro mem
    exact ⟨_, mem, rfl⟩

omit [DecidableEq κ] in
theorem ascending_keys_nodup [LE κ] [DecidableLE κ] (map : KeyedMap κ ν) :
    (map.ascending.map Prod.fst).Nodup := by
  have sorted := (perm_insertionSort (fun a b : κ × ν => a.1 ≤ b.1)
    (map.entries.map fun entry => (entry.1, entry.2))).map Prod.fst
  rw [ascending, sorted.nodup_iff, map_map]
  exact map.nodupKeys

omit [DecidableEq κ] in
/-- Lists in the order of their distinct keys are equal if they have the same entries. -/
theorem eq_of_sorted_keys [LE κ] [Std.Antisymm fun a b : κ => a ≤ b] {first second : List (κ × ν)}
    (sorted : first.Pairwise fun a b => a.1 ≤ b.1) (sortedToo : second.Pairwise fun a b => a.1 ≤ b.1)
    (distinct : (first.map Prod.fst).Nodup) (distinctToo : (second.map Prod.fst).Nodup)
    (same : ∀ entry, entry ∈ first ↔ entry ∈ second) : first = second := by
  refine List.Perm.eq_of_pairwise (fun one two inFirst inSecond below above => ?_) sorted sortedToo
    ((perm_ext_iff_of_nodup (List.Nodup.of_map _ distinct) (List.Nodup.of_map _ distinctToo)).mpr same)
  exact inj_on_of_nodup_map distinct inFirst ((same two).mpr inSecond)
    (Std.Antisymm.antisymm one.1 two.1 below above)

omit [DecidableEq κ] in
theorem ascending_sorted [LE κ] [DecidableLE κ] [Std.Total fun a b : κ => a ≤ b]
    [IsTrans κ fun a b => a ≤ b] (map : KeyedMap κ ν) :
    map.ascending.Pairwise fun a b => a.1 ≤ b.1 := by
  exact pairwise_insertionSort _ _

/-- The ordered traversal depends only on what is found at each key. -/
theorem ascending_congr [LE κ] [DecidableLE κ] [Std.Total fun a b : κ => a ≤ b]
    [IsTrans κ fun a b => a ≤ b] [Std.Antisymm fun a b : κ => a ≤ b] {other : KeyedMap κ ν}
    (same : ∀ key, map.lookup key = other.lookup key) : map.ascending = other.ascending := by
  refine eq_of_sorted_keys map.ascending_sorted other.ascending_sorted map.ascending_keys_nodup
    other.ascending_keys_nodup fun entry => ?_
  rw [mem_ascending map entry.1 entry.2, mem_ascending other entry.1 entry.2, same]

omit [DecidableEq κ] in
theorem length_ascending [LE κ] [DecidableLE κ] (map : KeyedMap κ ν) :
    map.ascending.length = map.entries.length := by
  rw [ascending, length_insertionSort, length_map]

omit [DecidableEq κ] in
/-- Keep the entries whose key passes a test. -/
def retain (map : KeyedMap κ ν) (keep : κ → Bool) : KeyedMap κ ν :=
  ⟨map.entries.filter fun entry => keep entry.1, map.nodupKeys.sublist List.filter_sublist⟩

theorem lookup_retain {keep : κ → Bool} (found : (map.retain keep).lookup key = some value) :
    map.lookup key = some value := by
  rw [← mem_entries_iff] at found ⊢
  exact (mem_filter.mp found).1

end KeyedMap

end EgoChain.Foundations
