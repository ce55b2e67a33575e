import EgoChain.Foundations.KeyedMap

/-!
# Overlays

Changes to a map are collected on top of it and written at once.  The values
that stood at the changed keys undo the change, and the undo lists of several
overlays, the last one first, take a map back through all of them.
-/

namespace EgoChain.Foundations

open KeyedMap

namespace KeyedMap

variable {κ ν : Type} [DecidableEq κ] (map : KeyedMap κ ν)

/-- Write a value at a key, or delete the key. -/
def assign (key : κ) : Option ν → KeyedMap κ ν
  | some value => map.insert key value
  | none => map.erase key

theorem lookup_assign (key other : κ) (value : Option ν) :
    (map.assign key value).lookup other = if other = key then value else map.lookup other := by
  cases value with
  | some value => exact lookup_insert_eq map key other value
  | none =>
    by_cases same : other = key
    · subst same
      simp [assign]
    · simp [assign, same]

def assignAll (writes : List (κ × Option ν)) : KeyedMap κ ν :=
  writes.foldl (fun map write => map.assign write.1 write.2) map

variable {key : κ} {writes : List (κ × Option ν)}

theorem lookup_assignAll_of_not_mem (absent : key ∉ writes.map Prod.fst) (map : KeyedMap κ ν) :
    (map.assignAll writes).lookup key = map.lookup key := by
  induction writes generalizing map with
  | nil => rfl
  | cons write rest ih =>
    rw [List.map_cons, List.mem_cons, not_or] at absent
    refine (ih absent.2 _).trans ?_
    rw [lookup_assign, if_neg absent.1]

theorem lookup_assignAll_of_mem {value : Option ν} (distinct : (writes.map Prod.fst).Nodup)
    (mem : (key, value) ∈ writes) (map : KeyedMap κ ν) :
    (map.assignAll writes).lookup key = value := by
  induction writes generalizing map with
  | nil => cases mem
  | cons write rest ih =>
    obtain ⟨absent, distinctRest⟩ := List.nodup_cons.mp distinct
    rcases List.mem_cons.mp mem with here | later
    · subst here
      refine (lookup_assignAll_of_not_mem absent _).trans ?_
      rw [lookup_assign, if_pos rfl]
    · exact ih distinctRest later _

/-- What is found at a key after the writes depends only on what was found there before. -/
theorem lookup_assignAll_congr {map other : KeyedMap κ ν} (same : map.lookup key = other.lookup key)
    (writes : List (κ × Option ν)) :
    (map.assignAll writes).lookup key = (other.assignAll writes).lookup key := by
  induction writes generalizing map other with
  | nil => exact same
  | cons write rest ih =>
    apply ih
    rw [lookup_assign, lookup_assign, same]

end KeyedMap

/-- A map with changes that are not written yet; a change to `none` deletes the key. -/
structure Overlay (κ ν : Type) where
  base : KeyedMap κ ν
  map : KeyedMap κ (Option ν)

namespace Overlay

variable {κ ν : Type} [DecidableEq κ]

def get (overlay : Overlay κ ν) (key : κ) : Option ν :=
  match overlay.map.lookup key with
  | some value => value
  | none => overlay.base.lookup key

def put (overlay : Overlay κ ν) (key : κ) (value : ν) : Overlay κ ν :=
  { overlay with map := overlay.map.insert key (some value) }

def del (overlay : Overlay κ ν) (key : κ) : Overlay κ ν :=
  { overlay with map := overlay.map.insert key none }

variable [LE κ] [DecidableLE κ]

/-- The base with the changes written. -/
def flushed (overlay : Overlay κ ν) : KeyedMap κ ν :=
  overlay.base.assignAll overlay.map.ascending

/-- The changed keys in their order, each with what stands there in the base. -/
def undo (overlay : Overlay κ ν) : List (κ × Option ν) :=
  overlay.map.ascending.map fun change => (change.1, overlay.base.lookup change.1)

section

variable (overlay : Overlay κ ν)

include overlay

theorem undo_keys : overlay.undo.map Prod.fst = overlay.map.ascending.map Prod.fst := by
  rw [undo, List.map_map]
  rfl

/-- The undo list has every changed key, with its value before the change, and nothing else. -/
theorem mem_undo (key : κ) (value : Option ν) :
    (key, value) ∈ overlay.undo ↔ key ∈ overlay.map ∧ value = overlay.base.lookup key := by
  unfold undo
  rw [List.mem_map, ← AList.lookup_isSome, Option.isSome_iff_exists]
  constructor
  · rintro ⟨⟨changed, now⟩, mem, same⟩
    cases same
    exact ⟨⟨now, (mem_ascending _ _ _).mp mem⟩, rfl⟩
  · rintro ⟨⟨now, found⟩, rfl⟩
    exact ⟨(key, now), (mem_ascending _ _ _).mpr found, rfl⟩

theorem mem_undo_keys (key : κ) : key ∈ overlay.undo.map Prod.fst ↔ key ∈ overlay.map := by
  rw [List.mem_map]
  constructor
  · rintro ⟨⟨changed, value⟩, mem, rfl⟩
    exact ((mem_undo overlay changed value).mp mem).1
  · intro changed
    exact ⟨(key, overlay.base.lookup key), (mem_undo overlay _ _).mpr ⟨changed, rfl⟩, rfl⟩

theorem undo_keys_nodup : (overlay.undo.map Prod.fst).Nodup := by
  rw [undo_keys]
  exact ascending_keys_nodup overlay.map

/-- Writing the changes makes the map what the overlay showed. -/
theorem lookup_flushed (key : κ) : overlay.flushed.lookup key = overlay.get key := by
  unfold get
  cases found : overlay.map.lookup key with
  | some value =>
    exact lookup_assignAll_of_mem (ascending_keys_nodup _) ((mem_ascending _ _ _).mpr found) _
  | none =>
    refine lookup_assignAll_of_not_mem ?_ _
    rw [← undo_keys, mem_undo_keys]
    exact AList.lookup_eq_none.mp found

/-- The undo list takes the written map back to the base. -/
theorem lookup_assignAll_undo (key : κ) :
    (overlay.flushed.assignAll overlay.undo).lookup key = overlay.base.lookup key := by
  by_cases changed : key ∈ overlay.map
  · exact lookup_assignAll_of_mem overlay.undo_keys_nodup ((mem_undo overlay _ _).mpr ⟨changed, rfl⟩) _
  · rw [lookup_assignAll_of_not_mem (mt (mem_undo_keys overlay key).mp changed),
      lookup_flushed, get, AList.lookup_eq_none.mpr changed]

end

end Overlay

end EgoChain.Foundations
