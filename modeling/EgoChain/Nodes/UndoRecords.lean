import EgoChain.Foundations.Bytes
import EgoChain.Foundations.Overlay
import Mathlib.Data.List.Induction

/-!
# Undo records of node state

A block changes node state through an overlay.  Before the overlay is written, the
changed keys and what stood there are stored as one byte string with the block;
to go back to a lower height the records are read and applied from the tip down.
Lengths are stored in four bytes, so keys and values have to be shorter than
`2 ^ 32` bytes.
-/

namespace EgoChain.Nodes

open EgoChain.Foundations Option List

abbrev Bytes := List UInt8

/-- The overlay over the column of node state. -/
abbrev Ov := Overlay Bytes Bytes

def lengthBytes (bytes : Bytes) : Bytes := leBytes 4 bytes.length

def undoEntry (entry : Bytes × Option Bytes) : Bytes :=
  lengthBytes entry.1 ++ entry.1 ++ match entry.2 with
    | some value => 1 :: (lengthBytes value ++ value)
    | none => [0]

def undoRecord (ov : Ov) : Bytes := ov.undo.flatMap undoEntry

/-- `take`: the next bytes and what follows them. -/
def take (count : Nat) (bytes : Bytes) : Option (Bytes × Bytes) :=
  if count ≤ bytes.length then some (bytes.take count, bytes.drop count) else none

variable (state : KeyedMap Bytes Bytes) (store : NodeStore) (height : Nat) (ops : List OvOp)
  (bytes : Bytes)

def readBytes : Option (Bytes × Bytes) := do
  let (length, bytes) ← take 4 bytes
  take (leNat length) bytes

/-- One turn of the loop in `read_undo`. -/
def readEntry : Option ((Bytes × Option Bytes) × Bytes) := do
  let (key, bytes) ← readBytes bytes
  let (tag, bytes) ← take 1 bytes
  match tag with
  | [1] =>
    let (value, bytes) ← readBytes bytes
    some ((key, some value), bytes)
  | [0] => some ((key, none), bytes)
  | _ => none

variable {count : Nat} {bytes} {entry : Bytes × Option Bytes} {ov : Ov} {front back : Bytes}

theorem take_eq_some (taken : take count bytes = some (front, back)) :
    bytes = front ++ back ∧ front.length = count := by
  obtain ⟨enough, taken⟩ := ite_none_right_eq_some.mp taken
  cases taken
  exact ⟨(take_append_drop count bytes).symm, length_take_of_le enough⟩

theorem readBytes_length_lt (read : readBytes bytes = some (front, back)) :
    back.length < bytes.length := by
  unfold readBytes at read
  rw [bind_eq_bind, bind_eq_some_iff] at read
  obtain ⟨⟨length, rest⟩, first, second⟩ := read
  obtain ⟨rfl, four⟩ := take_eq_some first
  obtain ⟨rfl, -⟩ := take_eq_some second
  simp only [length_append]
  omega

theorem readEntry_length_lt {rest : Bytes} (read : readEntry bytes = some (entry, rest)) :
    rest.length < bytes.length := by
  unfold readEntry at read
  simp only [bind_eq_bind, bind_eq_some_iff] at read
  obtain ⟨⟨key, afterKey⟩, keyRead, ⟨tag, afterTag⟩, tagRead, read⟩ := read
  have keyShorter := readBytes_length_lt keyRead
  obtain ⟨rfl, -⟩ := take_eq_some tagRead
  rw [length_append] at keyShorter
  split at read
  case h_1 =>
    rw [bind_eq_some_iff] at read
    obtain ⟨⟨value, afterValue⟩, valueRead, same⟩ := read
    have valueShorter := readBytes_length_lt valueRead
    obtain ⟨-, rfl⟩ := Prod.mk.inj (Option.some.inj same)
    dsimp only at valueShorter ⊢
    omega
  case h_2 =>
    obtain ⟨-, rfl⟩ := Prod.mk.inj (Option.some.inj read)
    dsimp only
    omega
  case h_3 => cases read

def readUndo (bytes : Bytes) : Option (List (Bytes × Option Bytes)) :=
  match bytes with
  | [] => some []
  | byte :: more =>
    match _read : readEntry (byte :: more) with
    | none => none
    | some (entry, rest) => (readUndo rest).map (entry :: ·)
termination_by bytes.length
decreasing_by exact readEntry_length_lt _read

/-! ## What is written is read -/

def Short (bytes : Bytes) : Prop := bytes.length < 2 ^ 32

instance (bytes : Bytes) : Decidable (Short bytes) := inferInstanceAs (Decidable (_ < _))

theorem take_append (front back : Bytes) : take front.length (front ++ back) = some (front, back) := by
  simp [take]

theorem readBytes_append (short : Short bytes) (rest : Bytes) :
    readBytes (lengthBytes bytes ++ bytes ++ rest) = some (bytes, rest) := by
  have four : (lengthBytes bytes).length = 4 := length_leBytes 4 _
  have number : leNat (lengthBytes bytes) = bytes.length := by
    unfold lengthBytes
    rw [leNat_leBytes]
    exact Nat.mod_eq_of_lt short
  unfold readBytes
  rw [← four]
  simp [number, take_append]

def ShortEntry (entry : Bytes × Option Bytes) : Prop :=
  Short entry.1 ∧ ∀ value, entry.2 = some value → Short value

theorem readEntry_append (short : ShortEntry entry) (rest : Bytes) :
    readEntry (undoEntry entry ++ rest) = some (entry, rest) := by
  obtain ⟨key, value⟩ := entry
  obtain ⟨shortKey, shortValue⟩ := short
  unfold readEntry undoEntry
  cases value with
  | none =>
    rw [append_assoc, readBytes_append shortKey]
    rfl
  | some value =>
    have tag : take 1 (1 :: (lengthBytes value ++ value) ++ rest) =
        some ([1], lengthBytes value ++ value ++ rest) := rfl
    rw [append_assoc, readBytes_append shortKey]
    simp only [bind_eq_bind, bind_some]
    rw [tag, bind_some]
    rw [readBytes_append (shortValue value rfl)]
    rfl

theorem readUndo_entry (short : ShortEntry entry) (rest : Bytes) :
    readUndo (undoEntry entry ++ rest) = (readUndo rest).map (entry :: ·) := by
  have read := readEntry_append short rest
  cases bytes : undoEntry entry ++ rest with
  | nil =>
    rw [bytes] at read
    cases read
  | cons byte more =>
    rw [bytes] at read
    rw [readUndo]
    split
    case h_1 none => cases read.symm.trans none
    case h_2 found tail there =>
      cases read.symm.trans there
      rfl

theorem readUndo_flatMap {entries : List (Bytes × Option Bytes)}
    (short : ∀ entry ∈ entries, ShortEntry entry) :
    readUndo (entries.flatMap undoEntry) = some entries := by
  induction entries with
  | nil => rw [flatMap_nil, readUndo]
  | cons entry rest ih =>
    rw [flatMap_cons, readUndo_entry (short entry mem_cons_self),
      ih fun other mem => short other (mem_cons_of_mem _ mem), map_some]

/-- The record of an overlay reads back as the changed keys with their values before the changes. -/
theorem readUndo_undoRecord (keys : ∀ key ∈ ov.map, Short key)
    (values : ∀ key value, ov.base.lookup key = some value → Short value) :
    readUndo (undoRecord ov) = some ov.undo := by
  refine readUndo_flatMap fun entry mem => ?_
  obtain ⟨changed, before⟩ := (Overlay.mem_undo ov entry.1 entry.2).mp mem
  exact ⟨keys entry.1 changed, fun value found => values entry.1 value (before.symm.trans found)⟩

/-! ## Blocks -/

inductive OvOp where
  | put (key value : Bytes)
  | del (key : Bytes)
  deriving DecidableEq, Repr

namespace OvOp

def key : OvOp → Bytes
  | .put key _ => key
  | .del key => key

def run (ov : Ov) : OvOp → Ov
  | .put key value => ov.put key value
  | .del key => ov.del key

def Short : OvOp → Prop
  | .put key value => Nodes.Short key ∧ Nodes.Short value
  | .del key => Nodes.Short key

end OvOp

def undoKeep : Nat := 1000

/-- Node state as it is stored, with the undo records of the last blocks. -/
structure NodeStore where
  state : KeyedMap Bytes Bytes
  records : KeyedMap Nat Bytes

def NodeStore.overlay : Ov :=
  ops.foldl OvOp.run ⟨store.state, ∅⟩

/-- The end of `write_block_batch`: the undo record, then the changes. -/
def NodeStore.writeBlock : NodeStore :=
  let ov := store.overlay ops
  let records := store.records.insert height (undoRecord ov)
  { state := ov.flushed
    records := if height > undoKeep then records.erase (height - undoKeep) else records }

/-- The records of the blocks from the tip down to a height, if all of them are stored. -/
def NodeStore.undoRecordsIn (tip : Nat) : Option (List Bytes) :=
  (List.range' height (tip + 1 - height)).reverse.mapM fun at' => store.records.lookup at'

def applyUndoRecords (records : List Bytes) : KeyedMap Bytes Bytes :=
  records.foldl (fun state record => state.assignAll ((readUndo record).getD [])) state

/-- The blocks above a height, one after the other. -/
def NodeStore.writeBlocks (store : NodeStore) (height : Nat) : List (List OvOp) → NodeStore
  | [] => store
  | ops :: rest => (store.writeBlock (height + 1) ops).writeBlocks (height + 1) rest

/-! ## What an overlay holds -/

@[simp]
theorem overlay_base : (store.overlay ops).base = store.state := by
  unfold NodeStore.overlay
  induction ops using List.reverseRecOn with
  | nil => rfl
  | append_singleton rest op ih =>
    rw [foldl_concat]
    cases op <;> exact ih

variable {ops} {store}

theorem mem_map_foldl_run {key : Bytes} :
    key ∈ (ops.foldl OvOp.run ov).map ↔ key ∈ ov.map ∨ ∃ op ∈ ops, op.key = key := by
  induction ops generalizing ov with
  | nil => simp
  | cons op rest ih =>
    have first : key ∈ (op.run ov).map ↔ op.key = key ∨ key ∈ ov.map := by
      cases op <;> simp [OvOp.run, OvOp.key, Overlay.put, Overlay.del, AList.mem_insert, eq_comm]
    rw [foldl_cons, ih, exists_mem_cons_iff]
    tauto

/-- The changed keys are those of the operations. -/
theorem mem_overlay_map {key : Bytes} : key ∈ (store.overlay ops).map ↔ ∃ op ∈ ops, op.key = key := by
  unfold NodeStore.overlay
  rw [mem_map_foldl_run]
  simp

variable {op : OvOp}

theorem OvOp.Short.key (short : op.Short) : Nodes.Short op.key := by
  cases op with
  | put => exact short.1
  | del => exact short

/-- The values in a map are short enough to be stored in a record. -/
def ShortValues : Prop :=
  ∀ key value, state.lookup key = some value → Short value

/-- The values an overlay shows are short. -/
def ShortOverlay (ov : Ov) : Prop := ∀ key value, ov.get key = some value → Short value

theorem ShortOverlay.run (shown : ShortOverlay ov) (short : op.Short) : ShortOverlay (op.run ov) := by
  intro key value found
  have before := shown key value
  unfold Overlay.get at found before
  cases op with
  | put changed new =>
    rw [OvOp.run, Overlay.put, KeyedMap.lookup_insert_eq] at found
    by_cases same : key = changed
    · rw [if_pos same] at found
      cases found
      exact short.2
    · rw [if_neg same] at found
      exact before found
  | del changed =>
    rw [OvOp.run, Overlay.del, KeyedMap.lookup_insert_eq] at found
    by_cases same : key = changed
    · rw [if_pos same] at found
      cases found
    · rw [if_neg same] at found
      exact before found

theorem ShortOverlay.foldl (short : ∀ op ∈ ops, op.Short) (shown : ShortOverlay ov) :
    ShortOverlay (ops.foldl OvOp.run ov) := by
  induction ops generalizing ov with
  | nil => exact shown
  | cons op rest ih =>
    exact ih (fun other mem => short other (mem_cons_of_mem _ mem)) (shown.run (short op mem_cons_self))

section

section

variable (values : ShortValues store.state) (short : ∀ op ∈ ops, op.Short) (height : Nat)

include values short

theorem ShortValues.writeBlock : ShortValues (store.writeBlock height ops).state := by
  intro key value found
  have shown : ShortOverlay ⟨store.state, ∅⟩ := values
  exact shown.foldl short key value ((Overlay.lookup_flushed _ key).symm.trans found)

theorem readUndo_overlay :
    readUndo (undoRecord (store.overlay ops)) = some (store.overlay ops).undo := by
  refine readUndo_undoRecord (fun key mem => ?_) (by rw [overlay_base]; exact values)
  obtain ⟨op, listed, rfl⟩ := mem_overlay_map.mp mem
  exact (short op listed).key

/-- The record of a block takes the state after it back to the state before it. -/
theorem lookup_undo_writeBlock (key : Bytes) : (applyUndoRecords (store.writeBlock height ops).state
      [undoRecord (store.overlay ops)]).lookup key = store.state.lookup key := by
  have undone := Overlay.lookup_assignAll_undo (store.overlay ops) key
  rw [overlay_base] at undone
  rw [applyUndoRecords, foldl_cons, foldl_nil, readUndo_overlay values short, getD_some]
  exact undone

end

end

/-! ## Going back several blocks -/

theorem lookup_applyUndoRecords_congr {state other : KeyedMap Bytes Bytes}
    (same : ∀ key, state.lookup key = other.lookup key) (records : List Bytes) (key : Bytes) :
    (applyUndoRecords state records).lookup key = (applyUndoRecords other records).lookup key := by
  induction records generalizing state other with
  | nil => exact same key
  | cons record rest ih => exact ih fun key => KeyedMap.lookup_assignAll_congr (same key) _

namespace NodeStore

theorem writeBlocks_append (store : NodeStore) (height : Nat) (front rest : List (List OvOp)) :
    store.writeBlocks height (front ++ rest) =
      (store.writeBlocks height front).writeBlocks (height + front.length) rest := by
  induction front generalizing store height with
  | nil => rfl
  | cons ops front ih =>
    rw [cons_append, writeBlocks, ih, length_cons]
    congr 1
    omega

theorem writeBlocks_concat (store : NodeStore) (height : Nat) (front : List (List OvOp))
    (ops : List OvOp) :
    store.writeBlocks height (front ++ [ops]) =
      (store.writeBlocks height front).writeBlock (height + front.length + 1) ops := by
  rw [writeBlocks_append]
  rfl

variable {blocks : List (List OvOp)} {height} {records : List Bytes}

theorem shortValues_writeBlocks (values : ShortValues store.state)
    (short : ∀ ops ∈ blocks, ∀ op ∈ ops, op.Short) (height : Nat) :
    ShortValues (store.writeBlocks height blocks).state := by
  induction blocks generalizing store height with
  | nil => exact values
  | cons ops rest ih =>
    exact ih (values.writeBlock (short ops mem_cons_self) _)
      (fun other mem => short other (mem_cons_of_mem _ mem)) (height + 1)

theorem undoRecordsIn_self (store : NodeStore) (height : Nat) :
    store.undoRecordsIn (height + 1) height = some [] := by
  unfold undoRecordsIn
  rw [Nat.sub_self]
  rfl

theorem undoRecordsIn_succ (store : NodeStore) (height count : Nat) :
    store.undoRecordsIn (height + 1) (height + (count + 1)) =
      (store.records.lookup (height + count + 1)).bind fun record =>
        (store.undoRecordsIn (height + 1) (height + count)).map (record :: ·) := by
  have counts : height + (count + 1) + 1 - (height + 1) = count + 1 := by omega
  have last : height + 1 + 1 * count = height + count + 1 := by omega
  unfold undoRecordsIn
  rw [counts, List.range'_concat, last]
  simp [map_eq_bind]

theorem lookup_records_writeBlock (store : NodeStore) (height at' : Nat) (ops : List OvOp) :
    (store.writeBlock height ops).records.lookup at' =
      if 0 < at' ∧ at' + undoKeep = height then none
      else if at' = height then some (undoRecord (store.overlay ops))
      else store.records.lookup at' := by
  unfold writeBlock
  split
  case isTrue above =>
    by_cases erased : at' + undoKeep = height
    · rw [if_pos ⟨by omega, erased⟩, show height - undoKeep = at' by omega, AList.lookup_erase]
    · rw [if_neg (by omega), AList.lookup_erase_ne (by omega), KeyedMap.lookup_insert_eq]
  case isFalse below =>
    rw [if_neg (by omega), KeyedMap.lookup_insert_eq]

/-- A record that is still stored after a block above it is the one stored before. -/
theorem undoRecordsIn_writeBlock {top : Nat} (below : height + count < top)
    (found : (store.writeBlock top ops).undoRecordsIn (height + 1) (height + count) = some records) :
    store.undoRecordsIn (height + 1) (height + count) = some records := by
  induction count generalizing records with
  | zero =>
    have nothing := (undoRecordsIn_self _ height).symm.trans found
    exact (undoRecordsIn_self store height).trans nothing
  | succ count ih =>
    rw [undoRecordsIn_succ, bind_eq_some_iff] at found ⊢
    obtain ⟨record, stored, rest⟩ := found
    obtain ⟨older, found, rfl⟩ := map_eq_some_iff.mp rest
    rw [lookup_records_writeBlock] at stored
    obtain ⟨-, stored⟩ := ite_none_left_eq_some.mp stored
    rw [if_neg (by omega)] at stored
    exact ⟨record, stored, map_eq_some_iff.mpr ⟨older, ih (by omega) found, rfl⟩⟩

/-- The records of the last blocks are stored. -/
theorem records_kept (store : NodeStore) (height : Nat) {at' : Nat} (above : height < at')
    (below : at' ≤ height + blocks.length) (recent : height + blocks.length < at' + undoKeep) :
    ((store.writeBlocks height blocks).records.lookup at').isSome := by
  induction blocks using List.reverseRecOn with
  | nil =>
    rw [length_nil] at below
    omega
  | append_singleton front ops ih =>
    rw [length_append, length_singleton] at below recent
    rw [writeBlocks_concat, lookup_records_writeBlock, if_neg (by omega)]
    split
    case isTrue => rfl
    case isFalse other => exact ih (by omega) (by omega)

theorem undoRecordsIn_isSome
    (stored : ∀ at', height < at' → at' ≤ height + count → (store.records.lookup at').isSome) :
    ∃ records, store.undoRecordsIn (height + 1) (height + count) = some records := by
  induction count with
  | zero => exact ⟨[], undoRecordsIn_self store height⟩
  | succ count ih =>
    obtain ⟨older, found⟩ := ih fun at' above below => stored at' above (by omega)
    obtain ⟨record, top⟩ := isSome_iff_exists.mp (stored (height + count + 1) (by omega) (by omega))
    refine ⟨record :: older, ?_⟩
    rw [undoRecordsIn_succ, top, found]
    rfl

/-- The stored records of the blocks above a height take the state back to that height. -/
theorem lookup_applyUndoRecords (values : ShortValues store.state)
    (short : ∀ ops ∈ blocks, ∀ op ∈ ops, op.Short)
    (found : (store.writeBlocks height blocks).undoRecordsIn (height + 1)
      (height + blocks.length) = some records) (key : Bytes) :
    (applyUndoRecords (store.writeBlocks height blocks).state records).lookup key =
      store.state.lookup key := by
  -- The last block is undone first.
  induction blocks using List.reverseRecOn generalizing records with
  | nil =>
    cases (undoRecordsIn_self store height).symm.trans found
    rfl
  | append_singleton front ops ih =>
    have shortFront := fun others mem => short others (mem_append_left _ mem)
    have shortLast := short ops (by simp)
    rw [length_append, length_singleton, undoRecordsIn_succ, bind_eq_some_iff] at found
    obtain ⟨record, top, rest⟩ := found
    obtain ⟨older, found, rfl⟩ := map_eq_some_iff.mp rest
    rw [writeBlocks_concat] at top found ⊢
    have kept : 0 < undoKeep := by decide
    rw [lookup_records_writeBlock, if_neg (by omega), if_pos rfl] at top
    cases top
    have undone := lookup_undo_writeBlock (shortValues_writeBlocks values shortFront height)
      shortLast (height + front.length + 1)
    calc
      _ = (applyUndoRecords (applyUndoRecords ((store.writeBlocks height front).writeBlock
            (height + front.length + 1) ops).state
            [undoRecord ((store.writeBlocks height front).overlay ops)]) older).lookup key := rfl
      _ = (applyUndoRecords (store.writeBlocks height front).state older).lookup key :=
        lookup_applyUndoRecords_congr undone older key
      _ = store.state.lookup key := ih shortFront (undoRecordsIn_writeBlock (by omega) found)

end NodeStore

/-- The record of every block reads back as the keys the block touched with their values before it,
and the stored records from the tip down to a height restore every key to its value at that
height; those of the last `undoKeep` blocks are stored. -/
theorem undo_records_restore_node_state (store : NodeStore) (height : Nat)
    (blocks : List (List OvOp)) (values : ShortValues store.state)
    (short : ∀ ops ∈ blocks, ∀ op ∈ ops, op.Short) :
    (∀ front ops rest, blocks = front ++ ops :: rest → ∃ entries,
      readUndo (undoRecord ((store.writeBlocks height front).overlay ops)) = some entries ∧
        (entries.map Prod.fst).Nodup ∧
        ∀ key value, (key, value) ∈ entries ↔ (∃ op ∈ ops, op.key = key) ∧
            value = (store.writeBlocks height front).state.lookup key) ∧
    ∀ front rest, blocks = front ++ rest →
      (rest.length ≤ undoKeep → ∃ records, (store.writeBlocks height blocks).undoRecordsIn
        (height + front.length + 1) (height + blocks.length) = some records) ∧
      ∀ records, (store.writeBlocks height blocks).undoRecordsIn
          (height + front.length + 1) (height + blocks.length) = some records → ∀ key,
        (applyUndoRecords (store.writeBlocks height blocks).state records).lookup key =
          (store.writeBlocks height front).state.lookup key := by
  constructor
  · rintro front ops rest rfl
    have before := NodeStore.shortValues_writeBlocks values
      (fun others mem => short others (mem_append_left _ mem)) height
    refine ⟨_, readUndo_overlay before (short ops (by simp)), Overlay.undo_keys_nodup _, ?_⟩
    intro key value
    rw [Overlay.mem_undo, mem_overlay_map, overlay_base]
  · rintro front rest rfl
    have tip : height + (front ++ rest).length = height + front.length + rest.length := by
      rw [length_append]
      omega
    have before := NodeStore.shortValues_writeBlocks values
      (fun others mem => short others (mem_append_left _ mem)) height
    rw [tip, NodeStore.writeBlocks_append]
    refine ⟨fun recent => ?_, fun records found => ?_⟩
    · refine NodeStore.undoRecordsIn_isSome fun at' above below => ?_
      exact NodeStore.records_kept _ _ above below (by omega)
    · exact NodeStore.lookup_applyUndoRecords before
        (fun others mem => short others (mem_append_right _ mem)) found

/-- Two blocks that write, overwrite and delete, taken back to an empty state. -/
theorem two_blocks_are_undone : ∃ records, (NodeStore.writeBlocks ⟨∅, ∅⟩ 7
        [[.put [1] [2], .put [3] [4]], [.del [1], .put [3] []]]).undoRecordsIn 8 9 = some records ∧
      ∀ key, (applyUndoRecords (NodeStore.writeBlocks ⟨∅, ∅⟩ 7
        [[.put [1] [2], .put [3] [4]], [.del [1], .put [3] []]]).state records).lookup key = none := by
  have restores := (undo_records_restore_node_state ⟨∅, ∅⟩ 7
    [[.put [1] [2], .put [3] [4]], [.del [1], .put [3] []]] (nofun)
    (by simp [OvOp.Short, Short])).2 [] _ rfl
  obtain ⟨records, stored⟩ := restores.1 (by decide)
  exact ⟨records, stored, restores.2 records stored⟩

/-- A key of `2 ^ 32` bytes does not read back. -/
theorem long_key_is_not_read_back : ¬ ∀ (store : NodeStore) (ops : List OvOp),
      readUndo (undoRecord (store.overlay ops)) = some (store.overlay ops).undo := by
  intro always
  obtain ⟨key, length, zeros⟩ : ∃ key : Bytes, key.length = 2 ^ 32 ∧ ∀ byte ∈ key, byte = 0 :=
    ⟨List.replicate (2 ^ 32) 0, length_replicate, fun _ => eq_of_mem_replicate⟩
  cases key with
  | nil => simp at length
  | cons byte tail =>
    obtain rfl := zeros byte mem_cons_self
    have undo : (NodeStore.overlay ⟨∅, ∅⟩ [.del (0 :: tail)]).undo = [(0 :: tail, none)] := rfl
    have record : undoRecord (NodeStore.overlay ⟨∅, ∅⟩ [.del (0 :: tail)]) =
        undoEntry (0 :: tail, none) := by
      rw [undoRecord, undo, flatMap_singleton]
    -- The length is stored as zero, so the first byte of the key is read as the tag.
    have bytes : undoEntry (0 :: tail, none) = 0 :: 0 :: 0 :: 0 :: 0 :: (tail ++ [0]) := by
      unfold undoEntry lengthBytes
      rw [length]
      rfl
    have read : readEntry (0 :: 0 :: 0 :: 0 :: 0 :: (tail ++ [0])) =
        some (([], none), tail ++ [0]) := rfl
    have back := always ⟨∅, ∅⟩ [.del (0 :: tail)]
    rw [record, bytes, readUndo] at back
    split at back
    case h_1 => cases back
    case h_2 entry rest there =>
      cases read.symm.trans there
      obtain ⟨entries, -, same⟩ := map_eq_some_iff.mp back
      cases same

end EgoChain.Nodes
