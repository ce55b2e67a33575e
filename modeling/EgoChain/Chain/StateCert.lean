import EgoChain.Foundations.Texts
import EgoChain.Foundations.PromotedTree

/-!
# Certified state

The state is certified by the root of a hash tree over its entries, in chunks of a
fixed size.  A node that joins takes the chunks from anyone, each with its way to
the root, and puts them together.
-/

namespace EgoChain.Chain.StateCert

open EgoChain.Foundations List
open EgoChain.Foundations.Text (Bytes32 hex32 hex32_toHex)

/-! ## Chunks and their tree -/

def zero32 : Bytes32 := ⟨List.replicate 32 0, by decide⟩

structure StateEntry where
  tag : UInt8
  key : Text
  value : Text
  deriving DecidableEq

def chunkEntries : Nat := 4096

/-- The lengths are written as `u32`. -/
def feed (entry : StateEntry) : Text :=
  entry.tag :: leBytes 4 entry.key.length ++ entry.key ++ leBytes 4 entry.value.length ++ entry.value

def chunkHasher : Text := utf8 "ego/state/chunk/v1:"

def chunkText (entries : List StateEntry) : Text := chunkHasher ++ entries.flatMap feed

def nodeText (pair : Bytes32 × Bytes32) : Text :=
  utf8 "ego/state/node/v1:" ++ pair.1.val ++ pair.2.val

section Hashing

variable (blake3 : Text → Bytes32)

def chunkHash (entries : List StateEntry) : Bytes32 := blake3 (chunkText entries)

def node (left right : Bytes32) : Bytes32 := blake3 (nodeText (left, right))

variable (leaves : List Bytes32)

def merkleRoot : Bytes32 :=
  (ascend (node blake3) leaves.length leaves).headD zero32

def merklePath (index : Nat) : List Bytes32 :=
  waySiblings (node blake3) leaves.length leaves index

def merkleVerify (leaf : Bytes32) (index count : Nat) (path : List Bytes32) (root : Bytes32) : Bool :=
  index < count && walkUp (node blake3) count leaf index count path = some root

end Hashing

/-! ## The builder -/

structure ChunkStart where
  tag : UInt8
  key : Text

/-- The root, the hashes of the chunks and their first keys, as hexadecimal texts. -/
structure Digest where
  root : Text
  chunks : List Text
  starts : List ChunkStart

def Digest.chunkHashes (digest : Digest) : List Bytes32 :=
  digest.chunks.map fun chunk => (hex32 chunk).getD zero32

/-- The hasher is what it has been fed with. -/
structure RootBuilder where
  hasher : Text := chunkHasher
  inChunk : Nat := 0
  chunks : List Bytes32 := []
  starts : List ChunkStart := []

namespace RootBuilder

variable (blake3 : Text → Bytes32) (builder : RootBuilder)

/-- A new chunk begins with a new hasher. -/
def begin' (entry : StateEntry) : RootBuilder :=
  if builder.inChunk = 0 then
    { builder with
      hasher := chunkHasher
      starts := builder.starts ++ [⟨entry.tag, entry.key.toHex⟩] }
  else builder

def add (entry : StateEntry) : RootBuilder :=
  let begun := builder.begin' entry
  let hasher := begun.hasher ++ feed entry
  if begun.inChunk + 1 = chunkEntries then
    { begun with hasher := hasher, chunks := begun.chunks ++ [blake3 hasher], inChunk := 0 }
  else { begun with hasher := hasher, inChunk := begun.inChunk + 1 }

def finish : Digest :=
  let chunks :=
    if 0 < builder.inChunk then builder.chunks ++ [blake3 builder.hasher] else builder.chunks
  { root := (merkleRoot blake3 chunks).val.toHex
    chunks := chunks.map fun chunk => chunk.val.toHex
    starts := builder.starts }

end RootBuilder

def digestOf (blake3 : Text → Bytes32) (entries : List StateEntry) : Digest :=
  (entries.foldl (RootBuilder.add blake3) {}).finish blake3

/-- All chunks but the last are full, and the last is not empty. -/
def sizeOk (entries : List StateEntry) (index count : Nat) : Bool :=
  if index + 1 < count then entries.length = chunkEntries
  else !entries.isEmpty && entries.length ≤ chunkEntries

def chunkOk (blake3 : Text → Bytes32) (entries : List StateEntry) (index count : Nat)
    (path : List Bytes32) (root : Bytes32) : Bool :=
  sizeOk entries index count && merkleVerify blake3 (chunkHash blake3 entries) index count path root

/-! ## What the builder computes -/

/-- The hashes of the chunks of a list. -/
def chunkHashesOf (blake3 : Text → Bytes32) (entries : List StateEntry) : List Bytes32 :=
  (pieces chunkEntries entries).map (chunkHash blake3)

/-- The builder after some entries. -/
structure Built (blake3 : Text → Bytes32) (entries : List StateEntry) (builder : RootBuilder) : Prop where
  inChunk : builder.inChunk = entries.length % chunkEntries
  chunks : builder.chunks = (List.range (entries.length / chunkEntries)).map fun index =>
    chunkHash blake3 (pieceAt chunkEntries entries index)
  hasher : builder.inChunk ≠ 0 →
    builder.hasher = chunkText (entries.drop (entries.length / chunkEntries * chunkEntries))

section Builder

variable {blake3 : Text → Bytes32} {entries : List StateEntry} {builder : RootBuilder}

theorem built_nil : Built blake3 [] {} := ⟨rfl, rfl, fun absent => absurd rfl absent⟩

theorem chunkText_append (entries more : List StateEntry) :
    chunkText (entries ++ more) = chunkText entries ++ more.flatMap feed := by
  rw [chunkText, chunkText, flatMap_append, append_assoc]

theorem Built.hasher_begin (built : Built blake3 entries builder) (entry : StateEntry) :
    (builder.begin' entry).hasher ++ feed entry =
      chunkText ((entries ++ [entry]).drop (entries.length / chunkEntries * chunkEntries)) := by
  have inside : entries.length / chunkEntries * chunkEntries ≤ entries.length := Nat.div_mul_le_self _ _
  rw [drop_append_of_le_length inside, chunkText_append, flatMap_singleton]
  congr 1
  unfold RootBuilder.begin'
  split
  case isTrue new =>
    have full := Nat.div_mul_cancel (Nat.dvd_of_mod_eq_zero (built.inChunk.symm.trans new))
    rw [full, drop_length]
    exact (append_nil _).symm
  case isFalse old => exact built.hasher old

theorem Built.add (built : Built blake3 entries builder) (entry : StateEntry) :
    Built blake3 (entries ++ [entry]) (builder.add blake3 entry) := by
  have hasher := built.hasher_begin entry
  have same : (builder.begin' entry).inChunk = entries.length % chunkEntries := by
    rw [← built.inChunk]
    unfold RootBuilder.begin'
    split <;> rfl
  have chunks : (builder.begin' entry).chunks =
      (List.range (entries.length / chunkEntries)).map fun index =>
        chunkHash blake3 (pieceAt chunkEntries (entries ++ [entry]) index) := by
    have kept : (builder.begin' entry).chunks = builder.chunks := by
      unfold RootBuilder.begin'
      split <;> rfl
    rw [kept, built.chunks]
    refine map_congr_left fun index mem => ?_
    have full := le_trans (Nat.mul_le_mul_right _ (mem_range.mp mem)) (Nat.div_mul_le_self _ _)
    rw [pieceAt_append full]
  have length : (entries ++ [entry]).length = entries.length + 1 := by simp
  unfold RootBuilder.add
  dsimp only
  rw [same]
  unfold chunkEntries at *
  split
  case isTrue full =>
    have next : (entries.length + 1) / 4096 = entries.length / 4096 + 1 := by omega
    have whole : ((entries ++ [entry]).drop (entries.length / 4096 * 4096)).length ≤ 4096 := by
      rw [length_drop]
      omega
    refine ⟨?_, ?_, absurd rfl⟩ <;> unfold chunkEntries
    · dsimp only
      omega
    · rw [length, next, range_succ, map_append, ← chunks, hasher]
      simp only [map_cons, pieceAt, take_of_length_le whole]
      rfl
  case isFalse part =>
    have next : (entries.length + 1) / 4096 = entries.length / 4096 := by omega
    refine ⟨?_, ?_, fun _ => ?_⟩ <;> unfold chunkEntries
    · dsimp only
      omega
    · rw [length, next]
      exact chunks
    · rw [length, next]
      exact hasher

theorem built_foldl (entries : List StateEntry) :
    Built blake3 entries (entries.foldl (RootBuilder.add blake3) {}) := by
  induction entries using List.reverseRecOn with
  | nil => exact built_nil
  | append_singleton entries entry ih =>
    rw [foldl_append]
    exact ih.add entry

/-- The last chunk is closed where the entries end. -/
theorem Built.chunks_finish (built : Built blake3 entries builder) :
    (if 0 < builder.inChunk then builder.chunks ++ [blake3 builder.hasher] else builder.chunks) =
      chunkHashesOf blake3 entries := by
  unfold chunkHashesOf pieces
  rw [map_map]
  split
  case isTrue open' =>
    have count : (entries.length + chunkEntries - 1) / chunkEntries = entries.length / chunkEntries + 1 := by
      rw [built.inChunk] at open'
      unfold chunkEntries at open' ⊢
      omega
    have whole : (entries.drop (entries.length / chunkEntries * chunkEntries)).length ≤ chunkEntries := by
      rw [length_drop]
      unfold chunkEntries
      omega
    rw [count, range_succ, map_append, built.chunks, built.hasher (by omega)]
    simp only [map_cons, Function.comp_apply, pieceAt, take_of_length_le whole]
    rfl
  case isFalse closed =>
    have count : (entries.length + chunkEntries - 1) / chunkEntries = entries.length / chunkEntries := by
      rw [built.inChunk] at closed
      unfold chunkEntries at closed ⊢
      omega
    rw [count, built.chunks]
    rfl

variable (blake3) (entries)

/-- The digest of a list is that of its chunks. -/
theorem digestOf_eq : digestOf blake3 entries = {
      root := (merkleRoot blake3 (chunkHashesOf blake3 entries)).val.toHex
      chunks := (chunkHashesOf blake3 entries).map fun chunk => chunk.val.toHex
      starts := (entries.foldl (RootBuilder.add blake3) {}).starts } := by
  unfold digestOf RootBuilder.finish
  rw [(built_foldl entries).chunks_finish]

theorem chunkHashes_digestOf :
    (digestOf blake3 entries).chunkHashes = chunkHashesOf blake3 entries := by
  rw [digestOf_eq, Digest.chunkHashes, map_map]
  refine (map_congr_left fun chunk _ => ?_).trans (map_id _)
  rw [Function.comp_apply, hex32_toHex]
  rfl

end Builder

/-! ## Every chunk is accepted -/

variable {entries : List StateEntry} {index : Nat}

section

variable (inside : index < (pieces chunkEntries entries).length)

include inside

theorem sizeOk_pieceAt :
    sizeOk (pieceAt chunkEntries entries index) index (pieces chunkEntries entries).length = true := by
  have count : (pieces chunkEntries entries).length = (entries.length + chunkEntries - 1) / chunkEntries := by
    rw [pieces, length_map, length_range]
  have length : (pieceAt chunkEntries entries index).length =
      min chunkEntries (entries.length - index * chunkEntries) := by
    rw [pieceAt, length_take, length_drop]
  rw [count] at inside ⊢
  unfold sizeOk
  split
  case isTrue early =>
    refine decide_eq_true ?_
    rw [length]
    unfold chunkEntries at early ⊢
    omega
  case isFalse last =>
    have some' : (pieceAt chunkEntries entries index).length ≠ 0 := by
      rw [length]
      unfold chunkEntries at inside ⊢
      omega
    rw [Bool.and_eq_true, decide_eq_true_eq, length]
    refine ⟨?_, min_le_left _ _⟩
    rw [Bool.not_eq_true', isEmpty_eq_false_iff]
    exact fun empty => some' (by rw [empty]; rfl)

variable (blake3 : Text → Bytes32)

theorem getElem?_chunkHashesOf :
    (chunkHashesOf blake3 entries)[index]? = some (chunkHash blake3 (pieceAt chunkEntries entries index)) := by
  rw [chunkHashesOf, List.getElem?_map, getElem?_pieces _ _ inside]
  rfl

omit inside in
theorem length_chunkHashesOf (entries : List StateEntry) :
    (chunkHashesOf blake3 entries).length = (pieces chunkEntries entries).length := by
  rw [chunkHashesOf, length_map]

/-- The root is the top of the tree over the chunks. -/
theorem ascend_chunkHashesOf :
    ascend (node blake3) (pieces chunkEntries entries).length (chunkHashesOf blake3 entries) =
        [merkleRoot blake3 (chunkHashesOf blake3 entries)] ∧
      walkUp (node blake3) (pieces chunkEntries entries).length
        (chunkHash blake3 (pieceAt chunkEntries entries index)) index (pieces chunkEntries entries).length
        (merklePath blake3 (chunkHashesOf blake3 entries) index) =
        some (merkleRoot blake3 (chunkHashesOf blake3 entries)) := by
  obtain ⟨top, isTop, walk⟩ := @walkUp_waySiblings _ (node blake3) _ _ _ _ (Nat.le_succ _)
    (getElem?_chunkHashesOf inside blake3)
  unfold merkleRoot merklePath
  rw [← length_chunkHashesOf blake3, isTop, walk]
  exact ⟨rfl, rfl⟩

end

variable {texts : Set Text}

/-! ## No other chunks are accepted -/

/-- Keys and values are shorter than 4 GiB. -/
def Short (entry : StateEntry) : Prop := entry.key.length < 2 ^ 32 ∧ entry.value.length < 2 ^ 32

theorem feed_append_inj {entry other : StateEntry} (short : Short entry) (shortToo : Short other)
    {rest tail : Text} (same : feed entry ++ rest = feed other ++ tail) : entry = other ∧ rest = tail := by
  unfold feed at same
  simp only [append_assoc] at same
  obtain ⟨tags, same⟩ := List.cons.inj same
  obtain ⟨lengths, same⟩ := leBytes_append_inj short.1 shortToo.1 same
  obtain ⟨keys, same⟩ := append_inj same lengths
  obtain ⟨lengths, same⟩ := leBytes_append_inj short.2 shortToo.2 same
  obtain ⟨values, later⟩ := append_inj same lengths
  obtain ⟨tag, key, value⟩ := entry
  dsimp only at tags keys values
  rw [tags, keys, values]
  exact ⟨rfl, later⟩

theorem feed_ne_nil (entry : StateEntry) (rest : Text) : feed entry ++ rest ≠ [] := by
  simp [feed]

/-- The text of a chunk tells its entries. -/
theorem chunkText_inj {more : List StateEntry} (short : ∀ entry ∈ entries, Short entry)
    (shortToo : ∀ entry ∈ more, Short entry) (same : chunkText entries = chunkText more) :
    entries = more := by
  replace same := append_cancel_left same
  induction entries generalizing more with
  | nil =>
    cases more with
    | nil => rfl
    | cons other tail => exact absurd same.symm (feed_ne_nil other _)
  | cons entry rest ih =>
    cases more with
    | nil => exact absurd same (feed_ne_nil entry _)
    | cons other tail =>
      obtain ⟨rfl, later⟩ := feed_append_inj (short entry mem_cons_self)
        (shortToo other mem_cons_self) same
      rw [ih (fun entry mem => short entry (mem_cons_of_mem _ mem))
        (fun entry mem => shortToo entry (mem_cons_of_mem _ mem)) later]

/-- A chunk that someone sent, with its way to the root. -/
structure SentChunk where
  entries : List StateEntry
  path : List Bytes32

/-- The texts that are hashed when the digest of a list is computed. -/
def builtTexts (blake3 : Text → Bytes32) (entries : List StateEntry) : List Text :=
  (pieces chunkEntries entries).map chunkText ++
    (ascended (node blake3) (pieces chunkEntries entries).length (chunkHashesOf blake3 entries)).map nodeText

/-- The texts that are hashed when a chunk is checked. -/
def checkedTexts (blake3 : Text → Bytes32) (chunk : SentChunk) (index count : Nat) : List Text :=
  chunkText chunk.entries ::
    (walked (node blake3) count (chunkHash blake3 chunk.entries) index count chunk.path).map nodeText

theorem nodeText_inj {pair other : Bytes32 × Bytes32} (same : nodeText pair = nodeText other) :
    pair = other := by
  unfold nodeText at same
  rw [append_assoc] at same
  obtain ⟨left, right⟩ := append_inj (append_cancel_left same)
    (pair.1.property.trans other.1.property.symm)
  exact Prod.ext (Subtype.ext left) (Subtype.ext right)

/-- A chunk that passes for an index has the entries that the list has there. -/
theorem entries_of_chunkOk {blake3 : Text → Bytes32} {chunk : SentChunk}
    (inside : index < (pieces chunkEntries entries).length) (free : Set.InjOn blake3 texts)
    (built : ∀ text ∈ builtTexts blake3 entries, text ∈ texts)
    (checked : ∀ text ∈ checkedTexts blake3 chunk index (pieces chunkEntries entries).length, text ∈ texts)
    (short : ∀ entry ∈ entries, Short entry) (shortToo : ∀ entry ∈ chunk.entries, Short entry)
    (passed : chunkOk blake3 chunk.entries index (pieces chunkEntries entries).length chunk.path
      (merkleRoot blake3 (chunkHashesOf blake3 entries)) = true) :
    chunk.entries = pieceAt chunkEntries entries index := by
  have length := length_chunkHashesOf blake3 entries
  have verified := (Bool.and_eq_true_iff.mp (Bool.and_eq_true_iff.mp passed).2).2
  have walk := of_decide_eq_true verified
  have top := (ascend_chunkHashesOf inside blake3).1
  rw [← length] at walk top
  have leaf := eq_of_walkUp (Nat.le_succ _) (by rwa [length]) top walk (by
    rw [length]
    have hashed := forall_mem_append.mpr
      ⟨fun pair inTree => built _ (mem_append_right _ (mem_map_of_mem inTree)),
        fun pair onWay => checked _ (mem_cons_of_mem _ (mem_map_of_mem onWay))⟩
    exact fun first mem second memToo same =>
      nodeText_inj (free (hashed first mem) (hashed second memToo) same))
  rw [getElem?_chunkHashesOf inside blake3] at leaf
  have piece := mem_of_getElem? (getElem?_pieces _ _ inside)
  have texts := free (built _ (mem_append_left _ (mem_map_of_mem piece)))
    (checked _ mem_cons_self) (Option.some.inj leaf)
  refine (chunkText_inj (fun entry mem => short entry ?_) shortToo texts).symm
  exact mem_of_mem_drop (mem_of_mem_take mem)

/-- The texts that are hashed for a list and for the chunks that someone sent. -/
def certTexts (blake3 : Text → Bytes32) (entries : List StateEntry) (chunks : List SentChunk) : Set Text :=
  { text | text ∈ builtTexts blake3 entries ∨ ∃ index chunk, chunks[index]? = some chunk ∧
    text ∈ checkedTexts blake3 chunk index chunks.length }

/-- Every chunk of a list passes with its own way to the root, and chunks of short entries that pass
for all places make up the list, unless two of the texts that are hashed have the same hash. -/
theorem certified_state_is_bound (blake3 : Text → Bytes32) (entries : List StateEntry) :
    ∃ root, hex32 (digestOf blake3 entries).root = some root ∧
      (∀ index < (digestOf blake3 entries).chunks.length,
        chunkOk blake3 (pieceAt chunkEntries entries index) index (digestOf blake3 entries).chunks.length
          (merklePath blake3 (digestOf blake3 entries).chunkHashes index) root = true) ∧
      ∀ chunks : List SentChunk, chunks.length = (digestOf blake3 entries).chunks.length →
        (∀ entry ∈ entries, Short entry) → (∀ chunk ∈ chunks, ∀ entry ∈ chunk.entries, Short entry) →
        Set.InjOn blake3 (certTexts blake3 entries chunks) →
        (∀ index chunk, chunks[index]? = some chunk →
          chunkOk blake3 chunk.entries index (digestOf blake3 entries).chunks.length chunk.path root = true) →
        (chunks.map SentChunk.entries).flatten = entries := by
  have count : (digestOf blake3 entries).chunks.length = (pieces chunkEntries entries).length := by
    rw [digestOf_eq, length_map, length_chunkHashesOf]
  rw [count, chunkHashes_digestOf]
  refine ⟨merkleRoot blake3 (chunkHashesOf blake3 entries), ?_, ?_, ?_⟩
  · rw [digestOf_eq, hex32_toHex]
  · intro index inside
    unfold chunkOk merkleVerify
    rw [sizeOk_pieceAt inside, (ascend_chunkHashesOf inside blake3).2, decide_eq_true inside,
      decide_eq_true rfl]
    rfl
  · intro chunks number short shortToo free passed
    have same : chunks.map SentChunk.entries = pieces chunkEntries entries := by
      refine ext_getElem? fun index => ?_
      rw [List.getElem?_map]
      cases found : chunks[index]? with
      | none =>
        have outside := List.getElem?_eq_none_iff.mp found
        rw [List.getElem?_eq_none (by omega)]
        rfl
      | some chunk =>
        have inside : index < (pieces chunkEntries entries).length := by
          have := (List.getElem?_eq_some_iff.mp found).1
          omega
        have here := entries_of_chunkOk inside free (fun _ => Or.inl)
          (fun text mem => Or.inr ⟨index, chunk, found, by rwa [number]⟩) short
          (shortToo chunk (mem_of_getElem? found)) (passed index chunk found)
        rw [getElem?_pieces _ _ inside, Option.map_some, here]
    rw [same, flatten_pieces (by decide)]

/-! ## A list of two chunks -/

/-- A hash for short texts: one byte out of the length and the end of the text. -/
def byteHash (text : Text) : Bytes32 :=
  ⟨List.replicate 32 (if 4096 ≤ text.length then 1 else UInt8.ofNat text.length + text.getLastD 0),
    length_replicate⟩

def ones : Bytes32 := ⟨List.replicate 32 1, length_replicate⟩

def filled : StateEntry := ⟨1, [97], [98]⟩

/-- The same key with a longer value. -/
def forged : StateEntry := ⟨1, [97], [98, 99]⟩

def fullChunk : List StateEntry := List.replicate 4096 filled

def twoChunks : List StateEntry := List.replicate 4097 filled

theorem pieceAt_first : pieceAt chunkEntries twoChunks 0 = fullChunk := by
  rw [pieceAt, twoChunks, drop_replicate, take_replicate]
  rfl

theorem pieceAt_second : pieceAt chunkEntries twoChunks 1 = [filled] := by
  rw [pieceAt, twoChunks, drop_replicate, take_replicate]
  rfl

theorem pieces_twoChunks : pieces chunkEntries twoChunks = [fullChunk, [filled]] := by
  have count : (twoChunks.length + chunkEntries - 1) / chunkEntries = 2 := by
    rw [twoChunks, length_replicate]
    rfl
  rw [pieces, count, range_succ, range_succ, range_zero]
  exact congrArg₂ (fun one two => [one, two]) pieceAt_first pieceAt_second

theorem short_filled {count : Nat} {entry : StateEntry} (mem : entry ∈ List.replicate count filled) :
    Short entry := by
  rw [eq_of_mem_replicate mem]
  exact ⟨by decide, by decide⟩

theorem byteHash_fullChunk : byteHash (chunkText fullChunk) = ones := by
  have long : 4096 ≤ (chunkText fullChunk).length := by
    rw [chunkText, length_append, length_flatMap, fullChunk, map_replicate, sum_replicate_nat]
    exact Nat.le_add_left_of_le (by decide)
  rw [byteHash]
  exact Subtype.ext (congrArg (List.replicate 32) (if_pos long))

/-- All texts that are hashed for the list and for the chunks with the forged entry. -/
def forgedTexts : List Text :=
  [chunkText fullChunk, chunkText [filled], nodeText (ones, byteHash (chunkText [filled])),
    chunkText [forged], nodeText (ones, byteHash (chunkText [forged]))]

def forgedChunks : List SentChunk :=
  [⟨fullChunk, [byteHash (chunkText [filled])]⟩, ⟨[forged], [ones]⟩]

theorem chunkHashes_twoChunks :
    chunkHashesOf byteHash twoChunks = [ones, byteHash (chunkText [filled])] := by
  rw [chunkHashesOf, pieces_twoChunks, ← byteHash_fullChunk]
  rfl

theorem mem_forgedTexts {text : Text} (mem : text ∈ certTexts byteHash twoChunks forgedChunks) :
    text ∈ forgedTexts := by
  rcases mem with built | ⟨index, chunk, found, checked⟩
  · rw [builtTexts, chunkHashes_twoChunks, pieces_twoChunks] at built
    have listed : text ∈ [chunkText fullChunk, chunkText [filled],
      nodeText (ones, byteHash (chunkText [filled]))] := built
    exact (take_subset 3 forgedTexts) listed
  · match index with
    | 0 =>
      cases found
      have listed : text ∈ [chunkText fullChunk,
        nodeText (byteHash (chunkText fullChunk), byteHash (chunkText [filled]))] := checked
      rw [byteHash_fullChunk] at listed
      simp only [mem_cons, not_mem_nil, or_false] at listed
      rcases listed with rfl | rfl <;> simp [forgedTexts]
    | 1 =>
      cases found
      have listed : text ∈ drop 3 forgedTexts := checked
      exact mem_of_mem_drop listed
    | index + 2 => cases found

theorem byteHash_injOn : Set.InjOn byteHash (certTexts byteHash twoChunks forgedChunks) := by
  have apart : (forgedTexts.map byteHash).Nodup := by
    rw [forgedTexts, map_cons, byteHash_fullChunk]
    decide
  exact fun first mem second memToo same =>
    inj_on_of_nodup_map apart (mem_forgedTexts mem) (mem_forgedTexts memToo) same

/-- Both chunks of a list pass, and the second one no longer does when its value was made longer. -/
theorem longer_value_is_refused : ∃ (blake3 : Text → Bytes32) (root : Bytes32),
      hex32 (digestOf blake3 twoChunks).root = some root ∧
      chunkOk blake3 fullChunk 0 2 [blake3 (chunkText [filled])] root = true ∧
      chunkOk blake3 [filled] 1 2 [blake3 (chunkText fullChunk)] root = true ∧
      chunkOk blake3 [forged] 1 2 [blake3 (chunkText fullChunk)] root = false := by
  obtain ⟨root, isRoot, own, bound⟩ := certified_state_is_bound byteHash twoChunks
  have count : (digestOf byteHash twoChunks).chunks.length = 2 := by
    rw [digestOf_eq, length_map, chunkHashes_twoChunks]
    rfl
  rw [count, chunkHashes_digestOf, chunkHashes_twoChunks] at own
  rw [count] at bound
  have first := own 0 (by decide)
  have second := own 1 (by decide)
  rw [pieceAt_first] at first
  rw [pieceAt_second] at second
  refine ⟨byteHash, root, isRoot, first, ?_, ?_⟩
  · rw [byteHash_fullChunk]
    exact second
  · rw [byteHash_fullChunk, ← Bool.not_eq_true]
    intro accepted
    have same := bound forgedChunks rfl (fun _ => short_filled) ?_ byteHash_injOn ?_
    · have mem : forged ∈ twoChunks := by
        rw [← same]
        exact mem_flatten.mpr ⟨[forged], mem_cons_of_mem _ mem_cons_self, mem_singleton_self _⟩
      exact absurd (eq_of_mem_replicate mem) (by decide)
    · refine forall_mem_cons.mpr ⟨fun _ => short_filled, forall_mem_singleton.mpr ?_⟩
      exact forall_mem_singleton.mpr ⟨by decide, by decide⟩
    · intro index chunk found
      match index with
      | 0 =>
        cases found
        exact first
      | 1 =>
        cases found
        exact accepted
      | index + 2 => cases found

end EgoChain.Chain.StateCert
