import EgoChain.Foundations.Base64

/-!
# Lists of members

A list of indices is written as the differences between neighbours, seven bits to a byte and the
lowest first, where the high bit says that more bytes follow.  Base64 makes a text of the bytes.
-/

namespace EgoChain.Nodes

open EgoChain.Foundations List

/-- The inner loop of `encode_members`. -/
def encodeDelta (d : Nat) : List UInt8 :=
  if d / 128 = 0 then [UInt8.ofNat (d % 128)]
  else UInt8.ofNat (d % 128 + 128) :: encodeDelta (d / 128)

/-- The outer loop, which starts with 0 as the number before the first. -/
def encodeDeltas (prev : Nat) : List Nat → List UInt8
  | [] => []
  | v :: rest => encodeDelta ((v + (2 ^ 64 - prev)) % 2 ^ 64) ++ encodeDeltas v rest

structure MemberReader where
  out : List Nat := []
  cur : Nat := 0
  shift : Nat := 0
  prev : Nat := 0

namespace MemberReader

variable (reader : MemberReader) {next : MemberReader} {out list : List Nat} {v prev d : Nat}
  {bytes rest : List UInt8}

/-- What the last byte of a number does. -/
def push (cur : Nat) : Option MemberReader :=
  if reader.out = [] then some { out := [cur], prev := cur }
  else if cur = 0 ∨ 2 ^ 64 ≤ reader.prev + cur then none
  else some { out := reader.out ++ [reader.prev + cur], prev := reader.prev + cur }

def read (b : UInt8) : Option MemberReader :=
  if 63 < reader.shift then none
  else
    let cur := reader.cur ||| (b.toNat % 128) <<< reader.shift % 2 ^ 64
    if b.toNat < 128 then reader.push cur
    else some { reader with cur := cur, shift := reader.shift + 7 }

variable {reader}

/-- The reader has the lowest bits of a number, and these are the others. -/
structure Lacks (v d : Nat) (reader : MemberReader) : Prop where
  low : reader.cur < 2 ^ reader.shift
  whole : v = reader.cur + 2 ^ reader.shift * d
  small : v < 2 ^ 64

/-- Seven more bits of a number that fits. -/
theorem Lacks.cur (lacks : reader.Lacks v d) :
    reader.cur ||| (d % 128) <<< reader.shift % 2 ^ 64 = reader.cur + 2 ^ reader.shift * (d % 128) := by
  obtain ⟨low, whole, small⟩ := lacks
  have part := Nat.mul_le_mul_left (2 ^ reader.shift) (Nat.mod_le d 128)
  rw [Nat.shiftLeft_eq, Nat.mul_comm, Nat.mod_eq_of_lt (by omega), Nat.or_comm,
    ← Nat.two_pow_add_eq_or_of_lt low, Nat.add_comm]

theorem Lacks.advance (lacks : reader.Lacks v d) (more : d / 128 ≠ 0) : reader.shift + 7 ≤ 63 ∧
    Lacks v (d / 128) { reader with
      cur := reader.cur + 2 ^ reader.shift * (d % 128), shift := reader.shift + 7 } := by
  obtain ⟨low, whole, small⟩ := lacks
  have power : 2 ^ (reader.shift + 7) = 2 ^ reader.shift * 128 := Nat.pow_add ..
  have split : 2 ^ reader.shift * d =
      2 ^ reader.shift * (d % 128) + 2 ^ (reader.shift + 7) * (d / 128) := by
    rw [power, Nat.mul_assoc, ← Nat.mul_add, Nat.mod_add_div]
  have bits := Nat.mul_le_mul_left (2 ^ reader.shift) (Nat.mod_lt d (by decide : 0 < 128))
  have part := Nat.mul_le_mul_left (2 ^ (reader.shift + 7)) (Nat.one_le_iff_ne_zero.mpr more)
  rw [Nat.mul_succ] at bits
  refine ⟨Nat.le_of_lt_succ ((Nat.pow_lt_pow_iff_right (by decide)).mp (by omega : _ < 2 ^ 64)), ?_, ?_,
    small⟩ <;> dsimp only <;> omega

/-- The bytes of a number are read as the number, whatever follows. -/
theorem foldlM_encodeDelta (lacks : reader.Lacks v d) (inside : reader.shift ≤ 63) :
    (encodeDelta d ++ rest).foldlM read reader =
      (reader.push v).bind fun next => rest.foldlM read next := by
  induction d using encodeDelta.induct generalizing reader with
  | case1 d last =>
    have byte : (UInt8.ofNat (d % 128)).toNat = d % 128 := by
      rw [UInt8.toNat_ofNat']
      omega
    have whole := lacks.cur
    rw [show d % 128 = d by omega, ← lacks.whole] at whole
    rw [encodeDelta, if_pos last, singleton_append, foldlM_cons, read, if_neg (Nat.not_lt.mpr inside),
      byte, if_pos (Nat.mod_lt d (by decide)), Nat.mod_mod, show d % 128 = d by omega, whole]
    rfl
  | case2 d more ih =>
    have byte : (UInt8.ofNat (d % 128 + 128)).toNat = d % 128 + 128 := by
      rw [UInt8.toNat_ofNat']
      omega
    obtain ⟨room, left⟩ := lacks.advance more
    rw [encodeDelta, if_neg more, cons_append, foldlM_cons, read, if_neg (Nat.not_lt.mpr inside),
      byte, if_neg (by omega), Nat.add_mod_right, Nat.mod_mod, lacks.cur]
    exact ih left room

theorem foldlM_encodeDeltas (first : out = [] → prev = 0) (sorted : list.Pairwise (· < ·))
    (above : out ≠ [] → ∀ v ∈ list, prev < v) (small : ∀ v ∈ list, v < 2 ^ 64) :
    ∃ last, (encodeDeltas prev list).foldlM read ⟨out, 0, 0, prev⟩ = some ⟨out ++ list, 0, 0, last⟩ := by
  induction list generalizing out prev with
  | nil => exact ⟨prev, by rw [append_nil]; rfl⟩
  | cons v rest ih =>
    obtain ⟨later, sortedRest⟩ := pairwise_cons.mp sorted
    obtain ⟨fits, smallRest⟩ := forall_mem_cons.mp small
    generalize isDelta : (v + (2 ^ 64 - prev)) % 2 ^ 64 = delta
    have pushed : push ⟨out, 0, 0, prev⟩ delta = some ⟨out ++ [v], 0, 0, v⟩ := by
      by_cases none' : out = []
      · have same : delta = v := by rw [← isDelta, first none']; omega
        rw [push, if_pos none', none', same]
        rfl
      · have grows := above none' v mem_cons_self
        have same : prev + delta = v := by omega
        rw [push, if_neg none', if_neg (by dsimp only; omega), same]
    have lacks : Lacks delta delta ⟨out, 0, 0, prev⟩ := ⟨by simp, by simp, by omega⟩
    obtain ⟨last, done⟩ := @ih (out ++ [v]) v (by simp) sortedRest (fun _ => later) smallRest
    rw [append_assoc] at done
    refine ⟨last, ?_⟩
    rw [encodeDeltas, isDelta, foldlM_encodeDelta lacks (Nat.zero_le _), pushed]
    exact done

/-- The numbers so far are in order, and the last of them is kept. -/
structure Ordered (reader : MemberReader) : Prop where
  sorted : reader.out.Pairwise (· < ·)
  most : ∀ v ∈ reader.out, v ≤ reader.prev

theorem Ordered.push (ordered : reader.Ordered) (pushed : reader.push v = some next) : next.Ordered := by
  unfold MemberReader.push at pushed
  split at pushed
  · cases pushed
    exact ⟨pairwise_singleton _ _, by simp⟩
  obtain ⟨valid, pushed⟩ := Option.ite_none_left_eq_some.mp pushed
  cases pushed
  have below := ordered.most
  constructor
  · refine pairwise_append.mpr ⟨ordered.sorted, pairwise_singleton _ _, fun old mem => ?_⟩
    grind
  · grind

theorem Ordered.foldlM (ordered : reader.Ordered) (done : bytes.foldlM read reader = some next) :
    next.Ordered := by
  induction bytes generalizing reader with
  | nil =>
    cases done
    exact ordered
  | cons b rest ih =>
    obtain ⟨middle, first, later⟩ := Option.bind_eq_some_iff.mp done
    obtain ⟨-, first⟩ := Option.ite_none_left_eq_some.mp first
    refine ih ?_ later
    dsimp only at first
    split at first
    · exact ordered.push first
    · cases first
      exact { ordered with }

end MemberReader

def encodeMembers (sorted : List Nat) : Text := Base64.encode (encodeDeltas 0 sorted)

def decodeMembers (s : Text) : Option (List Nat) := do
  let bytes ← Base64.decode s
  let reader ← bytes.foldlM MemberReader.read {}
  if reader.shift = 0 then some reader.out else none

/-- Increasing lists of 64-bit numbers come back as they are, and whatever text is read gives an
increasing list or nothing. -/
theorem member_lists_round_trip :
    (∀ list : List Nat, list.Pairwise (· < ·) → (∀ v ∈ list, v < 2 ^ 64) →
      decodeMembers (encodeMembers list) = some list) ∧
    ∀ s list, decodeMembers s = some list → list.Pairwise (· < ·) := by
  constructor
  · intro list sorted small
    obtain ⟨last, done⟩ := @MemberReader.foldlM_encodeDeltas [] list 0 (fun _ => rfl) sorted
      (fun some' => absurd rfl some') small
    simp [decodeMembers, encodeMembers, Base64.decode_encode, done]
  · intro s list done
    obtain ⟨bytes, -, done⟩ := Option.bind_eq_some_iff.mp done
    obtain ⟨reader, read, done⟩ := Option.bind_eq_some_iff.mp done
    obtain ⟨-, done⟩ := Option.ite_none_right_eq_some.mp done
    cases done
    exact (MemberReader.Ordered.foldlM ⟨Pairwise.nil, by simp⟩ read).sorted

theorem three_members_round_trip : encodeMembers [3, 200, 2 ^ 40] = utf8 "A8UBuP7///8f" ∧
    decodeMembers (utf8 "A8UBuP7///8f") = some [3, 200, 2 ^ 40] := by
  have bytes : encodeDeltas 0 [3, 200, 2 ^ 40] = [3, 197, 1, 184, 254, 255, 255, 255, 31] := by
    simp [encodeDeltas, encodeDelta]
  have text : encodeMembers [3, 200, 2 ^ 40] = utf8 "A8UBuP7///8f" := by
    rw [encodeMembers, bytes]
    decide
  exact ⟨text, text ▸ member_lists_round_trip.1 _ (by decide) (by decide)⟩

end EgoChain.Nodes
