import EgoChain.Foundations.Bytes
import EgoChain.Foundations.Checks

/-!
# Arguments of a call

Values are written one after the other: integers in little-endian order, texts and byte strings of
any length behind their length.
-/

namespace EgoChain.Vm

open EgoChain.Foundations

inductive AbiError where
  | bufferUnderflow (need offset have' : Nat)
  | invalidBool (byte : UInt8) (offset : Nat)
  | invalidUtf8 (offset : Nat)
  | invalidFixedBytesLen (len : Nat)
  | trailingBytes (trailing : Nat)

inductive AbiType where
  | uint8 | uint16 | uint32 | uint64 | uint128 | int8 | int16 | int32 | int64 | bool | address
  | bytes | string
  | fixedBytes (n : UInt8)

/-- A slice of so many bytes. -/
abbrev Slice (size : Nat) := { bytes : List UInt8 // bytes.length = size }

/-- Integers are the bits they are made of, with or without a sign. -/
inductive AbiValue where
  | uint8 (v : BitVec 8)
  | uint16 (v : BitVec 16)
  | uint32 (v : BitVec 32)
  | uint64 (v : BitVec 64)
  | uint128 (v : BitVec 128)
  | int8 (v : BitVec 8)
  | int16 (v : BitVec 16)
  | int32 (v : BitVec 32)
  | int64 (v : BitVec 64)
  | bool (b : Bool)
  | address (a : Slice 20)
  | bytes (b : List UInt8)
  | string (s : String)
  | fixedBytes (b : List UInt8)

namespace AbiValue

def abiType : AbiValue → AbiType
  | uint8 _ => .uint8
  | uint16 _ => .uint16
  | uint32 _ => .uint32
  | uint64 _ => .uint64
  | uint128 _ => .uint128
  | int8 _ => .int8
  | int16 _ => .int16
  | int32 _ => .int32
  | int64 _ => .int64
  | bool _ => .bool
  | address _ => .address
  | bytes _ => .bytes
  | string _ => .string
  | fixedBytes b => .fixedBytes (UInt8.ofNat b.length)

/-- The lengths that an encoding can carry. -/
def Fits : AbiValue → Prop
  | bytes b => b.length < 2 ^ 32
  | string s => (utf8 s).length < 2 ^ 32
  | fixedBytes b => 1 ≤ b.length ∧ b.length ≤ 32
  | _ => True

def encodeOne : AbiValue → List UInt8
  | uint8 v | int8 v => leBytes 1 v.toNat
  | uint16 v | int16 v => leBytes 2 v.toNat
  | uint32 v | int32 v => leBytes 4 v.toNat
  | uint64 v | int64 v => leBytes 8 v.toNat
  | uint128 v => leBytes 16 v.toNat
  | bool b => [if b then 1 else 0]
  | address a => a.1
  | bytes b => leBytes 4 b.length ++ b
  | string s => leBytes 4 (utf8 s).length ++ utf8 s
  | fixedBytes b => b

end AbiValue

def encode (values : List AbiValue) : List UInt8 := values.flatMap AbiValue.encodeOne

/-- An offset into the data, and the data from there on. -/
structure Cursor where
  offset : Nat
  rest : List UInt8

namespace Cursor

variable (cursor : Cursor)

def readBytes (need : Nat) : Except AbiError (Slice need × Cursor) :=
  if short : cursor.rest.length < need then
    .error (.bufferUnderflow need cursor.offset cursor.rest.length)
  else .ok (⟨cursor.rest.take need, by simp; omega⟩, ⟨cursor.offset + need, cursor.rest.drop need⟩)

def readInt (width : Nat) (value : BitVec (8 * width) → AbiValue) :
    Except AbiError (AbiValue × Cursor) := do
  let (b, cursor) ← cursor.readBytes width
  .ok (value (.ofNat _ (leNat b.1)), cursor)

/-- A length, and as many bytes. -/
def readDynamic : Except AbiError (List UInt8 × Cursor) := do
  let (len, cursor) ← cursor.readBytes 4
  let (body, cursor) ← cursor.readBytes (leNat len.1)
  .ok (body.1, cursor)

def decodeOne : AbiType → Except AbiError (AbiValue × Cursor)
  | .uint8 => cursor.readInt 1 .uint8
  | .uint16 => cursor.readInt 2 .uint16
  | .uint32 => cursor.readInt 4 .uint32
  | .uint64 => cursor.readInt 8 .uint64
  | .uint128 => cursor.readInt 16 .uint128
  | .int8 => cursor.readInt 1 .int8
  | .int16 => cursor.readInt 2 .int16
  | .int32 => cursor.readInt 4 .int32
  | .int64 => cursor.readInt 8 .int64
  | .bool => do
    let (b, cursor) ← cursor.readBytes 1
    if b.1 = [0] then .ok (.bool false, cursor)
    else if b.1 = [1] then .ok (.bool true, cursor)
    else .error (.invalidBool (b.1.headD 0) (cursor.offset - 1))
  | .address => do
    let (b, cursor) ← cursor.readBytes 20
    .ok (.address b, cursor)
  | .bytes => do
    let (body, cursor) ← cursor.readDynamic
    .ok (.bytes body, cursor)
  | .string => do
    let (body, cursor) ← cursor.readDynamic
    let s ← need (String.fromUTF8? ⟨body.toArray⟩) (.invalidUtf8 (cursor.offset - body.length))
    .ok (.string s, cursor)
  | .fixedBytes n =>
    if n.toNat = 0 ∨ 32 < n.toNat then .error (.invalidFixedBytesLen n.toNat)
    else do
      let (b, cursor) ← cursor.readBytes n.toNat
      .ok (.fixedBytes b.1, cursor)

def decodeAll : Cursor → List AbiType → Except AbiError (List AbiValue × Cursor)
  | cursor, [] => .ok ([], cursor)
  | cursor, t :: types => do
    let (v, cursor) ← cursor.decodeOne t
    let (values, cursor) ← decodeAll cursor types
    .ok (v :: values, cursor)

variable {cursor} {next : Cursor} {offset : Nat} {bytes rest : List UInt8} {v : AbiValue}

theorem readBytes_append {size : Nat} (sized : bytes.length = size) :
    readBytes ⟨offset, bytes ++ rest⟩ size = .ok (⟨bytes, sized⟩, ⟨offset + bytes.length, rest⟩) := by
  subst sized
  rw [readBytes, dif_neg (by simp)]
  simp

theorem readInt_append {width : Nat} {value : BitVec (8 * width) → AbiValue} {n : BitVec (8 * width)} :
    readInt ⟨offset, leBytes width n.toNat ++ rest⟩ width value =
      .ok (value n, ⟨offset + (leBytes width n.toNat).length, rest⟩) := by
  have fits : n.toNat < 256 ^ width := Nat.pow_mul 2 8 width ▸ n.isLt
  rw [readInt, readBytes_append (length_leBytes width n.toNat)]
  change Except.ok (value (.ofNat _ (leNat (leBytes width n.toNat))), _) = _
  rw [leNat_leBytes, Nat.mod_eq_of_lt fits, BitVec.ofNat_toNat, BitVec.setWidth_eq]

theorem readDynamic_append (fits : bytes.length < 2 ^ 32) :
    readDynamic ⟨offset, leBytes 4 bytes.length ++ bytes ++ rest⟩ =
      .ok (bytes, ⟨offset + (leBytes 4 bytes.length ++ bytes).length, rest⟩) := by
  have length : bytes.length = leNat (leBytes 4 bytes.length) := by
    rw [leNat_leBytes]
    omega
  rw [readDynamic, List.append_assoc, readBytes_append (length_leBytes 4 bytes.length)]
  change (readBytes ⟨_, bytes ++ rest⟩ (leNat (leBytes 4 bytes.length)) >>= _) = _
  rw [readBytes_append length, List.length_append, ← Nat.add_assoc]
  rfl

theorem fromUTF8?_eq_some {s : String} : String.fromUTF8? ⟨bytes.toArray⟩ = some s ↔ utf8 s = bytes := by
  unfold String.fromUTF8? utf8
  split
  case isTrue valid =>
    rw [Option.some.injEq]
    constructor <;> rintro rfl <;> rfl
  case isFalse invalid =>
    refine ⟨nofun, ?_⟩
    rintro rfl
    exact absurd s.isValidUTF8 invalid

theorem decodeOne_append (fits : v.Fits) : decodeOne ⟨offset, v.encodeOne ++ rest⟩ v.abiType =
    .ok (v, ⟨offset + v.encodeOne.length, rest⟩) := by
  cases v with
  | uint8 | uint16 | uint32 | uint64 | uint128 | int8 | int16 | int32 | int64 => apply readInt_append
  | bool b => cases b <;> rfl
  | address a =>
    rw [AbiValue.abiType, decodeOne, AbiValue.encodeOne, readBytes_append a.2]
    rfl
  | bytes b =>
    rw [AbiValue.abiType, decodeOne, AbiValue.encodeOne, readDynamic_append fits]
    rfl
  | string s =>
    rw [AbiValue.abiType, decodeOne, AbiValue.encodeOne, readDynamic_append fits]
    change (need (String.fromUTF8? ⟨(utf8 s).toArray⟩) _ >>= _) = _
    rw [fromUTF8?_eq_some.mpr rfl]
    rfl
  | fixedBytes b =>
    have bounds : 1 ≤ b.length ∧ b.length ≤ 32 := fits
    have length : b.length = (UInt8.ofNat b.length).toNat := by
      rw [UInt8.toNat_ofNat']
      omega
    rw [AbiValue.abiType, decodeOne, AbiValue.encodeOne, if_neg (by omega), readBytes_append length]
    rfl

theorem decodeAll_append {values : List AbiValue} (fits : ∀ v ∈ values, v.Fits) :
    ∃ last, decodeAll ⟨offset, encode values ++ rest⟩ (values.map AbiValue.abiType) =
      .ok (values, ⟨last, rest⟩) := by
  induction values generalizing offset with
  | nil => exact ⟨offset, rfl⟩
  | cons v values ih =>
    obtain ⟨fits, fitsRest⟩ := List.forall_mem_cons.mp fits
    obtain ⟨last, done⟩ := ih fitsRest
    refine ⟨last, ?_⟩
    rw [List.map_cons, decodeAll, encode, List.flatMap_cons, List.append_assoc, decodeOne_append fits]
    change (decodeAll _ (values.map AbiValue.abiType) >>= _) = _
    rw [← encode, done]
    rfl

theorem rest_of_readBytes {size : Nat} {b : Slice size} (read : cursor.readBytes size = .ok (b, next)) :
    cursor.rest = b.1 ++ next.rest := by
  unfold readBytes at read
  split at read
  · cases read
  · cases read
    exact (List.take_append_drop ..).symm

theorem rest_of_readInt {width : Nat} {value : BitVec (8 * width) → AbiValue}
    (read : cursor.readInt width value = .ok (v, next)) :
    ∃ n, v = value n ∧ cursor.rest = leBytes width n.toNat ++ next.rest := by
  obtain ⟨⟨⟨bytes, rfl⟩, after⟩, read, done⟩ := bind_eq_ok_iff.mp read
  cases done
  refine ⟨_, rfl, ?_⟩
  have fits := leNat_lt bytes
  rw [← Nat.pow_mul 2 8] at fits
  rw [BitVec.toNat_ofNat, Nat.mod_eq_of_lt fits, leBytes_leNat, rest_of_readBytes read]

theorem rest_of_readDynamic {body : List UInt8} (read : cursor.readDynamic = .ok (body, next)) :
    cursor.rest = leBytes 4 body.length ++ body ++ next.rest := by
  obtain ⟨⟨len, middle⟩, readLen, read⟩ := bind_eq_ok_iff.mp read
  obtain ⟨⟨body, after⟩, readBody, done⟩ := bind_eq_ok_iff.mp read
  cases done
  have bytes := leBytes_leNat len.1
  rw [len.2] at bytes
  rw [body.2, rest_of_readBytes readLen, bytes, List.append_assoc, ← rest_of_readBytes readBody]

theorem rest_of_decodeOne {t : AbiType} (done : cursor.decodeOne t = .ok (v, next)) :
    cursor.rest = v.encodeOne ++ next.rest := by
  cases t with
  | uint8 | uint16 | uint32 | uint64 | uint128 | int8 | int16 | int32 | int64 =>
    obtain ⟨n, rfl, rest⟩ := rest_of_readInt done
    exact rest
  | bool =>
    obtain ⟨⟨b, after⟩, read, done⟩ := bind_eq_ok_iff.mp done
    rw [rest_of_readBytes read]
    dsimp only at done
    split at done
    case isTrue zero =>
      cases done
      rw [zero]
      rfl
    split at done
    case isTrue one =>
      cases done
      rw [one]
      rfl
    case isFalse => cases done
  | address =>
    obtain ⟨⟨b, after⟩, read, done⟩ := bind_eq_ok_iff.mp done
    cases done
    exact rest_of_readBytes read
  | bytes =>
    obtain ⟨⟨body, after⟩, read, done⟩ := bind_eq_ok_iff.mp done
    cases done
    exact rest_of_readDynamic read
  | string =>
    obtain ⟨⟨body, after⟩, read, done⟩ := bind_eq_ok_iff.mp done
    obtain ⟨s, valid, done⟩ := bind_eq_ok_iff.mp done
    cases done
    obtain rfl := fromUTF8?_eq_some.mp (need_eq_ok_iff.mp valid)
    exact rest_of_readDynamic read
  | fixedBytes n =>
    obtain ⟨-, done⟩ := refuse_eq_ok_iff.mp done
    obtain ⟨⟨b, after⟩, read, done⟩ := bind_eq_ok_iff.mp done
    cases done
    exact rest_of_readBytes read

theorem rest_of_decodeAll {types : List AbiType} {values : List AbiValue}
    (done : cursor.decodeAll types = .ok (values, next)) : cursor.rest = encode values ++ next.rest := by
  induction types generalizing cursor values with
  | nil =>
    cases done
    rfl
  | cons t types ih =>
    obtain ⟨⟨v, middle⟩, first, done⟩ := bind_eq_ok_iff.mp done
    obtain ⟨⟨rest, last⟩, others, done⟩ := bind_eq_ok_iff.mp done
    cases done
    rw [rest_of_decodeOne first, ih others, encode, encode, List.flatMap_cons, List.append_assoc]

end Cursor

def decode (types : List AbiType) (data : List UInt8) : Except AbiError (List AbiValue) := do
  let (values, cursor) ← Cursor.decodeAll ⟨0, data⟩ types
  if cursor.rest ≠ [] then .error (.trailingBytes cursor.rest.length) else .ok values

/-- Values that fit come back from their encoding, and data that is read is the encoding of what was
read, so that no other data is read the same way. -/
theorem abi_codec_round_trip :
    (∀ values : List AbiValue, (∀ v ∈ values, v.Fits) →
      decode (values.map AbiValue.abiType) (encode values) = .ok values) ∧
    (∀ types data values, decode types data = .ok values → encode values = data) ∧
    ∀ types data other values, decode types data = .ok values → decode types other = .ok values →
      data = other := by
  have back : ∀ types data values, decode types data = .ok values → encode values = data := by
    intro types data values done
    obtain ⟨⟨values, last⟩, done, whole⟩ := bind_eq_ok_iff.mp done
    obtain ⟨ends, whole⟩ := refuse_eq_ok_iff.mp whole
    cases whole
    have split := Cursor.rest_of_decodeAll done
    rw [not_ne_iff.mp ends, List.append_nil] at split
    exact split.symm
  refine ⟨fun values fits => ?_, back, fun types data other values one two => ?_⟩
  · obtain ⟨last, done⟩ := @Cursor.decodeAll_append 0 [] values fits
    rw [List.append_nil] at done
    rw [decode, done]
    rfl
  · rw [← back types data values one, back types other values two]

/-- Arguments of given types begin as no others do. -/
theorem encode_append_injOn (types : List AbiType) :
    Set.InjOn (fun part : List AbiValue × List UInt8 => encode part.1 ++ part.2)
      {part | part.1.map AbiValue.abiType = types ∧ ∀ v ∈ part.1, v.Fits} := by
  rintro ⟨values, rest⟩ ⟨rfl, fits⟩ ⟨others, tail⟩ ⟨typed, fitsToo⟩ same
  obtain ⟨_, one⟩ := @Cursor.decodeAll_append 0 rest _ fits
  obtain ⟨_, two⟩ := @Cursor.decodeAll_append 0 tail _ fitsToo
  dsimp only at same
  rw [typed, ← same, one] at two
  cases two
  rfl

end EgoChain.Vm
