import Mathlib.Algebra.Order.Ring.Int

/-!
# Byte strings

Numbers in little-endian order, texts as their UTF-8 bytes, and families of tags
none of which begins another.  A message that starts with such a tag, or with a
number of known width, can be taken apart again.
-/

namespace EgoChain.Foundations

-- By name, so that every test for membership among byte strings rests on the same instance.
instance instLawfulBEqBytes : LawfulBEq (List UInt8) := List.instLawfulBEq

def utf8 (text : String) : List UInt8 := text.toUTF8.data.toList

@[simp]
theorem utf8_inj {first second : String} : utf8 first = utf8 second ↔ first = second := by
  refine ⟨fun same => ?_, congrArg utf8⟩
  have arrays := ByteArray.ext (Array.toList_inj.mp same)
  exact String.toByteArray_inj.mp arrays

@[simp]
theorem utf8_eq_nil {text : String} : utf8 text = [] ↔ text = "" :=
  @utf8_inj _ ""

/-- The lowest bytes of a number, the least significant first. -/
def leBytes : Nat → Nat → List UInt8
  | 0, _ => []
  | width + 1, number => UInt8.ofNat number :: leBytes width (number / 256)

@[simp]
theorem length_leBytes (width number : Nat) : (leBytes width number).length = width := by
  induction width generalizing number with
  | zero => rfl
  | succ width ih => simp [leBytes, ih]

variable {width number other : Nat}

theorem leBytes_inj (fits : number < 256 ^ width) (otherFits : other < 256 ^ width)
    (same : leBytes width number = leBytes width other) : number = other := by
  induction width generalizing number other with
  | zero => omega
  | succ width ih =>
    simp only [leBytes, List.cons.injEq] at same
    obtain ⟨low, high⟩ := same
    have quotients := ih (by omega) (by omega) high
    have remainders := congrArg UInt8.toNat low
    rw [UInt8.toNat_ofNat', UInt8.toNat_ofNat'] at remainders
    omega

variable {rest tail : List UInt8}

/-- A number of known width at the front can be split off. -/
theorem leBytes_append_inj (fits : number < 256 ^ width) (otherFits : other < 256 ^ width)
    (same : leBytes width number ++ rest = leBytes width other ++ tail) :
    number = other ∧ rest = tail := by
  obtain ⟨front, back⟩ := List.append_inj same (by simp)
  exact ⟨leBytes_inj fits otherFits front, back⟩

/-- The number that bytes stand for, the least significant first. -/
def leNat : List UInt8 → Nat
  | [] => 0
  | byte :: rest => byte.toNat + 256 * leNat rest

theorem leNat_leBytes (width number : Nat) : leNat (leBytes width number) = number % 256 ^ width := by
  induction width generalizing number with
  | zero => rw [leBytes, leNat, pow_zero, Nat.mod_one]
  | succ width ih =>
    have split : 256 ^ (width + 1) = 256 * 256 ^ width := Nat.pow_succ'
    rw [leBytes, leNat, ih, UInt8.toNat_ofNat', split, Nat.mod_mul]

theorem leNat_lt (bytes : List UInt8) : leNat bytes < 256 ^ bytes.length := by
  induction bytes with
  | nil => exact Nat.one_pos
  | cons byte rest ih =>
    have small := byte.toNat_lt
    rw [leNat, List.length_cons, Nat.pow_succ]
    omega

theorem leBytes_leNat (bytes : List UInt8) : leBytes bytes.length (leNat bytes) = bytes := by
  induction bytes with
  | nil => rfl
  | cons byte rest ih =>
    have quotient : (byte.toNat + 256 * leNat rest) / 256 = leNat rest := by
      have small := byte.toNat_lt
      omega
    rw [List.length_cons, leBytes, leNat, quotient, ih]
    simp

def u32Bytes (number : UInt32) : List UInt8 := leBytes 4 number.toNat
def u64Bytes (number : UInt64) : List UInt8 := leBytes 8 number.toNat

@[simp]
theorem u32Bytes_append_inj {number other : UInt32} :
    u32Bytes number ++ rest = u32Bytes other ++ tail ↔ number = other ∧ rest = tail := by
  constructor
  · intro same
    obtain ⟨numbers, rests⟩ := leBytes_append_inj number.toNat_lt other.toNat_lt same
    exact ⟨UInt32.toNat_inj.mp numbers, rests⟩
  · rintro ⟨rfl, rfl⟩
    rfl

@[simp]
theorem u64Bytes_append_inj {number other : UInt64} :
    u64Bytes number ++ rest = u64Bytes other ++ tail ↔ number = other ∧ rest = tail := by
  constructor
  · intro same
    obtain ⟨numbers, rests⟩ := leBytes_append_inj number.toNat_lt other.toNat_lt same
    exact ⟨UInt64.toNat_inj.mp numbers, rests⟩
  · rintro ⟨rfl, rfl⟩
    rfl

/-- No member of the family begins another one. -/
def PrefixFree {ι α : Type} (family : ι → List α) : Prop :=
  ∀ first second, family first <+: family second → first = second

/-- A member of a prefix-free family at the front can be split off. -/
theorem PrefixFree.append_inj {ι α : Type} {family : ι → List α} (free : PrefixFree family)
    {first second : ι} {rest tail : List α} :
    family first ++ rest = family second ++ tail ↔ first = second ∧ rest = tail := by
  refine ⟨fun same => ?_, fun ⟨tags, rests⟩ => by rw [tags, rests]⟩
  have begins : family first <+: family second ++ tail := ⟨rest, same⟩
  have sameTag : first = second := by
    rcases List.prefix_or_prefix_of_prefix begins (List.prefix_append _ _) with short | long
    · exact free first second short
    · exact (free second first long).symm
  subst sameTag
  exact ⟨rfl, List.append_cancel_left same⟩

end EgoChain.Foundations
