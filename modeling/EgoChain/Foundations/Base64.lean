import EgoChain.Foundations.Texts

/-!
# Base64

Three bytes are written as four digits of six bits, and an equals sign stands for each digit that
the last group lacks.  A text is read only if the bits that its last digit has to spare are 0.
-/

namespace EgoChain.Foundations.Base64

def pad : UInt8 := 61

def digit (value : Nat) : UInt8 :=
  UInt8.ofNat <|
    if value < 26 then 65 + value
    else if value < 52 then 71 + value
    else if value < 62 then value - 4
    else if value = 62 then 43
    else 47

def valueOf (byte : UInt8) : Option Nat :=
  if 65 ≤ byte ∧ byte ≤ 90 then some (byte.toNat - 65)
  else if 97 ≤ byte ∧ byte ≤ 122 then some (byte.toNat - 71)
  else if 48 ≤ byte ∧ byte ≤ 57 then some (byte.toNat + 4)
  else if byte = 43 then some 62
  else if byte = 47 then some 63
  else none

/-- A digit has the bits that are left of one byte and the first bits of the next one. -/
def encode : List UInt8 → Text
  | [] => []
  | [a] => [digit (a.toNat / 4), digit (a.toNat % 4 * 16), pad, pad]
  | [a, b] =>
    [digit (a.toNat / 4), digit (a.toNat % 4 * 16 + b.toNat / 16), digit (b.toNat % 16 * 4), pad]
  | a :: b :: c :: rest =>
    digit (a.toNat / 4) :: digit (a.toNat % 4 * 16 + b.toNat / 16) ::
      digit (b.toNat % 16 * 4 + c.toNat / 64) :: digit (c.toNat % 64) :: encode rest

def decode : Text → Option (List UInt8)
  | [] => some []
  | w :: x :: y :: z :: rest => do
    let p ← valueOf w
    let q ← valueOf x
    let first := UInt8.ofNat (p * 4 + q / 16)
    if rest = [] ∧ y = pad ∧ z = pad then
      if q % 16 = 0 then some [first] else none
    else
      let r ← valueOf y
      let second := UInt8.ofNat (q % 16 * 16 + r / 4)
      if rest = [] ∧ z = pad then
        if r % 4 = 0 then some [first, second] else none
      else
        let s ← valueOf z
        let more ← decode rest
        some (first :: second :: UInt8.ofNat (r % 4 * 64 + s) :: more)
  | _ => none

theorem valueOf_digit {value : Nat} (small : value < 64) :
    valueOf (digit value) = some value ∧ digit value ≠ pad := by
  revert value
  decide

theorem ofNat_eq {number : Nat} (byte : UInt8) (same : number = byte.toNat) :
    UInt8.ofNat number = byte := by
  rw [same, UInt8.ofNat_toNat]

theorem decode_encode (bytes : List UInt8) : decode (encode bytes) = some bytes := by
  induction bytes using encode.induct with
  | case1 => rfl
  | case2 a =>
    have small := a.toNat_lt
    obtain ⟨p, -⟩ := @valueOf_digit (a.toNat / 4) (by omega)
    obtain ⟨q, -⟩ := @valueOf_digit (a.toNat % 4 * 16) (by omega)
    simp only [encode, decode, p, q, Option.bind_eq_bind, Option.bind_some, and_self, if_true]
    rw [if_pos (by omega), ofNat_eq a (by omega)]
  | case3 a b =>
    have small := a.toNat_lt
    have smallToo := b.toNat_lt
    obtain ⟨p, -⟩ := @valueOf_digit (a.toNat / 4) (by omega)
    obtain ⟨q, -⟩ := @valueOf_digit (a.toNat % 4 * 16 + b.toNat / 16) (by omega)
    obtain ⟨r, noPad⟩ := @valueOf_digit (b.toNat % 16 * 4) (by omega)
    simp only [encode, decode, p, q, r, noPad, Option.bind_eq_bind, Option.bind_some, and_self,
      false_and, and_false, if_true, if_false]
    rw [if_pos (by omega), ofNat_eq a (by omega), ofNat_eq b (by omega)]
  | case4 a b c rest ih =>
    have small := a.toNat_lt
    have smallToo := b.toNat_lt
    have smallest := c.toNat_lt
    obtain ⟨p, -⟩ := @valueOf_digit (a.toNat / 4) (by omega)
    obtain ⟨q, -⟩ := @valueOf_digit (a.toNat % 4 * 16 + b.toNat / 16) (by omega)
    obtain ⟨r, -⟩ := @valueOf_digit (b.toNat % 16 * 4 + c.toNat / 64) (by omega)
    obtain ⟨s, noPad⟩ := @valueOf_digit (c.toNat % 64) (by omega)
    simp only [encode, decode, p, q, r, s, noPad, ih, Option.bind_eq_bind, Option.bind_some,
      and_false, if_false]
    rw [ofNat_eq a (by omega), ofNat_eq b (by omega), ofNat_eq c (by omega)]

end EgoChain.Foundations.Base64
