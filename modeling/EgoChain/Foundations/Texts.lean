import EgoChain.Foundations.Bytes

/-!
# Texts

Texts are lists of UTF-8 bytes.  The functions are those a program uses to read
the fields of a memo: a fixed start is cut off, the rest is split at a mark, and
a part is read as a decimal number.
-/

namespace EgoChain.Foundations

abbrev Text := List UInt8

def colon : UInt8 := 58

/-- The part in front of the first mark and what follows the mark. -/
theorem append_mark_inj {α : Type} {mark : α} {first second rest tail : List α}
    (none' : mark ∉ first) (noneToo : mark ∉ second)
    (same : first ++ mark :: rest = second ++ mark :: tail) : first = second ∧ rest = tail := by
  induction first generalizing second with
  | nil =>
    cases second with
    | nil => exact ⟨rfl, (List.cons.inj same).2⟩
    | cons other more => exact absurd ((List.cons.inj same).1 ▸ List.mem_cons_self) noneToo
  | cons head front ih =>
    cases second with
    | nil => exact absurd ((List.cons.inj same).1 ▸ List.mem_cons_self) none'
    | cons other more =>
      obtain ⟨heads, rests⟩ := List.cons.inj same
      obtain ⟨fronts, tails⟩ := ih (fun mem => none' (List.mem_cons_of_mem _ mem))
        (fun mem => noneToo (List.mem_cons_of_mem _ mem)) rests
      exact ⟨by rw [heads, fronts], tails⟩

namespace Text

def startsWith (text start : Text) : Bool := start.isPrefixOf text

variable (mark byte : UInt8) (text : Text)

def endsWith (tail : Text) : Bool := tail.isSuffixOf text

/-- The text occurs somewhere in the other one. -/
def contains (part : Text) : Bool := text.tails.any fun tail => part.isPrefixOf tail

/-- What follows a fixed start. -/
def afterStart (start : Text) : Option Text :=
  if text.startsWith start then some (text.drop start.length) else none

/-- The text up to the first mark, and what follows the mark if there is one. -/
def splitFirst (mark : UInt8) : Text → Text × Option Text
  | [] => ([], none)
  | byte :: rest =>
    if byte = mark then ([], some rest)
    else
      let (part, after) := splitFirst mark rest
      (byte :: part, after)

def splitOnce : Option (Text × Text) :=
  match splitFirst mark text with
  | (part, some after) => some (part, after)
  | (_, none) => none

/-- The same at the last mark. -/
def rsplitOnce : Option (Text × Text) :=
  match splitOnce mark text.reverse with
  | some (after, part) => some (part.reverse, after.reverse)
  | none => none

def digit : Option Nat :=
  if 48 ≤ byte ∧ byte ≤ 57 then some (byte.toNat - 48) else none

def digits (value : Nat) : Text → Option Nat
  | [] => some value
  | byte :: rest =>
    match digit byte with
    | none => none
    | some next => digits (value * 10 + next) rest

/-- Decimal digits, with a plus sign in front or not, that fit 64 bits. -/
def parseU64 : Option Nat :=
  let text := if text.head? = some 43 then text.tail else text
  if text.isEmpty then none
  else
    match digits 0 text with
    | none => none
    | some value => if value < 2 ^ 64 then some value else none

/-- The same for numbers that fit 32 bits. -/
def parseU32 : Option Nat := (parseU64 text).filter fun value => value < 2 ^ 32

/-- The white space of the standard library, in UTF-8. -/
def whitespace : List Text :=
  [[9], [10], [11], [12], [13], [32], [194, 133], [194, 160], [225, 154, 128], [226, 128, 128],
    [226, 128, 129], [226, 128, 130], [226, 128, 131], [226, 128, 132], [226, 128, 133],
    [226, 128, 134], [226, 128, 135], [226, 128, 136], [226, 128, 137], [226, 128, 138],
    [226, 128, 168], [226, 128, 169], [226, 128, 175], [226, 129, 159], [227, 128, 128]]

/-- Cut white space off the front; the length of the text is fuel enough. -/
def trimStart : Nat → Text → Text
  | 0, text => text
  | fuel + 1, text =>
    match whitespace.find? fun space => text.startsWith space with
    | none => text
    | some space => trimStart fuel (text.drop space.length)

/-- The same at the end. -/
def trimEnd : Nat → Text → Text
  | 0, text => text
  | fuel + 1, text =>
    match whitespace.find? fun space => text.endsWith space with
    | none => text
    | some space => trimEnd fuel (text.take (text.length - space.length))

def trim : Text := trimEnd text.length (trimStart text.length text)

def decimal (number : Nat) : Text := utf8 (toString number)

def signedDecimal (number : Int) : Text := utf8 (toString number)

/-- At most so many characters; the bytes after the first of a character begin with `10`. -/
def clip (most : Nat) : Text → Text
  | [] => []
  | byte :: rest =>
    if 128 ≤ byte ∧ byte < 192 then byte :: clip most rest
    else
      match most with
      | 0 => []
      | more + 1 => byte :: clip more rest

/-! ## Hexadecimal -/

def isAsciiDigit : Bool := 48 ≤ byte && byte ≤ 57

def isAsciiLowercase : Bool := 97 ≤ byte && byte ≤ 122

def isAsciiUppercase : Bool := 65 ≤ byte && byte ≤ 90

def isAsciiHexdigit : Bool :=
  isAsciiDigit byte || (97 ≤ byte && byte ≤ 102) || (65 ≤ byte && byte ≤ 70)

def hexDigit (value : UInt8) : UInt8 := if value < 10 then 48 + value else 87 + value

def toHex (bytes : Text) : Text :=
  bytes.flatMap fun byte => [hexDigit (byte / 16), hexDigit (byte % 16)]

def hexValue : Option UInt8 :=
  if isAsciiDigit byte then some (byte - 48)
  else if 97 ≤ byte ∧ byte ≤ 102 then some (byte - 87)
  else if 65 ≤ byte ∧ byte ≤ 70 then some (byte - 55)
  else none

def fromHex : Text → Option Text
  | [] => some []
  | [_] => none
  | high :: low :: rest =>
    match hexValue high, hexValue low, fromHex rest with
    | some upper, some lower, some bytes => some ((upper * 16 + lower) :: bytes)
    | _, _, _ => none

/-- Hexadecimal digits for so many bytes. -/
def fromHexOf (length : Nat) (text : Text) : Option Text :=
  match fromHex text with
  | some bytes => if bytes.length = length then some bytes else none
  | none => none

abbrev Bytes32 := { bytes : Text // bytes.length = 32 }

def hex32 (text : Text) : Option Bytes32 :=
  match fromHex text with
  | some bytes => if fits : bytes.length = 32 then some ⟨bytes, fits⟩ else none
  | none => none

variable (bytes : Text)

/-- The two digits of a byte give the byte back. -/
theorem hexDigits_of_byte : hexValue (hexDigit (byte / 16)) = some (byte / 16) ∧
      hexValue (hexDigit (byte % 16)) = some (byte % 16) ∧ byte / 16 * 16 + byte % 16 = byte := by
  obtain ⟨⟨number⟩⟩ := byte
  revert number
  decide +kernel

theorem toHex_cons (rest : Text) :
    toHex (byte :: rest) = hexDigit (byte / 16) :: hexDigit (byte % 16) :: toHex rest := rfl

theorem fromHex_toHex : fromHex (toHex bytes) = some bytes := by
  induction bytes with
  | nil => rfl
  | cons byte rest ih =>
    obtain ⟨high, low, both⟩ := hexDigits_of_byte byte
    rw [toHex_cons, fromHex, high, low, ih]
    dsimp only
    rw [both]

theorem hex32_toHex (bytes : Bytes32) : hex32 (toHex bytes.val) = some bytes := by
  unfold hex32
  rw [fromHex_toHex]
  exact dif_pos bytes.property

end Text

end EgoChain.Foundations
