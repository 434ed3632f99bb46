/-
RuleCodec/Bytes.lean

Byte strings: their hexadecimal text and the big-endian bytes of a number.
-/
import RuleCodec.Numeral

namespace RuleCodec

/-- A byte string. -/
abbrev Bytes := List UInt8

namespace Bytes

/-! ### Hexadecimal text -/

/-- The two digits of a byte, high half first. -/
def hexPair (b : UInt8) : List Char :=
  [Numeral.digitChar (b.toNat / 16), Numeral.digitChar (b.toNat % 16)]

/-- Two lower-case digits for each byte, behind `0x`. -/
def toHex (bytes : Bytes) : List Char :=
  '0' :: 'x' :: bytes.flatMap hexPair

/-- The byte that two characters stand for.  A single digit may stand behind a plus sign. -/
def ofHexPair? (high low : Char) : Option UInt8 :=
  match Numeral.digitValue? 16 low with
  | none => none
  | some l =>
    if high = '+' then some (UInt8.ofNat l)
    else
      match Numeral.digitValue? 16 high with
      | none => none
      | some h => some (UInt8.ofNat (h * 16 + l))

/-- The bytes of an even number of digits, without any `0x`. -/
def ofHex? : List Char → Option Bytes
  | [] => some []
  | [_] => none
  | high :: low :: rest =>
    match ofHexPair? high low, ofHex? rest with
    | some b, some bytes => some (b :: bytes)
    | _, _ => none

/-! ### Numbers as bytes -/

/-- The last `width` bytes of a number, most significant first. -/
def ofNat : (width n : Nat) → Bytes
  | 0, _ => []
  | width + 1, n => ofNat width (n / 256) ++ [UInt8.ofNat (n % 256)]

/-- The number whose bytes these are, most significant first. -/
def toNat (bytes : Bytes) : Nat :=
  bytes.foldl (fun n b => n * 256 + b.toNat) 0

end Bytes

end RuleCodec
