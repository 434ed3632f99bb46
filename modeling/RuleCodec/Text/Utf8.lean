/-
RuleCodec/Text/Utf8.lean

UTF-8: the bytes of a text, and the text of any bytes whatever.

Reading never fails.  Where the bytes begin no character, the longest stretch that could still have
begun one is replaced by a single replacement character, and reading goes on at the first byte that
does not fit.  On the bytes of a text nothing is replaced.
-/

namespace RuleCodec.Text.Utf8

/-- The bytes of one character, one to four of them. -/
def encodeChar (c : Char) : List UInt8 :=
  let n := c.toNat
  if n < 0x80 then [UInt8.ofNat n]
  else if n < 0x800 then [UInt8.ofNat (0xC0 + n / 64), UInt8.ofNat (0x80 + n % 64)]
  else if n < 0x10000 then
    [UInt8.ofNat (0xE0 + n / 4096), UInt8.ofNat (0x80 + n / 64 % 64), UInt8.ofNat (0x80 + n % 64)]
  else
    [UInt8.ofNat (0xF0 + n / 262144), UInt8.ofNat (0x80 + n / 4096 % 64),
      UInt8.ofNat (0x80 + n / 64 % 64), UInt8.ofNat (0x80 + n % 64)]

/-- The bytes of a text. -/
def encode (cs : List Char) : List UInt8 :=
  cs.flatMap encodeChar

/-- How many bytes a text takes. -/
def size (cs : List Char) : Nat :=
  (encode cs).length

/-- The character that stands for bytes that form none. -/
def replacement : Char := '\ufffd'

/-- A byte that continues a character. -/
def isTail (b : UInt8) : Bool :=
  decide (0x80 ≤ b.toNat) && decide (b.toNat ≤ 0xBF)

/-- A byte that may follow `lead` in a character of three bytes: longer forms of shorter characters
and surrogates are excluded here. -/
def fitsThree (lead b : UInt8) : Bool :=
  decide ((if lead.toNat = 0xE0 then 0xA0 else 0x80) ≤ b.toNat) &&
    decide (b.toNat ≤ (if lead.toNat = 0xED then 0x9F else 0xBF))

/-- A byte that may follow `lead` in a character of four bytes: longer forms of shorter characters
and numbers above the last code point are excluded here. -/
def fitsFour (lead b : UInt8) : Bool :=
  decide ((if lead.toNat = 0xF0 then 0x90 else 0x80) ≤ b.toNat) &&
    decide (b.toNat ≤ (if lead.toNat = 0xF4 then 0x8F else 0xBF))

/-- The six bits a continuing byte carries. -/
def tailBits (b : UInt8) : Nat := b.toNat - 0x80

/-- The text of any bytes, with a replacement character for each stretch that forms no
character. -/
def decodeLossy : List UInt8 → List Char
  | [] => []
  | a :: rest =>
    if a.toNat < 0x80 then Char.ofNat a.toNat :: decodeLossy rest
    else if 0xC2 ≤ a.toNat ∧ a.toNat ≤ 0xDF then
      match rest with
      | [] => [replacement]
      | b :: more =>
        if isTail b then Char.ofNat ((a.toNat - 0xC0) * 64 + tailBits b) :: decodeLossy more
        else replacement :: decodeLossy (b :: more)
    else if 0xE0 ≤ a.toNat ∧ a.toNat ≤ 0xEF then
      match rest with
      | [] => [replacement]
      | b :: more =>
        if fitsThree a b then
          match more with
          | [] => [replacement]
          | c :: after =>
            if isTail c then
              Char.ofNat ((a.toNat - 0xE0) * 4096 + tailBits b * 64 + tailBits c) ::
                decodeLossy after
            else replacement :: decodeLossy (c :: after)
        else replacement :: decodeLossy (b :: more)
    else if 0xF0 ≤ a.toNat ∧ a.toNat ≤ 0xF4 then
      match rest with
      | [] => [replacement]
      | b :: more =>
        if fitsFour a b then
          match more with
          | [] => [replacement]
          | c :: after =>
            if isTail c then
              match after with
              | [] => [replacement]
              | d :: last =>
                if isTail d then
                  Char.ofNat ((a.toNat - 0xF0) * 262144 + tailBits b * 4096 + tailBits c * 64 +
                    tailBits d) :: decodeLossy last
                else replacement :: decodeLossy (d :: last)
            else replacement :: decodeLossy (c :: after)
        else replacement :: decodeLossy (b :: more)
    else replacement :: decodeLossy rest

end RuleCodec.Text.Utf8
