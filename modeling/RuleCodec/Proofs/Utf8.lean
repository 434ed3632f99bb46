/-
RuleCodec/Proofs/Utf8.lean

The bytes of a text read back as that text: nothing is replaced.
-/
import Mathlib.Tactic.SplitIfs
import RuleCodec.Text.Utf8

namespace RuleCodec.Text.Utf8

/-! ### Reading one character -/

variable {a b c d : UInt8} {rest : List UInt8}

/-- A byte below 128 is a character. -/
theorem decodeLossy_one (lead : a.toNat < 0x80) :
    decodeLossy (a :: rest) = Char.ofNat a.toNat :: decodeLossy rest := by
  rw [decodeLossy.eq_def]
  exact if_pos lead

theorem decodeLossy_two (lead : 0xC2 ≤ a.toNat ∧ a.toNat ≤ 0xDF) (hb : isTail b) :
    decodeLossy (a :: b :: rest) =
      Char.ofNat ((a.toNat - 0xC0) * 64 + tailBits b) :: decodeLossy rest := by
  rw [decodeLossy.eq_def]
  simp only
  rw [if_neg (by omega), if_pos lead, if_pos hb]

theorem decodeLossy_three (lead : 0xE0 ≤ a.toNat ∧ a.toNat ≤ 0xEF) (hb : fitsThree a b)
    (hc : isTail c) :
    decodeLossy (a :: b :: c :: rest) =
      Char.ofNat ((a.toNat - 0xE0) * 4096 + tailBits b * 64 + tailBits c) :: decodeLossy rest := by
  rw [decodeLossy.eq_def]
  simp only
  rw [if_neg (by omega), if_neg (by omega), if_pos lead, if_pos hb, if_pos hc]

theorem decodeLossy_four (lead : 0xF0 ≤ a.toNat ∧ a.toNat ≤ 0xF4) (hb : fitsFour a b)
    (hc : isTail c) (hd : isTail d) :
    decodeLossy (a :: b :: c :: d :: rest) =
      Char.ofNat ((a.toNat - 0xF0) * 262144 + tailBits b * 4096 + tailBits c * 64 + tailBits d) ::
        decodeLossy rest := by
  rw [decodeLossy.eq_def]
  simp only
  rw [if_neg (by omega), if_neg (by omega), if_neg (by omega), if_pos lead, if_pos hb, if_pos hc,
    if_pos hd]

/-! ### Writing one character -/

/-- A byte keeps a number below 256. -/
theorem toNat_byte {n : Nat} (h : n < 256) : (UInt8.ofNat n).toNat = n := by
  rw [UInt8.toNat_ofNat']
  exact Nat.mod_eq_of_lt h

theorem isTail_byte {n : Nat} (h : n < 64) : isTail (UInt8.ofNat (0x80 + n)) := by
  have byte := toNat_byte (n := 0x80 + n) (by omega)
  rw [isTail, byte, Bool.and_eq_true, decide_eq_true_iff, decide_eq_true_iff]
  omega

theorem tailBits_byte {n : Nat} (h : n < 64) : tailBits (UInt8.ofNat (0x80 + n)) = n := by
  have byte := toNat_byte (n := 0x80 + n) (by omega)
  unfold tailBits
  omega

/-- A character is no surrogate and not above the last code point. -/
theorem toNat_range (ch : Char) : ch.toNat < 0xD800 ∨ 0xDFFF < ch.toNat ∧ ch.toNat < 0x110000 :=
  ch.valid

/-- A character is decoded from its bytes, whatever follows. -/
theorem decodeLossy_encodeChar (ch : Char) (rest : List UInt8) :
    decodeLossy (encodeChar ch ++ rest) = ch :: decodeLossy rest := by
  have range := toNat_range ch
  have back {n : Nat} (same : n = ch.toNat) : Char.ofNat n = ch := by
    rw [same]
    exact Char.ofNat_toNat ch
  have bits (n : Nat) : n % 64 < 64 := Nat.mod_lt _ (by decide)
  unfold encodeChar
  simp only
  split_ifs with one two three
  · -- one byte
    have lead := toNat_byte (n := ch.toNat) (by omega)
    rw [List.singleton_append, decodeLossy_one (by omega), back lead]
  · -- two bytes
    have lead := toNat_byte (n := 0xC0 + ch.toNat / 64) (by omega)
    simp only [List.cons_append, List.nil_append]
    rw [decodeLossy_two (by omega) (isTail_byte (bits _)), lead, tailBits_byte (bits _),
      back (by omega)]
  · -- three bytes: the second is narrowed where the first leaves overlong forms or surrogates
    have lead := toNat_byte (n := 0xE0 + ch.toNat / 4096) (by omega)
    have second := toNat_byte (n := 0x80 + ch.toNat / 64 % 64) (by omega)
    have fits : fitsThree (UInt8.ofNat (0xE0 + ch.toNat / 4096))
        (UInt8.ofNat (0x80 + ch.toNat / 64 % 64)) := by
      rw [fitsThree, lead, second, Bool.and_eq_true, decide_eq_true_iff, decide_eq_true_iff]
      constructor
      · split <;> omega
      · split <;> omega
    simp only [List.cons_append, List.nil_append]
    rw [decodeLossy_three (by omega) fits (isTail_byte (bits _)), lead, tailBits_byte (bits _),
      tailBits_byte (bits _), back (by omega)]
  · -- four bytes: the second keeps the character within the last code point
    have lead := toNat_byte (n := 0xF0 + ch.toNat / 262144) (by omega)
    have second := toNat_byte (n := 0x80 + ch.toNat / 4096 % 64) (by omega)
    have fits : fitsFour (UInt8.ofNat (0xF0 + ch.toNat / 262144))
        (UInt8.ofNat (0x80 + ch.toNat / 4096 % 64)) := by
      rw [fitsFour, lead, second, Bool.and_eq_true, decide_eq_true_iff, decide_eq_true_iff]
      constructor
      · split <;> omega
      · split <;> omega
    simp only [List.cons_append, List.nil_append]
    rw [decodeLossy_four (by omega) fits (isTail_byte (bits _)) (isTail_byte (bits _)), lead,
      tailBits_byte (bits _), tailBits_byte (bits _), tailBits_byte (bits _), back (by omega)]

/-! ### Whole texts -/

/-- On the bytes of a text nothing is replaced. -/
theorem decodeLossy_encode (cs : List Char) : decodeLossy (encode cs) = cs := by
  induction cs with
  | nil => rw [encode, List.flatMap_nil, decodeLossy]
  | cons ch cs ih =>
    rw [encode, List.flatMap_cons, decodeLossy_encodeChar]
    exact congrArg _ ih

end RuleCodec.Text.Utf8
