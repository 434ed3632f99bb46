/-
RuleCodec/Proofs/Numerals.lean

Numbers as they are written and read.

A numeral that can be read is smaller than its digits allow, and what is
written is read as it was: numbers in decimal digits
(`Word.ofDecimal?_toDecimal`), bytes in pairs of hexadecimal ones
(`Bytes.ofHex?_flatMap_hexPair`), words in as few of them as will do
(`Word.ofHex?_write`) and addresses in forty (`Word.ofHex?_addressBytes`).
-/
import Mathlib.Algebra.Ring.Nat
import RuleCodec.Text.CharClass
import RuleCodec.Word

namespace RuleCodec

open Text

/-! ### What can be read -/

namespace Numeral

/-- A digit is below its base. -/
theorem digitValue?_lt {base d : Nat} {c : Char} (h : digitValue? base c = some d) : d < base := by
  unfold digitValue? at h
  simp only [Option.ite_none_right_eq_some, Option.some.injEq] at h
  obtain ⟨lt, rfl⟩ := h
  exact lt

theorem readFrom?_lt {base n m : Nat} {cs : List Char} (h : readFrom? base n cs = some m) :
    m < (n + 1) * base ^ cs.length := by
  -- the number read so far grows with every digit
  induction cs generalizing n with
  | nil =>
    cases h
    simp
  | cons c cs ih =>
    rw [readFrom?] at h
    cases digit : digitValue? base c with
    | none => rw [digit] at h; cases h
    | some d =>
      rw [digit] at h
      have lt := digitValue?_lt digit
      calc m < (n * base + d + 1) * base ^ cs.length := ih h
        _ ≤ ((n + 1) * base) * base ^ cs.length := by
          refine Nat.mul_le_mul_right _ ?_
          rw [Nat.add_mul]
          omega
        _ = (n + 1) * base ^ (c :: cs).length := by
          rw [List.length_cons, Nat.pow_succ, Nat.mul_assoc, Nat.mul_comm base]

/-- A number is below the power of its base that its length gives. -/
theorem read?_lt {base n : Nat} {cs : List Char} (h : read? base cs = some n) :
    n < base ^ cs.length := by
  have lt := readFrom?_lt h
  simpa using lt

end Numeral

/-- Two characters are read as one byte. -/
theorem Bytes.length_ofHex? {cs : List Char} {bytes : Bytes} (h : Bytes.ofHex? cs = some bytes) :
    cs.length = 2 * bytes.length := by
  fun_induction Bytes.ofHex? cs generalizing bytes with
  | case1 => cases h; rfl
  | case2 => cases h
  | case3 high low rest b more hrest hb ih =>
    cases h
    simp only [List.length_cons, ih hrest]
    omega
  | case4 => cases h

theorem Word.toNat_of_ofNat? {n : Nat} {w : Word} (h : Word.ofNat? n = some w) : w.toNat = n := by
  unfold Word.ofNat? at h
  split at h
  · rename_i lt
    cases h
    rw [BitVec.toNat_ofNat]
    exact Nat.mod_eq_of_lt lt
  · cases h

/-- A text that is a hexadecimal literal is no larger than its digits allow. -/
theorem Word.toNat_lt_of_ofHex? {cs : List Char} {w : Word} (h : Word.ofHex? cs = some w) :
    w.toNat < 16 ^ cs.length := by
  unfold Word.ofHex? at h
  have shorter : ((stripStart? ['0', 'x'] cs).getD cs).length ≤ cs.length := by
    cases stripped : stripStart? ['0', 'x'] cs with
    | none => exact Nat.le_refl _
    | some rest =>
      rw [stripStart?_eq_some stripped, Option.getD_some, List.length_append]
      omega
  simp only [Option.ite_none_right_eq_some, Option.bind_eq_some_iff] at h
  obtain ⟨-, n, read, fits⟩ := h
  rw [Word.toNat_of_ofNat? fits]
  exact Nat.lt_of_lt_of_le (Numeral.read?_lt read) (Nat.pow_le_pow_right (by decide) shorter)

/-! ### What is written -/

namespace Numeral

theorem digitValue?_digitChar : ∀ d < 16, digitValue? 16 (digitChar d) = some d := by decide

theorem digitValue?_decimal : ∀ d < 10, digitValue? 10 (digitChar d) = some d := by decide

theorem isHexDigit_digitChar : ∀ d < 16, isHexDigit (digitChar d) = true := by decide

theorem isDecimalDigit_digitChar : ∀ d < 10, isDecimalDigit (digitChar d) = true := by decide

/-- Reading goes on with the number that was read so far. -/
theorem readFrom?_append {base n m : Nat} {cs ds : List Char} (h : readFrom? base n cs = some m) :
    readFrom? base n (cs ++ ds) = readFrom? base m ds := by
  induction cs generalizing n with
  | nil =>
    cases h
    rfl
  | cons c cs ih =>
    rw [readFrom?] at h
    rw [List.cons_append, readFrom?]
    cases digit : digitValue? base c with
    | none => rw [digit] at h; cases h
    | some d =>
      rw [digit] at h
      exact ih h

/-- A number is read as it was written, in a base whose digits are. -/
theorem read?_write_of_digits {base : Nat} (large : 2 ≤ base)
    (digits : ∀ d < base, digitValue? base (digitChar d) = some d) (n : Nat) :
    read? base (write base n) = some n := by
  fun_induction write base n with
  | case1 n small =>
    have digit := digits n (by omega)
    simp [read?, readFrom?, digit]
  | case2 n _ ih =>
    have digit := digits (n % base) (Nat.mod_lt _ (by omega))
    rw [read?, readFrom?_append ih, readFrom?, digit]
    simp only [readFrom?]
    rw [Nat.mul_comm, Nat.div_add_mod]

/-- A decimal number is read back. -/
theorem read?_write (n : Nat) : read? 10 (write 10 n) = some n :=
  read?_write_of_digits (by decide) digitValue?_decimal n

/-- A hexadecimal number is read back. -/
theorem read?_write_hex (n : Nat) : read? 16 (write 16 n) = some n :=
  read?_write_of_digits (by decide) digitValue?_digitChar n

/-- A number below a power of its base has no more digits than the exponent says. -/
theorem length_write_le {base width n : Nat} (large : 2 ≤ base) (fits : n < base ^ (width + 1)) :
    (write base n).length ≤ width + 1 := by
  induction width generalizing n with
  | zero =>
    rw [Nat.zero_add, Nat.pow_one] at fits
    rw [write, if_pos (.inr fits)]
    exact Nat.le_refl _
  | succ width ih =>
    rw [write]
    split
    · exact Nat.succ_le_succ (Nat.zero_le _)
    · have smaller : n / base < base ^ (width + 1) := by
        rw [Nat.div_lt_iff_lt_mul (by omega), ← Nat.pow_succ]
        exact fits
      rw [List.length_append, List.length_singleton]
      exact Nat.succ_le_succ (ih smaller)

theorem all_isHexDigit_write (n : Nat) : (write 16 n).all isHexDigit = true := by
  fun_induction write 16 n with
  | case1 n small =>
    have digit := isHexDigit_digitChar n (by omega)
    simp [digit]
  | case2 n large ih =>
    have digit := isHexDigit_digitChar (n % 16) (Nat.mod_lt _ (by decide))
    rw [List.all_append, ih]
    simp [digit]

/-- A number is written with at least one digit. -/
theorem write_eq_cons (n : Nat) : ∃ d ds, write 10 n = digitChar d :: ds ∧ d < 10 := by
  fun_induction write 10 n with
  | case1 n small => exact ⟨n, [], rfl, by omega⟩
  | case2 n large ih =>
    obtain ⟨d, ds, eq, lt⟩ := ih
    exact ⟨d, ds ++ [digitChar (n % 10)], by rw [eq, List.cons_append], lt⟩

theorem all_isDecimalDigit_write (n : Nat) : (write 10 n).all isDecimalDigit = true := by
  fun_induction write 10 n with
  | case1 n small =>
    have digit := isDecimalDigit_digitChar n (by omega)
    simp [digit]
  | case2 n large ih =>
    have digit := isDecimalDigit_digitChar (n % 10) (Nat.mod_lt _ (by decide))
    rw [List.all_append, ih]
    simp [digit]

end Numeral

/-- A word is read back from its digits. -/
theorem Word.ofDecimal?_toDecimal (w : Word) : Word.ofDecimal? w.toDecimal = some w := by
  have fits : w.toNat < Word.size := w.isLt
  rw [ofDecimal?, toDecimal, Numeral.read?_write, Option.bind_some, ofNat?, if_pos fits,
    BitVec.ofNat_toNat, BitVec.setWidth_eq]

namespace Bytes

/-- A byte is read back from its two digits. -/
theorem ofHexPair?_hexPair (b : UInt8) :
    ofHexPair? (Numeral.digitChar (b.toNat / 16)) (Numeral.digitChar (b.toNat % 16)) = some b := by
  have high := Numeral.digitValue?_digitChar (b.toNat / 16) (by have := b.toNat_lt; omega)
  have low := Numeral.digitValue?_digitChar (b.toNat % 16) (Nat.mod_lt _ (by decide))
  have digit : Numeral.digitChar (b.toNat / 16) ≠ '+' := by
    intro eq
    rw [eq] at high
    cases high
  rw [ofHexPair?, low]
  simp only [if_neg digit, high, Option.some.injEq]
  rw [Nat.mul_comm, Nat.div_add_mod, UInt8.ofNat_toNat]

/-- Bytes are read back from their digits. -/
theorem ofHex?_flatMap_hexPair (bytes : Bytes) : ofHex? (bytes.flatMap hexPair) = some bytes := by
  induction bytes with
  | nil => rfl
  | cons b bytes ih =>
    rw [List.flatMap_cons, hexPair]
    simp [ofHex?, ofHexPair?_hexPair, ih]

theorem all_isHexDigit_flatMap_hexPair (bytes : Bytes) :
    (bytes.flatMap hexPair).all isHexDigit = true := by
  induction bytes with
  | nil => rfl
  | cons b bytes ih =>
    have high := Numeral.isHexDigit_digitChar (b.toNat / 16) (by have := b.toNat_lt; omega)
    have low := Numeral.isHexDigit_digitChar (b.toNat % 16) (Nat.mod_lt _ (by decide))
    rw [List.flatMap_cons, List.all_append, ih, hexPair]
    simp [high, low]

theorem length_flatMap_hexPair (bytes : Bytes) :
    (bytes.flatMap hexPair).length = 2 * bytes.length := by
  induction bytes with
  | nil => rfl
  | cons b bytes ih =>
    rw [List.flatMap_cons, List.length_append, ih, hexPair]
    simp only [List.length_cons, List.length_nil]
    omega

theorem length_ofNat (width n : Nat) : (ofNat width n).length = width := by
  induction width generalizing n with
  | zero => rfl
  | succ width ih => rw [ofNat, List.length_append, ih, List.length_singleton]

/-- The last bytes of a number do not depend on how many there are before them. -/
theorem ofNat_add (high low n : Nat) :
    ofNat (high + low) n = ofNat high (n / 256 ^ low) ++ ofNat low n := by
  induction low generalizing n with
  | zero =>
    show ofNat high n = _
    rw [Nat.pow_zero, Nat.div_one, ofNat, List.append_nil]
  | succ low ih =>
    show ofNat (high + low) (n / 256) ++ _ = _ ++ (ofNat low (n / 256) ++ _)
    rw [ih, Nat.div_div_eq_div_mul, ← Nat.pow_succ', List.append_assoc]

/-- The digits of the bytes of a number that fits are digits of the number. -/
theorem read?_flatMap_hexPair_ofNat (width n : Nat) (fits : n < 256 ^ width) :
    Numeral.read? 16 ((ofNat width n).flatMap hexPair) = some n := by
  -- the lowest byte stands last, so the digits of the others are read before it
  induction width generalizing n with
  | zero =>
    have zero : n = 0 := by simpa using fits
    rw [zero]
    rfl
  | succ width ih =>
    have smaller : n / 256 < 256 ^ width := by
      rw [Nat.div_lt_iff_lt_mul (by decide), ← Nat.pow_succ]
      exact fits
    have byte : (UInt8.ofNat (n % 256)).toNat = n % 256 :=
      UInt8.toNat_ofNat_of_lt (Nat.mod_lt _ (by decide))
    have high := Numeral.digitValue?_digitChar (n % 256 / 16) (by omega)
    have low := Numeral.digitValue?_digitChar (n % 256 % 16) (Nat.mod_lt _ (by decide))
    rw [ofNat, List.flatMap_append, Numeral.read?, Numeral.readFrom?_append (ih _ smaller),
      List.flatMap_cons, List.flatMap_nil, List.append_nil, hexPair, byte]
    simp only [Numeral.readFrom?, high, low, Option.some.injEq]
    omega

end Bytes

/-- The bytes of an address are the last twenty of its word. -/
theorem Word.addressBytes_eq_drop (w : Word) : w.addressBytes = w.toBytes.drop 12 := by
  show Bytes.ofNat 20 w.toNat = (Bytes.ofNat (12 + 20) w.toNat).drop 12
  rw [Bytes.ofNat_add, List.drop_left' (Bytes.length_ofNat 12 _)]

/-- What has hexadecimal digits only does not begin with `0x`. -/
theorem stripStart?_of_all_isHexDigit {cs : List Char} (all : cs.all isHexDigit = true) :
    stripStart? ['0', 'x'] cs = none := by
  cases stripped : stripStart? ['0', 'x'] cs with
  | none => rfl
  | some rest =>
    rw [stripStart?_eq_some stripped] at all
    simp [isHexDigit, isDecimalDigit] at all

/-- Digits of a word, if they are not too many, are read as the word. -/
theorem Word.ofHex?_of_read? {w : Word} {cs : List Char} (all : cs.all isHexDigit = true)
    (short : cs.length ≤ 64) (read : Numeral.read? 16 cs = some w.toNat) :
    Word.ofHex? cs = some w := by
  have inSize : w.toNat < Word.size := w.isLt
  rw [ofHex?, stripStart?_of_all_isHexDigit all, Option.getD_none]
  simp only [if_pos short]
  rw [read, Option.bind_some, ofNat?, if_pos inSize, BitVec.ofNat_toNat, BitVec.setWidth_eq]

/-- An address is read as it was written. -/
theorem Word.ofHex?_addressBytes {w : Word} (fits : w.toNat < 16 ^ 40) :
    Word.ofHex? (w.addressBytes.flatMap Bytes.hexPair) = some w := by
  have short : (w.addressBytes.flatMap Bytes.hexPair).length ≤ 64 := by
    rw [Bytes.length_flatMap_hexPair, addressBytes, Bytes.length_ofNat]
    decide
  refine ofHex?_of_read? (Bytes.all_isHexDigit_flatMap_hexPair _) short ?_
  rw [addressBytes, Bytes.read?_flatMap_hexPair_ofNat 20 _ (by simpa using fits)]

/-- A word is read as it was written with the fewest digits. -/
theorem Word.ofHex?_write (w : Word) : Word.ofHex? (Numeral.write 16 w.toNat) = some w := by
  have fits : w.toNat < 16 ^ (63 + 1) := w.isLt
  exact ofHex?_of_read? (Numeral.all_isHexDigit_write _)
    (Numeral.length_write_le (by decide) fits) (Numeral.read?_write_hex _)

end RuleCodec
