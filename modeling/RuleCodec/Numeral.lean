/-
RuleCodec/Numeral.lean

Positional numerals.  A number is written with the fewest digits, in lower case; a numeral is read
in either case and may begin with zeros.  No digits at all read as zero.
-/

namespace RuleCodec.Numeral

/-- The character of one digit below sixteen. -/
def digitChar (d : Nat) : Char :=
  if d < 10 then Char.ofNat (48 + d) else Char.ofNat (87 + d)

/-- The value of a digit in a base up to sixteen. -/
def digitValue? (base : Nat) (c : Char) : Option Nat :=
  let n := c.toNat
  let value :=
    if 48 ≤ n ∧ n ≤ 57 then n - 48
    else if 97 ≤ n ∧ n ≤ 102 then n - 87
    else if 65 ≤ n ∧ n ≤ 70 then n - 55
    else base
  if value < base then some value else none

/-- The digits of a number, most significant first. -/
def write (base n : Nat) : List Char :=
  if base < 2 ∨ n < base then [digitChar n]
  else write base (n / base) ++ [digitChar (n % base)]
termination_by n
decreasing_by exact Nat.div_lt_self (by omega) (by omega)

/-- The number that digits stand for, continuing from those already read. -/
def readFrom? (base : Nat) : Nat → List Char → Option Nat
  | n, [] => some n
  | n, c :: cs =>
    match digitValue? base c with
    | some d => readFrom? base (n * base + d) cs
    | none => none

/-- The number that digits stand for; none if a character is no digit. -/
def read? (base : Nat) (cs : List Char) : Option Nat :=
  readFrom? base 0 cs

/-- The decimal text of a number. -/
def decimal (n : Nat) : String :=
  String.ofList (write 10 n)

end RuleCodec.Numeral
