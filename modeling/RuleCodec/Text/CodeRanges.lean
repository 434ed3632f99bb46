/-
RuleCodec/Text/CodeRanges.lean

Character classes as tables: a class is a list of closed ranges of code points, ascending and
apart, so that a search may stop at the first range that begins above the code point it looks for.
-/

namespace RuleCodec.Text

/-- Closed ranges of code points, ascending and apart. -/
abbrev CodeRanges := List (Nat × Nat)

/-- Whether a code point lies in one of the ranges. -/
def CodeRanges.holdsAt : CodeRanges → Nat → Bool
  | [], _ => false
  | (lo, hi) :: rest, n => decide (lo ≤ n) && (decide (n ≤ hi) || CodeRanges.holdsAt rest n)

/-- Whether a character lies in one of the ranges. -/
def CodeRanges.holds (ranges : CodeRanges) (c : Char) : Bool :=
  ranges.holdsAt c.toNat

end RuleCodec.Text
