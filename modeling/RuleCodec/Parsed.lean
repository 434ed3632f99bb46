/-
RuleCodec/Parsed.lean

The result of a reader that takes tokens off a list.  It carries the proof that something was taken,
which is what lets readers call one another without a bound on the depth.
-/

namespace RuleCodec

/-- What a reader read, and the tokens left, fewer than `limit` of them. -/
structure Parsed (Token α : Type) (limit : Nat) where
  value : α
  rest : List Token
  short : rest.length < limit

end RuleCodec
