/-
RuleCodec/Config.lean

How rules are compiled: the numbers of opcodes, and what becomes of names that are in no table.
-/
import RuleCodec.Opcode
import RuleCodec.Symbols

namespace RuleCodec

/-- How rules are compiled.  The default is the current numbering, with unknown names refused. -/
structure Config where
  registry : Registry
  policy : UnresolvedPolicy
  deriving DecidableEq, Inhabited

end RuleCodec
