/-
RuleCodec/Operator.lean

The binary operators of the rule language.

An `Operation` is what an instruction can compute from two values.  A `BinaryOp` is what a rule can
write between two operands: an operation, or one of the compound updates `+= -= *= /=`, each of
which computes an arithmetic operation before it stores.
-/

namespace RuleCodec

/-- The four arithmetic operations. -/
inductive Arithmetic
  | add
  | subtract
  | multiply
  | divide
  deriving DecidableEq, Repr

/-- What an instruction can compute from two values. -/
inductive Operation
  | arith (a : Arithmetic)
  | less
  | lessEqual
  | greater
  | greaterEqual
  | equal
  | notEqual
  | and
  | or
  | assign
  deriving DecidableEq, Repr

/-- What a rule can write between two operands. -/
inductive BinaryOp
  | plain (op : Operation)
  | compound (a : Arithmetic)
  deriving DecidableEq, Repr

/-! ### Spelling -/

def Arithmetic.symbol : Arithmetic → String
  | add => "+"
  | subtract => "-"
  | multiply => "*"
  | divide => "/"

def Operation.symbol : Operation → String
  | arith a => a.symbol
  | less => "<"
  | lessEqual => "<="
  | greater => ">"
  | greaterEqual => ">="
  | equal => "=="
  | notEqual => "!="
  | and => "AND"
  | or => "OR"
  | assign => "="

def BinaryOp.symbol : BinaryOp → String
  | plain op => op.symbol
  | compound a => a.symbol ++ "="

/-! ### Binding -/

/-- How tightly an operation binds. -/
def Operation.power : Operation → Nat
  | assign => 1
  | and | or => 2
  | equal | notEqual => 4
  | greaterEqual => 5
  | greater => 6
  | less => 7
  | lessEqual => 8
  | arith .add => 9
  | arith .subtract => 10
  | arith .divide => 11
  | arith .multiply => 12

/-- How tightly an operator binds.  Every operator groups to the right. -/
def BinaryOp.power : BinaryOp → Nat
  | plain op => op.power
  | compound _ => Operation.power .assign

/-- The power at which the operand of a negation is read: above the logical operators, below the
comparisons. -/
def negationPower : Nat := 3

/-- `AND` and `OR`, whose results keep their parentheses as operands. -/
def Operation.isLogical : Operation → Bool
  | and | or => true
  | _ => false

def BinaryOp.isLogical : BinaryOp → Bool
  | plain op => op.isLogical
  | compound _ => false

/-! ### Updates -/

/-- Whether an operator stores into a tracker. -/
def BinaryOp.isUpdate : BinaryOp → Bool
  | plain .assign => true
  | plain _ => false
  | compound _ => true

/-- The operation that an operator computes. -/
def BinaryOp.operation : BinaryOp → Operation
  | plain op => op
  | compound a => .arith a

/-- The arithmetic that a compound update performs. -/
def BinaryOp.base? : BinaryOp → Option BinaryOp
  | plain _ => none
  | compound a => some (plain (.arith a))

/-- The compound update that performs an arithmetic. -/
def BinaryOp.compound? : BinaryOp → Option BinaryOp
  | plain (.arith a) => some (compound a)
  | _ => none

/-- The update that computes an operation. -/
def Operation.update? : Operation → Option BinaryOp
  | arith a => some (.compound a)
  | assign => some (.plain .assign)
  | _ => none

end RuleCodec
