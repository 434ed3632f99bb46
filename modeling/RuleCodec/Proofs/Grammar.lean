/-
RuleCodec/Proofs/Grammar.lean

The concrete syntax of expressions.

A phrase is a syntax tree that still has its parentheses, its pipes and its
trailing commas.  It has a yield, the tokens it is written with, and an
erasure, the expression it stands for.

Design.  Pipes bind to what stands directly before them, so they are a form
of `Primary` and cannot be put behind a negation or a binary operator.  What
remains to be said about precedence is `Phrase.WellGrouped`: a binary phrase
without parentheses of its own must bind tightly enough for where it stands,
and no operator above the logical ones may follow a phrase that ends in a
negation, since the negation would take it.
-/
import RuleCodec.Expr.Parser

namespace RuleCodec

/-! ### Leaves -/

/-- An operand of one token. -/
inductive Leaf
  | number (value : Word)
  | address (value : Word)
  | bytes (value : Bytes)
  | text (value : String)
  | boolean (value : Bool)
  | identifier (name : String)
  | global (which : GlobalVariable)

namespace Leaf

/-- The token that a leaf is written as. -/
def token : Leaf → Token
  | number value => .number value
  | address value => .address value
  | bytes value => .bytes value
  | text value => .text value
  | boolean value => .boolean value
  | identifier name => .identifier name
  | global which => .globalVariable which.name

/-- The expression that a leaf stands for. -/
def erase : Leaf → Expr
  | number value => .number value
  | address value => .address value
  | bytes value => .bytes value
  | text value => .text value
  | boolean value => .boolean value
  | identifier name => .identifier name
  | global which => .global which

end Leaf

/-- The token of a tracker's name behind its marker. -/
def TrackerRef.token (ref : TrackerRef) : Token :=
  if ref.update then .trackerUpdate ref.name else .trackerRead ref.name

/-! ### Phrases -/

mutual

/-- A phrase that is neither a negation nor binary. -/
inductive Primary
  | leaf (l : Leaf)
  | tracker (ref : TrackerRef)
  | keyed (ref : TrackerRef) (key : Phrase)
  | call (name : String)
  | callWith (name : String) (arguments : Arguments)
  | paren (inner : Phrase)
  | piped (key : Primary) (ref : TrackerRef)

/-- What stands between the parentheses of a foreign call.  A comma behind
the last argument is `more` before `none`. -/
inductive Arguments
  | none
  | last (argument : Phrase)
  | more (argument : Phrase) (rest : Arguments)

/-- A concrete syntax tree. -/
inductive Phrase
  | primary (p : Primary)
  | not (operand : Phrase)
  | binary (op : BinaryOp) (left right : Phrase)

end

/-! ### Yield and erasure -/

mutual

/-- The tokens of a primary phrase. -/
def Primary.yield : Primary → List Token
  | .leaf l => [l.token]
  | .tracker ref => [ref.token]
  | .keyed ref key => ref.token :: .leftParen :: (key.yield ++ [.rightParen])
  | .call name => [.foreignCall name]
  | .callWith name arguments =>
    .foreignCall name :: .leftParen :: (arguments.yield ++ [.rightParen])
  | .paren inner => .leftParen :: (inner.yield ++ [.rightParen])
  | .piped key ref => key.yield ++ [.pipe, ref.token]

/-- The tokens between the parentheses of a foreign call. -/
def Arguments.yield : Arguments → List Token
  | .none => []
  | .last argument => argument.yield
  | .more argument rest => argument.yield ++ .comma :: rest.yield

/-- The tokens of a phrase. -/
def Phrase.yield : Phrase → List Token
  | .primary p => p.yield
  | .not operand => .not :: operand.yield
  | .binary op left right => left.yield ++ .operator op :: right.yield

end

mutual

/-- The expression of a primary phrase. -/
def Primary.erase : Primary → Expr
  | .leaf l => l.erase
  | .tracker ref => .tracker ref
  | .keyed ref key => .mapped ref key.erase
  | .call name => .foreignCall name []
  | .callWith name arguments => .foreignCall name arguments.erase
  | .paren inner => inner.erase
  | .piped key ref => .mapped ref key.erase

/-- The expressions of arguments. -/
def Arguments.erase : Arguments → List Expr
  | .none => []
  | .last argument => [argument.erase]
  | .more argument rest => argument.erase :: rest.erase

/-- The expression of a phrase. -/
def Phrase.erase : Phrase → Expr
  | .primary p => p.erase
  | .not operand => .not operand.erase
  | .binary op left right => .binary op left.erase right.erase

end

/-! ### What holds of every token -/

section

variable {P : Token → Prop}

/-- What holds of all tokens of a tracker with a key holds of its parts. -/
theorem Primary.forall_yield_keyed {ref : TrackerRef} {key : Phrase}
    (h : ∀ k ∈ (Primary.keyed ref key).yield, P k) : P ref.token ∧ ∀ k ∈ key.yield, P k := by
  rw [Primary.yield, List.forall_mem_cons, List.forall_mem_cons, List.forall_mem_append] at h
  exact ⟨h.1, h.2.2.1⟩

theorem Primary.forall_yield_callWith {name : String} {arguments : Arguments}
    (h : ∀ k ∈ (Primary.callWith name arguments).yield, P k) :
    P (.foreignCall name) ∧ ∀ k ∈ arguments.yield, P k := by
  rw [Primary.yield, List.forall_mem_cons, List.forall_mem_cons, List.forall_mem_append] at h
  exact ⟨h.1, h.2.2.1⟩

theorem Primary.forall_yield_paren {inner : Phrase}
    (h : ∀ k ∈ (Primary.paren inner).yield, P k) : ∀ k ∈ inner.yield, P k := by
  rw [Primary.yield, List.forall_mem_cons, List.forall_mem_append] at h
  exact h.2.1

theorem Primary.forall_yield_piped {key : Primary} {ref : TrackerRef}
    (h : ∀ k ∈ (Primary.piped key ref).yield, P k) : (∀ k ∈ key.yield, P k) ∧ P ref.token := by
  rw [Primary.yield, List.forall_mem_append, List.forall_mem_cons, List.forall_mem_singleton] at h
  exact ⟨h.1, h.2.2⟩

/-- What holds of all tokens of a list of arguments holds of each of them. -/
theorem Arguments.forall_yield_more {argument : Phrase} {rest : Arguments}
    (h : ∀ k ∈ (Arguments.more argument rest).yield, P k) :
    (∀ k ∈ argument.yield, P k) ∧ ∀ k ∈ rest.yield, P k := by
  rw [Arguments.yield, List.forall_mem_append, List.forall_mem_cons] at h
  exact ⟨h.1, h.2.2⟩

theorem Phrase.forall_yield_not {operand : Phrase} (h : ∀ k ∈ (Phrase.not operand).yield, P k) :
    ∀ k ∈ operand.yield, P k := by
  rw [Phrase.yield, List.forall_mem_cons] at h
  exact h.2

/-- What holds of all tokens of an operation holds of its parts. -/
theorem Phrase.forall_yield_binary {op : BinaryOp} {left right : Phrase}
    (h : ∀ k ∈ (Phrase.binary op left right).yield, P k) :
    (∀ k ∈ left.yield, P k) ∧ P (.operator op) ∧ ∀ k ∈ right.yield, P k := by
  rw [Phrase.yield, List.forall_mem_append, List.forall_mem_cons] at h
  exact h

end

/-! ### Grouping -/

namespace Phrase

/-- A phrase that binds at least as tightly as `power`: any but a binary one
whose operator is looser. -/
def AtLeast (power : Nat) : Phrase → Prop
  | binary op _ _ => power ≤ op.power
  | _ => True

/-- A phrase that binds more tightly than `power`. -/
def Above (power : Nat) : Phrase → Prop
  | binary op _ _ => power < op.power
  | _ => True

/-- Whether a phrase is a negation, or ends in one through its right
operands. -/
def EndsInNot : Phrase → Prop
  | primary _ => False
  | not _ => True
  | binary _ _ right => right.EndsInNot

end Phrase

/-- The loosest power that a negation takes into its operand. -/
def comparisonPower : Nat := 4

mutual

/-- The groups within a primary phrase are sound. -/
def Primary.WellGrouped : Primary → Prop
  | .leaf _ | .tracker _ | .call _ => True
  | .keyed _ key => key.WellGrouped
  | .callWith _ arguments => arguments.WellGrouped
  | .paren inner => inner.WellGrouped
  | .piped key _ => key.WellGrouped

/-- The groups within arguments are sound. -/
def Arguments.WellGrouped : Arguments → Prop
  | .none => True
  | .last argument => argument.WellGrouped
  | .more argument rest => argument.WellGrouped ∧ rest.WellGrouped

/-- Every operand stands where its own operator lets it stand without
parentheses.  Operators of one power group to the right, so a left operand
must bind strictly tighter; and a comparison or an arithmetic operator must
not follow a negation. -/
def Phrase.WellGrouped : Phrase → Prop
  | .primary p => p.WellGrouped
  | .not operand => operand.WellGrouped ∧ operand.AtLeast comparisonPower
  | .binary op left right =>
    left.WellGrouped ∧ right.WellGrouped ∧
      left.Above op.power ∧ right.AtLeast op.power ∧
      (comparisonPower ≤ op.power → ¬ left.EndsInNot)

end

/-! ### Grouping can be decided -/

namespace Phrase

instance decidableAtLeast (power : Nat) : (t : Phrase) → Decidable (t.AtLeast power)
  | binary op _ _ => inferInstanceAs (Decidable (power ≤ op.power))
  | primary _ => .isTrue trivial
  | not _ => .isTrue trivial

instance decidableAbove (power : Nat) : (t : Phrase) → Decidable (t.Above power)
  | binary op _ _ => inferInstanceAs (Decidable (power < op.power))
  | primary _ => .isTrue trivial
  | not _ => .isTrue trivial

instance decidableEndsInNot : (t : Phrase) → Decidable t.EndsInNot
  | primary _ => .isFalse id
  | not _ => .isTrue trivial
  | binary _ _ right => right.decidableEndsInNot

end Phrase

mutual

instance Primary.decidableWellGrouped : (p : Primary) → Decidable p.WellGrouped
  | .leaf _ => .isTrue trivial
  | .tracker _ => .isTrue trivial
  | .call _ => .isTrue trivial
  | .keyed _ key => key.decidableWellGrouped
  | .callWith _ arguments => arguments.decidableWellGrouped
  | .paren inner => inner.decidableWellGrouped
  | .piped key _ => key.decidableWellGrouped

instance Arguments.decidableWellGrouped : (a : Arguments) → Decidable a.WellGrouped
  | .none => .isTrue trivial
  | .last argument => argument.decidableWellGrouped
  | .more argument rest =>
    have := argument.decidableWellGrouped
    have := rest.decidableWellGrouped
    inferInstanceAs (Decidable (_ ∧ _))

instance Phrase.decidableWellGrouped : (t : Phrase) → Decidable t.WellGrouped
  | .primary p => p.decidableWellGrouped
  | .not operand =>
    have := operand.decidableWellGrouped
    inferInstanceAs (Decidable (_ ∧ _))
  | .binary _ left right =>
    have := left.decidableWellGrouped
    have := right.decidableWellGrouped
    inferInstanceAs (Decidable (_ ∧ _ ∧ _ ∧ _ ∧ _))

end

/-! ### Powers -/

/-- No operator has the power of a negation. -/
theorem BinaryOp.power_ne_negationPower (op : BinaryOp) : op.power ≠ negationPower := by
  rcases op with op | a
  · cases op with
    | arith a => cases a <;> decide
    | _ => decide
  · cases a <;> decide

/-- An operator that is not logical is an update, or binds at least as tightly as a comparison. -/
theorem BinaryOp.comparisonPower_le_iff {op : BinaryOp} (single : op.isLogical = false) :
    comparisonPower ≤ op.power ↔ op.isUpdate = false := by
  rcases op with op | a
  · cases op with
    | arith a => cases a <;> decide
    | and => cases single
    | or => cases single
    | _ => decide
  · cases a <;> decide

namespace Phrase

/-- A phrase that binds tightly enough is tight enough for a looser place. -/
theorem AtLeast.mono {least power : Nat} {t : Phrase} (h : t.AtLeast power)
    (le : least ≤ power) : t.AtLeast least := by
  cases t with
  | binary op left right => exact Nat.le_trans le h
  | _ => trivial

/-- Binding more tightly is binding at least as tightly. -/
theorem Above.atLeast {power : Nat} {t : Phrase} (h : t.Above power) : t.AtLeast power := by
  cases t with
  | binary op left right => exact Nat.le_of_lt h
  | _ => trivial

/-- Binding as tightly as the next level is binding more tightly. -/
theorem AtLeast.above {least power : Nat} {t : Phrase} (h : t.AtLeast power)
    (lt : least < power) : t.Above least := by
  cases t with
  | binary op left right => exact Nat.lt_of_lt_of_le lt h
  | _ => trivial

/-- Every phrase can stand where nothing is asked of it. -/
theorem atLeast_zero (t : Phrase) : t.AtLeast 0 := by
  cases t with
  | binary op left right => exact Nat.zero_le _
  | _ => trivial

/-- What a negation is read with is what it may hold. -/
theorem atLeast_negationPower_iff {t : Phrase} :
    t.AtLeast negationPower ↔ t.AtLeast comparisonPower := by
  cases t with
  | binary op left right =>
    have ne := op.power_ne_negationPower
    simp only [AtLeast, negationPower, comparisonPower] at ne ⊢
    omega
  | _ => exact Iff.rfl

end Phrase

/-! ### First and last tokens -/

/-- A token that can begin an operand. -/
def Token.BeginsOperand : Token → Prop
  | .rightParen | .comma | .pipe | .operator _ | .endOfInput => False
  | _ => True

theorem Leaf.beginsOperand_token (l : Leaf) : l.token.BeginsOperand := by
  cases l <;> trivial

theorem TrackerRef.beginsOperand_token (ref : TrackerRef) : ref.token.BeginsOperand := by
  rw [TrackerRef.token]
  split <;> trivial

theorem TrackerRef.endOfInput_ne_token (ref : TrackerRef) : Token.endOfInput ≠ ref.token := by
  rw [TrackerRef.token]
  split <;> simp

/-- A primary begins an operand, and not with `NOT`. -/
theorem Primary.yield_begins : ∀ p : Primary,
    ∃ t ts, p.yield = t :: ts ∧ t.BeginsOperand ∧ t ≠ .not
  | .leaf l => ⟨l.token, [], rfl, l.beginsOperand_token, by cases l <;> simp [Leaf.token]⟩
  | .tracker ref =>
    ⟨ref.token, [], rfl, ref.beginsOperand_token, by rw [TrackerRef.token]; split <;> simp⟩
  | .keyed ref _ =>
    ⟨ref.token, _, rfl, ref.beginsOperand_token, by rw [TrackerRef.token]; split <;> simp⟩
  | .call _ => ⟨_, _, rfl, trivial, by simp⟩
  | .callWith _ _ => ⟨_, _, rfl, trivial, by simp⟩
  | .paren _ => ⟨_, _, rfl, trivial, by simp⟩
  | .piped key ref => by
    -- a piped primary begins with its key
    obtain ⟨t, ts, eq, begins, ne⟩ := Primary.yield_begins key
    exact ⟨t, ts ++ [.pipe, ref.token], by simp [Primary.yield, eq], begins, ne⟩

/-- So every phrase begins an operand. -/
theorem Phrase.yield_begins : ∀ t : Phrase, ∃ first rest, t.yield = first :: rest ∧
    first.BeginsOperand
  | .primary p => by
    obtain ⟨first, rest, eq, begins, -⟩ := p.yield_begins
    exact ⟨first, rest, by rw [Phrase.yield, eq], begins⟩
  | .not operand => ⟨.not, operand.yield, by rw [Phrase.yield], trivial⟩
  | .binary op left right => by
    obtain ⟨first, rest, eq, begins⟩ := Phrase.yield_begins left
    exact ⟨first, rest ++ .operator op :: right.yield, by simp [Phrase.yield, eq], begins⟩

end RuleCodec
