/-
RuleCodec/Proofs/Precedence.lean

When the text of an expression is read as the expression itself.

Writing keeps the parentheses around an operand that is an `AND` or an `OR`
and drops all others, so the operators in the text may find other operands
than they had in the tree.  Whether they do is a matter of each operator and
the operators next to it (`Expr.KeepsOperands`), and the text is read as the
tree exactly if every operator keeps its operands (`Expr.parse_render_iff`).
Leaves are read one by one, and what they are read as is `Expr.readLeaves`.
-/
import RuleCodec.Proofs.Rereading

namespace RuleCodec

namespace Expr

/-! ### Leaves -/

mutual

/-- The expression with each leaf as its text is read: a boolean as a number, and an argument or a
text that can stand bare as a name. -/
def readLeaves : Expr → Expr
  | text value => if isBareWord value.toList then identifier value else text value
  | boolean value => number (if value then 1 else 0)
  | argument name => identifier name
  | foreignCall name arguments => foreignCall name (readLeavesAll arguments)
  | mapped ref key => mapped ref (readLeaves key)
  | binary op left right => binary op (readLeaves left) (readLeaves right)
  | not operand => not (readLeaves operand)
  | number value => number value
  | address value => address value
  | bytes value => bytes value
  | identifier name => identifier name
  | tracker ref => tracker ref
  | global which => global which

/-- The arguments of a call as they are read back. -/
def readLeavesAll : List Expr → List Expr
  | [] => []
  | e :: rest => readLeaves e :: readLeavesAll rest

end

mutual

/-- What an expression is written as stands for the expression with its leaves read back. -/
theorem erase_phrase (e : Expr) : e.phrase.erase = e.readLeaves := by
  match e with
  | .text value =>
    rw [phrase, readLeaves]
    split <;> rfl
  | .foreignCall name arguments =>
    rw [phrase, readLeaves]
    split
    · rename_i none
      rw [List.isEmpty_iff.1 none]
      rfl
    · rw [Phrase.erase, Primary.erase, erase_phraseAll arguments]
  | .mapped ref key => rw [phrase, Phrase.erase, Primary.erase, erase_phrase key, readLeaves]
  | .binary op left right =>
    rw [phrase, Phrase.erase, erase_operandPhrase, erase_operandPhrase, erase_phrase left,
      erase_phrase right, readLeaves]
  | .not operand =>
    rw [phrase, Phrase.erase, erase_operandPhrase, erase_phrase operand, readLeaves]
  | .number _ | .address _ | .bytes _ | .boolean _ | .identifier _ | .argument _ | .tracker _
  | .global _ => rfl

theorem erase_phraseAll (es : List Expr) : (phraseAll es).erase = readLeavesAll es := by
  match es with
  | [] => rfl
  | e :: rest =>
    rw [phraseAll, readLeavesAll]
    split
    · rename_i none
      rw [List.isEmpty_iff.1 none, Arguments.erase, erase_phrase e]
      rfl
    · rw [Arguments.erase, erase_phrase e, erase_phraseAll rest]

end

/-- What is read again is the expression, its leaves read one by one, exactly if that is
faithful. -/
theorem reread_eq_readLeaves_iff {e : Expr} : e.reread = e.readLeaves ↔ e.Faithful := by
  rw [← erase_phrase]
  constructor
  · intro same
    rw [← shape_reread_iff, same, shape_phrase]
  · exact Faithful.reread_eq

/-! ### Operators beside each other -/

/-- The operator of an operand that is written without parentheses. -/
def bareOperator? : Expr → Option BinaryOp
  | binary op _ _ => if op.isLogical then none else some op
  | _ => none

/-- Whether an operand is written as a negation, or ends in one through right operands that are
written without parentheses. -/
def endsInNot : Expr → Bool
  | not _ => true
  | binary op _ right => !op.isLogical && right.endsInNot
  | _ => false

/-- The operator on top of an expression finds the same operands in the text: on its left an
operator that binds more tightly, on its right one that binds no less tightly, and, where it is
tighter than the logical ones, nothing on its left that ends in a negation.  A negation keeps any
operand but an assignment. -/
def KeepsOperands : Expr → Prop
  | binary op left right =>
    (∀ op' ∈ left.bareOperator?, op.power < op'.power) ∧
      (∀ op' ∈ right.bareOperator?, op.power ≤ op'.power) ∧
      (Operation.and.power < op.power → ¬ left.endsInNot)
  | not operand => ∀ op' ∈ operand.bareOperator?, op'.isUpdate = false
  | _ => True

instance : (e : Expr) → Decidable e.KeepsOperands
  | binary _ _ _ => inferInstanceAs (Decidable (_ ∧ _ ∧ (_ → _)))
  | not operand => inferInstanceAs (Decidable (∀ op' ∈ operand.bareOperator?, _))
  | number _ | address _ | text _ | bytes _ | boolean _ | identifier _ | argument _ | tracker _
  | foreignCall _ _ | global _ | mapped _ _ => .isTrue trivial

variable {e : Expr}

/-- An operand binds more tightly exactly if its operator does, where it has no parentheses. -/
theorem above_operandPhrase {power : Nat} :
    (operandPhrase e e.phrase).Above power ↔ ∀ op' ∈ e.bareOperator?, power < op'.power := by
  cases e with
  | binary op left right =>
    rw [operandPhrase, isGroup, bareOperator?]
    cases op.isLogical <;> simp [phrase, Phrase.Above]
  | _ => simp [operandPhrase, isGroup, bareOperator?, phrase, Phrase.Above]

/-- An operand binds at least as tightly exactly if its operator does. -/
theorem atLeast_operandPhrase {power : Nat} :
    (operandPhrase e e.phrase).AtLeast power ↔ ∀ op' ∈ e.bareOperator?, power ≤ op'.power := by
  cases e with
  | binary op left right =>
    rw [operandPhrase, isGroup, bareOperator?]
    cases op.isLogical <;> simp [phrase, Phrase.AtLeast]
  | _ => simp [operandPhrase, isGroup, bareOperator?, phrase, Phrase.AtLeast]

theorem endsInNot_operandPhrase (e : Expr) :
    (operandPhrase e e.phrase).EndsInNot ↔ e.endsInNot := by
  match e with
  | .binary op left right =>
    rw [operandPhrase, isGroup, endsInNot]
    cases op.isLogical with
    | true => simp [Phrase.EndsInNot]
    | false => simpa [phrase, Phrase.EndsInNot] using endsInNot_operandPhrase right
  | .not operand => simp [operandPhrase, isGroup, phrase, Phrase.EndsInNot, endsInNot]
  | .number _ | .address _ | .text _ | .bytes _ | .boolean _ | .identifier _ | .argument _
  | .tracker _ | .foreignCall _ _ | .global _ | .mapped _ _ =>
    simp [operandPhrase, isGroup, phrase, Phrase.EndsInNot, endsInNot]

/-- Parentheses around an operand do not matter for what is grouped inside it. -/
theorem wellGrouped_operandPhrase :
    (operandPhrase e e.phrase).WellGrouped ↔ e.phrase.WellGrouped := by
  rw [operandPhrase]
  split <;> exact Iff.rfl

/-- The comparisons are the first operators that bind more tightly than the logical ones. -/
theorem comparisonPower_le_iff_and_power_lt (op : BinaryOp) :
    comparisonPower ≤ op.power ↔ Operation.and.power < op.power := by
  have ne := op.power_ne_negationPower
  have logical : Operation.and.power = 2 := rfl
  simp only [comparisonPower, negationPower] at *
  omega

/-- An operator that is written without parentheses stores unless it is a comparison or tighter. -/
theorem comparisonPower_le_bareOperator_iff {op : BinaryOp} (bare : op ∈ e.bareOperator?) :
    comparisonPower ≤ op.power ↔ op.isUpdate = false := by
  have single : op.isLogical = false := by
    cases e with
    | binary op' left right =>
      rw [bareOperator?] at bare
      split at bare
      · cases bare
      · cases bare
        simpa using ‹¬ op.isLogical = true›
    | _ => cases bare
  exact BinaryOp.comparisonPower_le_iff single

mutual

/-- An expression is written faithfully exactly if each of its parts keeps its operands. -/
theorem faithful_iff (e : Expr) : e.Faithful ↔ ∀ n ∈ e.nodes, n.KeepsOperands := by
  match e with
  | .text value =>
    rw [Faithful, phrase, nodes, List.forall_mem_singleton]
    exact Iff.rfl
  | .foreignCall name arguments =>
    -- a call and a key are closed by parentheses: nothing around them matters
    have inArguments := wellGrouped_phraseAll_iff arguments
    have top : (foreignCall name arguments).KeepsOperands := trivial
    rw [Faithful, phrase, nodes, List.forall_mem_cons, and_iff_right top, ← inArguments]
    split
    · rename_i none
      rw [List.isEmpty_iff.1 none]
      exact Iff.rfl
    · exact Iff.rfl
  | .mapped ref key =>
    have top : (mapped ref key).KeepsOperands := trivial
    rw [nodes, List.forall_mem_cons, and_iff_right top, ← faithful_iff key]
    exact Iff.rfl
  | .binary op left right =>
    rw [nodes, List.forall_mem_cons, List.forall_mem_append, ← faithful_iff left,
      ← faithful_iff right, Faithful, phrase, Phrase.WellGrouped, wellGrouped_operandPhrase,
      wellGrouped_operandPhrase, above_operandPhrase, atLeast_operandPhrase,
      endsInNot_operandPhrase, comparisonPower_le_iff_and_power_lt, KeepsOperands, Faithful,
      Faithful]
    -- the same five conditions, those on the operands themselves last
    constructor
    · rintro ⟨inLeft, inRight, here⟩
      exact ⟨here, inLeft, inRight⟩
    · rintro ⟨here, inLeft, inRight⟩
      exact ⟨inLeft, inRight, here⟩
  | .not operand =>
    have here : (∀ op' ∈ operand.bareOperator?, comparisonPower ≤ op'.power) ↔
        (not operand).KeepsOperands :=
      forall₂_congr fun op' bare => comparisonPower_le_bareOperator_iff bare
    rw [nodes, List.forall_mem_cons, ← faithful_iff operand, Faithful, phrase,
      Phrase.WellGrouped, wellGrouped_operandPhrase, atLeast_operandPhrase, here, Faithful,
      and_comm]
  | .number _ | .address _ | .bytes _ | .boolean _ | .identifier _ | .argument _ | .tracker _
  | .global _ =>
    rw [nodes, List.forall_mem_singleton]
    exact Iff.rfl

theorem wellGrouped_phraseAll_iff (es : List Expr) :
    (phraseAll es).WellGrouped ↔ ∀ n ∈ nodesAll es, n.KeepsOperands := by
  match es with
  | [] => simp [phraseAll, nodesAll, Arguments.WellGrouped]
  | e :: rest =>
    rw [phraseAll, nodesAll, List.forall_mem_append, ← faithful_iff e,
      ← wellGrouped_phraseAll_iff rest]
    split
    · rename_i none
      rw [List.isEmpty_iff.1 none]
      simp [phraseAll, Arguments.WellGrouped, Faithful]
    · exact Iff.rfl

end

/-! ### Printing and parsing -/

instance : (n : Expr) → Decidable n.Lexical
  | identifier _ | argument _ => inferInstanceAs (Decidable (isBareWord _ = true))
  | tracker _ | mapped _ _ | foreignCall _ _ => inferInstanceAs (Decidable (isName _ = true))
  | address _ => inferInstanceAs (Decidable (_ < _))
  | bytes _ => inferInstanceAs (Decidable (_ ≠ _))
  | number _ | text _ | boolean _ | global _ | binary _ _ _ | not _ => .isTrue trivial

/-- **When the text of an expression is read as the expression.**  The text always parses, and it
parses as the expression, up to how leaves are read, exactly if every operator keeps its
operands. -/
theorem parse_render_iff (lexical : ∀ n ∈ e.nodes, n.Lexical) :
    ∃ read, parse e.render = .ok read ∧
      (read = e.readLeaves ↔ ∀ n ∈ e.nodes, n.KeepsOperands) :=
  ⟨e.reread, parse_render lexical, reread_eq_readLeaves_iff.trans (faithful_iff e)⟩

/-- `NOT flag == 1 AND ( gold OR 2 + TR:m("two words") > limit )` is read as it was written, and
`a + b * c` not as the product it was written from. -/
theorem parse_render_product_of_sum :
    let kept : Expr :=
      .binary (.plain .and)
        (.not (.binary (.plain .equal) (.identifier "flag") (.boolean true)))
        (.binary (.plain .or) (.text "gold")
          (.binary (.plain .greater)
            (.binary (.plain (.arith .add)) (.number 2)
              (.mapped ⟨"m", false⟩ (.text "two words")))
            (.argument "limit")))
    let lost : Expr :=
      .binary (.plain (.arith .multiply))
        (.binary (.plain (.arith .add)) (.identifier "a") (.identifier "b")) (.identifier "c")
    ((∀ n ∈ kept.nodes, n.Lexical) ∧ parse kept.render = .ok kept.readLeaves) ∧
      (∀ n ∈ lost.nodes, n.Lexical) ∧
        ∃ read, parse lost.render = .ok read ∧ read ≠ lost.readLeaves := by
  intro kept lost
  have lexicalKept : ∀ n ∈ kept.nodes, n.Lexical := by decide +kernel
  have lexicalLost : ∀ n ∈ lost.nodes, n.Lexical := by decide +kernel
  obtain ⟨read, parsed, same⟩ := parse_render_iff lexicalKept
  obtain ⟨other, parsedLost, differs⟩ := parse_render_iff lexicalLost
  refine ⟨⟨lexicalKept, ?_⟩, lexicalLost, other, parsedLost, ?_⟩
  · rw [parsed, same.2 (by decide +kernel)]
  · -- the sum is written without parentheses, so the product is read first
    rw [ne_eq, differs]
    decide +kernel

end Expr

end RuleCodec
