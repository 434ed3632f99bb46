/-
RuleCodec/Proofs/Cores.lean

What instructions show of an expression that was read again.

Reading again and dropping what instructions do not show can be done in either
order (`Expr.core_reread`), since the arguments of a call are grouped on their
own.  So it depends on the core alone whether a condition means the same after
its text was read again: the core has to be faithful, and no text in it may be
taken for an argument (`Expr.gist_bind_reread_iff`).
-/
import RuleCodec.Proofs.Gist
import RuleCodec.Proofs.Rereading

namespace RuleCodec

/-! ### Cores of phrases -/

mutual

/-- The primary phrase without the arguments of calls and the marks of updates. -/
def Primary.core : Primary → Primary
  | .leaf l => .leaf l
  | .tracker ref => .tracker ⟨ref.name, false⟩
  | .keyed ref key => .keyed ⟨ref.name, false⟩ key.core
  | .call name => .call name
  | .callWith name _ => .call name
  | .paren inner => .paren inner.core
  | .piped key ref => .piped key.core ⟨ref.name, false⟩

/-- The phrase without the arguments of calls and the marks of updates. -/
def Phrase.core : Phrase → Phrase
  | .primary p => .primary p.core
  | .not operand => .not operand.core
  | .binary op left right => .binary op left.core right.core

end

mutual

/-- Reading a primary commutes with taking its core. -/
theorem Primary.erase_core (p : Primary) : p.core.erase = p.erase.core := by
  match p with
  | .leaf l => cases l <;> rfl
  | .tracker _ | .call _ | .callWith _ _ => rfl
  | .keyed ref key => rw [Primary.core, Primary.erase, key.erase_core, Primary.erase, Expr.core]
  | .paren inner => rw [Primary.core, Primary.erase, inner.erase_core, Primary.erase]
  | .piped key ref => rw [Primary.core, Primary.erase, key.erase_core, Primary.erase, Expr.core]

/-- So does reading a phrase. -/
theorem Phrase.erase_core (t : Phrase) : t.core.erase = t.erase.core := by
  match t with
  | .primary p => exact p.erase_core
  | .not operand => rw [Phrase.core, Phrase.erase, operand.erase_core, Phrase.erase, Expr.core]
  | .binary op left right =>
    rw [Phrase.core, Phrase.erase, left.erase_core, right.erase_core, Phrase.erase, Expr.core]

end

namespace Phrase

/-- A core is prepended to piece by piece. -/
theorem core_prepend (p : Primary) (op : BinaryOp) (t : Phrase) :
    (t.prepend p op).core = t.core.prepend p.core op := by
  fun_induction prepend p op t with
  | case1 op' left right looser ih => rw [core, core, prepend, if_pos looser, ih]
  | case2 op' left right tight =>
    rw [core, core, core, prepend, if_neg tight]
  | case3 t notBinary =>
    cases t with
    | binary op' left right => exact absurd rfl (notBinary op' left right)
    | _ => rfl

theorem core_negated (t : Phrase) : t.negated.core = t.core.negated := by
  fun_induction negated t with
  | case1 op left right looser ih => rw [core, core, negated, if_pos looser, ih]
  | case2 op left right tight => rw [core, core, negated, if_neg tight]
  | case3 t notBinary =>
    cases t with
    | binary op left right => exact absurd rfl (notBinary op left right)
    | _ => rfl

/-- What comes behind a phrase, without the arguments of calls and the marks of updates. -/
def restCore (rest : Option (BinaryOp × Phrase)) : Option (BinaryOp × Phrase) :=
  rest.map fun behind => (behind.1, behind.2.core)

end Phrase

mutual

/-- Regrouping does not look at the leaves, so it commutes with the core. -/
theorem Primary.core_regroup (p : Primary) : p.regroup.core = p.core.regroup := by
  match p with
  | .leaf _ | .tracker _ | .call _ | .callWith _ _ => rfl
  | .keyed ref key =>
    rw [Primary.regroup, Primary.core, key.core_regroupThen none, Primary.core, Primary.regroup]
    rfl
  | .paren inner =>
    rw [Primary.regroup, Primary.core, inner.core_regroupThen none, Primary.core, Primary.regroup]
    rfl
  | .piped key ref =>
    rw [Primary.regroup, Primary.core, key.core_regroup, Primary.core, Primary.regroup]

theorem Phrase.core_regroupThen (t : Phrase) (rest : Option (BinaryOp × Phrase)) :
    (t.regroupThen rest).core = t.core.regroupThen (Phrase.restCore rest) := by
  match t, rest with
  | .primary p, none => exact congrArg Phrase.primary p.core_regroup
  | .primary p, some (op, s) =>
    rw [Phrase.regroupThen, Phrase.core_prepend, p.core_regroup]
    rfl
  | .not operand, rest =>
    rw [Phrase.regroupThen, Phrase.core_negated, operand.core_regroupThen, Phrase.core,
      Phrase.regroupThen]
  | .binary op left right, rest =>
    rw [Phrase.regroupThen, left.core_regroupThen, Phrase.restCore, Option.map_some,
      right.core_regroupThen, Phrase.core, Phrase.regroupThen]

end

namespace Expr

theorem isGroup_core (e : Expr) : e.core.isGroup = e.isGroup := by
  cases e <;> rfl

/-- The core of an operand gets its parentheses exactly where the operand does. -/
theorem core_operandPhrase (e : Expr) (t : Phrase) :
    (operandPhrase e t).core = operandPhrase e.core t.core := by
  rw [operandPhrase, operandPhrase, isGroup_core]
  split <;> rfl

/-- The core is written down as the core of what the expression is written down as. -/
theorem phrase_core (e : Expr) : e.core.phrase = e.phrase.core := by
  cases e with
  | text value =>
    rw [core, phrase]
    split <;> rfl
  | foreignCall name arguments =>
    rw [core, phrase, phrase]
    cases arguments <;> rfl
  | mapped ref key => rw [core, phrase, phrase, phrase_core key, Phrase.core, Primary.core]
  | binary op left right =>
    rw [core, phrase, phrase, phrase_core left, phrase_core right, Phrase.core, core_operandPhrase,
      core_operandPhrase]
  | not operand => rw [core, phrase, phrase, phrase_core operand, Phrase.core, core_operandPhrase]
  | _ => rfl

/-- The core is read again on its own. -/
theorem core_reread (e : Expr) : e.reread.core = e.core.reread := by
  rw [reread, reread, ← Phrase.erase_core, Phrase.regroup, Phrase.core_regroupThen, phrase_core]
  rfl

/-! ### Binding -/

variable (isArgument : String → Bool)

/-- Names are bound in the core as they are in the expression. -/
theorem core_bind (e : Expr) : (e.bind isArgument).core = e.core.bind isArgument := by
  match e with
  | .identifier name =>
    rw [core, bind]
    split <;> rfl
  | .mapped ref key => rw [bind, core, core_bind key, core, bind]
  | .binary op left right => rw [bind, core, core_bind left, core_bind right, core, bind]
  | .not operand => rw [bind, core, core_bind operand, core, bind]
  | .foreignCall _ _ | .number _ | .address _ | .text _ | .bytes _ | .boolean _ | .argument _
  | .tracker _ | .global _ => rfl

/-- Making values numeric does not interfere with the core either. -/
theorem core_numeric (e : Expr) : e.numeric.core = e.core.numeric := by
  match e with
  | .mapped ref key => rw [numeric, core, core_numeric key, core, numeric]
  | .binary op left right =>
    rw [numeric, core, core_numeric left, core_numeric right, core, numeric]
  | .not operand => rw [numeric, core, core_numeric operand, core, numeric]
  | .foreignCall _ _ | .number _ | .address _ | .text _ | .bytes _ | .boolean _ | .identifier _
  | .argument _ | .tracker _ | .global _ => rfl

/-- So the gist of a bound expression is made from its core. -/
theorem gist_bind (e : Expr) : (e.bind isArgument).gist = (e.core.bind isArgument).numeric := by
  rw [gist, core_numeric, core_bind]

/-- Neither binding nor numbers for booleans change how a core is nested. -/
theorem shape_gist_bind (e : Expr) : (e.bind isArgument).gist.shape = e.core.shape := by
  rw [gist_bind]
  -- binding turns names into arguments, which have the same shape
  match e with
  | .identifier name =>
    rw [core, bind]
    split <;> rfl
  | .mapped ref key =>
    have inKey := shape_gist_bind key
    rw [gist_bind] at inKey
    rw [core, bind, numeric, shape, shape, inKey]
  | .binary op left right =>
    have inLeft := shape_gist_bind left
    have inRight := shape_gist_bind right
    rw [gist_bind] at inLeft inRight
    rw [core, bind, numeric, shape, shape, inLeft, inRight]
  | .not operand =>
    have inOperand := shape_gist_bind operand
    rw [gist_bind] at inOperand
    rw [core, bind, numeric, shape, shape, inOperand]
  | .foreignCall _ _ | .number _ | .address _ | .text _ | .bytes _ | .boolean _ | .argument _
  | .tracker _ | .global _ => rfl

/-- No text of the expression that can stand bare is taken for an argument. -/
def TextsKept (e : Expr) : Prop :=
  ∀ value, .text value ∈ e.nodes → isBareWord value.toList → isArgument value = false

/-- A text that is read as a name is bound as a text again exactly if it is no argument. -/
theorem numeric_bind_phrase_iff (e : Expr) (unbound : ∀ name, .argument name ∉ e.nodes) :
    (e.core.phrase.erase.bind isArgument).numeric = (e.core.bind isArgument).numeric ↔
      e.core.TextsKept isArgument := by
  match e with
  | .text value =>
    -- a text that looks like a name is written without quotes and read back as a name: this is the
    -- only case in which something can change
    by_cases bare : isBareWord value.toList
    · cases named : isArgument value <;>
        simp [core, phrase, bare, Phrase.erase, Primary.erase, Leaf.erase, bind, named, numeric,
          TextsKept, nodes]
    · simp [core, phrase, bare, Phrase.erase, Primary.erase, Leaf.erase, bind, numeric, TextsKept,
        nodes]
  | .argument name => exact absurd List.mem_cons_self (unbound name)
  | .mapped ref key =>
    have inKey := numeric_bind_phrase_iff key fun name mem =>
      unbound name (List.mem_cons_of_mem _ mem)
    rw [core, phrase, Phrase.erase, Primary.erase, bind, bind, numeric, numeric, mapped.injEq,
      inKey]
    simp [TextsKept, nodes]
  | .binary op left right =>
    have inLeft := numeric_bind_phrase_iff left fun name mem =>
      unbound name (List.mem_cons_of_mem _ (List.mem_append_left _ mem))
    have inRight := numeric_bind_phrase_iff right fun name mem =>
      unbound name (List.mem_cons_of_mem _ (List.mem_append_right _ mem))
    rw [core, phrase, Phrase.erase, erase_operandPhrase, erase_operandPhrase, bind, bind, numeric,
      numeric, binary.injEq, inLeft, inRight]
    simp [TextsKept, nodes, or_imp, forall_and]
  | .not operand =>
    have inOperand := numeric_bind_phrase_iff operand fun name mem =>
      unbound name (List.mem_cons_of_mem _ mem)
    rw [core, phrase, Phrase.erase, erase_operandPhrase, bind, bind, numeric, numeric, not.injEq,
      inOperand]
    simp [TextsKept, nodes]
  | .boolean value => cases value <;> simp [core, phrase, Phrase.erase, Primary.erase, Leaf.erase,
      bind, numeric, TextsKept, nodes]
  | .foreignCall _ _ | .number _ | .address _ | .bytes _ | .identifier _ | .tracker _
  | .global _ =>
    simp [core, phrase, Phrase.erase, Primary.erase, Leaf.erase, TextsKept, nodes, nodesAll]

/-- **When a text means the same when it is read again.**  Instructions show the same of an
expression and of what its text is read as exactly if the core is faithful and keeps its texts. -/
theorem gist_bind_reread_iff {e : Expr} (unbound : ∀ name, .argument name ∉ e.nodes) :
    (e.reread.bind isArgument).gist = (e.bind isArgument).gist ↔
      e.core.Faithful ∧ e.core.TextsKept isArgument := by
  constructor
  · intro same
    have shapes := congrArg shape same
    rw [shape_gist_bind, shape_gist_bind, core_reread, shape_reread_iff] at shapes
    rw [gist_bind, gist_bind, core_reread, shapes.reread_eq,
      numeric_bind_phrase_iff isArgument e unbound] at same
    exact ⟨shapes, same⟩
  · rintro ⟨faithful, kept⟩
    rw [gist_bind, gist_bind, core_reread, faithful.reread_eq]
    exact (numeric_bind_phrase_iff isArgument e unbound).2 kept

end Expr

end RuleCodec
