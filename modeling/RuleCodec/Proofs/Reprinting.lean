/-
RuleCodec/Proofs/Reprinting.lean

Writing what was read again.

Reading the text of an expression can nest the operators anew, but where no
logical operator has an update beside it the text of what was read is the text
that was read (`Expr.Settled.spell_reread`).

Design.  The text that comes from a phrase is the same however its tokens are
grouped, so all that is to be shown is that regrouping leaves a phrase printed:
parentheses around the operands that are an `AND` or an `OR`, and around
nothing else.  A logical operator binds more loosely than all that stand beside
it, updates aside, so regrouping cannot take one out of its parentheses or put
one into an operand.
-/
import RuleCodec.Proofs.Rereading

namespace RuleCodec

/-! ### Texts of regrouped phrases -/

/-- The operand that is put in front is spelled in front. -/
theorem Phrase.spell_prepend (p : Primary) (op : BinaryOp) (t : Phrase) :
    (t.prepend p op).spell = p.spell ++ ' ' :: op.symbol.toList ++ ' ' :: t.spell := by
  fun_induction Phrase.prepend p op t with
  | case1 op' left right looser ih => simp [Phrase.spell, ih]
  | case2 op' left right tight => simp [Phrase.spell]
  | case3 t notBinary => simp [Phrase.spell]

theorem Phrase.spell_negated (t : Phrase) :
    t.negated.spell = ['N', 'O', 'T', ' '] ++ t.spell := by
  fun_induction Phrase.negated t with
  | case1 op left right looser ih => simp [Phrase.spell, ih]
  | case2 op left right tight => simp [Phrase.spell]
  | case3 t notBinary => simp [Phrase.spell]

/-- The text of what comes behind a phrase. -/
def Phrase.restSpell : Option (BinaryOp × Phrase) → List Char
  | none => []
  | some (op, t) => ' ' :: op.symbol.toList ++ ' ' :: t.spell

mutual

/-- Regrouping does not change how a primary is spelled. -/
theorem Primary.spell_regroup (p : Primary) : p.regroup.spell = p.spell := by
  match p with
  | .leaf _ | .tracker _ | .call _ => rfl
  | .keyed ref key =>
    rw [Primary.regroup, Primary.spell, Primary.spell, key.spell_regroupThen, Phrase.restSpell,
      List.append_nil]
  | .callWith name arguments =>
    rw [Primary.regroup, Primary.spell, Primary.spell, arguments.spell_regroup]
  | .paren inner =>
    rw [Primary.regroup, Primary.spell, Primary.spell, inner.spell_regroupThen, Phrase.restSpell,
      List.append_nil]
  | .piped key ref => rw [Primary.regroup, Primary.spell, Primary.spell, key.spell_regroup]

theorem Arguments.spell_regroup (a : Arguments) : a.regroup.spell = a.spell := by
  match a with
  | .none => rfl
  | .last argument =>
    rw [Arguments.regroup, Arguments.spell, Arguments.spell, argument.spell_regroupThen,
      Phrase.restSpell, List.append_nil]
  | .more argument rest =>
    rw [Arguments.regroup, Arguments.spell, Arguments.spell, argument.spell_regroupThen,
      Phrase.restSpell, List.append_nil, rest.spell_regroup]

/-- Regrouping does not change how a phrase is spelled, nor what is behind it. -/
theorem Phrase.spell_regroupThen (t : Phrase) (rest : Option (BinaryOp × Phrase)) :
    (t.regroupThen rest).spell = t.spell ++ Phrase.restSpell rest := by
  match t, rest with
  | .primary p, none =>
    rw [Phrase.regroupThen, Phrase.spell, Phrase.spell, p.spell_regroup, Phrase.restSpell,
      List.append_nil]
  | .primary p, some (op, s) =>
    rw [Phrase.regroupThen, Phrase.spell_prepend, p.spell_regroup, Phrase.spell,
      Phrase.restSpell, List.append_assoc]
  | .not operand, rest =>
    rw [Phrase.regroupThen, Phrase.spell_negated, operand.spell_regroupThen, Phrase.spell,
      List.append_assoc]
  | .binary op left right, rest =>
    rw [Phrase.regroupThen, left.spell_regroupThen, Phrase.restSpell, right.spell_regroupThen,
      Phrase.spell]
    simp

end

/-- Regrouping leaves the text as it is. -/
theorem Phrase.spell_regroup (t : Phrase) : t.regroup.spell = t.spell := by
  rw [Phrase.regroup, t.spell_regroupThen, Phrase.restSpell, List.append_nil]

/-! ### Printed phrases -/

/-- Whether a phrase is an `AND` or an `OR` without parentheses. -/
def Phrase.isGroup : Phrase → Bool
  | .binary op _ _ => op.isLogical
  | _ => false

/-- A leaf as it is printed. -/
def Leaf.Printed : Leaf → Prop
  | text value => ¬ isBareWord value.toList
  | boolean _ => False
  | _ => True

mutual

/-- A primary phrase as it is printed: parentheses stand around a logical operator, and only where
that is an operand. -/
def Primary.Printed (operand : Bool) : Primary → Prop
  | .leaf l => l.Printed
  | .tracker _ | .call _ => True
  | .keyed _ key => key.Printed false
  | .callWith _ arguments => arguments.Printed
  | .paren inner => operand ∧ inner.isGroup ∧ inner.Printed false
  | .piped _ _ => False

/-- Arguments as they are printed: at least one, and no comma behind the last. -/
def Arguments.Printed : Arguments → Prop
  | .none => False
  | .last argument => argument.Printed false
  | .more argument rest => argument.Printed false ∧ rest.Printed

/-- A phrase as it is printed, as an operand or as a whole. -/
def Phrase.Printed (operand : Bool) : Phrase → Prop
  | .primary p => p.Printed operand
  | .not inner => inner.Printed true
  | .binary op left right =>
    (operand → op.isLogical = false) ∧ left.Printed true ∧ right.Printed true

end

/-- What is printed and needs no parentheses is printed as an operand too. -/
theorem Phrase.Printed.operand {t : Phrase} (h : t.Printed false) (single : t.isGroup = false) :
    t.Printed true := by
  cases t with
  | primary p =>
    cases p with
    | paren inner => exact absurd h.1 (by decide)
    | _ => exact h
  | not inner => exact h
  | binary op left right => exact ⟨fun _ => single, h.2⟩

/-- An operand that is printed needs no parentheses. -/
theorem Phrase.Printed.isGroup {t : Phrase} (h : t.Printed true) : t.isGroup = false := by
  cases t with
  | binary op left right => exact h.1 rfl
  | _ => rfl

/-- An operand that is printed without parentheses is printed on its own too. -/
theorem Phrase.Printed.whole {t : Phrase} (h : t.Printed true)
    (single : ∀ inner, t ≠ .primary (.paren inner)) : t.Printed false := by
  cases t with
  | primary p =>
    cases p with
    | paren inner => exact absurd rfl (single inner)
    | _ => exact h
  | not inner => exact h
  | binary op left right => exact ⟨fun is => absurd is (by decide), h.2⟩

namespace Expr

/-- A phrase needs parentheses where its expression does. -/
theorem isGroup_phrase (e : Expr) : e.phrase.isGroup = e.isGroup := by
  cases e <;> rfl

/-- Operands are printed with parentheses where they need them. -/
theorem printed_operandPhrase {e : Expr} (h : e.phrase.Printed false) :
    (operandPhrase e e.phrase).Printed true := by
  rw [operandPhrase]
  split
  · rename_i group
    exact ⟨rfl, (isGroup_phrase e).trans group, h⟩
  · rename_i single
    exact h.operand ((isGroup_phrase e).trans (Bool.eq_false_iff.2 single))

mutual

/-- What an expression is written down as is printed. -/
theorem printed_phrase (e : Expr) : e.phrase.Printed false := by
  match e with
  | .text value =>
    rw [phrase]
    split
    · trivial
    · -- a text in quotes does not look like a name
      rename_i notBare
      exact notBare
  | .foreignCall name arguments =>
    rw [phrase]
    split
    · trivial
    · rename_i some
      exact printed_phraseAll arguments (by simpa using some)
  | .mapped ref key => exact printed_phrase key
  | .binary op left right =>
    exact ⟨fun is => absurd is (by decide), printed_operandPhrase (printed_phrase left),
      printed_operandPhrase (printed_phrase right)⟩
  | .not operand => exact printed_operandPhrase (printed_phrase operand)
  | .number _ | .address _ | .bytes _ | .boolean _ | .identifier _ | .argument _ | .tracker _
  | .global _ => trivial

theorem printed_phraseAll (es : List Expr) (some : es ≠ []) : (phraseAll es).Printed := by
  match es with
  | [] => exact absurd rfl some
  | e :: rest =>
    rw [phraseAll]
    split
    · exact printed_phrase e
    · rename_i more
      exact ⟨printed_phrase e, printed_phraseAll rest (by simpa using more)⟩

end

end Expr

/-- Without parentheses around it, a phrase is a group exactly if its expression is. -/
theorem Phrase.isGroup_erase {t : Phrase} (whole : ∀ inner, t ≠ .primary (.paren inner)) :
    t.erase.isGroup = t.isGroup := by
  cases t with
  | primary p =>
    cases p with
    | leaf l => cases l <;> rfl
    | paren inner => exact absurd rfl (whole inner)
    | _ => rfl
  | _ => rfl

theorem Leaf.phrase_erase {l : Leaf} (h : l.Printed) : l.erase.phrase = .primary (.leaf l) := by
  cases l with
  | text value =>
    rw [Leaf.erase, Expr.phrase, if_neg h]
  | boolean value => exact absurd h id
  | _ => rfl

mutual

/-- A primary that is printed is what its expression is written down as. -/
theorem Primary.phrase_erase {p : Primary} (h : p.Printed false) :
    p.erase.phrase = .primary p := by
  match p with
  | .leaf l => exact Leaf.phrase_erase h
  | .tracker ref => rfl
  | .keyed ref key => rw [Primary.erase, Expr.phrase, Phrase.phrase_erase h]
  | .call name => rfl
  | .callWith name arguments =>
    obtain ⟨some, eq⟩ := Arguments.phraseAll_erase h
    rw [Primary.erase, Expr.phrase, eq, if_neg some]
  | .paren inner => exact absurd h.1 (by decide)
  | .piped key ref => exact absurd h id
termination_by (sizeOf p, 0)

theorem Arguments.phraseAll_erase {a : Arguments} (h : a.Printed) :
    ¬ a.erase.isEmpty ∧ Expr.phraseAll a.erase = a := by
  match a with
  | .none => exact absurd h id
  | .last argument =>
    refine ⟨by simp [Arguments.erase], ?_⟩
    rw [Arguments.erase, Expr.phraseAll, List.isEmpty_nil, if_pos rfl, Phrase.phrase_erase h]
  | .more argument rest =>
    obtain ⟨some, eq⟩ := Arguments.phraseAll_erase h.2
    refine ⟨by simp [Arguments.erase], ?_⟩
    rw [Arguments.erase, Expr.phraseAll, if_neg some, Phrase.phrase_erase h.1, eq]
termination_by (sizeOf a, 0)

/-- A printed phrase is the phrase of its own expression. -/
theorem Phrase.phrase_erase {t : Phrase} (h : t.Printed false) : t.erase.phrase = t := by
  match t with
  | .primary p => exact Primary.phrase_erase h
  | .not inner => rw [Phrase.erase, Expr.phrase, Phrase.operandPhrase_erase h]
  | .binary op left right =>
    rw [Phrase.erase, Expr.phrase, Phrase.operandPhrase_erase h.2.1,
      Phrase.operandPhrase_erase h.2.2]
termination_by (sizeOf t, 0)

/-- An operand that is printed is what its expression is written down as, there. -/
theorem Phrase.operandPhrase_erase {t : Phrase} (h : t.Printed true) :
    Expr.operandPhrase t.erase t.erase.phrase = t := by
  by_cases grouped : ∃ inner, t = .primary (.paren inner)
  · obtain ⟨inner, rfl⟩ := grouped
    obtain ⟨-, group, printed⟩ := h
    have single : ∀ x, inner ≠ .primary (.paren x) := by
      rintro x rfl
      cases group
    rw [Phrase.erase, Primary.erase, Expr.operandPhrase,
      if_pos ((Phrase.isGroup_erase single).trans group), Phrase.phrase_erase printed]
  · rw [not_exists] at grouped
    have group := Phrase.isGroup_erase grouped
    rw [h.isGroup] at group
    rw [Expr.operandPhrase, if_neg (by simp [group]), Phrase.phrase_erase (h.whole grouped)]
termination_by (sizeOf t, 1)

end

/-! ### Logical operators beside updates -/

/-- An `AND` or an `OR` as a piece. -/
def Piece.isLogical : Piece → Bool
  | operator op => op.isLogical
  | _ => false

/-- An operator that stores into a tracker, as a piece. -/
def Piece.isUpdate : Piece → Bool
  | operator op => op.isUpdate
  | _ => false

theorem Piece.isLogical_regroup (piece : Piece) : piece.regroup.isLogical = piece.isLogical := by
  cases piece <;> rfl

theorem Piece.isUpdate_regroup (piece : Piece) : piece.regroup.isUpdate = piece.isUpdate := by
  cases piece <;> rfl

namespace Phrase

/-- Outside parentheses, a phrase has a logical operator as well as an update. -/
def Mixed (t : Phrase) : Prop :=
  t.pieces.any Piece.isLogical ∧ t.pieces.any Piece.isUpdate

end Phrase

mutual

/-- Nothing that a primary phrase encloses is mixed. -/
def Primary.Unmixed : Primary → Prop
  | .leaf _ | .tracker _ | .call _ => True
  | .keyed _ key => ¬ key.Mixed ∧ key.PartsUnmixed
  | .callWith _ arguments => arguments.Unmixed
  | .paren inner => ¬ inner.Mixed ∧ inner.PartsUnmixed
  | .piped key _ => key.Unmixed

/-- No argument is mixed, or encloses what is. -/
def Arguments.Unmixed : Arguments → Prop
  | .none => True
  | .last argument => ¬ argument.Mixed ∧ argument.PartsUnmixed
  | .more argument rest => (¬ argument.Mixed ∧ argument.PartsUnmixed) ∧ rest.Unmixed

/-- Nothing that is enclosed in a phrase is mixed. -/
def Phrase.PartsUnmixed : Phrase → Prop
  | .primary p => p.Unmixed
  | .not operand => operand.PartsUnmixed
  | .binary _ left right => left.PartsUnmixed ∧ right.PartsUnmixed

end

namespace Phrase

/-- Neither the phrase nor anything it encloses is mixed. -/
def Unmixed (t : Phrase) : Prop :=
  ¬ t.Mixed ∧ t.PartsUnmixed

/-- Regrouping leaves the operators that stand outside parentheses outside them. -/
theorem any_pieces_regroup {f : Piece → Bool} (keeps : ∀ piece, f piece.regroup = f piece)
    (t : Phrase) : t.regroup.pieces.any f = t.pieces.any f := by
  rw [pieces_regroup, List.any_map]
  exact congrArg t.pieces.any (funext keeps)

/-- Regrouping neither adds nor removes an update. -/
theorem any_isUpdate_regroup (t : Phrase) :
    t.regroup.pieces.any Piece.isUpdate = t.pieces.any Piece.isUpdate :=
  any_pieces_regroup Piece.isUpdate_regroup t

/-- The pieces of an operation are those of its operands, and its operator. -/
theorem any_pieces_binary {f : Piece → Bool} (op : BinaryOp) (left right : Phrase) :
    (binary op left right).pieces.any f =
      (left.pieces.any f || (f (.operator op) || right.pieces.any f)) := by
  rw [pieces, List.any_append, List.any_cons]

theorem not_mixed_primary (p : Primary) : ¬ (primary p).Mixed := by
  simp [Mixed, pieces, Piece.isLogical]

/-- A negation is mixed exactly if its operand is. -/
theorem mixed_not {t : Phrase} : (not t).Mixed ↔ t.Mixed := by
  simp [Mixed, pieces, Piece.isLogical, Piece.isUpdate]

/-- An operand that is printed has its logical operators in parentheses. -/
theorem Printed.any_isLogical {t : Phrase} (h : t.Printed true) :
    t.pieces.any Piece.isLogical = false := by
  match t with
  | primary p => simp [pieces, Piece.isLogical]
  | not operand =>
    have inOperand := Printed.any_isLogical (t := operand) h
    rw [pieces, List.any_cons, inOperand]
    rfl
  | binary op left right =>
    rw [any_pieces_binary, Printed.any_isLogical h.2.1, Printed.any_isLogical h.2.2,
      Piece.isLogical, h.1 rfl]
    rfl

/-- An operand that is printed is not mixed: no logical operator is outside parentheses. -/
theorem Printed.not_mixed {t : Phrase} (h : t.Printed true) : ¬ t.Mixed := by
  rintro ⟨logical, -⟩
  rw [h.any_isLogical] at logical
  cases logical

end Phrase

/-! ### Regrouping what is printed -/

/-- Logical operators bind more loosely than comparisons. -/
theorem BinaryOp.power_lt_comparisonPower {op : BinaryOp} (logical : op.isLogical) :
    op.power < comparisonPower := by
  rcases op with op | a
  · cases op with
    | and => decide
    | or => decide
    | _ => cases logical
  · cases logical

namespace Phrase

/-- Every operator of the phrase that is not in parentheses binds at least as tightly as a
comparison. -/
def Tight : Phrase → Prop
  | primary _ => True
  | not operand => operand.Tight
  | binary op left right => comparisonPower ≤ op.power ∧ left.Tight ∧ right.Tight

/-- An operand that is printed and updates nothing is tight. -/
theorem Printed.tight {t : Phrase} (h : t.Printed true)
    (reads : t.pieces.any Piece.isUpdate = false) : t.Tight := by
  match t with
  | primary p => trivial
  | not operand =>
    rw [pieces, List.any_cons, Bool.or_eq_false_iff] at reads
    exact Printed.tight (t := operand) h reads.2
  | binary op left right =>
    rw [any_pieces_binary, Bool.or_eq_false_iff, Bool.or_eq_false_iff] at reads
    refine ⟨(BinaryOp.comparisonPower_le_iff (h.1 rfl)).2 reads.2.1, ?_, ?_⟩
    · exact Printed.tight h.2.1 reads.1
    · exact Printed.tight h.2.2 reads.2.2

/-- What is tight binds at least as comparisons do. -/
theorem Tight.atLeast {t : Phrase} (h : t.Tight) : t.AtLeast comparisonPower := by
  cases t with
  | binary op left right => exact h.1
  | _ => trivial

/-- What goes in front of a loose operator goes into its left operand. -/
theorem regroupThen_binary {t : Phrase} {op loose : BinaryOp} {left right : Phrase} (h : t.Tight)
    (tight : comparisonPower ≤ op.power) (lt : loose.power < comparisonPower) :
    t.regroupThen (some (op, .binary loose left right)) =
      .binary loose (t.regroupThen (some (op, left))) right := by
  match t with
  | primary p =>
    rw [regroupThen, prepend, if_pos (Nat.lt_of_lt_of_le lt tight), regroupThen]
  | not operand =>
    rw [regroupThen, regroupThen_binary (t := operand) h tight lt, negated, if_pos lt, regroupThen]
  | binary op' l r =>
    rw [regroupThen, regroupThen_binary h.2.2 tight lt, regroupThen_binary h.2.1 h.1 lt,
      regroupThen]

/-- A loose operator keeps its operands. -/
theorem regroupThen_loose {t right : Phrase} {loose : BinaryOp} (h : t.Tight)
    (lt : loose.power < comparisonPower) (atLeast : right.AtLeast loose.power) :
    t.regroupThen (some (loose, right)) = .binary loose (t.regroupThen none) right := by
  match t with
  | primary p =>
    rw [regroupThen, regroupThen]
    cases right with
    | binary op l r => rw [prepend, if_neg (Nat.not_lt.2 atLeast)]
    | _ => rfl
  | not operand =>
    rw [regroupThen, regroupThen_loose (t := operand) h lt atLeast, negated, if_pos lt,
      regroupThen]
  | binary op l r =>
    rw [regroupThen, regroupThen_loose h.2.2 lt atLeast, regroupThen_binary h.2.1 h.1 lt,
      regroupThen]

/-- Putting an operand in front keeps a phrase printed, unless the operator is logical. -/
theorem printed_prepend {p : Primary} {op : BinaryOp} {t : Phrase} (hp : p.Printed true)
    (single : op.isLogical = false) (ht : t.Printed true) (operand : Bool) :
    (t.prepend p op).Printed operand := by
  fun_induction prepend p op t generalizing operand with
  | case1 op' left right looser ih => exact ⟨fun _ => ht.1 rfl, ih ht.2.1 true, ht.2.2⟩
  | case2 op' left right tight => exact ⟨fun _ => single, hp, ht⟩
  | case3 t notBinary => exact ⟨fun _ => single, hp, ht⟩

theorem printed_negated {t : Phrase} (ht : t.Printed true) (operand : Bool) :
    t.negated.Printed operand := by
  fun_induction negated t generalizing operand with
  | case1 op left right looser ih => exact ⟨fun _ => ht.1 rfl, ih ht.2.1 true, ht.2.2⟩
  | case2 op left right tight => exact ht
  | case3 t notBinary => exact ht

end Phrase

mutual

/-- Regrouping keeps a primary printed if nothing in it is mixed. -/
theorem Primary.printed_regroup {p : Primary} {operand : Bool} (h : p.Printed operand)
    (unmixed : p.Unmixed) : p.regroup.Printed operand := by
  match p with
  | .leaf _ | .tracker _ | .call _ => exact h
  | .keyed ref key => exact (Phrase.printed_regroupThen_none h unmixed.1 unmixed.2).1
  | .callWith name arguments => exact Arguments.printed_regroup h unmixed
  | .paren inner =>
    obtain ⟨printed, group⟩ := Phrase.printed_regroupThen_none h.2.2 unmixed.1 unmixed.2
    exact ⟨h.1, group h.2.1, printed⟩
  | .piped key ref => exact absurd h id

/-- Regrouping keeps arguments printed if nothing in them is mixed. -/
theorem Arguments.printed_regroup {a : Arguments} (h : a.Printed) (unmixed : a.Unmixed) :
    a.regroup.Printed := by
  match a with
  | .none => exact absurd h id
  | .last argument => exact (Phrase.printed_regroupThen_none h unmixed.1 unmixed.2).1
  | .more argument rest =>
    refine ⟨?_, Arguments.printed_regroup h.2 unmixed.2⟩
    exact (Phrase.printed_regroupThen_none h.1 unmixed.1.1 unmixed.1.2).1

/-- Regrouping an operand in front of another keeps both printed. -/
theorem Phrase.printed_regroupThen_some {t s : Phrase} {op : BinaryOp} (h : t.Printed true)
    (unmixed : t.PartsUnmixed) (single : op.isLogical = false) (hs : s.Printed true)
    (operand : Bool) : (t.regroupThen (some (op, s))).Printed operand := by
  match t with
  | .primary p =>
    apply Phrase.printed_prepend _ single hs
    exact Primary.printed_regroup h unmixed
  | .not inner =>
    apply Phrase.printed_negated
    exact Phrase.printed_regroupThen_some (t := inner) h unmixed single hs true
  | .binary op' left right =>
    have inRight := Phrase.printed_regroupThen_some h.2.2 unmixed.2 single hs true
    exact Phrase.printed_regroupThen_some h.2.1 unmixed.1 (h.1 rfl) inRight operand

/-- Where no logical operator has an update beside it, a printed phrase stays printed and a logical
operator stays on top. -/
theorem Phrase.printed_regroupThen_none {t : Phrase} {operand : Bool} (h : t.Printed operand)
    (whole : ¬ t.Mixed) (unmixed : t.PartsUnmixed) :
    (t.regroupThen none).Printed operand ∧ (t.isGroup → (t.regroupThen none).isGroup) := by
  match t with
  | .primary p =>
    refine ⟨Primary.printed_regroup h unmixed, ?_⟩
    intro group
    cases group
  | .not inner =>
    rw [Phrase.mixed_not] at whole
    have inside := (Phrase.printed_regroupThen_none (t := inner) h whole unmixed).1
    refine ⟨Phrase.printed_negated inside operand, ?_⟩
    intro group
    cases group
  | .binary op left right =>
    have inRight := (Phrase.printed_regroupThen_none h.2.2 h.2.2.not_mixed unmixed.2).1
    rw [Phrase.regroupThen]
    cases logical : op.isLogical with
    | false =>
      refine ⟨Phrase.printed_regroupThen_some h.2.1 unmixed.1 logical inRight operand, ?_⟩
      intro group
      rw [Phrase.isGroup, logical] at group
      cases group
    | true =>
      -- the operands are tight, so the operator stays where it is
      have reads : (Phrase.binary op left right).pieces.any Piece.isUpdate = false := by
        rw [Bool.eq_false_iff]
        intro updates
        refine whole ⟨?_, updates⟩
        rw [Phrase.any_pieces_binary, Piece.isLogical, logical]
        simp
      rw [Phrase.any_pieces_binary, Bool.or_eq_false_iff, Bool.or_eq_false_iff] at reads
      have lt := BinaryOp.power_lt_comparisonPower logical
      have inLeft := (Phrase.printed_regroupThen_none h.2.1 h.2.1.not_mixed unmixed.1).1
      have tight := inRight.tight (right.any_isUpdate_regroup.trans reads.2.2)
      rw [Phrase.regroupThen_loose (h.2.1.tight reads.1) lt
        (tight.atLeast.mono (Nat.le_of_lt lt))]
      refine ⟨⟨fun is => ?_, inLeft, inRight⟩, fun _ => logical⟩
      rw [h.1 is] at logical
      cases logical

end

/-! ### Settled expressions -/

/-- No logical operator is an update. -/
theorem BinaryOp.isUpdate_of_isLogical {op : BinaryOp} (logical : op.isLogical) :
    op.isUpdate = false := by
  rcases op with op | a
  · cases op with
    | assign => cases logical
    | _ => rfl
  · cases logical

namespace Expr

/-- Whether an update can be reached from the top of an expression through negations and operators
that are not logical. -/
def storesBare : Expr → Bool
  | binary op left right =>
    op.isUpdate || (!op.isLogical && (left.storesBare || right.storesBare))
  | not operand => operand.storesBare
  | _ => false

/-- If the expression is an `AND` or an `OR`, no update can be reached so from its operands. -/
def Calm : Expr → Prop
  | binary op left right => op.isLogical → left.storesBare = false ∧ right.storesBare = false
  | _ => True

instance : (e : Expr) → Decidable e.Calm
  | binary _ _ _ => inferInstanceAs (Decidable (_ → _ ∧ _))
  | number _ | address _ | text _ | bytes _ | boolean _ | identifier _ | argument _ | tracker _
  | foreignCall _ _ | global _ | mapped _ _ | not _ => .isTrue trivial

/-- Every `AND` and `OR` in the expression is calm. -/
def Settled (e : Expr) : Prop :=
  ∀ n ∈ e.nodes, n.Calm

instance (e : Expr) : Decidable e.Settled :=
  inferInstanceAs (Decidable (∀ n ∈ e.nodes, n.Calm))

/-- An operand has a bare update exactly if its expression stores without parentheses. -/
theorem any_isUpdate_operandPhrase (e : Expr) :
    (operandPhrase e e.phrase).pieces.any Piece.isUpdate = e.storesBare := by
  match e with
  | .binary op left right =>
    rw [operandPhrase, isGroup, storesBare]
    cases logical : op.isLogical with
    | true => simp [BinaryOp.isUpdate_of_isLogical logical, Phrase.pieces, Piece.isUpdate]
    | false =>
      rw [if_neg Bool.false_ne_true, phrase, Phrase.any_pieces_binary,
        any_isUpdate_operandPhrase left, any_isUpdate_operandPhrase right, Piece.isUpdate,
        Bool.or_left_comm]
      rfl
  | .not operand => exact any_isUpdate_operandPhrase operand
  | .number _ | .address _ | .text _ | .bytes _ | .boolean _ | .identifier _ | .argument _
  | .tracker _ | .foreignCall _ _ | .global _ | .mapped _ _ => rfl

/-- The text of an operator is mixed where the operator is not calm. -/
theorem mixed_phrase_binary {op : BinaryOp} {left right : Expr} :
    ¬ (binary op left right).phrase.Mixed ↔ (binary op left right).Calm := by
  have inLeft := printed_operandPhrase (printed_phrase left)
  have inRight := printed_operandPhrase (printed_phrase right)
  rw [phrase, Phrase.Mixed, Phrase.any_pieces_binary, Phrase.any_pieces_binary,
    inLeft.any_isLogical, inRight.any_isLogical, any_isUpdate_operandPhrase,
    any_isUpdate_operandPhrase, Piece.isLogical, Piece.isUpdate, Calm]
  cases logical : op.isLogical with
  | true => simp [BinaryOp.isUpdate_of_isLogical logical]
  | false => simp

/-- Parentheses around an operand separate it from what is around it. -/
theorem partsUnmixed_operandPhrase (e : Expr) :
    (operandPhrase e e.phrase).PartsUnmixed ↔ e.phrase.Unmixed := by
  have printed := printed_operandPhrase (printed_phrase e)
  rw [operandPhrase] at printed ⊢
  split
  · exact Iff.rfl
  · rename_i single
    rw [if_neg single] at printed
    exact (and_iff_right printed.not_mixed).symm

mutual

/-- An expression is settled exactly if nothing is mixed in its text. -/
theorem unmixed_phrase_iff (e : Expr) : e.phrase.Unmixed ↔ e.Settled := by
  match e with
  | .foreignCall name arguments =>
    have top : (foreignCall name arguments).Calm := trivial
    rw [Settled, nodes, List.forall_mem_cons, and_iff_right top,
      ← unmixed_phraseAll_iff arguments, phrase, Phrase.Unmixed,
      and_iff_right (Phrase.not_mixed_primary _), Phrase.PartsUnmixed]
    split
    · rename_i none
      rw [List.isEmpty_iff.1 none]
      exact Iff.rfl
    · exact Iff.rfl
  | .mapped ref key =>
    have top : (mapped ref key).Calm := trivial
    rw [Settled, nodes, List.forall_mem_cons, and_iff_right top, ← Settled,
      ← unmixed_phrase_iff key, phrase, Phrase.Unmixed,
      and_iff_right (Phrase.not_mixed_primary _)]
    exact Iff.rfl
  | .binary op left right =>
    -- only here can something be mixed at the top
    rw [Settled, nodes, List.forall_mem_cons, List.forall_mem_append, ← Settled, ← Settled,
      ← unmixed_phrase_iff left, ← unmixed_phrase_iff right, ← mixed_phrase_binary,
      ← partsUnmixed_operandPhrase left, ← partsUnmixed_operandPhrase right]
    exact Iff.rfl
  | .not operand =>
    have top : (not operand).Calm := trivial
    -- a group that is negated is in parentheses
    have whole := (printed_operandPhrase (printed_phrase operand)).not_mixed
    rw [Settled, nodes, List.forall_mem_cons, and_iff_right top, ← Settled,
      ← unmixed_phrase_iff operand, ← partsUnmixed_operandPhrase operand, phrase, Phrase.Unmixed,
      Phrase.mixed_not, and_iff_right whole]
    exact Iff.rfl
  | .number _ | .address _ | .text _ | .bytes _ | .boolean _ | .identifier _ | .argument _
  | .tracker _ | .global _ =>
    rw [Settled, nodes, List.forall_mem_singleton, phrase, Phrase.Unmixed,
      and_iff_right (Phrase.not_mixed_primary _)]
    exact Iff.rfl

/-- Nothing is mixed in arguments exactly if each of their parts is calm. -/
theorem unmixed_phraseAll_iff (es : List Expr) :
    (phraseAll es).Unmixed ↔ ∀ n ∈ nodesAll es, n.Calm := by
  match es with
  | [] => simp [phraseAll, nodesAll, Arguments.Unmixed]
  | e :: rest =>
    rw [phraseAll, nodesAll, List.forall_mem_append, ← Settled, ← unmixed_phrase_iff e,
      ← unmixed_phraseAll_iff rest]
    split
    · rename_i none
      rw [List.isEmpty_iff.1 none]
      simp [phraseAll, Arguments.Unmixed, Phrase.Unmixed]
    · exact Iff.rfl

end

/-- The phrase of what a settled expression is read as is its phrase regrouped. -/
theorem Settled.phrase_reread {e : Expr} (settled : e.Settled) :
    e.reread.phrase = e.phrase.regroup := by
  obtain ⟨whole, parts⟩ := (unmixed_phrase_iff e).2 settled
  apply Phrase.phrase_erase
  exact (Phrase.printed_regroupThen_none e.printed_phrase whole parts).1

/-- What a settled expression is read as is written as the expression. -/
theorem Settled.spell_reread {e : Expr} (settled : e.Settled) : e.reread.spell = e.spell := by
  rw [← spell_phrase, settled.phrase_reread, Phrase.spell_regroup, spell_phrase]

/-! ### Expressions that only read -/

/-- No part of an expression stores into a tracker. -/
def StoresNothing (e : Expr) : Prop :=
  ∀ op left right, .binary op left right ∈ e.nodes → op.isUpdate = false

/-- The parts of what stores nothing store nothing. -/
theorem StoresNothing.of_mem {e n : Expr} (h : e.StoresNothing) (mem : n ∈ e.nodes) :
    n.StoresNothing := by
  intro op left right part
  exact h op left right (nodes_subset e mem part)

theorem StoresNothing.storesBare {e : Expr} (h : e.StoresNothing) : e.storesBare = false := by
  match e with
  | .binary op left right =>
    have inLeft : left.StoresNothing := h.of_mem (by simp [nodes, self_mem_nodes])
    have inRight : right.StoresNothing := h.of_mem (by simp [nodes, self_mem_nodes])
    simp [Expr.storesBare, h op left right (self_mem_nodes _), inLeft.storesBare,
      inRight.storesBare]
  | .not operand =>
    have inOperand : operand.StoresNothing := h.of_mem (by simp [nodes, self_mem_nodes])
    exact inOperand.storesBare
  | .number _ | .address _ | .text _ | .bytes _ | .boolean _ | .identifier _ | .argument _
  | .tracker _ | .foreignCall _ _ | .global _ | .mapped _ _ => rfl

/-- What stores nothing is settled. -/
theorem StoresNothing.settled {e : Expr} (h : e.StoresNothing) : e.Settled := by
  intro n mem
  have inside := h.of_mem mem
  cases n with
  | binary op left right =>
    have inLeft : left.StoresNothing := inside.of_mem (by simp [nodes, self_mem_nodes])
    have inRight : right.StoresNothing := inside.of_mem (by simp [nodes, self_mem_nodes])
    exact fun _ => ⟨inLeft.storesBare, inRight.storesBare⟩
  | _ => trivial

/-- Where nothing is stored, what is read again is written as before. -/
theorem spell_reread {e : Expr} (reads : e.StoresNothing) : e.reread.spell = e.spell :=
  reads.settled.spell_reread

end Expr

end RuleCodec
