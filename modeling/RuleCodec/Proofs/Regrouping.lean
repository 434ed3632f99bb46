/-
RuleCodec/Proofs/Regrouping.lean

Grouping a phrase by its tokens.

A phrase that is not well grouped still has tokens, and they form a phrase,
only another one: in `a + b * c` the product comes first, whatever tree the
tokens were taken from.  `Phrase.regroup` is the well-grouped phrase with the
tokens of a given one.  It is the phrase itself exactly where that was well
grouped (`Phrase.shape_regroup_iff`).

Design.  Operators group to the right, so a phrase is regrouped from its right
end: `Phrase.regroupThen` puts it before an operator and a phrase that is
grouped already, one primary phrase (`Phrase.prepend`) or one negation
(`Phrase.negated`) at a time.  Parentheses, keys and arguments are regrouped on
their own.
-/
import Mathlib.Algebra.Ring.Nat
import RuleCodec.Component
import RuleCodec.Proofs.Parsing

namespace RuleCodec

/-! ### One step to the left -/

namespace Phrase

/-- A primary phrase and an operator before a phrase.  The operator goes down to the left for as
long as it meets looser ones. -/
def prepend (p : Primary) (op : BinaryOp) : Phrase → Phrase
  | binary op' left right =>
    if op'.power < op.power then binary op' (prepend p op left) right
    else binary op (primary p) (binary op' left right)
  | t => binary op (primary p) t

/-- A negation before a phrase.  It goes down to the left past what it does not take. -/
def negated : Phrase → Phrase
  | binary op left right =>
    if op.power < comparisonPower then binary op left.negated right
    else not (binary op left right)
  | t => not t

/-- The operand that is put in front is written in front. -/
theorem yield_prepend (p : Primary) (op : BinaryOp) (t : Phrase) :
    (t.prepend p op).yield = p.yield ++ .operator op :: t.yield := by
  fun_induction prepend p op t with
  | case1 op' left right looser ih => simp [yield, ih]
  | case2 op' left right tight => simp [yield]
  | case3 t notBinary => simp [yield]

theorem yield_negated (t : Phrase) : t.negated.yield = .not :: t.yield := by
  fun_induction negated t with
  | case1 op left right looser ih => simp [yield, ih]
  | case2 op left right tight => simp [yield]
  | case3 t notBinary => simp [yield]

/-- What is put in front does not change the end. -/
theorem endsInNot_prepend (p : Primary) (op : BinaryOp) (t : Phrase) :
    (t.prepend p op).EndsInNot ↔ t.EndsInNot := by
  fun_induction prepend p op t with
  | case1 op' left right looser ih => exact Iff.rfl
  | case2 op' left right tight => exact Iff.rfl
  | case3 t notBinary => exact Iff.rfl

/-- Operators that bind more tightly stay above when one of them is put in front. -/
theorem Above.prepend {power : Nat} {p : Primary} {op : BinaryOp} {t : Phrase}
    (h : t.Above power) (lt : power < op.power) : (t.prepend p op).Above power := by
  fun_cases Phrase.prepend p op t with
  | case1 op' left right looser => exact h
  | case2 op' left right tight => exact lt
  | case3 t notBinary => exact lt

theorem Above.negated {power : Nat} {t : Phrase} (h : t.Above power) : t.negated.Above power := by
  fun_cases Phrase.negated t with
  | case1 op left right looser => exact h
  | case2 op left right tight => trivial
  | case3 t notBinary => trivial

/-- Putting an operand in front keeps a phrase well grouped. -/
theorem wellGrouped_prepend {p : Primary} {op : BinaryOp} {t : Phrase} (hp : p.WellGrouped)
    (ht : t.WellGrouped) : (t.prepend p op).WellGrouped := by
  fun_induction prepend p op t with
  | case1 op' left right looser ih =>
    obtain ⟨hl, hr, above, tight, noNot⟩ := ht
    refine ⟨ih hl, hr, above.prepend looser, tight, fun le => ?_⟩
    rw [endsInNot_prepend]
    exact noNot le
  | case2 op' left right tight => exact ⟨hp, ht, trivial, Nat.le_of_not_lt tight, fun _ => id⟩
  | case3 t notBinary =>
    refine ⟨hp, ht, trivial, ?_, fun _ => id⟩
    cases t with
    | binary op' left right => exact absurd rfl (notBinary op' left right)
    | _ => trivial

/-- So does negating it. -/
theorem wellGrouped_negated {t : Phrase} (ht : t.WellGrouped) : t.negated.WellGrouped := by
  fun_induction negated t with
  | case1 op left right looser ih =>
    obtain ⟨hl, hr, above, tight, -⟩ := ht
    exact ⟨ih hl, hr, above.negated, tight, fun le => absurd looser (Nat.not_lt.2 le)⟩
  | case2 op left right tight => exact ⟨ht, Nat.le_of_not_lt tight⟩
  | case3 t notBinary =>
    refine ⟨ht, ?_⟩
    cases t with
    | binary op' left right => exact absurd rfl (notBinary op' left right)
    | _ => trivial

end Phrase

/-! ### Regrouping -/

mutual

/-- The primary phrase with the phrases inside it regrouped. -/
def Primary.regroup : Primary → Primary
  | .leaf l => .leaf l
  | .tracker ref => .tracker ref
  | .keyed ref key => .keyed ref (key.regroupThen none)
  | .call name => .call name
  | .callWith name arguments => .callWith name arguments.regroup
  | .paren inner => .paren (inner.regroupThen none)
  | .piped key ref => .piped key.regroup ref

/-- The arguments, each regrouped. -/
def Arguments.regroup : Arguments → Arguments
  | .none => .none
  | .last argument => .last (argument.regroupThen none)
  | .more argument rest => .more (argument.regroupThen none) rest.regroup

/-- The phrase regrouped: alone, or before an operator and a phrase that is grouped already. -/
def Phrase.regroupThen : Phrase → Option (BinaryOp × Phrase) → Phrase
  | .primary p, none => .primary p.regroup
  | .primary p, some (op, t) => t.prepend p.regroup op
  | .not operand, rest => (operand.regroupThen rest).negated
  | .binary op left right, rest => left.regroupThen (some (op, right.regroupThen rest))

end

/-- The well-grouped phrase with the tokens of a phrase. -/
def Phrase.regroup (t : Phrase) : Phrase :=
  t.regroupThen none

/-- The tokens of what comes behind a phrase. -/
def Phrase.restYield : Option (BinaryOp × Phrase) → List Token
  | none => []
  | some (op, t) => .operator op :: t.yield

mutual

/-- Regrouping a primary keeps its tokens. -/
theorem Primary.yield_regroup (p : Primary) : p.regroup.yield = p.yield := by
  match p with
  | .leaf _ | .tracker _ | .call _ => rw [Primary.regroup]
  | .keyed ref key =>
    rw [Primary.regroup, Primary.yield, Primary.yield, key.yield_regroupThen, Phrase.restYield,
      List.append_nil]
  | .callWith name arguments =>
    rw [Primary.regroup, Primary.yield, Primary.yield, arguments.yield_regroup]
  | .paren inner =>
    rw [Primary.regroup, Primary.yield, Primary.yield, inner.yield_regroupThen, Phrase.restYield,
      List.append_nil]
  | .piped key ref => rw [Primary.regroup, Primary.yield, Primary.yield, key.yield_regroup]

theorem Arguments.yield_regroup (a : Arguments) : a.regroup.yield = a.yield := by
  match a with
  | .none => rfl
  | .last argument =>
    rw [Arguments.regroup, Arguments.yield, Arguments.yield, argument.yield_regroupThen,
      Phrase.restYield, List.append_nil]
  | .more argument rest =>
    rw [Arguments.regroup, Arguments.yield, Arguments.yield, argument.yield_regroupThen,
      Phrase.restYield, List.append_nil, rest.yield_regroup]

/-- Regrouping keeps the tokens of the phrase and those behind it. -/
theorem Phrase.yield_regroupThen (t : Phrase) (rest : Option (BinaryOp × Phrase)) :
    (t.regroupThen rest).yield = t.yield ++ Phrase.restYield rest := by
  match t, rest with
  | .primary p, none =>
    rw [Phrase.regroupThen, Phrase.yield, Phrase.yield, p.yield_regroup, Phrase.restYield,
      List.append_nil]
  | .primary p, some (op, s) =>
    rw [Phrase.regroupThen, Phrase.yield_prepend, p.yield_regroup, Phrase.yield, Phrase.restYield]
  | .not operand, rest =>
    rw [Phrase.regroupThen, Phrase.yield_negated, operand.yield_regroupThen, Phrase.yield,
      List.cons_append]
  | .binary op left right, rest =>
    rw [Phrase.regroupThen, left.yield_regroupThen, Phrase.restYield, right.yield_regroupThen,
      Phrase.yield, List.append_assoc, List.cons_append]

end

/-- Regrouping leaves the tokens as they are. -/
theorem Phrase.yield_regroup (t : Phrase) : t.regroup.yield = t.yield := by
  rw [Phrase.regroup, t.yield_regroupThen, Phrase.restYield, List.append_nil]

mutual

/-- A primary that is regrouped is well grouped. -/
theorem Primary.wellGrouped_regroup (p : Primary) : p.regroup.WellGrouped := by
  match p with
  | .leaf _ | .tracker _ | .call _ => exact trivial
  | .keyed ref key => exact key.wellGrouped_regroupThen none (by simp)
  | .callWith name arguments => exact arguments.wellGrouped_regroup
  | .paren inner => exact inner.wellGrouped_regroupThen none (by simp)
  | .piped key ref => exact key.wellGrouped_regroup

theorem Arguments.wellGrouped_regroup (a : Arguments) : a.regroup.WellGrouped := by
  match a with
  | .none => exact trivial
  | .last argument => exact argument.wellGrouped_regroupThen none (by simp)
  | .more argument rest =>
    exact ⟨argument.wellGrouped_regroupThen none (by simp), rest.wellGrouped_regroup⟩

/-- Regrouping in front of something well grouped gives something well grouped. -/
theorem Phrase.wellGrouped_regroupThen (t : Phrase) (rest : Option (BinaryOp × Phrase))
    (h : ∀ behind ∈ rest, behind.2.WellGrouped) : (t.regroupThen rest).WellGrouped := by
  match t, rest with
  | .primary p, none => exact p.wellGrouped_regroup
  | .primary p, some (op, s) => exact Phrase.wellGrouped_prepend p.wellGrouped_regroup (h _ rfl)
  | .not operand, rest => exact Phrase.wellGrouped_negated (operand.wellGrouped_regroupThen rest h)
  | .binary op left right, rest =>
    -- the right operand is regrouped first, and the left one in front of it
    refine left.wellGrouped_regroupThen _ ?_
    rintro behind ⟨⟩
    exact right.wellGrouped_regroupThen rest h

end

/-- So every phrase that is regrouped is well grouped. -/
theorem Phrase.wellGrouped_regroup (t : Phrase) : t.regroup.WellGrouped :=
  t.wellGrouped_regroupThen none (by simp)

/-- Well-grouped phrases with the same tokens stand for the same expression. -/
theorem Phrase.erase_eq_of_yield_eq {t u : Phrase} (ht : t.WellGrouped) (hu : u.WellGrouped)
    (same : t.yield = u.yield) : t.erase = u.erase := by
  let ts : List Located := t.yield.map fun token => ⟨token, 0⟩
  have yields : t.yield = tokens ts := by simp [ts, tokens, Function.comp_def]
  -- both are what the one parser reads from the tokens
  have first := @ofTokens_complete ts 0 t ht yields
  have second := @ofTokens_complete ts 0 u hu (same.symm.trans yields)
  rw [first] at second
  exact Except.ok.inj second

/-! ### Sizes -/

/-- A token that a part of the expression comes with: any but parentheses, commas and pipes. -/
def Token.isPart : Token → Bool
  | .leftParen | .rightParen | .comma | .pipe => false
  | _ => true

theorem TrackerRef.isPart_token (ref : TrackerRef) : ref.token.isPart = true := by
  rw [TrackerRef.token]
  split <;> rfl

/-- Parentheses are no parts. -/
theorem Token.countP_isPart_parens (inner : List Token) :
    (Token.leftParen :: (inner ++ [.rightParen])).countP Token.isPart =
      inner.countP Token.isPart := by
  have opens : Token.leftParen.isPart = false := rfl
  have closes : Token.rightParen.isPart = false := rfl
  simp [opens, closes]

mutual

/-- A primary has a part for each token that comes with one. -/
theorem Primary.length_nodes (p : Primary) :
    p.erase.nodes.length = p.yield.countP Token.isPart := by
  match p with
  | .leaf l => cases l <;> rfl
  | .tracker ref =>
    rw [Primary.yield, List.countP_cons_of_pos ref.isPart_token]
    rfl
  | .keyed ref key =>
    rw [Primary.yield, List.countP_cons_of_pos ref.isPart_token, Token.countP_isPart_parens,
      ← key.length_nodes]
    rfl
  | .call name => rfl
  | .callWith name arguments =>
    rw [Primary.yield, List.countP_cons_of_pos rfl, Token.countP_isPart_parens,
      ← arguments.length_nodes]
    rfl
  | .paren inner =>
    rw [Primary.yield, Token.countP_isPart_parens, ← inner.length_nodes]
    rfl
  | .piped key ref =>
    rw [Primary.yield, List.countP_append, List.countP_cons_of_neg (by decide),
      List.countP_cons_of_pos ref.isPart_token, ← key.length_nodes]
    rfl

theorem Arguments.length_nodes (a : Arguments) :
    (Expr.nodesAll a.erase).length = a.yield.countP Token.isPart := by
  match a with
  | .none => rfl
  | .last argument =>
    rw [Arguments.yield, ← argument.length_nodes, Arguments.erase, Expr.nodesAll, Expr.nodesAll,
      List.append_nil]
  | .more argument rest =>
    rw [Arguments.yield, List.countP_append, List.countP_cons_of_neg (by decide),
      ← argument.length_nodes, ← rest.length_nodes, Arguments.erase, Expr.nodesAll,
      List.length_append]

/-- An expression has as many parts as its phrase has tokens, parentheses, commas and pipes
aside. -/
theorem Phrase.length_nodes (t : Phrase) :
    t.erase.nodes.length = t.yield.countP Token.isPart := by
  match t with
  | .primary p => exact p.length_nodes
  | .not operand =>
    rw [Phrase.yield, List.countP_cons_of_pos rfl, ← operand.length_nodes]
    rfl
  | .binary op left right =>
    rw [Phrase.yield, List.countP_append, List.countP_cons_of_pos rfl, ← left.length_nodes,
      ← right.length_nodes, Phrase.erase, Expr.nodes, List.length_cons, List.length_append]
    rfl

end

/-! ### Pieces -/

/-- What a phrase consists of, parentheses, keys and arguments left whole. -/
inductive Piece
  | primary (p : Primary)
  | not
  | operator (op : BinaryOp)

namespace Piece

/-- Regroups what is inside a piece. -/
def regroup : Piece → Piece
  | primary p => primary p.regroup
  | not => not
  | operator op => operator op

/-- How many parts of the expression a piece stands for. -/
def size : Piece → Nat
  | primary p => p.erase.nodes.length
  | not | operator _ => 1

/-- Every piece stands for something. -/
theorem size_pos (piece : Piece) : 0 < piece.size := by
  cases piece with
  | primary p =>
    show 0 < p.erase.nodes.length
    cases p.erase <;> exact Nat.succ_pos _
  | _ => exact Nat.one_pos

/-- Regrouping does not change how much a piece stands for. -/
theorem size_regroup (piece : Piece) : piece.regroup.size = piece.size := by
  cases piece with
  | primary p =>
    show p.regroup.erase.nodes.length = p.erase.nodes.length
    rw [p.regroup.length_nodes, p.yield_regroup, p.length_nodes]
  | _ => rfl

end Piece

namespace Phrase

/-- The pieces of a phrase, from left to right. -/
def pieces : Phrase → List Piece
  | primary p => [.primary p]
  | not operand => .not :: operand.pieces
  | binary op left right => left.pieces ++ .operator op :: right.pieces

theorem pieces_prepend (p : Primary) (op : BinaryOp) (t : Phrase) :
    (t.prepend p op).pieces = .primary p :: .operator op :: t.pieces := by
  fun_induction prepend p op t with
  | case1 op' left right looser ih => simp [pieces, ih]
  | case2 op' left right tight => simp [pieces]
  | case3 t notBinary => simp [pieces]

theorem pieces_negated (t : Phrase) : t.negated.pieces = .not :: t.pieces := by
  fun_induction negated t with
  | case1 op left right looser ih => simp [pieces, ih]
  | case2 op left right tight => simp [pieces]
  | case3 t notBinary => simp [pieces]

/-- The pieces of what comes behind a phrase. -/
def restPieces : Option (BinaryOp × Phrase) → List Piece
  | none => []
  | some (op, t) => .operator op :: t.pieces

/-- Regrouping keeps the pieces in their order, each regrouped inside. -/
theorem pieces_regroupThen (t : Phrase) (rest : Option (BinaryOp × Phrase)) :
    (t.regroupThen rest).pieces = t.pieces.map Piece.regroup ++ restPieces rest := by
  match t, rest with
  | primary p, none => rfl
  | primary p, some (op, s) => exact pieces_prepend p.regroup op s
  | not operand, rest =>
    rw [regroupThen, pieces_negated, pieces_regroupThen operand]
    rfl
  | binary op left right, rest =>
    rw [regroupThen, pieces_regroupThen left, restPieces, pieces_regroupThen right, pieces]
    simp [Piece.regroup]

/-- Regrouping leaves the pieces in their order. -/
theorem pieces_regroup (t : Phrase) : t.regroup.pieces = t.pieces.map Piece.regroup := by
  rw [regroup, pieces_regroupThen, restPieces, List.append_nil]

/-- The pieces stand for all parts of the expression. -/
theorem sum_size_pieces (t : Phrase) :
    (t.pieces.map Piece.size).sum = t.erase.nodes.length := by
  match t with
  | primary p => simp [pieces, Piece.size, erase]
  | not operand =>
    have inOperand := sum_size_pieces operand
    simp only [pieces, List.map_cons, List.sum_cons, Piece.size, erase, Expr.nodes,
      List.length_cons]
    omega
  | binary op left right =>
    have inLeft := sum_size_pieces left
    have inRight := sum_size_pieces right
    simp only [pieces, List.map_append, List.sum_append, List.map_cons, List.sum_cons, Piece.size,
      erase, Expr.nodes, List.length_cons, List.length_append]
    omega

theorem pieces_ne_nil (t : Phrase) : t.pieces ≠ [] := by
  cases t <;> simp [pieces]

/-- A phrase whose pieces are one primary phrase is that phrase. -/
theorem eq_primary_of_pieces {t : Phrase} {p : Primary} (h : t.pieces = [.primary p]) :
    t = primary p := by
  cases t with
  | primary p' =>
    rw [pieces, List.cons.injEq, Piece.primary.injEq] at h
    rw [h.1]
  | not operand => simp [pieces] at h
  | binary op left right =>
    cases inLeft : left.pieces with
    | nil => exact absurd inLeft left.pieces_ne_nil
    | cons piece more => simp [pieces, inLeft] at h

end Phrase

/-- Of two ways to part the same pieces at an operator, those that leave as much on the left are
one. -/
theorem Piece.append_inj {as bs cs ds : List Piece} {a c : Piece}
    (same : as ++ a :: bs = cs ++ c :: ds)
    (sizes : (as.map Piece.size).sum = (cs.map Piece.size).sum) :
    as = cs ∧ a = c ∧ bs = ds := by
  induction as generalizing cs with
  | nil =>
    cases cs with
    | nil => simpa using same
    | cons piece more =>
      -- the other list is empty, so it stands for less
      have := piece.size_pos
      simp at sizes
      omega
  | cons piece as ih =>
    cases cs with
    | nil =>
      have := piece.size_pos
      simp at sizes
      omega
    | cons piece' cs =>
      simp only [List.cons_append, List.cons.injEq] at same
      obtain ⟨rfl, same⟩ := same
      simp only [List.map_cons, List.sum_cons, Nat.add_left_cancel_iff] at sizes
      obtain ⟨rfl, rest⟩ := ih same sizes
      exact ⟨rfl, rest⟩

/-! ### Shapes -/

namespace Expr

mutual

/-- The expression with nothing said about its leaves: how its operators, keys and arguments are
nested. -/
def shape : Expr → Expr
  | foreignCall _ arguments => foreignCall "" (shapeAll arguments)
  | mapped _ key => mapped ⟨"", false⟩ (shape key)
  | binary op left right => binary op (shape left) (shape right)
  | not operand => not (shape operand)
  | number _ | address _ | text _ | bytes _ | boolean _ | identifier _ | argument _ | tracker _
  | global _ => boolean true

/-- The shapes of the arguments. -/
def shapeAll : List Expr → List Expr
  | [] => []
  | e :: rest => shape e :: shapeAll rest

end

mutual

/-- A shape has as many parts. -/
theorem length_nodes_shape (e : Expr) : e.shape.nodes.length = e.nodes.length := by
  match e with
  | .foreignCall name arguments => simp [shape, nodes, length_nodesAll_shapeAll arguments]
  | .mapped ref key => simp [shape, nodes, length_nodes_shape key]
  | .binary op left right =>
    simp [shape, nodes, length_nodes_shape left, length_nodes_shape right]
  | .not operand => simp [shape, nodes, length_nodes_shape operand]
  | .number _ | .address _ | .text _ | .bytes _ | .boolean _ | .identifier _ | .argument _
  | .tracker _ | .global _ => rfl

theorem length_nodesAll_shapeAll (es : List Expr) :
    (nodesAll (shapeAll es)).length = (nodesAll es).length := by
  match es with
  | [] => rfl
  | e :: rest =>
    simp [shapeAll, nodesAll, length_nodes_shape e, length_nodesAll_shapeAll rest]

end

end Expr

mutual

/-- A primary that keeps its shape was well grouped before. -/
theorem Primary.regroup_eq_self {p : Primary} (h : p.regroup.erase.shape = p.erase.shape) :
    p.regroup = p := by
  match p with
  | .leaf _ | .tracker _ | .call _ => rfl
  | .keyed ref key =>
    simp only [Primary.regroup, Primary.erase, Expr.shape, Expr.mapped.injEq, true_and] at h
    rw [Primary.regroup, ← Phrase.regroup, Phrase.eq_of_shape_eq key.pieces_regroup h]
  | .callWith name arguments =>
    simp only [Primary.regroup, Primary.erase, Expr.shape, Expr.foreignCall.injEq, true_and] at h
    rw [Primary.regroup, Arguments.regroup_eq_self h]
  | .paren inner =>
    simp only [Primary.regroup, Primary.erase] at h
    rw [Primary.regroup, ← Phrase.regroup, Phrase.eq_of_shape_eq inner.pieces_regroup h]
  | .piped key ref =>
    simp only [Primary.regroup, Primary.erase, Expr.shape, Expr.mapped.injEq, true_and] at h
    rw [Primary.regroup, Primary.regroup_eq_self h]

/-- Arguments that keep their shapes were well grouped before. -/
theorem Arguments.regroup_eq_self {a : Arguments}
    (h : Expr.shapeAll a.regroup.erase = Expr.shapeAll a.erase) : a.regroup = a := by
  match a with
  | .none => rfl
  | .last argument =>
    simp only [Arguments.regroup, Arguments.erase, Expr.shapeAll, List.cons.injEq, and_true] at h
    rw [Arguments.regroup, ← Phrase.regroup, Phrase.eq_of_shape_eq argument.pieces_regroup h]
  | .more argument rest =>
    simp only [Arguments.regroup, Arguments.erase, Expr.shapeAll, List.cons.injEq] at h
    rw [Arguments.regroup, ← Phrase.regroup, Phrase.eq_of_shape_eq argument.pieces_regroup h.1,
      Arguments.regroup_eq_self h.2]

/-- A phrase has one way to nest its pieces into a given shape. -/
theorem Phrase.eq_of_shape_eq {t u : Phrase} (pieces : u.pieces = t.pieces.map Piece.regroup)
    (h : u.erase.shape = t.erase.shape) : u = t := by
  match t with
  | .primary p =>
    have is : u = .primary p.regroup := Phrase.eq_primary_of_pieces pieces
    subst is
    rw [Primary.regroup_eq_self h]
  | .not operand =>
    cases u with
    | primary p => simp [Phrase.pieces, Piece.regroup] at pieces
    | not inner =>
      simp only [Phrase.pieces, List.map_cons, List.cons.injEq] at pieces
      simp only [Phrase.erase, Expr.shape, Expr.not.injEq] at h
      rw [Phrase.eq_of_shape_eq pieces.2 h]
    | binary op left right => simp [Phrase.erase, Expr.shape] at h
  | .binary op left right =>
    cases u with
    | primary p =>
      -- an operation has more pieces than one
      have length := congrArg List.length pieces
      have := List.length_pos_iff.2 left.pieces_ne_nil
      simp [Phrase.pieces] at length
      omega
    | not inner => simp [Phrase.erase, Expr.shape] at h
    | binary op' left' right' =>
      simp only [Phrase.erase, Expr.shape, Expr.binary.injEq] at h
      obtain ⟨rfl, inLeft, inRight⟩ := h
      simp only [Phrase.pieces, List.map_append, List.map_cons, Piece.regroup] at pieces
      -- both parts have as much to the left of the operator
      have sizes : (left'.pieces.map Piece.size).sum =
          ((left.pieces.map Piece.regroup).map Piece.size).sum := by
        have keeps : Piece.size ∘ Piece.regroup = Piece.size := funext Piece.size_regroup
        rw [List.map_map, keeps, left'.sum_size_pieces, left.sum_size_pieces,
          ← Expr.length_nodes_shape, inLeft, Expr.length_nodes_shape]
      obtain ⟨piecesLeft, -, piecesRight⟩ := Piece.append_inj pieces sizes
      rw [Phrase.eq_of_shape_eq piecesLeft inLeft, Phrase.eq_of_shape_eq piecesRight inRight]

end

/-- Regrouping keeps the shape of well-grouped phrases and of no others. -/
theorem Phrase.shape_regroup_iff {t : Phrase} :
    t.regroup.erase.shape = t.erase.shape ↔ t.WellGrouped := by
  constructor
  · intro h
    have is := Phrase.eq_of_shape_eq t.pieces_regroup h
    rw [← is]
    exact t.wellGrouped_regroup
  · intro grouped
    rw [Phrase.erase_eq_of_yield_eq t.wellGrouped_regroup grouped t.yield_regroup]

end RuleCodec
