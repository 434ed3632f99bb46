/-
RuleCodec/Proofs/Settling.lean

Normalizing a normal text again.

An update binds more loosely than `AND` and `OR`, and its parentheses are not
written.  So where an update stands beside a logical operator, the next pass
groups the text anew and may write other parentheses; where none does, the next
pass changes nothing, and only there (`Expr.spell_reread_iff`).  With every pass
the logical operators that matter become fewer by one on each way down the tree
(`Expr.unrest_reread_le`), so repeated normalization comes to rest after as many
passes as `Expr.settlingTime` says (`Expr.normalize_settles`), which may be more
than one (`Expr.normalize_changes_twice`).

Design.  What matters is which operators stand between the same parentheses,
and that is seen in the tokens alone (`Token.Unmixed`), however they are
grouped.
-/
import Mathlib.Data.Nat.Basic
import Mathlib.Order.MinMax
import RuleCodec.Proofs.Precedence
import RuleCodec.Proofs.Reprinting
import RuleCodec.Proofs.Tables

namespace RuleCodec

/-! ### Levels of a text -/

/-- The kinds of operators that stand between the same parentheses and commas. -/
structure Level where
  logical : Bool
  update : Bool

namespace Level

/-- Whether a level has a logical operator and an update. -/
def Mixed (level : Level) : Prop :=
  level.logical ∧ level.update

/-- A level on which nothing was seen yet. -/
def empty : Level := ⟨false, false⟩

/-- What was seen on either of two levels. -/
def join (level level' : Level) : Level :=
  ⟨level.logical || level'.logical, level.update || level'.update⟩

theorem join_empty (level : Level) : level.join empty = level := by
  cases level
  simp [join, empty]

theorem empty_join (level : Level) : empty.join level = level := by
  cases level
  simp [join, empty]

theorem join_assoc (a b c : Level) : (a.join b).join c = a.join (b.join c) := by
  simp [join, Bool.or_assoc]

end Level

/-- What an operator adds to its level. -/
def BinaryOp.level (op : BinaryOp) : Level := ⟨op.isLogical, op.isUpdate⟩

/-- What a phrase has outside its parentheses. -/
def Phrase.level (t : Phrase) : Level :=
  ⟨t.pieces.any Piece.isLogical, t.pieces.any Piece.isUpdate⟩

/-- The level of an operation is joined from its operands and its operator. -/
theorem Phrase.level_binary (op : BinaryOp) (left right : Phrase) :
    (binary op left right).level = left.level.join (op.level.join right.level) := by
  simp [level, Level.join, any_pieces_binary, BinaryOp.level, Piece.isLogical, Piece.isUpdate]

/-- No level of the tokens is mixed, given what came before them on their own level and on those
around it. -/
def Token.Unmixed : Level → List Level → List Token → Prop
  | level, _, [] => ¬ level.Mixed
  | level, outer, .leftParen :: ts => Token.Unmixed .empty (level :: outer) ts
  | level, outside :: outer, .rightParen :: ts => ¬ level.Mixed ∧ Token.Unmixed outside outer ts
  | _, [], .rightParen :: _ => False
  | level, outer, .comma :: ts => ¬ level.Mixed ∧ Token.Unmixed .empty outer ts
  | level, outer, .operator op :: ts => Token.Unmixed (level.join op.level) outer ts
  | level, outer, _ :: ts => Token.Unmixed level outer ts

theorem TrackerRef.unmixed_token (ref : TrackerRef) (level : Level) (outer : List Level)
    (ts : List Token) :
    Token.Unmixed level outer (ref.token :: ts) ↔ Token.Unmixed level outer ts := by
  rw [TrackerRef.token]
  split <;> exact Iff.rfl

-- the tokens of a phrase add its operators to the level they start on, and leave the levels around
-- it as they were
mutual

/-- The tokens of a primary leave the level around it as it is. -/
theorem Primary.unmixed_yield (p : Primary) (level : Level) (outer : List Level)
    (ts : List Token) :
    Token.Unmixed level outer (p.yield ++ ts) ↔ p.Unmixed ∧ Token.Unmixed level outer ts := by
  match p with
  | .leaf l =>
    rw [Primary.yield, List.singleton_append]
    cases l <;> exact (and_iff_right trivial).symm
  | .tracker ref =>
    rw [Primary.yield, List.singleton_append, ref.unmixed_token]
    exact (and_iff_right trivial).symm
  | .keyed ref key =>
    rw [Primary.yield, List.cons_append, ref.unmixed_token]
    exact key.unmixed_parens level outer ts
  | .call name => exact (and_iff_right trivial).symm
  | .callWith name arguments =>
    rw [Primary.yield, List.cons_append, List.cons_append, List.append_assoc]
    exact arguments.unmixed_yield level outer ts
  | .paren inner =>
    rw [Primary.yield]
    exact inner.unmixed_parens level outer ts
  | .piped key ref =>
    -- a pipe stays on the level of its key
    rw [Primary.yield, List.append_assoc, key.unmixed_yield]
    exact and_congr_right fun _ => ref.unmixed_token level outer ts

/-- Arguments are on levels of their own, up to the parenthesis that closes. -/
theorem Arguments.unmixed_yield (a : Arguments) (level : Level) (outer : List Level)
    (ts : List Token) :
    Token.Unmixed .empty (level :: outer) (a.yield ++ .rightParen :: ts) ↔
      a.Unmixed ∧ Token.Unmixed level outer ts := by
  match a with
  | .none => simp [Arguments.yield, Token.Unmixed, Arguments.Unmixed, Level.Mixed, Level.empty]
  | .last argument =>
    rw [Arguments.yield, argument.unmixed_yield, Level.empty_join, Arguments.Unmixed,
      Token.Unmixed, ← and_assoc, and_comm (a := argument.PartsUnmixed)]
    exact Iff.rfl
  | .more argument rest =>
    rw [Arguments.yield, List.append_assoc, argument.unmixed_yield, Level.empty_join,
      List.cons_append, Token.Unmixed, rest.unmixed_yield, Arguments.Unmixed, ← and_assoc,
      ← and_assoc, and_comm (a := argument.PartsUnmixed)]
    exact Iff.rfl

/-- A phrase in parentheses is on a level of its own. -/
theorem Phrase.unmixed_parens (t : Phrase) (level : Level) (outer : List Level)
    (ts : List Token) :
    Token.Unmixed level outer (.leftParen :: (t.yield ++ [.rightParen]) ++ ts) ↔
      t.Unmixed ∧ Token.Unmixed level outer ts := by
  rw [List.cons_append, List.append_assoc, Token.Unmixed, t.unmixed_yield, Level.empty_join,
    List.singleton_append, Token.Unmixed, ← and_assoc, and_comm (a := t.PartsUnmixed)]
  exact Iff.rfl

/-- The tokens of a phrase add its level to the one it is on. -/
theorem Phrase.unmixed_yield (t : Phrase) (level : Level) (outer : List Level)
    (ts : List Token) :
    Token.Unmixed level outer (t.yield ++ ts) ↔
      t.PartsUnmixed ∧ Token.Unmixed (level.join t.level) outer ts := by
  match t with
  | .primary p =>
    have none : (Phrase.primary p).level = .empty := rfl
    rw [none, Level.join_empty]
    exact p.unmixed_yield level outer ts
  | .not operand => exact operand.unmixed_yield level outer ts
  | .binary op left right =>
    rw [Phrase.yield, List.append_assoc, left.unmixed_yield, List.cons_append, Token.Unmixed,
      right.unmixed_yield, Phrase.PartsUnmixed, Phrase.level_binary, Level.join_assoc,
      Level.join_assoc, and_assoc]

end

/-- Whether anything in a phrase is mixed is seen in its tokens. -/
theorem Phrase.unmixed_iff (t : Phrase) : t.Unmixed ↔ Token.Unmixed .empty [] t.yield := by
  have whole := t.unmixed_yield .empty [] []
  rw [List.append_nil, Level.empty_join] at whole
  rw [whole, Phrase.Unmixed, and_comm]
  exact Iff.rfl

/-! ### Texts that stay -/

/-- Operators that bind at least as tightly as `AND` and `OR` do not store. -/
theorem BinaryOp.isUpdate_of_le {op : BinaryOp} (le : Operation.and.power ≤ op.power) :
    op.isUpdate = false := by
  rcases op with op | a
  · cases op with
    | assign => exact absurd le (by decide)
    | _ => rfl
  · cases a <;> exact absurd le (by decide)

theorem BinaryOp.power_of_isLogical {op : BinaryOp} (logical : op.isLogical) :
    op.power = Operation.and.power := by
  rcases op with op | a
  · cases op with
    | and => rfl
    | or => rfl
    | _ => cases logical
  · cases logical

/-- A phrase that can stand beside an `AND` or an `OR` has its updates in parentheses. -/
theorem Phrase.any_isUpdate_of_atLeast {t : Phrase} (grouped : t.WellGrouped)
    (tight : t.AtLeast Operation.and.power) : t.pieces.any Piece.isUpdate = false := by
  match t with
  | .primary p => rfl
  | .not operand =>
    exact any_isUpdate_of_atLeast (t := operand) grouped.1 (grouped.2.mono (by decide))
  | .binary op left right =>
    obtain ⟨inLeft, inRight, above, atLeast, -⟩ := grouped
    rw [any_pieces_binary, any_isUpdate_of_atLeast inLeft (above.atLeast.mono tight),
      any_isUpdate_of_atLeast inRight (atLeast.mono tight), Piece.isUpdate,
      BinaryOp.isUpdate_of_le tight]
    rfl

/-- Phrases that are written alike have the same tokens. -/
theorem Phrase.yield_eq_of_spell_eq {t s : Phrase} (lexical : ∀ k ∈ t.yield, k.Lexical)
    (lexical' : ∀ k ∈ s.yield, k.Lexical) (same : t.spell = s.spell) : t.yield = s.yield := by
  have scans : Scans (t.spell ++ []) (t.yield ++ [.endOfInput]) :=
    t.scans_spell lexical trivial .nil
  have scans' : Scans (s.spell ++ []) (s.yield ++ [.endOfInput]) :=
    s.scans_spell lexical' trivial .nil
  obtain ⟨ts, scanned, yields⟩ := scans 0
  obtain ⟨ts', scanned', yields'⟩ := scans' 0
  rw [same, scanned'] at scanned
  cases scanned
  exact List.append_cancel_right (yields.symm.trans yields')

namespace Expr

/-- In an expression that is read as it is written, no update can stand beside a logical
operator. -/
theorem Faithful.settled {e : Expr} (h : e.Faithful) : e.Settled := by
  intro n mem
  cases n with
  | binary op left right =>
    intro logical
    have inside : (binary op left right).Faithful := by
      rw [faithful_iff] at h ⊢
      intro m part
      exact h m (nodes_subset e mem part)
    obtain ⟨inLeft, inRight, above, atLeast, -⟩ := inside
    rw [BinaryOp.power_of_isLogical logical] at above atLeast
    rw [← any_isUpdate_operandPhrase left, ← any_isUpdate_operandPhrase right]
    exact ⟨Phrase.any_isUpdate_of_atLeast inLeft above.atLeast,
      Phrase.any_isUpdate_of_atLeast inRight atLeast⟩
  | _ => trivial

/-- What is reread is lexical. -/
theorem lexical_reread {e : Expr} (lexical : ∀ n ∈ e.nodes, n.Lexical) :
    ∀ n ∈ e.reread.nodes, n.Lexical :=
  lexical_of_parse (parse_render lexical)

/-- Exactly the settled expressions are written again as they were. -/
theorem spell_reread_iff {e : Expr} (lexical : ∀ n ∈ e.nodes, n.Lexical) :
    e.reread.spell = e.spell ↔ e.Settled := by
  refine ⟨fun same => ?_, Settled.spell_reread⟩
  have lexical' := lexical_reread lexical
  -- the text that came back is read as what it came from, which is therefore faithful
  have again : e.reread.reread = e.reread := by
    have parsed := parse_render lexical'
    rw [render, same, ← render, parse_render lexical] at parsed
    exact (Except.ok.inj parsed).symm
  have faithful : e.reread.Faithful := by
    rw [← shape_reread_iff, again]
  -- both have the same tokens, and those show that nothing is mixed
  rw [← unmixed_phrase_iff, Phrase.unmixed_iff]
  have tokens : e.reread.phrase.yield = e.phrase.yield := by
    apply Phrase.yield_eq_of_spell_eq (lexical_phrase lexical') (lexical_phrase lexical)
    rw [spell_phrase, spell_phrase, same]
  rw [← tokens, ← Phrase.unmixed_iff, unmixed_phrase_iff]
  exact faithful.settled

/-! ### How far an expression is from rest -/

/-- How many logical operators stand above one another down to the lowest that is not calm, keys
and arguments aside; none where all are calm. -/
def unrest : Expr → Nat
  | binary op left right =>
    let below := max left.unrest right.unrest
    if !op.isLogical then below
    else if 0 < below then below + 1
    else if left.storesBare || right.storesBare then 1 else 0
  | not operand => operand.unrest
  | _ => 0

/-- An operation is no calmer than its operands. -/
theorem max_le_unrest (op : BinaryOp) (left right : Expr) :
    max left.unrest right.unrest ≤ (binary op left right).unrest := by
  rw [unrest]
  split
  · exact le_rfl
  · split <;> omega

/-- An operator that is not logical adds no unrest. -/
theorem unrest_of_single {op : BinaryOp} (single : op.isLogical = false) (left right : Expr) :
    (binary op left right).unrest = max left.unrest right.unrest := by
  simp [unrest, single]

/-- An `AND` or an `OR` adds to the unrest of its operands, or begins it. -/
theorem unrest_le_of_logical {op : BinaryOp} (logical : op.isLogical) {left right : Expr}
    {bound : Nat} :
    (binary op left right).unrest ≤ bound ↔
      left.unrest ≤ bound - 1 ∧ right.unrest ≤ bound - 1 ∧
        (left.storesBare ∨ right.storesBare → 1 ≤ bound) := by
  simp only [unrest, logical, Bool.not_true, Bool.false_eq_true, if_false, ← Bool.or_eq_true]
  split
  · -- what is below is not calm, so this operator comes on top of it
    rename_i below
    constructor
    · intro le
      refine ⟨?_, ?_, fun _ => ?_⟩ <;> omega
    · rintro ⟨inLeft, inRight, -⟩
      omega
  · split
    · rename_i stores
      simp only [stores, true_imp_iff]
      omega
    · rename_i reads
      simp only [reads, Bool.false_eq_true, false_imp_iff, and_true]
      omega

/-- Whether something is stored without parentheses is a matter of shape. -/
theorem storesBare_shape (e : Expr) : e.shape.storesBare = e.storesBare := by
  match e with
  | .binary op left right =>
    rw [shape, storesBare, storesBare, storesBare_shape left, storesBare_shape right]
  | .not operand => exact storesBare_shape operand
  | .number _ | .address _ | .text _ | .bytes _ | .boolean _ | .identifier _ | .argument _
  | .tracker _ | .foreignCall _ _ | .global _ | .mapped _ _ => rfl

/-- So is unrest. -/
theorem unrest_shape (e : Expr) : e.shape.unrest = e.unrest := by
  match e with
  | .binary op left right =>
    rw [shape, unrest, unrest, unrest_shape left, unrest_shape right, storesBare_shape,
      storesBare_shape]
  | .not operand => exact unrest_shape operand
  | .number _ | .address _ | .text _ | .bytes _ | .boolean _ | .identifier _ | .argument _
  | .tracker _ | .foreignCall _ _ | .global _ | .mapped _ _ => rfl

end Expr

namespace Phrase

theorem mem_pieces_not {t : Phrase} {p : Primary} :
    .primary p ∈ (not t).pieces ↔ .primary p ∈ t.pieces := by
  simp [pieces]

theorem mem_pieces_binary {op : BinaryOp} {left right : Phrase} {p : Primary} :
    .primary p ∈ (binary op left right).pieces ↔
      .primary p ∈ left.pieces ∨ .primary p ∈ right.pieces := by
  simp [pieces]

/-- An update within a phrase stands outside parentheses, or is reached through a primary phrase. -/
theorem storesBare_erase {t : Phrase} (stores : t.erase.storesBare) :
    t.pieces.any Piece.isUpdate ∨ ∃ p, .primary p ∈ t.pieces ∧ p.erase.storesBare := by
  match t with
  | primary p => exact .inr ⟨p, List.mem_singleton_self _, stores⟩
  | not operand =>
    rcases storesBare_erase (t := operand) stores with bare | ⟨p, mem, stores⟩
    · exact .inl bare
    · exact .inr ⟨p, mem_pieces_not.2 mem, stores⟩
  | binary op left right =>
    rw [any_pieces_binary, Bool.or_eq_true, Bool.or_eq_true]
    rw [erase, Expr.storesBare] at stores
    simp only [Bool.or_eq_true, Bool.and_eq_true] at stores
    -- here, or on one side without parentheses in between
    rcases stores with here | ⟨-, inLeft | inRight⟩
    · exact .inl (.inr (.inl here))
    · rcases storesBare_erase inLeft with bare | ⟨p, mem, stores⟩
      · exact .inl (.inl bare)
      · exact .inr ⟨p, mem_pieces_binary.2 (.inl mem), stores⟩
    · rcases storesBare_erase inRight with bare | ⟨p, mem, stores⟩
      · exact .inl (.inr (.inr bare))
      · exact .inr ⟨p, mem_pieces_binary.2 (.inr mem), stores⟩

/-- Beside an `AND` or an `OR`, an update is reached through a primary phrase. -/
theorem exists_storesBare_of_atLeast {t : Phrase} (grouped : t.WellGrouped)
    (tight : t.AtLeast Operation.and.power) (stores : t.erase.storesBare) :
    ∃ p, .primary p ∈ t.pieces ∧ p.erase.storesBare := by
  rcases storesBare_erase stores with bare | found
  · rw [any_isUpdate_of_atLeast grouped tight] at bare
    cases bare
  · exact found

/-- Without a logical operator beside it, an update can be reached from the top. -/
theorem storesBare_of_any_isUpdate {t : Phrase} (single : t.pieces.any Piece.isLogical = false)
    (stores : t.pieces.any Piece.isUpdate) : t.erase.storesBare := by
  match t with
  | primary p => cases stores
  | not operand => exact storesBare_of_any_isUpdate (t := operand) single stores
  | binary op left right =>
    simp only [any_pieces_binary, Bool.or_eq_true, Bool.or_eq_false_iff] at single stores
    obtain ⟨inLeft, here, inRight⟩ := single
    rw [Piece.isLogical] at here
    rw [erase, Expr.storesBare, here]
    rcases stores with stores | stores | stores
    · simp [storesBare_of_any_isUpdate inLeft stores]
    · rw [Piece.isUpdate] at stores
      simp [stores]
    · simp [storesBare_of_any_isUpdate inRight stores]

/-- No piece has more unrest than the phrase. -/
theorem unrest_le_of_mem {t : Phrase} {p : Primary} (mem : .primary p ∈ t.pieces) :
    p.erase.unrest ≤ t.erase.unrest := by
  match t with
  | primary p' =>
    cases List.mem_singleton.1 mem
    exact le_rfl
  | not operand => exact unrest_le_of_mem (t := operand) (mem_pieces_not.1 mem)
  | binary op left right =>
    have le := Expr.max_le_unrest op left.erase right.erase
    rcases mem_pieces_binary.1 mem with mem | mem
    · exact (unrest_le_of_mem mem).trans ((le_max_left _ _).trans le)
    · exact (unrest_le_of_mem mem).trans ((le_max_right _ _).trans le)

/-- Without a logical operator outside parentheses, the unrest is that of the primary phrases. -/
theorem unrest_le_of_single {t : Phrase} {bound : Nat}
    (single : t.pieces.any Piece.isLogical = false)
    (parts : ∀ p, .primary p ∈ t.pieces → p.erase.unrest ≤ bound) : t.erase.unrest ≤ bound := by
  match t with
  | primary p => exact parts p (List.mem_singleton_self _)
  | not operand =>
    apply unrest_le_of_single (t := operand) single
    intro p mem
    exact parts p (mem_pieces_not.2 mem)
  | binary op left right =>
    simp only [any_pieces_binary, Bool.or_eq_false_iff] at single
    rw [erase, Expr.unrest_of_single single.2.1, max_le_iff]
    constructor
    · exact unrest_le_of_single single.1 fun p mem => parts p (mem_pieces_binary.2 (.inl mem))
    · exact unrest_le_of_single single.2.2 fun p mem => parts p (mem_pieces_binary.2 (.inr mem))

/-- With one logical operator outside parentheses, the unrest is at most one more, since no update
can stand beside it. -/
theorem unrest_le_of_wellGrouped {t : Phrase} {bound : Nat} (grouped : t.WellGrouped)
    (once : t.pieces.countP Piece.isLogical ≤ 1)
    (parts : ∀ p, .primary p ∈ t.pieces →
      p.erase.unrest ≤ bound - 1 ∧ (p.erase.storesBare → 1 ≤ bound)) :
    t.erase.unrest ≤ bound := by
  match t with
  | primary p => exact (parts p (List.mem_singleton_self _)).1.trans (Nat.sub_le _ _)
  | not operand =>
    apply unrest_le_of_wellGrouped (t := operand) grouped.1 once
    intro p mem
    exact parts p (mem_pieces_not.2 mem)
  | binary op left right =>
    obtain ⟨groupedLeft, groupedRight, above, atLeast, -⟩ := grouped
    rw [pieces, List.countP_append] at once
    have inLeft := fun p mem => parts p (mem_pieces_binary.2 (.inl mem))
    have inRight := fun p mem => parts p (mem_pieces_binary.2 (.inr mem))
    rw [erase]
    cases logical : op.isLogical with
    | false =>
      rw [List.countP_cons_of_neg (by simp [Piece.isLogical, logical])] at once
      rw [Expr.unrest_of_single logical, max_le_iff]
      exact ⟨unrest_le_of_wellGrouped groupedLeft (by omega) inLeft,
        unrest_le_of_wellGrouped groupedRight (by omega) inRight⟩
    | true =>
      -- this is the one, so the operands have none and add nothing to their parts
      rw [List.countP_cons_of_pos (show Piece.isLogical (.operator op) from logical)] at once
      rw [BinaryOp.power_of_isLogical logical] at above atLeast
      have singleLeft : left.pieces.any Piece.isLogical = false :=
        List.any_eq_false.2 (List.countP_eq_zero.1 (by omega))
      have singleRight : right.pieces.any Piece.isLogical = false :=
        List.any_eq_false.2 (List.countP_eq_zero.1 (by omega))
      rw [Expr.unrest_le_of_logical logical]
      refine ⟨unrest_le_of_single singleLeft fun p mem => (inLeft p mem).1,
        unrest_le_of_single singleRight fun p mem => (inRight p mem).1, ?_⟩
      rintro (stores | stores)
      · obtain ⟨p, mem, stores⟩ :=
          exists_storesBare_of_atLeast groupedLeft above.atLeast stores
        exact (inLeft p mem).2 stores
      · obtain ⟨p, mem, stores⟩ := exists_storesBare_of_atLeast groupedRight atLeast stores
        exact (inRight p mem).2 stores

/-- A primary phrase of a regrouped phrase is one of the phrase, regrouped. -/
theorem exists_of_mem_pieces_regroup {t : Phrase} {p' : Primary}
    (mem : .primary p' ∈ t.regroup.pieces) : ∃ p, .primary p ∈ t.pieces ∧ p.regroup = p' := by
  rw [pieces_regroup] at mem
  obtain ⟨piece, inside, is⟩ := List.mem_map.1 mem
  cases piece with
  | primary p =>
    cases is
    exact ⟨p, inside, rfl⟩
  | _ => cases is

end Phrase

/-- Regrouped, a primary phrase has less unrest than before, and an update can be reached only where
there was some. -/
def Primary.Subsides (p : Primary) : Prop :=
  p.regroup.erase.unrest ≤ p.erase.unrest - 1 ∧
    (p.regroup.erase.storesBare → 1 ≤ p.erase.unrest)

namespace Phrase

/-- The logical operator of a group is the only one outside parentheses. -/
theorem Printed.countP_isLogical {t : Phrase} {operand : Bool} (h : t.Printed operand)
    (group : t.isGroup) : t.pieces.countP Piece.isLogical = 1 := by
  cases t with
  | binary op left right =>
    have none : ∀ {s : Phrase}, s.Printed true → s.pieces.countP Piece.isLogical = 0 :=
      fun printed => List.countP_eq_zero.2 (List.any_eq_false.1 printed.any_isLogical)
    rw [pieces, List.countP_append,
      List.countP_cons_of_pos (show Piece.isLogical (.operator op) from group), none h.2.1,
      none h.2.2]
  | _ => cases group

/-- In a group the primary phrases have less unrest than the whole. -/
theorem unrest_le_of_isGroup {t : Phrase} (group : t.isGroup) {p : Primary}
    (mem : .primary p ∈ t.pieces) : p.erase.unrest ≤ t.erase.unrest - 1 := by
  cases t with
  | binary op left right =>
    obtain ⟨inLeft, inRight, -⟩ := (Expr.unrest_le_of_logical group).1 (le_refl
      (Expr.binary op left.erase right.erase).unrest)
    rcases mem_pieces_binary.1 mem with mem | mem
    · exact (unrest_le_of_mem mem).trans inLeft
    · exact (unrest_le_of_mem mem).trans inRight
  | _ => cases group

/-- One pass takes one logical operator off the unrest. -/
theorem unrest_regroup_le {t : Phrase} {operand : Bool} (printed : t.Printed operand)
    (parts : ∀ p, .primary p ∈ t.pieces → p.Subsides) :
    t.regroup.erase.unrest ≤ t.erase.unrest - 1 := by
  cases group : t.isGroup with
  | false =>
    -- nothing logical outside parentheses, before or after: the parts account for it all
    have single : t.pieces.any Piece.isLogical = false := by
      cases operand with
      | true => exact printed.any_isLogical
      | false => exact (printed.operand group).any_isLogical
    apply unrest_le_of_single ((any_pieces_regroup Piece.isLogical_regroup t).trans single)
    intro p' inside
    obtain ⟨p, mem, rfl⟩ := exists_of_mem_pieces_regroup inside
    exact (parts p mem).1.trans (Nat.sub_le_sub_right (unrest_le_of_mem mem) 1)
  | true =>
    -- the one logical operator stays, but the parts stood below it and have lost one of their own
    apply unrest_le_of_wellGrouped t.wellGrouped_regroup
    · rw [pieces_regroup, List.countP_map, Function.comp_def]
      simp only [Piece.isLogical_regroup]
      exact (printed.countP_isLogical group).le
    · intro p' inside
      obtain ⟨p, mem, rfl⟩ := exists_of_mem_pieces_regroup inside
      have below := unrest_le_of_isGroup group mem
      exact ⟨(parts p mem).1.trans (Nat.sub_le_sub_right below 1),
        fun stores => ((parts p mem).2 stores).trans below⟩

/-- An update comes out of the parentheses around a group only if the group was not at rest. -/
theorem one_le_unrest_of_storesBare {t : Phrase} {operand : Bool} (printed : t.Printed operand)
    (group : t.isGroup) (parts : ∀ p, .primary p ∈ t.pieces → p.Subsides)
    (stores : t.regroup.erase.storesBare) : 1 ≤ t.erase.unrest := by
  rcases storesBare_erase stores with bare | ⟨p', inside, stores⟩
  · -- it stood beside the group's own operator, which was not calm then
    rw [any_isUpdate_regroup] at bare
    cases t with
    | binary op left right =>
      rw [any_pieces_binary, Piece.isUpdate, BinaryOp.isUpdate_of_isLogical group,
        Bool.false_or, Bool.or_eq_true] at bare
      refine ((Expr.unrest_le_of_logical group).1 le_rfl).2.2 ?_
      refine bare.imp ?_ ?_
      · exact storesBare_of_any_isUpdate printed.2.1.any_isLogical
      · exact storesBare_of_any_isUpdate printed.2.2.any_isLogical
    | _ => cases group
  · -- it came out of a group inside this one
    obtain ⟨p, mem, rfl⟩ := exists_of_mem_pieces_regroup inside
    exact ((parts p mem).2 stores).trans (unrest_le_of_mem mem)

end Phrase

-- only a parenthesized phrase has unrest; keys and arguments are counted by themselves
mutual

/-- Unrest subsides in a primary that is printed. -/
theorem Primary.subsides {p : Primary} {operand : Bool} (printed : p.Printed operand) :
    p.Subsides := by
  match p with
  | .paren inner =>
    have parts := Phrase.subsides_of_mem (t := inner) printed.2.2
    exact ⟨Phrase.unrest_regroup_le printed.2.2 parts,
      Phrase.one_le_unrest_of_storesBare printed.2.2 printed.2.1 parts⟩
  | .leaf l => cases l <;> exact ⟨le_rfl, fun stores => by cases stores⟩
  | .tracker _ | .call _ | .keyed _ _ | .callWith _ _ =>
    exact ⟨le_rfl, fun stores => by cases stores⟩
  | .piped _ _ => exact absurd printed id

/-- Unrest subsides in every piece of a phrase that is printed. -/
theorem Phrase.subsides_of_mem {t : Phrase} {operand : Bool} (printed : t.Printed operand) :
    ∀ p, .primary p ∈ t.pieces → p.Subsides := by
  intro p mem
  match t with
  | .primary p' =>
    cases List.mem_singleton.1 mem
    exact Primary.subsides printed
  | .not inner =>
    exact Phrase.subsides_of_mem (t := inner) printed p (Phrase.mem_pieces_not.1 mem)
  | .binary op left right =>
    rcases Phrase.mem_pieces_binary.1 mem with mem | mem
    · exact Phrase.subsides_of_mem printed.2.1 p mem
    · exact Phrase.subsides_of_mem printed.2.2 p mem

end

namespace Expr

/-- One pass takes one logical operator off the unrest of an expression. -/
theorem unrest_reread_le (e : Expr) : e.reread.unrest ≤ e.unrest - 1 := by
  have le := Phrase.unrest_regroup_le e.printed_phrase (Phrase.subsides_of_mem e.printed_phrase)
  -- the phrase of the expression differs from it in its leaves at most
  rw [← unrest_shape e.phrase.erase, shape_phrase, unrest_shape] at le
  exact le

/-! ### Passes -/

/-- The expressions that a part of an expression holds in parentheses of its own. -/
def enclosed : Expr → List Expr
  | mapped _ key => [key]
  | foreignCall _ arguments => arguments
  | _ => []

/-- The largest unrest in an expression and in the keys and arguments in it. -/
def settlingTime (e : Expr) : Nat :=
  ((e :: e.nodes.flatMap enclosed).map unrest).max (List.cons_ne_nil _ _)

/-- The settling time bounds the unrest of the expression and of all that is enclosed in it. -/
theorem settlingTime_le_iff {e : Expr} {k : Nat} :
    e.settlingTime ≤ k ↔
      e.unrest ≤ k ∧ ∀ n ∈ e.nodes, ∀ part ∈ n.enclosed, part.unrest ≤ k := by
  rw [settlingTime, List.max_le_iff, List.forall_mem_map, List.forall_mem_cons]
  simp only [List.mem_flatMap, forall_exists_index, and_imp]
  exact and_congr_right fun _ => ⟨fun h n mem part inside => h part n mem inside,
    fun h part n mem inside => h n mem part inside⟩

/-- What is enclosed in an operand is reread by itself. -/
theorem enclosed_reread {n : Expr} (operand : n.isOperand) :
    n.reread.enclosed = n.enclosed.map reread := by
  cases n with
  | text value =>
    rw [reread_text]
    split <;> rfl
  | foreignCall name arguments =>
    rw [reread_foreignCall]
    rfl
  | binary op left right => cases operand
  | not operand => cases operand
  | _ => rfl

/-- The time to settle shrinks with every pass. -/
theorem settlingTime_reread_le (e : Expr) : e.reread.settlingTime ≤ e.settlingTime - 1 := by
  obtain ⟨whole, parts⟩ := settlingTime_le_iff.1 (le_refl e.settlingTime)
  refine settlingTime_le_iff.2 ⟨e.unrest_reread_le.trans (Nat.sub_le_sub_right whole 1), ?_⟩
  -- keys and arguments are not regrouped with what is around them: each is one from before, reread
  intro n' mem' part' inside'
  have operand' : n'.isOperand := by
    cases n' <;> first | rfl | cases inside'
  obtain ⟨n, mem, operand, rfl⟩ := exists_operand_of_reread mem' operand'
  rw [enclosed_reread operand] at inside'
  obtain ⟨part, inside, rfl⟩ := List.mem_map.1 inside'
  exact part.unrest_reread_le.trans (Nat.sub_le_sub_right (parts n mem part inside) 1)

mutual

/-- Without unrest an expression is settled. -/
theorem settled_of_unrest (e : Expr) (whole : e.unrest = 0)
    (parts : ∀ n ∈ e.nodes, ∀ part ∈ n.enclosed, part.unrest = 0) : e.Settled := by
  match e with
  | .foreignCall name arguments =>
    rw [nodes, List.forall_mem_cons] at parts
    rw [Settled, nodes, List.forall_mem_cons]
    exact ⟨trivial, calm_nodesAll_of_unrest arguments parts.1 parts.2⟩
  | .mapped ref key =>
    rw [nodes, List.forall_mem_cons] at parts
    rw [Settled, nodes, List.forall_mem_cons]
    exact ⟨trivial, settled_of_unrest key (parts.1 key (List.mem_singleton_self _)) parts.2⟩
  | .binary op left right =>
    rw [nodes, List.forall_mem_cons, List.forall_mem_append] at parts
    rw [Settled, nodes, List.forall_mem_cons, List.forall_mem_append]
    have below := max_le_unrest op left right
    rw [whole, Nat.le_zero, Nat.max_eq_zero_iff] at below
    refine ⟨?_, settled_of_unrest left below.1 parts.2.1, settled_of_unrest right below.2 parts.2.2⟩
    -- an operator that is not calm would have an unrest of one at least
    intro logical
    have rest : ¬ (left.storesBare ∨ right.storesBare) := fun stores =>
      absurd (((unrest_le_of_logical logical).1 whole.le).2.2 stores) (by decide)
    exact ⟨Bool.eq_false_iff.2 fun stores => rest (.inl stores),
      Bool.eq_false_iff.2 fun stores => rest (.inr stores)⟩
  | .not operand =>
    rw [nodes, List.forall_mem_cons] at parts
    rw [Settled, nodes, List.forall_mem_cons]
    exact ⟨trivial, settled_of_unrest operand whole parts.2⟩
  | .number _ | .address _ | .text _ | .bytes _ | .boolean _ | .identifier _ | .argument _
  | .tracker _ | .global _ =>
    rw [Settled, nodes, List.forall_mem_singleton]
    trivial

theorem calm_nodesAll_of_unrest (es : List Expr) (whole : ∀ e ∈ es, e.unrest = 0)
    (parts : ∀ n ∈ nodesAll es, ∀ part ∈ n.enclosed, part.unrest = 0) :
    ∀ n ∈ nodesAll es, n.Calm := by
  match es with
  | [] => simp [nodesAll]
  | e :: rest =>
    rw [nodesAll, List.forall_mem_append] at parts ⊢
    rw [List.forall_mem_cons] at whole
    exact ⟨settled_of_unrest e whole.1 parts.1, calm_nodesAll_of_unrest rest whole.2 parts.2⟩

end

/-- With no time left to settle, an expression is settled. -/
theorem settled_of_settlingTime {e : Expr} (time : e.settlingTime = 0) : e.Settled := by
  obtain ⟨whole, parts⟩ := settlingTime_le_iff.1 time.le
  apply settled_of_unrest e (Nat.le_zero.1 whole)
  intro n mem part inside
  exact Nat.le_zero.1 (parts n mem part inside)

/-- What is read after a number of passes. -/
def rereads (e : Expr) : Nat → Expr
  | 0 => e
  | k + 1 => (e.rereads k).reread

theorem lexical_rereads {e : Expr} (lexical : ∀ n ∈ e.nodes, n.Lexical) (k : Nat) :
    ∀ n ∈ (e.rereads k).nodes, n.Lexical := by
  induction k with
  | zero => exact lexical
  | succ k ih => exact lexical_reread ih

/-- Each rereading takes one off the settling time. -/
theorem settlingTime_rereads_le (e : Expr) (k : Nat) :
    (e.rereads k).settlingTime ≤ e.settlingTime - k := by
  induction k with
  | zero => exact le_rfl
  | succ k ih =>
    calc (e.rereads (k + 1)).settlingTime
        ≤ (e.rereads k).settlingTime - 1 := (e.rereads k).settlingTime_reread_le
      _ ≤ e.settlingTime - k - 1 := Nat.sub_le_sub_right ih 1
      _ = e.settlingTime - (k + 1) := Nat.sub_sub _ k 1

/-- **Normalizing again and again.**  A normal text can be normalized any number of times.  The
first time leaves it as it is exactly if the expression is settled, and after as many times as its
settling time no text changes any more. -/
theorem normalize_settles {source first : String} (normal : normalize source = .ok first) :
    ∃ e, parse source = .ok e ∧ ∃ pass : Nat → String,
      pass 0 = first ∧ (∀ k, normalize (pass k) = .ok (pass (k + 1))) ∧
      (pass 1 = pass 0 ↔ e.Settled) ∧
      ∀ k, e.settlingTime ≤ k → pass (k + 1) = pass k := by
  obtain ⟨e, parsed, rfl⟩ := normalize_eq_ok_iff.1 normal
  have lexical := lexical_rereads (lexical_of_parse parsed)
  refine ⟨e, parsed, fun k => (e.rereads k).render, rfl, fun k => ?_, ?_, fun k time => ?_⟩
  · exact (exists_phrase_of_parse (parse_render (lexical k))).1
  · show e.reread.render = e.render ↔ e.Settled
    rw [render, render, String.ofList_inj]
    exact spell_reread_iff (lexical 0)
  · -- each pass takes one off the settling time, so after that many passes nothing is left
    have rest : (e.rereads k).settlingTime = 0 := by
      have le := e.settlingTime_rereads_le k
      omega
    show (e.rereads k).reread.render = (e.rereads k).render
    rw [render, (settled_of_settlingTime rest).spell_reread, ← render]

/-- An update in the key of `TR:m` stands beside an `AND`: the first pass groups the key anew, and
the second leaves it so. -/
theorem normalize_update_in_key :
    let source := "NOT TR:m((x = 5) AND gold) > 1 OR b"
    let first := "NOT TR:m(x = 5 AND gold) > 1 OR b"
    normalize source = .ok first ∧
      ∃ second, normalize first = .ok second ∧ second ≠ first ∧ normalize second = .ok second := by
  intro source first
  have normal : normalize source = .ok first := by decide +kernel
  refine ⟨normal, ?_⟩
  obtain ⟨e, parsed, pass, start, step, same, rest⟩ := normalize_settles normal
  obtain ⟨e', parsed', facts⟩ := exists_ok_of_any
    (show (parse source).toOption.any (fun e => decide (¬ e.Settled ∧ e.settlingTime ≤ 1))
      by decide +kernel)
  cases parsed.symm.trans parsed'
  obtain ⟨moves, time⟩ := of_decide_eq_true facts
  rw [← same, start] at moves
  refine ⟨pass 1, ?_, moves, ?_⟩
  · rw [← start]
    exact step 0
  · rw [step 1, rest 1 time]

/-- A group that loses an update can stand beside another logical operator, which then gets a group
of its own: the second pass changes the text too. -/
theorem normalize_changes_twice :
    ∃ first second third, normalize "(a AND (x = 5)) OR b" = .ok first ∧
      normalize first = .ok second ∧ normalize second = .ok third ∧ third ≠ second := by
  refine ⟨"( a AND x = 5 ) OR b", "( a AND x ) = 5 OR b", "( a AND x ) = ( 5 OR b )",
    ?_, ?_, ?_, ?_⟩
  all_goals decide +kernel

end Expr

end RuleCodec
