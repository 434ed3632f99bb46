/-
RuleCodec/Proofs/Cursors.lean

The parser as a walk over a list of tokens.

A cursor is a place in a list that is never cut.  It shows a token, and behind
the list the end of the input at position zero.  Moving on gives the token
moved over, which is looked up at the place before the cursor; where there is no
such place the walk breaks off.  The readers of the parser are walks that call
one another, and nothing in a cursor keeps them from doing so forever.

Design.  A walk is given the depth to which calls may nest, and a loop is a call
too.  One that would go deeper is `none`, one that breaks off is `Halt.noToken`,
and one that refuses the tokens has an error.  So what is said here of a walk
that gives a result or refuses is also that its calls nest no deeper than that,
and that it does not break off.
-/
import RuleCodec.Expr.Parser

namespace RuleCodec

/-- A place in a list of tokens. -/
structure Cursor where
  tokens : List Located
  current : Nat

namespace Cursor

/-- The token at the cursor; the end of the input at position zero when there is none. -/
def peek (c : Cursor) : Located :=
  c.tokens[c.current]?.getD ⟨.endOfInput, 0⟩

/-- Whether the list or the input is over. -/
def atEnd (c : Cursor) : Bool :=
  decide (c.tokens.length ≤ c.current) || decide (c.peek.token = .endOfInput)

/-- One place on. -/
def succ (c : Cursor) : Cursor :=
  { c with current := c.current + 1 }

/-- The tokens from the cursor on. -/
def remaining (c : Cursor) : List Located :=
  c.tokens.drop c.current

/-- The second cursor stands at least `least` tokens behind the first, in the same list, and all
tokens between them are there and are not the end of the input. -/
structure Passes (least : Nat) (c c' : Cursor) : Prop where
  tokens : c'.tokens = c.tokens
  le : c.current + least ≤ c'.current
  live : ∀ k, c.current ≤ k → k < c'.current →
    ∃ t, c.tokens[k]? = some t ∧ t.token ≠ .endOfInput

end Cursor

/-! ### Walks -/

/-- Why a walk gives no result. -/
inductive Halt
  /-- The tokens form no expression. -/
  | refused (error : Error)
  /-- The token before the cursor was looked up, and there is none. -/
  | noToken

/-- A computation that moves a cursor; it may refuse, break off or go too deep. -/
abbrev Walk := StateT Cursor (ExceptT Halt Option)

namespace Walk

/-- Ends the walk with a refusal. -/
def refuse {α : Type} (error : Error) : Walk α :=
  throw (.refused error)

/-- Calls nest deeper than they may. -/
def tooDeep {α : Type} : Walk α :=
  fun _ => ExceptT.mk none

/-- The token under the cursor. -/
def peek : Walk Located :=
  return (← get).peek

/-- Whether the cursor is at the end of the input. -/
def atEnd : Walk Bool :=
  return (← get).atEnd

/-- The token before the cursor; at the beginning, the first token. -/
def previous : Walk Located := do
  let c ← get
  match c.tokens[c.current - 1]? with
  | some t => return t
  | none => throw .noToken

/-- Moves on, unless at the end, and gives the token before the cursor. -/
def advance : Walk Located := do
  if !(← atEnd) then modify Cursor.succ
  previous

/-- Moves over one token and gives the expression. -/
def take (e : Expr) : Walk Expr := do
  let _ ← advance
  return e

/-- Moves over the parenthesis that closes the one at position `opened`. -/
def consume (opened : Nat) : Walk Unit := do
  let t ← peek
  if t.token = .rightParen then
    let _ ← advance
    return
  else refuse (.malformed (.unbalanced opened t.token) t.position)

/-- Reads a token that is an expression by itself. -/
def leaf (t : Located) : Walk Expr :=
  match t.token with
  | .number value => take (.number value)
  | .address value => take (.address value)
  | .bytes value => take (.bytes value)
  | .text value => take (.text value)
  | .boolean value => take (.boolean value)
  | .identifier name => take (.identifier name)
  | .globalVariable name =>
    match GlobalVariable.ofName? name with
    | some which => take (.global which)
    | none => refuse (.unresolved ("GV:" ++ name) .globalVariable)
  | other => refuse (.malformed (.expectedOperand other) t.position)

/-- Reads pipes as long as there are any. -/
def pipes : Nat → Expr → Walk Expr
  | 0, _ => tooDeep
  | depth + 1, key => do
    if (← peek).token = .pipe then
      let _ ← advance
      let t ← peek
      match t.token with
      | .trackerRead name =>
        let _ ← advance
        pipes depth (.mapped ⟨name, false⟩ key)
      | .trackerUpdate name =>
        let _ ← advance
        pipes depth (.mapped ⟨name, true⟩ key)
      | other => refuse (.malformed (.expectedTracker other) t.position)
    else return key

mutual

/-- Reads an expression whose bare operators bind at least as tightly as `least`. -/
def expression : Nat → Nat → Walk Expr
  | 0, _ => tooDeep
  | depth + 1, least => do
    let left ← operand depth
    climb depth least left

/-- Reads operators and their right operands as long as they bind tightly enough. -/
def climb : Nat → Nat → Expr → Walk Expr
  | 0, _, _ => tooDeep
  | depth + 1, least, left => do
    match (← peek).token with
    | .operator op =>
      if op.power < least then return left
      else
        let _ ← advance
        let right ← expression depth op.power
        climb depth least (.binary op left right)
    | _ => return left

/-- Reads a negation, or a primary expression and the pipes behind it. -/
def operand : Nat → Walk Expr
  | 0 => tooDeep
  | depth + 1 => do
    if (← peek).token = .not then
      let _ ← advance
      let inner ← expression depth negationPower
      return .not inner
    else
      let key ← primary depth
      pipes depth key

/-- Reads a literal, a name, a reference or a parenthesised expression. -/
def primary : Nat → Walk Expr
  | 0 => tooDeep
  | depth + 1 => do
    let t ← peek
    match t.token with
    | .trackerRead name =>
      let _ ← advance
      keyed depth ⟨name, false⟩
    | .trackerUpdate name =>
      let _ ← advance
      keyed depth ⟨name, true⟩
    | .foreignCall name =>
      let _ ← advance
      call depth name
    | .leftParen =>
      let _ ← advance
      let e ← expression depth 0
      consume t.position
      return e
    | _ => leaf t

/-- Reads the parenthesised key of a tracker, if there is one. -/
def keyed : Nat → TrackerRef → Walk Expr
  | 0, _ => tooDeep
  | depth + 1, ref => do
    if (← peek).token = .leftParen then
      let opened ← advance
      let key ← expression depth 0
      consume opened.position
      return .mapped ref key
    else return .tracker ref

/-- Reads the arguments of a foreign call, if there are any. -/
def call : Nat → String → Walk Expr
  | 0, _ => tooDeep
  | depth + 1, name => do
    if (← peek).token = .leftParen then
      let opened ← advance
      let args ← arguments depth name opened.position []
      return .foreignCall name args
    else return .foreignCall name []

/-- Reads on behind the arguments that were read already, up to and with the closing
parenthesis. -/
def arguments : Nat → String → Nat → List Expr → Walk (List Expr)
  | 0, _, _, _ => tooDeep
  | depth + 1, name, opened, before => do
    if (← peek).token = .rightParen then
      consume opened
      return before
    else if ← atEnd then refuse (.malformed (.unclosedArguments name) opened)
    else
      let one ← expression depth 0
      let t ← peek
      if t.token = .comma then
        let _ ← advance
        arguments depth name opened (before ++ [one])
      else if t.token = .rightParen then arguments depth name opened (before ++ [one])
      else refuse (.malformed (.expectedSeparator t.token) t.position)

end

/-- Gives the expression, if nothing stands behind it. -/
def whole (e : Expr) : Walk Expr := do
  if ← atEnd then return e
  else
    let t ← peek
    refuse (.malformed (.unexpectedToken t.token) t.position)

/-- Reads a whole list. -/
def parse (depth : Nat) : Walk Expr := do
  if ← atEnd then refuse (.malformed .emptyExpression (← peek).position)
  else
    let e ← expression depth 0
    whole e

/-! ### Runs -/

variable {α β : Type} {w : Walk α} {f : α → Walk β} {a : α} {e : Error} {c c' : Cursor}

/-- The walk ends with a value, and the cursor stands elsewhere. -/
def Gives (w : Walk α) (c : Cursor) (a : α) (c' : Cursor) : Prop :=
  (w.run c).run = some (.ok (a, c'))

/-- The walk ends with an error. -/
def Refuses (w : Walk α) (c : Cursor) (e : Error) : Prop :=
  (w.run c).run = some (.error (.refused e))

/-- A walk that gives a value goes on from there. -/
theorem Gives.run_bind (h : w.Gives c a c') : ((w >>= f).run c).run = ((f a).run c').run := by
  rw [StateT.run_bind, ExceptT.run_bind, h]
  rfl

/-- A walk that is refused stays refused. -/
theorem Refuses.bind (h : w.Refuses c e) : (w >>= f).Refuses c e := by
  rw [Refuses, StateT.run_bind, ExceptT.run_bind, h]
  rfl

/-- What a walk comes to, whatever the cursor does. -/
theorem Gives.run' (h : w.Gives c a c') : (w.run' c).run = some (.ok a) := by
  rw [StateT.run'_eq, ExceptT.run_map, h]
  rfl

theorem Refuses.run' (h : w.Refuses c e) : (w.run' c).run = some (.error (.refused e)) := by
  rw [StateT.run'_eq, ExceptT.run_map, h]
  rfl

theorem gives_pure (a : α) (c : Cursor) : (pure a : Walk α).Gives c a c := rfl

theorem gives_peek (c : Cursor) : peek.Gives c c.peek c := rfl

theorem gives_atEnd (c : Cursor) : atEnd.Gives c c.atEnd c := rfl

theorem gives_modify (move : Cursor → Cursor) (c : Cursor) :
    (modify move : Walk Unit).Gives c () (move c) := rfl

/-- The token before the cursor is given, where there is one. -/
theorem gives_previous {t : Located} (h : c.tokens[c.current - 1]? = some t) :
    previous.Gives c t c := by
  have looksUp : (get : Walk Cursor).Gives c c c := rfl
  rw [Gives, previous, looksUp.run_bind, h]
  rfl

end Walk

namespace Cursor

variable {c c' c'' : Cursor} {m n : Nat}

/-- A token other than the end of the input stands in the list. -/
theorem lt_of_peek (live : c.peek.token ≠ .endOfInput) :
    ∃ lt : c.current < c.tokens.length, c.tokens[c.current] = c.peek := by
  by_cases lt : c.current < c.tokens.length
  · exact ⟨lt, by rw [peek, List.getElem?_eq_getElem lt, Option.getD_some]⟩
  · rw [peek, List.getElem?_eq_none (Nat.le_of_not_lt lt)] at live
    exact absurd rfl live

theorem atEnd_iff : c.atEnd ↔ c.peek.token = .endOfInput := by
  rw [atEnd, Bool.or_eq_true, decide_eq_true_eq, decide_eq_true_eq, or_iff_right_of_imp]
  intro past
  rw [peek, List.getElem?_eq_none past, Option.getD_none]

/-- Where there is a token, moving on moves over it. -/
theorem gives_advance (live : c.peek.token ≠ .endOfInput) :
    Walk.advance.Gives c c.peek c.succ := by
  obtain ⟨lt, here⟩ := lt_of_peek live
  have goesOn : c.atEnd = false := Bool.eq_false_iff.2 fun ended => live (atEnd_iff.1 ended)
  have before : c.succ.tokens[c.succ.current - 1]? = some c.peek := by
    show c.tokens[c.current]? = some c.peek
    rw [List.getElem?_eq_getElem lt, here]
  rw [Walk.Gives, Walk.advance, (Walk.gives_atEnd c).run_bind, goesOn, Bool.not_false, if_pos rfl,
    (Walk.gives_modify succ c).run_bind]
  exact Walk.gives_previous before

namespace Passes

theorem refl (c : Cursor) : c.Passes 0 c where
  tokens := rfl
  le := Nat.le_refl _
  live _ le lt := absurd lt (Nat.not_lt.2 le)

/-- A step over a token that is not the end of the input passes one token. -/
theorem succ (live : c.peek.token ≠ .endOfInput) : c.Passes 1 c.succ where
  tokens := rfl
  le := Nat.le_refl _
  live k le lt := by
    obtain ⟨inside, here⟩ := lt_of_peek live
    obtain rfl : k = c.current := Nat.le_antisymm (Nat.le_of_lt_succ lt) le
    exact ⟨c.peek, by rw [List.getElem?_eq_getElem inside, here], live⟩

/-- Passing tokens adds up. -/
theorem trans (h : c.Passes m c') (h' : c'.Passes n c'') : c.Passes (m + n) c'' where
  tokens := h'.tokens.trans h.tokens
  le := by
    have := h.le
    have := h'.le
    omega
  live k le lt := by
    rcases Nat.lt_or_ge k c'.current with before | behind
    · exact h.live k le before
    · rw [← h.tokens]
      exact h'.live k behind lt

end Passes

end Cursor

end RuleCodec
