/-
RuleCodec/Proofs/Progress.lean

Every reader of the parser makes progress, on any list of tokens.

A list need not end with the end of the input, and may hold it anywhere.  The
readers are followed step by step by walks over the list
(`RuleCodec/Proofs/Lockstep.lean`), for two ways of relating a cursor to a
list.  If the list is what remains behind the cursor, then a reader that
succeeds has taken tokens off the front, at least one, and none of them the end
of the input.  If the list only agrees with what remains up to where the input
ends, then the parser answers the same on both, so that what stands behind the
first end of the input has no influence and a missing end is as good as one at
position zero.

The main result is `Expr.ofTokens_progress`.
-/
import RuleCodec.Proofs.Lockstep

namespace RuleCodec

open RuleCodec.Expr (next)

/-! ### What remains behind a cursor -/

namespace Cursor

variable {c c' : Cursor} {n : Nat}

/-- The cursor shows the first token that remains. -/
theorem peek_eq (c : Cursor) : c.peek = next c.remaining := by
  rw [peek, remaining]
  cases rest : c.tokens.drop c.current with
  | nil =>
    rw [List.getElem?_eq_none (List.drop_eq_nil_iff.1 rest)]
    rfl
  | cons t ts =>
    have here := congrArg List.head? rest
    rw [List.head?_drop] at here
    rw [here]
    rfl

theorem remaining_succ (c : Cursor) : c.succ.remaining = c.remaining.tail :=
  (List.tail_drop ..).symm

/-- A cursor that has passed tokens stands in the list or right behind it. -/
theorem Passes.le_length (h : c.Passes n c') (moved : c.current < c'.current) :
    c'.current ≤ c.tokens.length := by
  obtain ⟨t, there, -⟩ := h.live (c'.current - 1) (by omega) (by omega)
  obtain ⟨lt, -⟩ := List.getElem?_eq_some_iff.1 there
  omega

/-- What a cursor has passed is taken off the front of what remains. -/
theorem Passes.taken (h : c.Passes n c') :
    ∃ taken, n ≤ taken.length ∧ c.remaining = taken ++ c'.remaining ∧
      ∀ t ∈ taken, t.token ≠ .endOfInput := by
  have le := h.le
  -- the tokens between the two places of the cursor
  refine ⟨c.remaining.take (c'.current - c.current), ?_, ?_, ?_⟩
  · rw [List.length_take, remaining, List.length_drop]
    rcases Nat.lt_or_ge c.current c'.current with moved | still
    · have := h.le_length moved
      omega
    · omega
  · have behind : c.current + (c'.current - c.current) = c'.current := by omega
    have rest : c'.remaining = c.remaining.drop (c'.current - c.current) := by
      rw [remaining, remaining, List.drop_drop, behind, h.tokens]
    rw [rest, List.take_append_drop]
  · intro t mem
    obtain ⟨k, atIndex⟩ := List.mem_iff_getElem?.1 mem
    rw [List.getElem?_take, remaining, List.getElem?_drop] at atIndex
    split at atIndex
    · obtain ⟨t', there, live⟩ := h.live (c.current + k) (by omega) (by omega)
      cases there.symm.trans atIndex
      exact live
    · cases atIndex

end Cursor

/-! ### Cursors and lists that go on alike -/

/-- A cursor goes in step with its own tokens. -/
theorem lockstep_remaining : Lockstep fun c ts => c.remaining = ts where
  peek := by
    rintro c ts rfl
    exact c.peek_eq
  succ := by
    intro c t ts h live
    rw [c.remaining_succ, h, List.tail_cons]

/-- Two lists agree up to where the input ends in both. -/
def Expr.Alike (ts us : List Located) : Prop :=
  ∃ live ts' us', ts = live ++ ts' ∧ us = live ++ us' ∧ next ts' = next us' ∧
    (next us').token = .endOfInput

/-- A cursor goes in step with tokens that are alike. -/
theorem lockstep_alike : Lockstep fun c ts => Expr.Alike c.remaining ts where
  peek := by
    rintro c ts ⟨live, us, vs, eq, rfl, same, -⟩
    rw [c.peek_eq, eq]
    cases live with
    | nil => exact same
    | cons t live => rfl
  succ := by
    rintro c t ts ⟨live, us, vs, eq, eq', same, ends⟩ notEnd
    cases live with
    | nil =>
      -- the token would be the end of the input
      rw [← show t :: ts = vs from eq'] at ends
      exact absurd ends notEnd
    | cons t' live =>
      obtain ⟨rfl, rfl⟩ := List.cons.inj eq'
      rw [c.remaining_succ, eq]
      exact ⟨live, us, vs, rfl, rfl, same, ends⟩

/-- Cursors and lists come to their ends together. -/
theorem Lockstep.atEnd {R : Cursor → List Located → Prop} (lock : Lockstep R) {c : Cursor}
    {ts : List Located} (h : R c ts) : c.atEnd ↔ (next ts).token = .endOfInput := by
  rw [Cursor.atEnd_iff, lock.peek h]

/-- The walk over a whole list answers as the parser does on a list that goes on alike. -/
theorem Lockstep.parse {R : Cursor → List Located → Prop} (lock : Lockstep R) {c : Cursor}
    {ts : List Located} {depth : Nat} (enough : 4 * ts.length + 2 < depth) (h : R c ts) :
    ((Walk.parse depth).run' c).run = some ((Expr.ofTokens ts).mapError .refused) := by
  by_cases ended : (next ts).token = .endOfInput
  · have refuses : (Walk.parse depth).Refuses c
        (.malformed .emptyExpression (next ts).position) := by
      rw [Walk.Refuses, Walk.parse, (Walk.gives_atEnd c).run_bind, if_pos ((lock.atEnd h).2 ended),
        (Walk.gives_peek c).run_bind, lock.peek h]
      rfl
    rw [refuses.run', Expr.ofTokens, if_pos ended]
    rfl
  · have goesOn : ((Walk.parse depth).run c).run =
        ((Walk.expression depth 0 >>= Walk.whole).run c).run := by
      rw [Walk.parse, (Walk.gives_atEnd c).run_bind,
        if_neg fun atEnd => ended ((lock.atEnd h).1 atEnd)]
    have follows : (Walk.expression depth 0).Follows R 1 c (Expr.expression 0 ts) :=
      lock.expression enough h
    rw [Expr.ofTokens, if_neg ended]
    cases read : Expr.expression 0 ts with
    | error e =>
      rw [read] at follows
      have refuses : (Walk.parse depth).Refuses c e := goesOn.trans (Walk.Refuses.bind follows)
      rw [refuses.run']
      rfl
    | ok all =>
      rw [read] at follows
      obtain ⟨c', gives, related, -⟩ := follows
      rw [gives.run_bind, Walk.whole, (Walk.gives_atEnd c').run_bind] at goesOn
      -- an expression was read: the rest must be over
      by_cases past : (next all.rest).token = .endOfInput
      · rw [if_pos ((lock.atEnd related).2 past)] at goesOn
        have gives : (Walk.parse depth).Gives c all.value c' := goesOn
        rw [gives.run']
        simp only [if_pos past]
        rfl
      · rw [if_neg fun atEnd => past ((lock.atEnd related).1 atEnd),
          (Walk.gives_peek c').run_bind, lock.peek related] at goesOn
        have refuses : (Walk.parse depth).Refuses c
            (.malformed (.unexpectedToken (next all.rest).token) (next all.rest).position) := goesOn
        rw [refuses.run']
        simp only [if_neg past]
        rfl

/-- Only refusals are left, so the errors can be compared. -/
theorem Halt.refused_injective {α : Type} {x y : Except Error α}
    (h : x.mapError Halt.refused = y.mapError Halt.refused) : x = y := by
  cases x with
  | error e =>
    cases y with
    | error e' => cases h; rfl
    | ok b => cases h
  | ok a =>
    cases y with
    | error e' => cases h
    | ok b => cases h; rfl

/-- The tokens behind a cursor at the start are all of them. -/
theorem Cursor.remaining_start (ts : List Located) : (⟨ts, 0⟩ : Cursor).remaining = ts :=
  List.drop_zero

namespace Expr

/-- Where two lists agree up to the end of the input, the parser answers the same. -/
theorem Alike.ofTokens_eq {ts us : List Located} (h : Alike ts us) : ofTokens ts = ofTokens us := by
  have alike : Alike (⟨ts, 0⟩ : Cursor).remaining us := by rwa [Cursor.remaining_start]
  -- deep enough for both lists
  let depth := 4 * (ts.length + us.length) + 3
  have answer := lockstep_remaining.parse (show 4 * ts.length + 2 < depth by omega)
    (Cursor.remaining_start ts)
  rw [lockstep_alike.parse (show 4 * us.length + 2 < depth by omega) alike] at answer
  exact (Halt.refused_injective (Option.some.inj answer)).symm

/-! ### The readers -/

/-- A reader of one expression. -/
inductive Reader
  | expression (least : Nat)
  | operand
  | primary

namespace Reader

/-- The reader on a list, which it takes tokens off. -/
def read : Reader → (ts : List Located) → Except Error (Parsed Located Expr ts.length)
  | expression least => Expr.expression least
  | operand => Expr.operand
  | primary => Expr.primary

/-- The reader as a walk. -/
def walk (depth : Nat) : Reader → Walk Expr
  | expression least => Walk.expression depth least
  | operand => Walk.operand depth
  | primary => Walk.primary depth

/-- Every reader is followed by its walk, as long as the depth is enough. -/
theorem follows (r : Reader) {c : Cursor} {depth : Nat}
    (enough : 4 * c.remaining.length + 2 < depth) :
    (r.walk depth).Follows (fun c ts => c.remaining = ts) 1 c (r.read c.remaining) := by
  cases r with
  | expression least => exact lockstep_remaining.expression enough rfl
  | operand => exact lockstep_remaining.operand (by omega) rfl
  | primary => exact lockstep_remaining.primary (by omega) rfl

/-- A reader that succeeds takes tokens off the front, at least one and none of them the end of
the input. -/
theorem exists_taken {r : Reader} {ts : List Located} {p : Parsed Located Expr ts.length}
    (h : r.read ts = .ok p) :
    ∃ taken, taken ≠ [] ∧ ts = taken ++ p.rest ∧ ∀ t ∈ taken, t.token ≠ .endOfInput := by
  have follows : (r.walk (4 * ts.length + 3)).Follows (fun c ts => c.remaining = ts) 1 ⟨ts, 0⟩
      (r.read ts) := r.follows (Nat.lt_succ_self _)
  rw [h] at follows
  obtain ⟨c', -, rest, passes⟩ := follows
  obtain ⟨taken, some, eq, live⟩ := passes.taken
  rw [rest, Cursor.remaining_start] at eq
  exact ⟨taken, List.length_pos_iff.1 some, eq, live⟩

end Reader

/-- **The parser makes progress on any tokens.**  Called at any place of any list, each reader of an
expression ends as a walk and does what it does on the tokens that remain there; its calls nest no
deeper than a bound that grows with these tokens alone.  Where it succeeds it has passed at least
one token, and neither the end of the input nor the end of the list; these tokens it has taken off
the front of what remained.  The walk over a whole list ends with the parser's answer, error or
not, within the same bound; so it never looks up the token before the cursor in an empty list, where
a walk breaks off.  Tokens behind an end of the input have no influence on the answer, and neither
has an end at position zero behind all tokens. -/
theorem ofTokens_progress :
    (∀ (r : Reader) (c : Cursor) (depth : Nat), 4 * c.remaining.length + 2 < depth →
      (∃ e, (r.walk depth).Refuses c e ∧ r.read c.remaining = .error e) ∨
        ∃ p c', (r.walk depth).Gives c p.value c' ∧ r.read c.remaining = .ok p ∧
          c'.remaining = p.rest ∧ c.Passes 1 c') ∧
    (∀ (r : Reader) (ts : List Located) (p : Parsed Located Expr ts.length), r.read ts = .ok p →
      ∃ taken, taken ≠ [] ∧ ts = taken ++ p.rest ∧ ∀ t ∈ taken, t.token ≠ .endOfInput) ∧
    (∀ (ts : List Located) (depth : Nat), 4 * ts.length + 2 < depth →
      ((Walk.parse depth).run' ⟨ts, 0⟩).run = some ((ofTokens ts).mapError .refused)) ∧
    (∀ current : Nat, (Walk.previous.run' ⟨[], current⟩).run = some (.error .noToken)) ∧
    (∀ (before after : List Located) (position : Nat),
      ofTokens (before ++ ⟨.endOfInput, position⟩ :: after) =
        ofTokens (before ++ [⟨.endOfInput, position⟩])) ∧
    ∀ ts : List Located, ofTokens ts = ofTokens (ts ++ [⟨.endOfInput, 0⟩]) := by
  refine ⟨?_, ?_, ?_, ?_, ?_, ?_⟩
  · intro r c depth enough
    have follows := r.follows enough
    cases read : r.read c.remaining with
    | error e =>
      rw [read] at follows
      exact .inl ⟨e, follows, rfl⟩
    | ok p =>
      rw [read] at follows
      obtain ⟨c', gives, rest, passes⟩ := follows
      exact .inr ⟨p, c', gives, rfl, rest, passes⟩
  · intro r ts p read
    exact Reader.exists_taken read
  · intro ts depth enough
    exact lockstep_remaining.parse enough (Cursor.remaining_start ts)
  · intro current
    rfl
  · intro before after position
    exact Alike.ofTokens_eq ⟨before, _, _, rfl, rfl, rfl, rfl⟩
  · intro ts
    have whole : ts = ts ++ [] := (List.append_nil ts).symm
    exact Alike.ofTokens_eq ⟨ts, [], _, whole, rfl, rfl, rfl⟩

/-- `FC:f(a,)` with a parenthesis behind the end of the input, and `FC:f(a,` with no end. -/
theorem ofTokens_progress_truncated :
    let call : List Located :=
      [⟨.foreignCall "f", 0⟩, ⟨.leftParen, 4⟩, ⟨.identifier "a", 5⟩, ⟨.comma, 6⟩]
    let behind : List Located := [⟨.endOfInput, 8⟩, ⟨.rightParen, 9⟩]
    let ts := call ++ ⟨.rightParen, 7⟩ :: behind
    (∃ p, Reader.primary.read ts = .ok p ∧ p.rest = behind ∧
      ∃ taken, taken ≠ [] ∧ ts = taken ++ p.rest ∧ ∀ t ∈ taken, t.token ≠ .endOfInput) ∧
    ((Walk.parse 19).run' ⟨call, 0⟩).run =
      some (.error (.refused (.malformed (.unclosedArguments "f") 4))) := by
  intro call behind ts
  obtain ⟨-, takes, answers, -⟩ := ofTokens_progress
  obtain ⟨p, read, rest⟩ : ∃ p, Reader.primary.read ts = .ok p ∧ p.rest = behind := by
    simp [ts, call, behind, Reader.read, primary, arguments, expression, operand, pipes, climb,
      separator, closing, next]
  -- the list ends before the call does
  have refused : ofTokens call = .error (.malformed (.unclosedArguments "f") 4) := by cbv
  refine ⟨⟨p, read, rest, takes _ _ _ read⟩, ?_⟩
  rw [answers call 19 (by decide), refused]
  rfl

end Expr

end RuleCodec
