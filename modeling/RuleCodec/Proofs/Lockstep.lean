/-
RuleCodec/Proofs/Lockstep.lean

Walking a list of tokens and reading it off the front come to the same.

Design.  Which cursor stands for which list is left open: a `Lockstep` relation
only has to show the same token on both sides, and to still do so behind a
token that is not the end of the input.  `Walk.Follows` says of a walk that it
ends as a reader does, with the same error or the same value, and where it
succeeds how many tokens it has passed.  It has one rule for each operation a
walk is made of, and `Walk.Follows.bind` adds up the tokens passed.

The induction is on the depth to which calls may nest.  Four times the number
of tokens left, and three more, is enough of it: the readers call each other
at most three times before one of them has passed a token.
-/
import RuleCodec.Proofs.Cursors
import RuleCodec.Proofs.Readers

namespace RuleCodec

open RuleCodec.Expr (next)

/-- Cursors and lists that go on alike: they show the same token, and behind a token that is not
the end of the input they still do. -/
structure Lockstep (R : Cursor → List Located → Prop) : Prop where
  peek : ∀ {c ts}, R c ts → c.peek = next ts
  succ : ∀ {c t ts}, R c (t :: ts) → t.token ≠ .endOfInput → R c.succ ts

/-- What was read and what is left, without the bound. -/
def Parsed.view {α : Type} {n : Nat} (p : Parsed Located α n) : α × List Located :=
  (p.value, p.rest)

/-- Arguments that were read, behind others that were read already. -/
def Parsed.behind {n : Nat} (before : List Expr) (p : Parsed Located (List Expr) n) :
    Parsed Located (List Expr) n :=
  ⟨before ++ p.value, p.rest, p.short⟩

/-- A walk does what a reader does: it refuses with the same error, or gives the same value, past
at least `least` tokens, with the cursor where the reader's rest is. -/
def Walk.Follows (R : Cursor → List Located → Prop) (least : Nat) {α : Type} {n : Nat}
    (w : Walk α) (c : Cursor) : Except Error (Parsed Located α n) → Prop
  | .error e => w.Refuses c e
  | .ok p => ∃ c', w.Gives c p.value c' ∧ R c' p.rest ∧ c.Passes least c'

namespace Walk.Follows

variable {R : Cursor → List Located → Prop} {α β : Type} {i j m n : Nat} {c c' : Cursor}
  {w : Walk α} {f : α → Walk β} {a : α}
  {read : Except Error (Parsed Located α n)} {whole : Except Error (Parsed Located β m)}

/-- A walk that has the same runs follows the same reader. -/
theorem of_run {w' : Walk α} (same : (w.run c).run = (w'.run c').run) (passes : c.Passes i c')
    (h : w'.Follows R j c' read) : w.Follows R (j + i) c read := by
  cases read with
  | error e => exact same.trans h
  | ok p =>
    obtain ⟨d, gives, related, passes'⟩ := h
    refine ⟨d, same.trans gives, related, ?_⟩
    rw [Nat.add_comm]
    exact passes.trans passes'

theorem pure {ts : List Located} {short : ts.length < n} (h : R c ts) :
    (Pure.pure a : Walk α).Follows R 0 c (.ok ⟨a, ts, short⟩) :=
  ⟨c, gives_pure a c, h, .refl c⟩

theorem peek {f : Located → Walk β} (h : (f c.peek).Follows R j c whole) :
    (Walk.peek >>= f).Follows R j c whole :=
  of_run (gives_peek c).run_bind (.refl c) h

theorem atEnd {f : Bool → Walk β} (h : (f c.atEnd).Follows R j c whole) :
    (Walk.atEnd >>= f).Follows R j c whole :=
  of_run (gives_atEnd c).run_bind (.refl c) h

/-- The cursor moves over a token that is not the end of the input. -/
theorem advance (lock : Lockstep R) {f : Located → Walk β} {t : Located} {ts : List Located}
    (h : R c (t :: ts)) (live : t.token ≠ .endOfInput)
    (goesOn : R c.succ ts → (f t).Follows R j c.succ whole) :
    (Walk.advance >>= f).Follows R (j + 1) c whole := by
  have shown : c.peek = t := lock.peek h
  subst shown
  exact of_run (Cursor.gives_advance live).run_bind (.succ live) (goesOn (lock.succ h live))

/-- A reader is followed by what follows it. -/
theorem bind (h : w.Follows R i c read) (fails : ∀ e, read = .error e → whole = .error e)
    (goesOn : ∀ p c', read = .ok p → R c' p.rest → (f p.value).Follows R j c' whole) :
    (w >>= f).Follows R (j + i) c whole := by
  cases read with
  | error e =>
    rw [fails e rfl]
    exact Refuses.bind h
  | ok p =>
    obtain ⟨d, gives, related, passes⟩ := h
    exact of_run gives.run_bind passes (goesOn p d rfl related)

/-- Only the value and the rest of what was read count. -/
theorem congr {read' : Except Error (Parsed Located α m)} (h : w.Follows R i c read)
    (same : read'.map Parsed.view = read.map Parsed.view) : w.Follows R i c read' := by
  cases read with
  | error e =>
    cases read' with
    | error e' => cases same; exact h
    | ok p' => cases same
  | ok p =>
    cases read' with
    | error e' => cases same
    | ok p' =>
      obtain ⟨d, gives, related, passes⟩ := h
      obtain ⟨value, rest⟩ := Prod.mk.inj (Except.ok.inj same)
      exact ⟨d, value ▸ gives, rest ▸ related, passes⟩

/-- Passing more tokens is enough where fewer are asked for. -/
theorem mono (h : w.Follows R i c read) (le : j ≤ i) : w.Follows R j c read := by
  cases read with
  | error e => exact h
  | ok p =>
    obtain ⟨d, gives, related, passes⟩ := h
    exact ⟨d, gives, related, passes.tokens, by have := passes.le; omega, passes.live⟩

end Walk.Follows

/-- A token that is not the end of the input is there. -/
theorem Expr.exists_cons_of_next {ts : List Located} {k : Token} (h : (next ts).token = k)
    (live : k ≠ .endOfInput) :
    ∃ position rest, ts = ⟨k, position⟩ :: rest ∧ ts.length = rest.length + 1 := by
  cases ts with
  | nil => exact absurd h.symm live
  | cons t rest =>
    obtain ⟨token, position⟩ := t
    exact ⟨position, rest, by rw [← h]; rfl, rfl⟩

namespace Lockstep

variable {R : Cursor → List Located → Prop}

/-! ### Single tokens -/

/-- A token that stands for an expression by itself is taken. -/
theorem take (lock : Lockstep R) {c : Cursor} {t : Located} {ts : List Located} {e : Expr}
    {n : Nat} {short : ts.length < n} (h : R c (t :: ts)) (live : t.token ≠ .endOfInput) :
    (Walk.take e).Follows R 1 c (.ok ⟨e, ts, short⟩) := by
  rw [Walk.take]
  exact .advance lock h live fun related => .pure related

/-- A closing parenthesis is passed, or missed with the same error. -/
theorem consume (lock : Lockstep R) {c : Cursor} {ts : List Located} {opened : Nat} (h : R c ts) :
    (Walk.consume opened).Follows R 1 c (Expr.closing opened ts) := by
  rw [Walk.consume]
  refine .peek ?_
  rw [lock.peek h]
  split
  · rename_i closes
    obtain ⟨position, rest, rfl, -⟩ := Expr.exists_cons_of_next closes (by simp)
    rw [Expr.closing]
    exact .advance lock h (by simp) fun related => .pure related
  · rename_i other
    rw [Expr.closing]
    · rfl
    · rintro position rest rfl
      exact other rfl

/-- Leaves are read in lockstep, and so is the lack of an operand. -/
theorem leaf (lock : Lockstep R) {c : Cursor} {ts : List Located} (h : R c ts)
    (noRead : ∀ name, (next ts).token ≠ .trackerRead name)
    (noUpdate : ∀ name, (next ts).token ≠ .trackerUpdate name)
    (noCall : ∀ name, (next ts).token ≠ .foreignCall name)
    (noParen : (next ts).token ≠ .leftParen) :
    (Walk.leaf (next ts)).Follows R 1 c (Expr.primary ts) := by
  cases ts with
  | nil =>
    simp only [Expr.primary]
    rfl
  | cons t rest =>
    obtain ⟨token, position⟩ := t
    -- the tokens that are more than a leaf are excluded; those that begin nothing fail alike
    cases token with
    | globalVariable name =>
      rw [Expr.primary, Walk.leaf]
      simp only [next]
      cases GlobalVariable.ofName? name with
      | none => rfl
      | some which => exact lock.take h (by simp)
    | trackerRead name => exact absurd rfl (noRead name)
    | trackerUpdate name => exact absurd rfl (noUpdate name)
    | foreignCall name => exact absurd rfl (noCall name)
    | leftParen => exact absurd rfl noParen
    | number | address | bytes | text | boolean | identifier =>
      rw [Expr.primary]
      exact lock.take h (by simp)
    | _ =>
      simp only [Expr.primary]
      rfl

/-- Arguments end where a parenthesis closes. -/
theorem closed (lock : Lockstep R) {c : Cursor} {position : Nat} {rest : List Located}
    {name : String} {depth opened n : Nat} {short : rest.length < n} (before : List Expr)
    (h : R c (⟨.rightParen, position⟩ :: rest)) :
    (Walk.arguments (depth + 1) name opened before).Follows R 1 c (.ok ⟨before, rest, short⟩) := by
  rw [Walk.arguments]
  refine .peek ?_
  rw [lock.peek h, next, if_pos rfl]
  refine (lock.consume h).bind ?_ ?_
  · intro e failed
    rw [Expr.closing] at failed
    cases failed
  · intro close c' read related
    rw [Expr.closing] at read
    cases read
    exact .pure related

/-! ### Pipes -/

/-- Keys that are piped are read in lockstep. -/
theorem pipes (lock : Lockstep R) {c : Cursor} {ts : List Located} {key : Expr} {depth : Nat}
    (enough : ts.length < depth) (h : R c ts) :
    (Walk.pipes depth key).Follows R 0 c (Expr.pipes key ts) := by
  obtain ⟨depth, rfl⟩ := Nat.exists_eq_add_one.2 (Nat.zero_lt_of_lt enough)
  rw [Walk.pipes]
  refine .peek ?_
  rw [lock.peek h]
  split
  · rename_i piped
    obtain ⟨p, rest, eq, shorter⟩ := Expr.exists_cons_of_next piped (by simp)
    rw [eq] at h ⊢
    -- the pipe is passed, which is more than was asked for
    refine Walk.Follows.mono ?_ (Nat.zero_le 1)
    refine .advance lock h (by simp) fun related => .peek ?_
    rw [lock.peek related]
    split
    · rename_i name tracker
      obtain ⟨q, tail, eq, shorter'⟩ := Expr.exists_cons_of_next tracker (by simp)
      rw [eq] at related ⊢
      rw [Expr.pipes]
      refine Walk.Follows.mono ?_ (Nat.zero_le 1)
      refine .advance lock related (by simp) fun related => ?_
      refine (lock.pipes (by omega) related).congr ?_
      cases Expr.pipes (.mapped ⟨name, false⟩ key) tail <;> rfl
    · rename_i name tracker
      obtain ⟨q, tail, eq, shorter'⟩ := Expr.exists_cons_of_next tracker (by simp)
      rw [eq] at related ⊢
      rw [Expr.pipes]
      refine Walk.Follows.mono ?_ (Nat.zero_le 1)
      refine .advance lock related (by simp) fun related => ?_
      refine (lock.pipes (by omega) related).congr ?_
      cases Expr.pipes (.mapped ⟨name, true⟩ key) tail <;> rfl
    · -- a pipe must lead into a tracker
      rename_i noRead noUpdate
      rw [Expr.pipes]
      · rfl
      · rintro name position tail rfl
        exact noRead name rfl
      · rintro name position tail rfl
        exact noUpdate name rfl
  · rename_i other
    rw [Expr.pipes.eq_def]
    split
    · exact absurd rfl other
    · exact absurd rfl other
    · exact absurd rfl other
    · exact .pure h
termination_by depth

/-! ### Expressions -/

mutual

/-- Expressions are read in lockstep, as long as the depth is enough for the tokens. -/
theorem expression (lock : Lockstep R) {c : Cursor} {ts : List Located} {depth least : Nat}
    (enough : 4 * ts.length + 2 < depth) (h : R c ts) :
    (Walk.expression depth least).Follows R 1 c (Expr.expression least ts) := by
  obtain ⟨depth, rfl⟩ := Nat.exists_eq_add_one.2 (Nat.zero_lt_of_lt enough)
  rw [Walk.expression, Expr.expression]
  refine (lock.operand (by omega) h).bind ?_ ?_
  · intro e failed
    rw [failed]
  · intro left c' read related
    have := left.short
    simp only [read]
    refine (lock.climb (by omega) related).congr ?_
    cases Expr.climb least left.value left.rest <;> rfl
termination_by depth

/-- What follows an operand is read in lockstep. -/
theorem climb (lock : Lockstep R) {c : Cursor} {ts : List Located} {depth least : Nat}
    {left : Expr} (enough : 4 * ts.length < depth) (h : R c ts) :
    (Walk.climb depth least left).Follows R 0 c (Expr.climb least left ts) := by
  obtain ⟨depth, rfl⟩ := Nat.exists_eq_add_one.2 (Nat.zero_lt_of_lt enough)
  rw [Walk.climb]
  refine .peek ?_
  rw [lock.peek h]
  split
  · rename_i op operator
    -- an operator follows, which binds too loosely here or is taken with what is on its right
    obtain ⟨position, rest, eq, shorter⟩ := Expr.exists_cons_of_next operator (by simp)
    rw [eq] at h ⊢
    rw [Expr.climb]
    split
    · rename_i loose
      rw [if_neg (Nat.not_le.2 loose)]
      exact .pure h
    · rename_i tight
      rw [if_pos (Nat.le_of_not_lt tight)]
      refine Walk.Follows.mono ?_ (Nat.zero_le 2)
      refine .advance lock h (by simp) fun related => ?_
      refine (lock.expression (by omega) related).bind ?_ ?_
      · intro e failed
        rw [failed]
      · intro right c' read related
        have := right.short
        simp only [read]
        refine (lock.climb (by omega) related).congr ?_
        cases Expr.climb least (.binary op left right.value) right.rest <;> rfl
  · rename_i other
    rw [Expr.climb.eq_def]
    split
    · exact absurd rfl (other _)
    · exact .pure h
termination_by depth

/-- Operands are read in lockstep. -/
theorem operand (lock : Lockstep R) {c : Cursor} {ts : List Located} {depth : Nat}
    (enough : 4 * ts.length + 1 < depth) (h : R c ts) :
    (Walk.operand depth).Follows R 1 c (Expr.operand ts) := by
  obtain ⟨depth, rfl⟩ := Nat.exists_eq_add_one.2 (Nat.zero_lt_of_lt enough)
  rw [Walk.operand]
  refine .peek ?_
  rw [lock.peek h]
  split
  · rename_i negated
    obtain ⟨position, rest, eq, shorter⟩ := Expr.exists_cons_of_next negated (by simp)
    rw [eq] at h ⊢
    rw [Expr.operand]
    refine Walk.Follows.mono ?_ (Nat.le_succ 1)
    refine .advance lock h (by simp) fun related => ?_
    refine (lock.expression (by omega) related).bind ?_ ?_
    · intro e failed
      rw [failed]
    · intro inner c' read related
      rw [read]
      exact .pure related
  -- no `NOT`: a primary, which may be piped
  · rename_i other
    rw [Expr.operand]
    · refine (lock.primary (by omega) h).bind ?_ ?_
      · intro e failed
        rw [failed]
      · intro key c' read related
        have := key.short
        simp only [read]
        refine (lock.pipes (by omega) related).congr ?_
        cases Expr.pipes key.value key.rest <;> rfl
    · rintro position rest rfl
      exact other rfl
termination_by depth

/-- Primaries are read in lockstep: the next token tells which it is. -/
theorem primary (lock : Lockstep R) {c : Cursor} {ts : List Located} {depth : Nat}
    (enough : 4 * ts.length < depth) (h : R c ts) :
    (Walk.primary depth).Follows R 1 c (Expr.primary ts) := by
  obtain ⟨depth, rfl⟩ := Nat.exists_eq_add_one.2 (Nat.zero_lt_of_lt enough)
  rw [Walk.primary]
  refine .peek ?_
  rw [lock.peek h]
  split
  · -- a tracker that is read
    rename_i name tracker
    obtain ⟨position, rest, eq, shorter⟩ := Expr.exists_cons_of_next tracker (by simp)
    rw [eq] at h ⊢
    rw [Expr.primary]
    refine .advance lock h (by simp) fun related => ?_
    refine (lock.keyed (by omega) related).congr ?_
    cases Expr.keyed ⟨name, false⟩ rest <;> rfl
  · -- a tracker that is updated
    rename_i name tracker
    obtain ⟨position, rest, eq, shorter⟩ := Expr.exists_cons_of_next tracker (by simp)
    rw [eq] at h ⊢
    rw [Expr.primary]
    refine .advance lock h (by simp) fun related => ?_
    refine (lock.keyed (by omega) related).congr ?_
    cases Expr.keyed ⟨name, true⟩ rest <;> rfl
  · -- a foreign call
    rename_i name foreign
    obtain ⟨position, rest, eq, shorter⟩ := Expr.exists_cons_of_next foreign (by simp)
    rw [eq] at h ⊢
    refine .advance lock h (by simp) fun related => ?_
    obtain ⟨depth, rfl⟩ : ∃ k, depth = k + 1 := Nat.exists_eq_add_one.2 (by omega)
    rw [Walk.call]
    refine .peek ?_
    rw [lock.peek related]
    split
    · rename_i opens
      obtain ⟨opened, tail, eq, shorter'⟩ := Expr.exists_cons_of_next opens (by simp)
      rw [eq] at related ⊢
      rw [Expr.primary]
      refine Walk.Follows.mono ?_ (Nat.zero_le 2)
      refine .advance lock related (by simp) fun related => ?_
      have inner : (Walk.arguments depth name opened []).Follows R 1 c.succ.succ
          (Expr.arguments name opened tail) := by
        refine (lock.arguments [] (by omega) related).congr ?_
        cases Expr.arguments name opened tail <;> rfl
      refine inner.bind ?_ ?_
      · intro e failed
        rw [failed]
      · intro args c' read related
        rw [read]
        exact .pure related
    · rename_i other
      rw [Expr.primary]
      · exact .pure related
      · rintro opened tail rfl
        exact other rfl
  · -- an expression in parentheses
    rename_i opens
    obtain ⟨position, rest, eq, shorter⟩ := Expr.exists_cons_of_next opens (by simp)
    rw [eq] at h ⊢
    rw [Expr.primary, next]
    refine Walk.Follows.mono ?_ (Nat.le_add_left 1 2)
    refine .advance lock h (by simp) fun related => ?_
    refine (lock.expression (by omega) related).bind ?_ ?_
    · intro e failed
      rw [failed]
    · intro inner c' read related
      simp only [read]
      refine (lock.consume related).bind ?_ ?_
      · intro e failed
        rw [failed]
      · intro close c' read related
        rw [read]
        exact .pure related
  · -- a token by itself, or none that an expression begins with
    rename_i noRead noUpdate noCall noParen
    exact lock.leaf h noRead noUpdate noCall noParen
termination_by depth

/-- Keys in parentheses are read in lockstep. -/
theorem keyed (lock : Lockstep R) {c : Cursor} {ts : List Located} {ref : TrackerRef}
    {depth : Nat} (enough : 4 * ts.length < depth) (h : R c ts) :
    (Walk.keyed depth ref).Follows R 0 c (Expr.keyed ref ts) := by
  obtain ⟨depth, rfl⟩ := Nat.exists_eq_add_one.2 (Nat.zero_lt_of_lt enough)
  rw [Walk.keyed]
  refine .peek ?_
  rw [lock.peek h]
  split
  · -- a key in parentheses
    rename_i opens
    obtain ⟨opened, rest, eq, shorter⟩ := Expr.exists_cons_of_next opens (by simp)
    rw [eq] at h ⊢
    rw [Expr.keyed]
    refine Walk.Follows.mono ?_ (Nat.zero_le 3)
    refine .advance lock h (by simp) fun related => ?_
    refine (lock.expression (by omega) related).bind ?_ ?_
    · intro e failed
      rw [failed]
    · intro key c' read related
      simp only [read]
      refine (lock.consume related).bind ?_ ?_
      · intro e failed
        rw [failed]
      · intro close c' read related
        rw [read]
        exact .pure related
  · -- no key: nothing is passed
    rename_i other
    rw [Expr.keyed]
    · exact .pure h
    · rintro opened rest rfl
      exact other rfl
termination_by depth

/-- Arguments are read in lockstep, behind those that were read before. -/
theorem arguments (lock : Lockstep R) {c : Cursor} {ts : List Located} {name : String}
    {depth opened : Nat} (before : List Expr) (enough : 4 * ts.length + 3 < depth) (h : R c ts) :
    (Walk.arguments depth name opened before).Follows R 1 c
      ((Expr.arguments name opened ts).map (Parsed.behind before)) := by
  obtain ⟨depth, rfl⟩ := Nat.exists_eq_add_one.2 (Nat.zero_lt_of_lt enough)
  rw [Expr.arguments]
  split
  · rename_i ended
    rw [Walk.arguments]
    refine .peek ?_
    rw [lock.peek h, ended, if_neg (by simp)]
    refine .atEnd ?_
    rw [if_pos (Cursor.atEnd_iff.2 (by rw [lock.peek h, ended]))]
    rfl
  · rename_i closes
    obtain ⟨position, rest, eq, -⟩ := Expr.exists_cons_of_next closes (by simp)
    have closing : Expr.Reads (Expr.closing opened ts) () rest :=
      Expr.reads_closing.2 ⟨position, eq⟩
    obtain ⟨close, read, -, rfl⟩ := closing
    rw [eq] at h
    simp only [read, Except.map, Parsed.behind, List.append_nil]
    exact lock.closed before h
  -- neither closed nor over: one more argument, and then a comma or the parenthesis
  · rename_i live noParen
    have goesOn : ¬ c.atEnd := by
      rw [Cursor.atEnd_iff, lock.peek h]
      exact live
    rw [Walk.arguments]
    refine .peek ?_
    rw [lock.peek h, if_neg noParen]
    refine .atEnd ?_
    rw [if_neg goesOn]
    refine (lock.expression (by omega) h).bind ?_ ?_
    · intro e failed
      rw [failed]
      rfl
    · intro one c' read related
      have := one.short
      simp only [read]
      refine .peek ?_
      rw [lock.peek related]
      split
      · -- a comma, behind which the arguments go on
        rename_i comma
        obtain ⟨position, rest, eq, -⟩ := Expr.exists_cons_of_next comma (by simp)
        obtain ⟨behind, separated, more, rfl⟩ :=
          Expr.reads_separator.2 ⟨position, .inl ⟨rfl, eq⟩⟩
        have := behind.short
        simp only [separated, more, if_true]
        rw [eq] at related
        refine Walk.Follows.mono ?_ (Nat.zero_le 2)
        refine .advance lock related (by simp) fun related => ?_
        refine (lock.arguments (before ++ [one.value]) (by omega) related).congr ?_
        cases Expr.arguments name opened behind.rest with
        | error e => rfl
        | ok others =>
          simp only [Except.map, Parsed.behind, Parsed.view, List.append_assoc, List.cons_append,
            List.nil_append]
      · split
        · -- the closing parenthesis, which is looked at once more
          rename_i closes
          obtain ⟨position, rest, eq, -⟩ := Expr.exists_cons_of_next closes (by simp)
          obtain ⟨behind, separated, more, rfl⟩ :=
            Expr.reads_separator.2 ⟨position, .inr ⟨rfl, eq⟩⟩
          rw [eq] at related
          simp only [separated, more, if_false, Bool.false_eq_true]
          obtain ⟨depth, rfl⟩ : ∃ k, depth = k + 1 := Nat.exists_eq_add_one.2 (by omega)
          exact (lock.closed (before ++ [one.value]) related).mono (Nat.zero_le 1)
        · rename_i noComma noParen
          rw [Expr.separator]
          · rfl
          · intro position rest eq
            exact noComma (by rw [eq]; rfl)
          · intro position rest eq
            exact noParen (by rw [eq]; rfl)
termination_by depth

end

end Lockstep

end RuleCodec
