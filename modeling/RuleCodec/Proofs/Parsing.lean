/-
RuleCodec/Proofs/Parsing.lean

The parser reads exactly the phrases of the grammar.

Soundness follows the readers: each of them, run on tokens, has a phrase
behind it.  The point that carries the induction is `Phrase.FitsBefore`: what
has been read so far may stand as the left operand of the operator that comes
next.  Climbing keeps it, because the right operand it has just read stopped
at that operator.

Completeness follows the phrases.  A phrase that may stand before `rest` is
read off the front of the tokens by climbing on from its expression, so that
a left operand needs no lookahead into how its right neighbour is grouped.

The main result is `Expr.ofTokens_eq_ok_iff`.
-/
import RuleCodec.Proofs.Readers

namespace RuleCodec

open RuleCodec.Expr

/-- The tokens of located tokens. -/
def tokens (ts : List Located) : List Token :=
  ts.map Located.token

@[simp] theorem tokens_nil : tokens [] = [] := rfl

@[simp] theorem tokens_cons (t : Located) (ts : List Located) :
    tokens (t :: ts) = t.token :: tokens ts := rfl

@[simp] theorem tokens_append (ts us : List Located) :
    tokens (ts ++ us) = tokens ts ++ tokens us :=
  List.map_append

/-! ### Soundness -/

/-- A phrase may stand before these tokens: an operator that comes next
leaves it whole. -/
def Phrase.FitsBefore (t : Phrase) (rest : List Located) : Prop :=
  ∀ power ∈ nextPower? rest,
    t.Above power ∧ (comparisonPower ≤ power → ¬ t.EndsInNot)

/-- A phrase for an expression read off the front of `ts`, up to `rest`. -/
structure Phrase.Spells (t : Phrase) (e : Expr) (ts rest : List Located) : Prop where
  grouped : t.WellGrouped
  erases : t.erase = e
  yields : tokens ts = t.yield ++ tokens rest
  fits : t.FitsBefore rest

/-- The same for a primary phrase, which fits before anything. -/
structure Primary.Spells (p : Primary) (e : Expr) (ts rest : List Located) : Prop where
  grouped : p.WellGrouped
  erases : p.erase = e
  yields : tokens ts = p.yield ++ tokens rest

/-- What a primary spells, it spells as a phrase. -/
theorem Primary.Spells.phrase {p : Primary} {e : Expr} {ts rest : List Located}
    (h : p.Spells e ts rest) : (Phrase.primary p).Spells e ts rest where
  grouped := by rw [Phrase.WellGrouped]; exact h.grouped
  erases := by rw [Phrase.erase]; exact h.erases
  yields := by rw [Phrase.yield]; exact h.yields
  fits := fun _ _ => ⟨trivial, fun _ => id⟩

/-- A phrase, an operator it fits before, and a phrase that stopped in time
make a binary phrase. -/
theorem Phrase.Spells.binary {l r : Phrase} {left right : Expr} {op : BinaryOp} {position : Nat}
    {ts tail mid : List Located}
    (hl : l.Spells left ts (⟨.operator op, position⟩ :: tail)) (hr : r.Spells right tail mid)
    (tight : r.AtLeast op.power) (stops : ∀ power ∈ nextPower? mid, power < op.power) :
    (Phrase.binary op l r).Spells (.binary op left right) ts mid where
  grouped := by
    obtain ⟨above, noNot⟩ := hl.fits op.power rfl
    rw [Phrase.WellGrouped]
    exact ⟨hl.grouped, hr.grouped, above, tight, noNot⟩
  erases := by rw [Phrase.erase, hl.erases, hr.erases]
  yields := by
    rw [hl.yields, tokens_cons, hr.yields, Phrase.yield, List.append_assoc, List.cons_append]
  fits := fun power next => ⟨stops power next, (hr.fits power next).2⟩

/-- A negation spells the negated expression if its operand binds tightly enough and ends there. -/
theorem Phrase.Spells.not {t : Phrase} {e : Expr} {position : Nat} {tail rest : List Located}
    (h : t.Spells e tail rest) (tight : t.AtLeast negationPower)
    (stops : ∀ power ∈ nextPower? rest, power < negationPower) :
    (Phrase.not t).Spells (.not e) (⟨.not, position⟩ :: tail) rest where
  grouped := by
    rw [Phrase.WellGrouped]
    exact ⟨h.grouped, Phrase.atLeast_negationPower_iff.1 tight⟩
  erases := by rw [Phrase.erase, h.erases]
  yields := by rw [tokens_cons, h.yields, Phrase.yield, List.cons_append]
  fits := by
    intro power next
    refine ⟨trivial, fun le => ?_⟩
    have := stops power next
    simp only [comparisonPower, negationPower] at le this
    omega

/-- What is read from pipes is spelled by a piped primary. -/
theorem pipes_sound {p : Primary} {key e : Expr} {start ts rest : List Located}
    (h : Reads (pipes key ts) e rest) (hp : p.Spells key start ts) :
    ∃ p' : Primary, p'.Spells e start rest := by
  rcases reads_pipes.1 h with ⟨ref, a, b, tail, rfl, run⟩ | ⟨-, rfl, rfl⟩
  · refine pipes_sound run (p := .piped p ref) ⟨?_, ?_, ?_⟩
    · rw [Primary.WellGrouped]; exact hp.grouped
    · rw [Primary.erase, hp.erases]
    · rw [hp.yields, Primary.yield]; simp
  · exact ⟨p, hp⟩
termination_by ts.length

mutual

/-- What is read as an expression is spelled by a phrase that binds as tightly as asked, and no
operator that does follows. -/
theorem expression_sound {least : Nat} {ts rest : List Located} {e : Expr}
    (h : Reads (expression least ts) e rest) :
    ∃ t : Phrase, t.Spells e ts rest ∧ t.AtLeast least ∧
      ∀ power ∈ nextPower? rest, power < least := by
  obtain ⟨left, mid, run, climbs⟩ := reads_expression.1 h
  have shorter := run.length_lt
  obtain ⟨l, spells, above⟩ := operand_sound run
  exact climb_sound climbs spells (above least).atLeast
termination_by 4 * ts.length + 2

/-- What is read behind an operand is spelled by a phrase that has the operand on its left. -/
theorem climb_sound {least : Nat} {start ts rest : List Located} {left e : Expr} {l : Phrase}
    (h : Reads (climb least left ts) e rest) (spells : l.Spells left start ts)
    (tight : l.AtLeast least) :
    ∃ t : Phrase, t.Spells e start rest ∧ t.AtLeast least ∧
      ∀ power ∈ nextPower? rest, power < least := by
  rcases reads_climb.1 h with ⟨op, p, tail, right, mid, eq, le, run, more⟩ | ⟨stops, rfl, rfl⟩
  · -- the operator is taken: what it joins is read on from there
    have shorter := congrArg List.length eq
    have shorter' := run.length_lt
    obtain ⟨r, spells', tight', stops⟩ := expression_sound run
    have joined : (Phrase.binary op l r).Spells (.binary op left right) start mid :=
      (eq ▸ spells).binary spells' tight' stops
    exact climb_sound more joined le
  · exact ⟨l, spells, tight, stops⟩
termination_by 4 * ts.length
decreasing_by all_goals simp only [List.length_cons] at shorter; omega

/-- What is read as an operand is spelled by a phrase without an open operator. -/
theorem operand_sound {ts rest : List Located} {e : Expr} (h : Reads (operand ts) e rest) :
    ∃ t : Phrase, t.Spells e ts rest ∧ ∀ power, t.Above power := by
  rcases reads_operand.1 h with ⟨p, tail, inner, eq, run, rfl⟩ | ⟨key, mid, run, more⟩
  · have shorter := congrArg List.length eq
    obtain ⟨t, spells, tight, stops⟩ := expression_sound run
    exact ⟨.not t, eq ▸ spells.not tight stops, fun _ => trivial⟩
  · obtain ⟨p, spells⟩ := primary_sound run
    obtain ⟨p', spells'⟩ := pipes_sound more spells
    exact ⟨.primary p', spells'.phrase, fun _ => trivial⟩
termination_by 4 * ts.length + 1
decreasing_by
  · simp only [List.length_cons] at shorter; omega
  · omega

/-- What is read as a primary is spelled by one. -/
theorem primary_sound {ts rest : List Located} {e : Expr} (h : Reads (primary ts) e rest) :
    ∃ p : Primary, p.Spells e ts rest := by
  rcases reads_primary.1 h with ⟨l, p, rfl, rfl⟩ | ⟨ref, p, tail, eq, run⟩ |
    ⟨name, p, q, tail, args, eq, run, rfl⟩ | ⟨name, p, rfl, -, rfl⟩ | ⟨p, q, tail, eq, run⟩
  · exact ⟨.leaf l, trivial, rfl, rfl⟩
  · -- a tracker, which may have a key
    have shorter := congrArg List.length eq
    exact eq ▸ keyed_sound run
  · -- a call with arguments
    have shorter := congrArg List.length eq
    obtain ⟨a, grouped, erases, yields⟩ := arguments_sound run
    refine ⟨.callWith name a, grouped, ?_, ?_⟩
    · rw [Primary.erase, erases]
    · simp [Primary.yield, yields, eq]
  · exact ⟨.call name, trivial, rfl, rfl⟩
  · -- parentheses
    have shorter := congrArg List.length eq
    obtain ⟨t, spells, -⟩ := expression_sound run
    refine ⟨.paren t, spells.grouped, ?_, ?_⟩
    · rw [Primary.erase, spells.erases]
    · simp [Primary.yield, spells.yields, eq]
termination_by 4 * ts.length
decreasing_by all_goals simp only [List.length_cons] at shorter; omega

/-- What is read behind a tracker is spelled by the tracker, with its key or without. -/
theorem keyed_sound {position : Nat} {ref : TrackerRef} {ts rest : List Located} {e : Expr}
    (h : Reads (keyed ref ts) e rest) :
    ∃ p : Primary, p.Spells e (⟨ref.token, position⟩ :: ts) rest := by
  rcases reads_keyed.1 h with ⟨p, q, tail, key, eq, run, rfl⟩ | ⟨-, rfl, rfl⟩
  · have shorter := congrArg List.length eq
    obtain ⟨t, spells, -⟩ := expression_sound run
    refine ⟨.keyed ref t, spells.grouped, ?_, ?_⟩
    · rw [Primary.erase, spells.erases]
    · simp [Primary.yield, spells.yields, eq]
  · exact ⟨.tracker ref, trivial, rfl, rfl⟩
termination_by 4 * ts.length
decreasing_by simp only [List.length_cons] at shorter; omega

/-- The closing parenthesis is read with the arguments but is not among
them. -/
theorem arguments_sound {name : String} {opened : Nat} {ts rest : List Located}
    {args : List Expr} (h : Reads (arguments name opened ts) args rest) :
    ∃ a : Arguments, a.WellGrouped ∧ a.erase = args ∧
      tokens ts = a.yield ++ .rightParen :: tokens rest := by
  rcases reads_arguments.1 h with ⟨p, rfl, rfl⟩ | ⟨-, -, one, p,
    ⟨mid, more, run, run', rfl⟩ | ⟨run, rfl⟩⟩
  · exact ⟨.none, trivial, rfl, rfl⟩
  · -- an argument and a comma, behind which the arguments may be over
    have shorter := run.length_lt
    obtain ⟨t, spells, -⟩ := expression_sound run
    obtain ⟨a, grouped, erases, yields⟩ := arguments_sound run'
    refine ⟨.more t a, ⟨spells.grouped, grouped⟩, ?_, ?_⟩
    · rw [Arguments.erase, spells.erases, erases]
    · simp [Arguments.yield, spells.yields, yields]
  · obtain ⟨t, spells, -⟩ := expression_sound run
    refine ⟨.last t, spells.grouped, ?_, ?_⟩
    · rw [Arguments.erase, spells.erases]
    · simp [Arguments.yield, spells.yields]
termination_by 4 * ts.length + 3
decreasing_by
  · omega
  · simp only [List.length_cons] at shorter; omega
  · omega

end

/-! ### Completeness -/

/-- The tokens go on with neither a pipe nor a parenthesis, so that a phrase
before them is over unless an operator follows. -/
def Ends (ts : List Located) : Prop :=
  ¬ BeginsPipe ts ∧ ¬ BeginsParen ts

theorem ends_cons {t : Located} {ts : List Located} (noPipe : t.token ≠ .pipe)
    (noParen : t.token ≠ .leftParen) : Ends (t :: ts) := by
  refine ⟨?_, ?_⟩
  · rintro ⟨p, tail, eq⟩
    exact noPipe (by rw [(List.cons.inj eq).1])
  · rintro ⟨p, tail, eq⟩
    exact noParen (by rw [(List.cons.inj eq).1])

/-- Climbing stops before an operator that is too loose. -/
theorem climb_stops {least : Nat} {e : Expr} {rest : List Located}
    (stops : ∀ power ∈ nextPower? rest, power < least) : Reads (climb least e rest) e rest :=
  reads_climb.2 (.inr ⟨stops, rfl, rfl⟩)

/-- How the tokens go on behind a phrase: it is over there, and climbing on
from its expression reads `e` up to `r`. -/
structure Phrase.GoesOn (t : Phrase) (least : Nat) (rest : List Located) (e : Expr)
    (r : List Located) : Prop where
  fits : t.FitsBefore rest
  ends : Ends rest
  climbs : Reads (climb least t.erase rest) e r

/-- The tokens that an expression can only stand before, whatever it is. -/
def Token.Closes : Token → Prop
  | .rightParen | .comma | .endOfInput => True
  | _ => False

section Closes

variable {z : Located} {rest : List Located}

theorem nextPower?_of_closes (h : z.token.Closes) : nextPower? (z :: rest) = none := by
  obtain ⟨token, position⟩ := z
  cases token <;> first | rfl | exact h.elim

theorem ends_of_closes (h : z.token.Closes) : Ends (z :: rest) := by
  obtain ⟨token, position⟩ := z
  refine ends_cons ?_ ?_
  · rintro rfl
    exact h
  · rintro rfl
    exact h

/-- Before a token that closes, a phrase is read as it is. -/
theorem Phrase.goesOn_of_closes (t : Phrase) (least : Nat) (h : z.token.Closes) :
    t.GoesOn least (z :: rest) t.erase (z :: rest) where
  fits := by
    intro power next
    rw [nextPower?_of_closes h] at next
    cases next
  ends := ends_of_closes h
  climbs := by
    apply climb_stops
    intro power next
    rw [nextPower?_of_closes h] at next
    cases next

end Closes

/-- Located tokens split as their tokens do. -/
theorem tokens_eq_cons {ts : List Located} {t : Token} {us : List Token}
    (h : tokens ts = t :: us) : ∃ p rest, ts = ⟨t, p⟩ :: rest ∧ tokens rest = us := by
  obtain ⟨⟨t', p⟩, rest, rfl, rfl, rfl⟩ := List.map_eq_cons_iff.1 h
  exact ⟨p, rest, rfl, rfl⟩

/-- Tokens are cut where their list is cut. -/
theorem tokens_eq_append {ts : List Located} {us vs : List Token} (h : tokens ts = us ++ vs) :
    ∃ front back, ts = front ++ back ∧ tokens front = us ∧ tokens back = vs :=
  List.map_eq_append_iff.1 h

theorem tokens_eq_singleton {ts : List Located} {t : Token} (h : tokens ts = [t]) :
    ∃ p, ts = [⟨t, p⟩] := by
  obtain ⟨p, rest, rfl, empty⟩ := tokens_eq_cons h
  obtain rfl := List.map_eq_nil_iff.1 empty
  exact ⟨p, rfl⟩

theorem tokens_eq_concat {ts : List Located} {us : List Token} {t : Token}
    (h : tokens ts = us ++ [t]) : ∃ front p, ts = front ++ [⟨t, p⟩] ∧ tokens front = us := by
  obtain ⟨front, back, rfl, yields, one⟩ := tokens_eq_append h
  obtain ⟨p, rfl⟩ := tokens_eq_singleton one
  exact ⟨front, p, rfl, yields⟩

/-- A phrase begins with a token that ends no argument list. -/
theorem next_of_yield {t : Phrase} {front : List Located} (rest : List Located)
    (h : tokens front = t.yield) :
    (next (front ++ rest)).token ≠ .rightParen ∧ (next (front ++ rest)).token ≠ .endOfInput := by
  obtain ⟨first, more, eq, begins⟩ := t.yield_begins
  obtain ⟨p, front, rfl, -⟩ := tokens_eq_cons (h.trans eq)
  refine ⟨?_, ?_⟩
  · rintro (rfl : first = _)
    exact begins
  · rintro (rfl : first = _)
    exact begins

/-- No operator binds exactly as `NOT` does, so there is never a tie. -/
theorem nextPower?_ne_negationPower {ts : List Located} {power : Nat}
    (h : power ∈ nextPower? ts) : power ≠ negationPower := by
  unfold nextPower? at h
  split at h
  · cases h
    exact BinaryOp.power_ne_negationPower _
  · cases h

mutual

/-- Pipes go on behind a primary phrase. -/
theorem Primary.reads : ∀ (p : Primary) {front rest r : List Located} {e : Expr},
    p.WellGrouped → tokens front = p.yield → ¬ BeginsParen rest →
    Reads (pipes p.erase rest) e r → Reads (operand (front ++ rest)) e r
  | .leaf l, front, rest, r, e, _, yields, _, run => by
    obtain ⟨p, rfl⟩ := tokens_eq_singleton yields
    exact reads_operand.2 (.inr ⟨_, rest, reads_primary.2 (.inl ⟨l, p, rfl, rfl⟩), run⟩)
  | .tracker ref, front, rest, r, e, _, yields, noParen, run => by
    obtain ⟨p, rfl⟩ := tokens_eq_singleton yields
    have bare : Reads (keyed ref rest) (.tracker ref) rest :=
      reads_keyed.2 (.inr ⟨noParen, rfl, rfl⟩)
    exact reads_operand.2 (.inr ⟨_, rest,
      reads_primary.2 (.inr (.inl ⟨ref, p, rest, rfl, bare⟩)), run⟩)
  | .keyed ref key, front, rest, r, e, grouped, yields, _, run => by
    obtain ⟨p, _, rfl, h₁⟩ := tokens_eq_cons yields
    obtain ⟨p', _, rfl, h₂⟩ := tokens_eq_cons h₁
    obtain ⟨front, q, rfl, h₃⟩ := tokens_eq_concat h₂
    have inner : Reads (expression 0 (front ++ ⟨.rightParen, q⟩ :: rest)) key.erase
        (⟨.rightParen, q⟩ :: rest) :=
      Phrase.reads key grouped h₃ key.atLeast_zero (key.goesOn_of_closes 0 trivial)
    have read : Reads (keyed ref (⟨.leftParen, p'⟩ :: (front ++ ⟨.rightParen, q⟩ :: rest)))
        (.mapped ref key.erase) rest :=
      reads_keyed.2 (.inl ⟨p', q, _, _, rfl, inner, rfl⟩)
    refine reads_operand.2 (.inr ⟨_, rest,
      reads_primary.2 (.inr (.inl ⟨ref, p, _, ?_, read⟩)), run⟩)
    simp
  | .call name, front, rest, r, e, _, yields, noParen, run => by
    obtain ⟨p, rfl⟩ := tokens_eq_singleton yields
    exact reads_operand.2 (.inr ⟨_, rest,
      reads_primary.2 (.inr (.inr (.inr (.inl ⟨name, p, rfl, noParen, rfl⟩)))), run⟩)
  | .callWith name args, front, rest, r, e, grouped, yields, _, run => by
    obtain ⟨p, _, rfl, h₁⟩ := tokens_eq_cons yields
    obtain ⟨p', _, rfl, h₂⟩ := tokens_eq_cons h₁
    obtain ⟨front, q, rfl, h₃⟩ := tokens_eq_concat h₂
    have read : Reads (arguments name p' (front ++ ⟨.rightParen, q⟩ :: rest)) args.erase rest :=
      Arguments.reads args grouped h₃
    refine reads_operand.2 (.inr ⟨_, rest,
      reads_primary.2 (.inr (.inr (.inl ⟨name, p, p', _, _, ?_, read, rfl⟩))), run⟩)
    simp
  | .paren inner, front, rest, r, e, grouped, yields, _, run => by
    obtain ⟨p, _, rfl, h₁⟩ := tokens_eq_cons yields
    obtain ⟨front, q, rfl, h₂⟩ := tokens_eq_concat h₁
    have read : Reads (expression 0 (front ++ ⟨.rightParen, q⟩ :: rest)) inner.erase
        (⟨.rightParen, q⟩ :: rest) :=
      Phrase.reads inner grouped h₂ inner.atLeast_zero (inner.goesOn_of_closes 0 trivial)
    refine reads_operand.2 (.inr ⟨_, rest,
      reads_primary.2 (.inr (.inr (.inr (.inr ⟨p, q, _, ?_, read⟩)))), run⟩)
    simp
  | .piped key ref, front, rest, r, e, grouped, yields, noParen, run => by
    obtain ⟨front, _, rfl, h₁, h₂⟩ := tokens_eq_append yields
    obtain ⟨p, _, rfl, h₃⟩ := tokens_eq_cons h₂
    obtain ⟨q, rfl⟩ := tokens_eq_singleton h₃
    have goesOn : Reads (pipes key.erase (⟨.pipe, p⟩ :: ⟨ref.token, q⟩ :: rest)) e r :=
      reads_pipes.2 (.inl ⟨ref, p, q, rest, rfl, run⟩)
    -- the pipe is no parenthesis, so the key is not called
    have noParen' : ¬ BeginsParen (⟨.pipe, p⟩ :: ⟨ref.token, q⟩ :: rest) := by
      rintro ⟨_, _, eq⟩
      cases eq
    rw [List.append_assoc]
    exact Primary.reads key grouped h₁ noParen' goesOn

/-- Arguments are read back from their tokens. -/
theorem Arguments.reads : ∀ (a : Arguments) {name : String} {opened q : Nat}
    {front rest : List Located}, a.WellGrouped → tokens front = a.yield →
    Reads (arguments name opened (front ++ ⟨.rightParen, q⟩ :: rest)) a.erase rest
  | .none, name, opened, q, front, rest, _, yields => by
    obtain rfl := List.map_eq_nil_iff.1 yields
    exact reads_arguments.2 (.inl ⟨q, rfl, rfl⟩)
  | .last one, name, opened, q, front, rest, grouped, yields => by
    obtain ⟨noParen, noEnd⟩ := next_of_yield (⟨.rightParen, q⟩ :: rest) yields
    have read : Reads (expression 0 (front ++ ⟨.rightParen, q⟩ :: rest)) one.erase
        (⟨.rightParen, q⟩ :: rest) :=
      Phrase.reads one grouped yields one.atLeast_zero (one.goesOn_of_closes 0 trivial)
    exact reads_arguments.2 (.inr ⟨noParen, noEnd, one.erase, q, .inr ⟨read, rfl⟩⟩)
  | .more one others, name, opened, q, front, rest, ⟨grouped, grouped'⟩, yields => by
    -- a comma closes the argument in front of it just as the parenthesis does
    obtain ⟨front, _, rfl, h₁, h₂⟩ := tokens_eq_append yields
    obtain ⟨p, front', rfl, h₃⟩ := tokens_eq_cons h₂
    rw [List.append_assoc, List.cons_append]
    obtain ⟨noParen, noEnd⟩ :=
      next_of_yield (⟨.comma, p⟩ :: (front' ++ ⟨.rightParen, q⟩ :: rest)) h₁
    have read : Reads
        (expression 0 (front ++ ⟨.comma, p⟩ :: (front' ++ ⟨.rightParen, q⟩ :: rest))) one.erase
        (⟨.comma, p⟩ :: (front' ++ ⟨.rightParen, q⟩ :: rest)) :=
      Phrase.reads one grouped h₁ one.atLeast_zero (one.goesOn_of_closes 0 trivial)
    have read' : Reads (arguments name opened (front' ++ ⟨.rightParen, q⟩ :: rest))
        others.erase rest := Arguments.reads others grouped' h₃
    exact reads_arguments.2 (.inr ⟨noParen, noEnd, one.erase, p,
      .inl ⟨_, others.erase, read, read', rfl⟩⟩)

/-- A phrase is read by climbing on from its expression. -/
theorem Phrase.reads : ∀ (t : Phrase) {least : Nat} {front rest r : List Located} {e : Expr},
    t.WellGrouped → tokens front = t.yield → t.AtLeast least → t.GoesOn least rest e r →
    Reads (expression least (front ++ rest)) e r
  | .primary p, least, front, rest, r, e, grouped, yields, _, ⟨_, ends, run⟩ => by
    have stops : Reads (pipes p.erase rest) p.erase rest :=
      reads_pipes.2 (.inr ⟨ends.1, rfl, rfl⟩)
    exact reads_expression.2 ⟨_, rest, Primary.reads p grouped yields ends.2 stops, run⟩
  | .not inner, least, front, rest, r, e, ⟨grouped, tight⟩, yields, _, ⟨fits, ends, run⟩ => by
    obtain ⟨p, front, rfl, h⟩ := tokens_eq_cons yields
    -- the next operator is too loose for the negation to take it
    have stops : ∀ power ∈ nextPower? rest, power < negationPower := by
      intro power next
      have loose : ¬ comparisonPower ≤ power := fun le => (fits power next).2 le trivial
      have ne := nextPower?_ne_negationPower next
      simp only [comparisonPower, negationPower] at loose ne ⊢
      omega
    have fits' : inner.FitsBefore rest := by
      intro power next
      have lt := stops power next
      refine ⟨tight.above (Nat.lt_succ_of_lt lt), fun le => ?_⟩
      exact absurd (Nat.lt_of_lt_of_le lt (Nat.le_of_succ_le le)) (Nat.lt_irrefl _)
    have read : Reads (expression negationPower (front ++ rest)) inner.erase rest :=
      Phrase.reads inner grouped h (Phrase.atLeast_negationPower_iff.2 tight)
        ⟨fits', ends, climb_stops stops⟩
    exact reads_expression.2 ⟨_, rest,
      reads_operand.2 (.inl ⟨p, front ++ rest, inner.erase, rfl, read, rfl⟩), run⟩
  | .binary op left right, least, front, rest, r, e, ⟨hl, hr, above, tight', noNot⟩, yields,
      tight, ⟨fits, ends, run⟩ => by
    obtain ⟨front, _, rfl, h₁, h₂⟩ := tokens_eq_append yields
    obtain ⟨p, front', rfl, h₃⟩ := tokens_eq_cons h₂
    -- the right operand is over where the whole phrase is
    have fits' : right.FitsBefore rest := by
      intro power next
      exact ⟨tight'.above (fits power next).1, (fits power next).2⟩
    have read : Reads (expression op.power (front' ++ rest)) right.erase rest :=
      Phrase.reads right hr h₃ tight'
        ⟨fits', ends, climb_stops fun power next => (fits power next).1⟩
    have goesOn : Reads (climb least left.erase (⟨.operator op, p⟩ :: (front' ++ rest))) e r :=
      reads_climb.2 (.inl ⟨op, p, _, _, rest, rfl, tight, read, run⟩)
    have fitsLeft : left.FitsBefore (⟨.operator op, p⟩ :: (front' ++ rest)) := by
      rintro power ⟨⟩
      exact ⟨above, noNot⟩
    rw [List.append_assoc, List.cons_append]
    exact Phrase.reads left hl h₁ (above.atLeast.mono tight)
      ⟨fitsLeft, ends_cons (by simp) (by simp), goesOn⟩

end

/-! ### Whole inputs -/

mutual

/-- The end of the input is no token of a primary. -/
theorem Primary.endOfInput_not_mem_yield : ∀ p : Primary, Token.endOfInput ∉ p.yield
  | .leaf l => by cases l <;> simp [Primary.yield, Leaf.token]
  | .tracker ref => by simp [Primary.yield, ref.endOfInput_ne_token]
  | .keyed ref key => by
    simp [Primary.yield, ref.endOfInput_ne_token, Phrase.endOfInput_not_mem_yield key]
  | .call name => by simp [Primary.yield]
  | .callWith name args => by
    simp [Primary.yield, Arguments.endOfInput_not_mem_yield args]
  | .paren inner => by simp [Primary.yield, Phrase.endOfInput_not_mem_yield inner]
  | .piped key ref => by
    simp [Primary.yield, ref.endOfInput_ne_token, Primary.endOfInput_not_mem_yield key]

theorem Arguments.endOfInput_not_mem_yield : ∀ a : Arguments, Token.endOfInput ∉ a.yield
  | .none => by simp [Arguments.yield]
  | .last one => by simp [Arguments.yield, Phrase.endOfInput_not_mem_yield one]
  | .more one others => by
    simp [Arguments.yield, Phrase.endOfInput_not_mem_yield one,
      Arguments.endOfInput_not_mem_yield others]

/-- The end of the input is no token of a phrase. -/
theorem Phrase.endOfInput_not_mem_yield : ∀ t : Phrase, Token.endOfInput ∉ t.yield
  | .primary p => by simp [Phrase.yield, Primary.endOfInput_not_mem_yield p]
  | .not inner => by simp [Phrase.yield, Phrase.endOfInput_not_mem_yield inner]
  | .binary op left right => by
    simp [Phrase.yield, Phrase.endOfInput_not_mem_yield left,
      Phrase.endOfInput_not_mem_yield right]

end

/-- Tokens are accepted if one expression is read and nothing is left. -/
theorem ofTokens_eq_ok {ts : List Located} {e : Expr} :
    ofTokens ts = .ok e ↔ (next ts).token ≠ .endOfInput ∧
      ∃ rest, Reads (expression 0 ts) e rest ∧ (next rest).token = .endOfInput := by
  unfold ofTokens
  by_cases ended : (next ts).token = .endOfInput
  · simp [ended]
  · rcases expression 0 ts with error | all
    · simp [ended]
    · by_cases whole : (next all.rest).token = .endOfInput
      · simp [ended, whole, and_assoc]
      · simp [ended, whole, and_assoc]

/-- Tokens before the end of the input: where two lists agree up to it, they
agree. -/
theorem eq_of_append_endOfInput {us vs ws : List Token} (hu : Token.endOfInput ∉ us)
    (hv : Token.endOfInput ∉ vs) (h : us ++ [.endOfInput] = vs ++ .endOfInput :: ws) :
    us = vs := by
  rcases List.append_eq_append_iff.1 h with ⟨more, rfl, eq⟩ | ⟨more, rfl, eq⟩
  · cases more with
    | nil => simp
    | cons t more =>
      rw [List.cons_append, List.cons.injEq] at eq
      exact absurd (by simp [← eq.1]) hv
  · cases more with
    | nil => simp
    | cons t more =>
      rw [List.cons_append, List.cons.injEq] at eq
      exact absurd (by simp [← eq.1]) hu

/-- Every expression the parser builds has a phrase behind it. -/
theorem ofTokens_sound {ts : List Located} {position : Nat} {e : Expr}
    (noEnd : Token.endOfInput ∉ tokens ts)
    (h : ofTokens (ts ++ [⟨.endOfInput, position⟩]) = .ok e) :
    ∃ t : Phrase, t.WellGrouped ∧ t.yield = tokens ts ∧ t.erase = e := by
  obtain ⟨-, rest, run, ended⟩ := ofTokens_eq_ok.1 h
  obtain ⟨t, spells, -⟩ := expression_sound run
  refine ⟨t, spells.grouped, ?_, spells.erases⟩
  have yields := spells.yields
  rw [tokens_append] at yields
  cases rest with
  | nil =>
    -- the end of the input would be within the phrase
    refine absurd ?_ t.endOfInput_not_mem_yield
    rw [tokens_nil, List.append_nil] at yields
    simp [← yields]
  | cons z rest =>
    rw [tokens_cons z, show z.token = .endOfInput from ended] at yields
    exact (eq_of_append_endOfInput noEnd t.endOfInput_not_mem_yield yields).symm

/-- Every phrase is read as its expression. -/
theorem ofTokens_complete {ts : List Located} {position : Nat} {t : Phrase}
    (grouped : t.WellGrouped) (yields : t.yield = tokens ts) :
    ofTokens (ts ++ [⟨.endOfInput, position⟩]) = .ok t.erase := by
  refine ofTokens_eq_ok.2 ⟨(next_of_yield _ yields.symm).2, [⟨.endOfInput, position⟩], ?_, rfl⟩
  exact Phrase.reads t grouped yields.symm t.atLeast_zero (t.goesOn_of_closes 0 trivial)

/-- A text whose tokens are those of a phrase is read as its expression. -/
theorem parse_of_scan {source : String} {ts : List Located} {t : Phrase}
    (scanned : Token.scan source = .ok ts) (grouped : t.WellGrouped)
    (yields : tokens ts = t.yield ++ [.endOfInput]) : parse source = .ok t.erase := by
  obtain ⟨body, ends, rfl, inBody, atEnd⟩ := List.map_eq_append_iff.1 yields
  obtain ⟨⟨token, position⟩, rfl, rfl⟩ := List.map_eq_singleton_iff.1 atEnd
  rw [parse, scanned]
  exact ofTokens_complete grouped inBody.symm

/-- **The parser reads exactly its grammar.**  Tokens before the end of the
input form an expression if and only if they are the yield of a well-grouped
phrase that erases to it. -/
theorem Expr.ofTokens_eq_ok_iff {ts : List Located} {position : Nat} {e : Expr}
    (noEnd : ∀ t ∈ ts, t.token ≠ .endOfInput) :
    ofTokens (ts ++ [⟨.endOfInput, position⟩]) = .ok e ↔
      ∃ t : Phrase, t.WellGrouped ∧ t.yield = tokens ts ∧ t.erase = e := by
  constructor
  · intro h
    refine ofTokens_sound ?_ h
    rintro present
    obtain ⟨t, mem, eq⟩ := List.mem_map.1 present
    exact noEnd t mem eq
  · rintro ⟨t, grouped, yields, rfl⟩
    exact ofTokens_complete grouped yields

/-- `a * NOT b == c AND (d | TR:m) + FC:f(x,) > 1`: the negation takes the
comparison behind it and stops before `AND`. -/
theorem Expr.ofTokens_negation_in_product :
    let ts : List Located :=
      [⟨.identifier "a", 0⟩, ⟨.operator (.plain (.arith .multiply)), 2⟩, ⟨.not, 4⟩,
        ⟨.identifier "b", 8⟩, ⟨.operator (.plain .equal), 10⟩, ⟨.identifier "c", 13⟩,
        ⟨.operator (.plain .and), 15⟩, ⟨.leftParen, 19⟩, ⟨.identifier "d", 20⟩, ⟨.pipe, 22⟩,
        ⟨.trackerRead "m", 24⟩, ⟨.rightParen, 28⟩, ⟨.operator (.plain (.arith .add)), 30⟩,
        ⟨.foreignCall "f", 32⟩, ⟨.leftParen, 36⟩, ⟨.identifier "x", 37⟩, ⟨.comma, 38⟩,
        ⟨.rightParen, 39⟩, ⟨.operator (.plain .greater), 41⟩, ⟨.number 1, 43⟩]
    (∀ t ∈ ts, t.token ≠ .endOfInput) ∧
      ofTokens (ts ++ [⟨.endOfInput, 44⟩]) = .ok
        (.binary (.plain .and)
          (.binary (.plain (.arith .multiply)) (.identifier "a")
            (.not (.binary (.plain .equal) (.identifier "b") (.identifier "c"))))
          (.binary (.plain .greater)
            (.binary (.plain (.arith .add)) (.mapped ⟨"m", false⟩ (.identifier "d"))
              (.foreignCall "f" [.identifier "x"]))
            (.number 1))) := by
  intro ts
  have noEnd : ∀ t ∈ ts, t.token ≠ .endOfInput := by decide
  let leaf (l : Leaf) : Phrase := .primary (.leaf l)
  -- `NOT` takes the comparison, although it stands in a product
  refine ⟨noEnd, (Expr.ofTokens_eq_ok_iff noEnd).2 ⟨
    .binary (.plain .and)
      (.binary (.plain (.arith .multiply)) (leaf (.identifier "a"))
        (.not (.binary (.plain .equal) (leaf (.identifier "b")) (leaf (.identifier "c")))))
      (.binary (.plain .greater)
        (.binary (.plain (.arith .add))
          (.primary (.paren (.primary (.piped (.leaf (.identifier "d")) ⟨"m", false⟩))))
          (.primary (.callWith "f" (.more (leaf (.identifier "x")) .none))))
        (leaf (.number 1))), ?_, rfl, rfl⟩⟩
  decide

end RuleCodec
