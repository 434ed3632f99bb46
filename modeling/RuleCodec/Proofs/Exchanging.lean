/-
RuleCodec/Proofs/Exchanging.lean

Operands that are read alike can be exchanged in every context.

Tokens stand for an expression if, wherever an operand is read, they are read
as that expression and the pipes behind them go on from there (`StandFor`).
Two lists that stand for the same may be put in each other's place behind any
token that an operand follows, and the parser reads the whole alike
(`ofTokens_of_exchanged`).  A key in parentheses with a pipe into a tracker,
and the tracker with that key, are two such lists.

Design.  The two token lists are read side by side.  Before the place where
they differ they have the same next token; at the place an operand is read, or
both lists are refused, for neither goes on there with anything that could end
what came before.  `Exchanged` and `Alike` keep the two cases apart: a tracker
and a call look at whether a parenthesis comes next, so they must not stand
right before the place.
-/
import RuleCodec.Proofs.Parsing

namespace RuleCodec

open RuleCodec.Expr

/-! ### Next tokens -/

/-- A token behind which an operand is read. -/
def Token.OpensOperand : Token → Prop
  | .operator _ | .not | .comma | .leftParen => True
  | _ => False

theorem TrackerRef.not_opensOperand_token (ref : TrackerRef) : ¬ ref.token.OpensOperand := by
  rw [TrackerRef.token]
  split <;> exact id

theorem beginsPipe_iff {ts : List Located} : BeginsPipe ts ↔ (next ts).token = .pipe := by
  cases ts with
  | nil => simp [BeginsPipe, next]
  | cons t ts =>
    obtain ⟨token, position⟩ := t
    simp [BeginsPipe, next]

theorem beginsParen_iff {ts : List Located} : BeginsParen ts ↔ (next ts).token = .leftParen := by
  cases ts with
  | nil => simp [BeginsParen, next]
  | cons t ts =>
    obtain ⟨token, position⟩ := t
    simp [BeginsParen, next]

/-- Only the next token decides whether an operator follows. -/
theorem nextPower?_congr {ts us : List Located} (h : (next us).token = (next ts).token) :
    nextPower? us = nextPower? ts := by
  have byNext : ∀ vs : List Located, nextPower? vs = nextPower? [next vs] := by
    intro vs
    cases vs with
    | nil => rfl
    | cons v vs =>
      obtain ⟨token, position⟩ := v
      cases token <;> rfl
  rw [byNext us, byNext ts]
  revert h
  obtain ⟨token, position⟩ := next us
  obtain ⟨token', position'⟩ := next ts
  rintro (rfl : token = token')
  cases token <;> rfl

/-- A token that begins an operand is no operator. -/
theorem nextPower?_of_beginsOperand {ts : List Located} (h : (next ts).token.BeginsOperand) :
    nextPower? ts = none := by
  cases ts with
  | nil => rfl
  | cons t ts =>
    obtain ⟨token, position⟩ := t
    cases token with
    | operator op => exact h.elim
    | _ => rfl

/-! ### What tokens stand for -/

/-- Tokens that are read as an expression where an operand is read, whatever is behind them: its
pipes go on from that expression.  With no expression, they are refused there. -/
structure StandFor (a : List Token) (e? : Option Expr) : Prop where
  begins : ∃ t more, a = t :: more ∧ t.BeginsOperand
  reads : ∀ {front rest r : List Located} {e : Expr}, tokens front = a →
    (Reads (operand (front ++ rest)) e r ↔ ∃ key ∈ e?, Reads (pipes key rest) e r)

/-- Tokens that stand for an operand begin one. -/
theorem StandFor.beginsOperand {a post : List Token} {e? : Option Expr} {ts : List Located}
    (h : StandFor a e?) (eq : tokens ts = a ++ post) : (next ts).token.BeginsOperand := by
  obtain ⟨t, more, rfl, begins⟩ := h.begins
  obtain ⟨p, ts, rfl, -⟩ := tokens_eq_cons eq
  exact begins

/-- Tokens that stand for the same. -/
structure StandAlike (a b : List Token) (e? : Option Expr) : Prop where
  left : StandFor a e?
  right : StandFor b e?

theorem StandAlike.symm {a b : List Token} {e? : Option Expr} (h : StandAlike a b e?) :
    StandAlike b a e? :=
  ⟨h.right, h.left⟩

/-! ### Two lists side by side -/

/-- The lists differ in nothing but positions, or they differ besides in one place further on: the
one has `a` there and the other `b`, behind a token that an operand follows. -/
inductive Exchanged (a b : List Token) : List Located → List Located → Prop
  | same {ts us : List Located} : tokens ts = tokens us → Exchanged a b ts us
  | opened {token : Token} {p q : Nat} {ts us : List Located} {post : List Token} :
      token.OpensOperand → tokens ts = a ++ post → tokens us = b ++ post →
        Exchanged a b (⟨token, p⟩ :: ts) (⟨token, q⟩ :: us)
  | cons {token : Token} {p q : Nat} {ts us : List Located} :
      Exchanged a b ts us → Exchanged a b (⟨token, p⟩ :: ts) (⟨token, q⟩ :: us)

/-- The same, but the place may be right here. -/
inductive Alike (a b : List Token) : List Located → List Located → Prop
  | later {ts us : List Located} : Exchanged a b ts us → Alike a b ts us
  | here {ts us : List Located} {post : List Token} :
      tokens ts = a ++ post → tokens us = b ++ post → Alike a b ts us

section

variable {a b : List Token} {ts us : List Located}

/-- The lists have one next token, and behind it they are alike.  Unless an operand follows the
token, the place is not right behind it. -/
theorem Exchanged.uncons {token : Token} {p : Nat} (h : Exchanged a b (⟨token, p⟩ :: ts) us) :
    ∃ q us', us = ⟨token, q⟩ :: us' ∧ Alike a b ts us' ∧
      (¬ token.OpensOperand → Exchanged a b ts us') := by
  cases h with
  | same eq =>
    obtain ⟨q, us', rfl, eq'⟩ := tokens_eq_cons eq.symm
    exact ⟨q, us', rfl, .later (.same eq'.symm), fun _ => .same eq'.symm⟩
  | opened opens eq eq' => exact ⟨_, _, rfl, .here eq eq', fun closed => absurd opens closed⟩
  | cons rest => exact ⟨_, _, rfl, .later rest, fun _ => rest⟩

/-- Where the exchange is further on, both lists go on with the same token. -/
theorem Exchanged.next_eq (h : Exchanged a b ts us) : (next us).token = (next ts).token := by
  cases ts with
  | nil =>
    cases h with
    | same eq =>
      obtain rfl := List.map_eq_nil_iff.1 eq.symm
      rfl
  | cons t ts =>
    obtain ⟨q, us', rfl, -⟩ := h.uncons
    rfl

variable {e? : Option Expr}

/-- Where the next token begins no operand, the place is further on. -/
theorem Alike.exchanged (h : Alike a b ts us) (stand : StandFor a e?)
    (ends : ¬ (next ts).token.BeginsOperand) : Exchanged a b ts us := by
  cases h with
  | later h => exact h
  | here eq => exact absurd (stand.beginsOperand eq) ends

/-- Alike lists go on with the same token, or both with an operand. -/
theorem Alike.next_cases (h : Alike a b ts us) (stand : StandAlike a b e?) :
    (next us).token = (next ts).token ∨
      (next ts).token.BeginsOperand ∧ (next us).token.BeginsOperand := by
  cases h with
  | later h => exact .inl h.next_eq
  | here eq eq' => exact .inr ⟨stand.left.beginsOperand eq, stand.right.beginsOperand eq'⟩

/-- The lists have the same next token if either has one that begins no operand. -/
theorem Alike.next_eq_iff (h : Alike a b ts us) (stand : StandAlike a b e?) {token : Token}
    (ends : ¬ token.BeginsOperand) : (next us).token = token ↔ (next ts).token = token := by
  rcases h.next_cases stand with eq | ⟨begins, begins'⟩
  · rw [eq]
  · constructor
    · rintro rfl
      exact absurd begins' ends
    · rintro rfl
      exact absurd begins ends

/-- Either way the same operator follows. -/
theorem Alike.nextPower?_eq (h : Alike a b ts us) (stand : StandAlike a b e?) :
    nextPower? us = nextPower? ts := by
  rcases h.next_cases stand with eq | ⟨begins, begins'⟩
  · exact nextPower?_congr eq
  · rw [nextPower?_of_beginsOperand begins, nextPower?_of_beginsOperand begins']

/-! ### Reading side by side -/

/-- Keys that are piped are read alike. -/
theorem pipes_alike (stand : StandAlike a b e?) {key e : Expr} {ts us rest : List Located}
    (alike : Alike a b ts us) (h : Reads (pipes key ts) e rest) :
    ∃ rest', Reads (pipes key us) e rest' ∧ Alike a b rest rest' := by
  rcases reads_pipes.1 h with ⟨ref, p, q, tail, rfl, run⟩ | ⟨noPipe, rfl, rfl⟩
  · obtain ⟨p', us, rfl, -, closed⟩ := (alike.exchanged stand.left id).uncons
    obtain ⟨q', us, rfl, behind, -⟩ := (closed id).uncons
    obtain ⟨rest', run', left⟩ := pipes_alike stand behind run
    exact ⟨rest', reads_pipes.2 (.inl ⟨ref, p', q', us, rfl, run'⟩), left⟩
  · refine ⟨us, reads_pipes.2 (.inr ⟨?_, rfl, rfl⟩), alike⟩
    rwa [beginsPipe_iff, alike.next_eq_iff stand id, ← beginsPipe_iff]
termination_by ts.length

/-- At the place itself, either list is read as what it stands for. -/
theorem operand_here (stand : StandAlike a b e?) {e : Expr} {rest : List Located}
    {post : List Token} (eq : tokens ts = a ++ post) (eq' : tokens us = b ++ post)
    (run : Reads (operand ts) e rest) :
    ∃ rest', Reads (operand us) e rest' ∧ Alike a b rest rest' := by
  obtain ⟨front, back, rfl, isA, isPost⟩ := tokens_eq_append eq
  obtain ⟨front', back', rfl, isB, isPost'⟩ := tokens_eq_append eq'
  obtain ⟨key, stands, run⟩ := (stand.left.reads isA).1 run
  have behind : Alike a b back back' := .later (.same (isPost.trans isPost'.symm))
  obtain ⟨rest', run', alike⟩ := pipes_alike stand behind run
  exact ⟨rest', (stand.right.reads isB).2 ⟨key, stands, run'⟩, alike⟩

mutual

/-- Expressions are read alike. -/
theorem expression_alike (stand : StandAlike a b e?) {least : Nat} {ts us rest : List Located}
    {e : Expr} (alike : Alike a b ts us) (h : Reads (expression least ts) e rest) :
    ∃ rest', Reads (expression least us) e rest' ∧ Alike a b rest rest' := by
  obtain ⟨left, mid, run, climbs⟩ := reads_expression.1 h
  have shorter := run.length_lt
  obtain ⟨mid', run', behind⟩ := operand_alike stand alike run
  obtain ⟨rest', climbs', leaves⟩ := climb_alike stand behind climbs
  exact ⟨rest', reads_expression.2 ⟨left, mid', run', climbs'⟩, leaves⟩
termination_by 4 * ts.length + 2

/-- What follows an operand is read alike. -/
theorem climb_alike (stand : StandAlike a b e?) {least : Nat} {ts us rest : List Located}
    {left e : Expr} (alike : Alike a b ts us) (h : Reads (climb least left ts) e rest) :
    ∃ rest', Reads (climb least left us) e rest' ∧ Alike a b rest rest' := by
  rcases reads_climb.1 h with ⟨op, p, tail, right, mid, eq, tight, run, more⟩ | ⟨stops, rfl, rfl⟩
  · have shorter := congrArg List.length eq
    have shorter' := run.length_lt
    rw [eq] at alike
    obtain ⟨q, us, rfl, behind, -⟩ := (alike.exchanged stand.left id).uncons
    obtain ⟨mid', run', after⟩ := expression_alike stand behind run
    obtain ⟨rest', more', leaves⟩ := climb_alike stand after more
    exact ⟨rest', reads_climb.2 (.inl ⟨op, q, us, right, mid', rfl, tight, run', more'⟩), leaves⟩
  · refine ⟨us, reads_climb.2 (.inr ⟨?_, rfl, rfl⟩), alike⟩
    rwa [alike.nextPower?_eq stand]
termination_by 4 * ts.length
decreasing_by all_goals simp only [List.length_cons] at shorter; omega

/-- Operands are read alike: the exchanged tokens are one operand, on either side. -/
theorem operand_alike (stand : StandAlike a b e?) {ts us rest : List Located} {e : Expr}
    (alike : Alike a b ts us) (h : Reads (operand ts) e rest) :
    ∃ rest', Reads (operand us) e rest' ∧ Alike a b rest rest' := by
  cases alike with
  | here eq eq' => exact operand_here stand eq eq' h
  | later exchanged =>
    rcases reads_operand.1 h with ⟨p, tail, inner, eq, run, rfl⟩ | ⟨key, mid, run, more⟩
    · -- a negation, whose operand begins in both lists
      have shorter := congrArg List.length eq
      rw [eq] at exchanged
      obtain ⟨q, us, rfl, behind, -⟩ := exchanged.uncons
      obtain ⟨rest', run', leaves⟩ := expression_alike stand behind run
      exact ⟨rest', reads_operand.2 (.inl ⟨q, us, inner, rfl, run', rfl⟩), leaves⟩
    · obtain ⟨mid', run', behind⟩ := primary_alike stand exchanged run
      obtain ⟨rest', more', leaves⟩ := pipes_alike stand behind more
      exact ⟨rest', reads_operand.2 (.inr ⟨key, mid', run', more'⟩), leaves⟩
termination_by 4 * ts.length + 1
decreasing_by
  · simp only [List.length_cons] at shorter; omega
  · omega

/-- Primaries are read alike, since the exchange is behind their first token. -/
theorem primary_alike (stand : StandAlike a b e?) {ts us rest : List Located} {e : Expr}
    (exchanged : Exchanged a b ts us) (h : Reads (primary ts) e rest) :
    ∃ rest', Reads (primary us) e rest' ∧ Alike a b rest rest' := by
  rcases reads_primary.1 h with ⟨l, p, rfl, rfl⟩ | ⟨ref, p, tail, eq, run⟩ |
    ⟨name, p, q, tail, args, eq, run, rfl⟩ | ⟨name, p, rfl, noParen, rfl⟩ | ⟨p, q, tail, eq, run⟩
  · obtain ⟨p', us, rfl, behind, -⟩ := exchanged.uncons
    exact ⟨us, reads_primary.2 (.inl ⟨l, p', rfl, rfl⟩), behind⟩
  · -- a tracker, which may have a key
    have shorter := congrArg List.length eq
    rw [eq] at exchanged
    obtain ⟨p', us, rfl, -, closed⟩ := exchanged.uncons
    obtain ⟨rest', run', leaves⟩ := keyed_alike stand (closed ref.not_opensOperand_token) run
    exact ⟨rest', reads_primary.2 (.inr (.inl ⟨ref, p', us, rfl, run'⟩)), leaves⟩
  · -- a call with arguments
    have shorter := congrArg List.length eq
    rw [eq] at exchanged
    obtain ⟨p', us, rfl, -, closed⟩ := exchanged.uncons
    obtain ⟨q', us, rfl, behind, -⟩ := (closed id).uncons
    obtain ⟨rest', run', leaves⟩ := arguments_alike stand behind run q'
    exact ⟨rest', reads_primary.2 (.inr (.inr (.inl ⟨name, p', q', us, args, rfl, run', rfl⟩))),
      leaves⟩
  · -- a call without: no parenthesis comes next in the other list either
    obtain ⟨p', us, rfl, behind, closed⟩ := exchanged.uncons
    rw [beginsParen_iff, ← (closed id).next_eq, ← beginsParen_iff] at noParen
    exact ⟨us, reads_primary.2 (.inr (.inr (.inr (.inl ⟨name, p', rfl, noParen, rfl⟩)))), behind⟩
  · -- parentheses
    have shorter := congrArg List.length eq
    rw [eq] at exchanged
    obtain ⟨p', us, rfl, behind, -⟩ := exchanged.uncons
    obtain ⟨mid, run', after⟩ := expression_alike stand behind run
    obtain ⟨q', rest', rfl, leaves, -⟩ := (after.exchanged stand.left id).uncons
    exact ⟨rest', reads_primary.2 (.inr (.inr (.inr (.inr ⟨p', q', us, rfl, run'⟩)))), leaves⟩
termination_by 4 * ts.length
decreasing_by all_goals simp only [List.length_cons] at shorter; omega

/-- Keys in parentheses are read alike. -/
theorem keyed_alike (stand : StandAlike a b e?) {ref : TrackerRef} {ts us rest : List Located}
    {e : Expr} (exchanged : Exchanged a b ts us) (h : Reads (keyed ref ts) e rest) :
    ∃ rest', Reads (keyed ref us) e rest' ∧ Alike a b rest rest' := by
  rcases reads_keyed.1 h with ⟨p, q, tail, key, eq, run, rfl⟩ | ⟨noParen, rfl, rfl⟩
  · have shorter := congrArg List.length eq
    rw [eq] at exchanged
    obtain ⟨p', us, rfl, behind, -⟩ := exchanged.uncons
    obtain ⟨mid, run', after⟩ := expression_alike stand behind run
    obtain ⟨q', rest', rfl, leaves, -⟩ := (after.exchanged stand.left id).uncons
    exact ⟨rest', reads_keyed.2 (.inl ⟨p', q', us, key, rfl, run', rfl⟩), leaves⟩
  · rw [beginsParen_iff, ← exchanged.next_eq, ← beginsParen_iff] at noParen
    exact ⟨us, reads_keyed.2 (.inr ⟨noParen, rfl, rfl⟩), .later exchanged⟩
termination_by 4 * ts.length
decreasing_by simp only [List.length_cons] at shorter; omega

/-- Arguments are read alike, wherever their parenthesis was opened. -/
theorem arguments_alike (stand : StandAlike a b e?) {name : String} {opened : Nat}
    {ts us rest : List Located} {args : List Expr} (alike : Alike a b ts us)
    (h : Reads (arguments name opened ts) args rest) (opened' : Nat) :
    ∃ rest', Reads (arguments name opened' us) args rest' ∧ Alike a b rest rest' := by
  rcases reads_arguments.1 h with ⟨p, rfl, rfl⟩ | ⟨noParen, noEnd, one, p,
    ⟨mid, more, run, run', rfl⟩ | ⟨run, rfl⟩⟩
  · obtain ⟨p', us, rfl, leaves, -⟩ := (alike.exchanged stand.left id).uncons
    exact ⟨us, reads_arguments.2 (.inl ⟨p', rfl, rfl⟩), leaves⟩
  · rw [Ne, ← alike.next_eq_iff stand id] at noParen noEnd
    have shorter := run.length_lt
    -- an argument, and a comma behind it
    obtain ⟨_, first, after⟩ := expression_alike stand alike run
    obtain ⟨p', us', rfl, behind, -⟩ := (after.exchanged stand.left id).uncons
    obtain ⟨rest', others, leaves⟩ := arguments_alike stand behind run' opened'
    exact ⟨rest', reads_arguments.2 (.inr ⟨noParen, noEnd, one, p',
      .inl ⟨us', more, first, others, rfl⟩⟩), leaves⟩
  · rw [Ne, ← alike.next_eq_iff stand id] at noParen noEnd
    -- the last argument
    obtain ⟨_, last, after⟩ := expression_alike stand alike run
    obtain ⟨p', rest', rfl, leaves, -⟩ := (after.exchanged stand.left id).uncons
    exact ⟨rest', reads_arguments.2 (.inr ⟨noParen, noEnd, one, p', .inr ⟨last, rfl⟩⟩), leaves⟩
termination_by 4 * ts.length + 3
decreasing_by
  · omega
  · simp only [List.length_cons] at shorter; omega
  · omega

end

/-- Where one of the lists forms an expression, so does the other, and it is the same. -/
theorem ofTokens_of_alike (stand : StandAlike a b e?) {e : Expr} (alike : Alike a b ts us)
    (h : ofTokens ts = .ok e) : ofTokens us = .ok e := by
  obtain ⟨noEnd, rest, run, ended⟩ := ofTokens_eq_ok.1 h
  obtain ⟨rest', run', leaves⟩ := expression_alike stand alike run
  refine ofTokens_eq_ok.2 ⟨?_, rest', run', (leaves.next_eq_iff stand id).2 ended⟩
  rwa [Ne, alike.next_eq_iff stand id]

/-- The same where an expression is exchanged in a context: what stands before it is nothing or ends
in a token that an operand follows. -/
theorem exchanged_of_context {before post : List Token} {last : Token}
    (opens : last.OpensOperand) (eq : tokens ts = before ++ last :: (a ++ post))
    (eq' : tokens us = before ++ last :: (b ++ post)) : Exchanged a b ts us := by
  induction before generalizing ts us with
  | nil =>
    obtain ⟨p, ts, rfl, rest⟩ := tokens_eq_cons eq
    obtain ⟨q, us, rfl, rest'⟩ := tokens_eq_cons eq'
    exact .opened opens rest rest'
  | cons token before ih =>
    obtain ⟨p, ts, rfl, rest⟩ := tokens_eq_cons eq
    obtain ⟨q, us, rfl, rest'⟩ := tokens_eq_cons eq'
    exact .cons (ih rest rest')

/-- Lists that differ only in the exchanged tokens are alike. -/
theorem alike_of_context {pre post : List Token} (opens : ∀ t ∈ pre.getLast?, t.OpensOperand)
    (eq : tokens ts = pre ++ (a ++ post)) (eq' : tokens us = pre ++ (b ++ post)) :
    Alike a b ts us := by
  rcases List.eq_nil_or_concat pre with rfl | ⟨before, last, rfl⟩
  · exact .here eq eq'
  · rw [List.concat_eq_append, List.append_assoc, List.singleton_append] at eq eq'
    exact .later (exchanged_of_context (opens last (by simp)) eq eq')

end

/-! ### Keys in parentheses -/

/-- Tokens that are read, between parentheses, as an expression, or are refused there. -/
def Bracket (k : List Token) (e? : Option Expr) : Prop :=
  ∀ {front rest r : List Located} {q q' : Nat} {e : Expr}, tokens front = k →
    (Reads (expression 0 (front ++ ⟨.rightParen, q⟩ :: rest)) e (⟨.rightParen, q'⟩ :: r) ↔
      e ∈ e? ∧ q' = q ∧ r = rest)

/-- Tokens that form an expression are read as it between parentheses, unless they go on behind an
end of the input. -/
theorem exists_bracket {ts : List Located} {key : Expr} (h : ofTokens ts = .ok key) :
    ∃ e?, Bracket (tokens ts) e? := by
  obtain ⟨-, rest, run, ended⟩ := ofTokens_eq_ok.1 h
  obtain ⟨t, spells, -⟩ := expression_sound run
  have yields := spells.yields
  cases rest with
  | nil =>
    rw [tokens_nil, List.append_nil] at yields
    refine ⟨some t.erase, fun {front rest r q q' e} is => ?_⟩
    have read : Reads (expression 0 (front ++ ⟨.rightParen, q⟩ :: rest)) t.erase
        (⟨.rightParen, q⟩ :: rest) :=
      t.reads spells.grouped (is.trans yields) t.atLeast_zero (t.goesOn_of_closes 0 trivial)
    constructor
    · intro other
      obtain ⟨rfl, same⟩ := read.unique other
      cases same
      exact ⟨rfl, rfl, rfl⟩
    · rintro ⟨⟨⟩, rfl, rfl⟩
      exact read
  | cons z more =>
    -- what is read ends at the end of the input, where no parenthesis closes
    refine ⟨none, fun {front rest r q q' e} is => ?_⟩
    obtain ⟨front, back, rfl, isYield, isRest⟩ := tokens_eq_append (is.trans yields)
    obtain ⟨p, back, rfl, -⟩ := tokens_eq_cons (isRest.trans (tokens_cons z more))
    rw [List.append_assoc, List.cons_append]
    have closes : z.token.Closes := by
      rw [show z.token = .endOfInput from ended]
      trivial
    have read : Reads (expression 0 (front ++ ⟨z.token, p⟩ :: (back ++ ⟨.rightParen, q⟩ :: rest)))
        t.erase (⟨z.token, p⟩ :: (back ++ ⟨.rightParen, q⟩ :: rest)) :=
      t.reads spells.grouped isYield t.atLeast_zero (t.goesOn_of_closes 0 closes)
    constructor
    · intro other
      obtain ⟨-, same⟩ := read.unique other
      have paren : z.token = .rightParen := congrArg Located.token (List.cons.inj same).1
      rw [show z.token = .endOfInput from ended] at paren
      cases paren
    · rintro ⟨⟨⟩, -⟩

theorem TrackerRef.token_inj {ref ref' : TrackerRef} (h : ref.token = ref'.token) :
    ref = ref' := by
  obtain ⟨name, update⟩ := ref
  cases update with
  | false => exact (trackerRead_eq_token.1 h).symm
  | true => exact (trackerUpdate_eq_token.1 h).symm

section

variable {ref : TrackerRef} {p q : Nat} {tail r : List Located} {e : Expr}

/-- A tracker behind a pipe takes what stands in front of it as its key. -/
theorem reads_pipes_cons {key : Expr} :
    Reads (pipes key (⟨.pipe, p⟩ :: ⟨ref.token, q⟩ :: tail)) e r ↔
      Reads (pipes (.mapped ref key) tail) e r := by
  rw [reads_pipes]
  constructor
  · rintro (⟨ref', _, _, _, eq, run⟩ | ⟨noPipe, -⟩)
    · obtain ⟨-, eq⟩ := List.cons.inj eq
      obtain ⟨same, rfl⟩ := List.cons.inj eq
      rwa [TrackerRef.token_inj (congrArg Located.token same)]
    · exact absurd ⟨_, _, rfl⟩ noPipe
  · intro run
    exact .inl ⟨ref, p, q, tail, rfl, run⟩

/-- An operand in parentheses may be piped. -/
theorem reads_operand_paren :
    Reads (operand (⟨.leftParen, p⟩ :: tail)) e r ↔
      ∃ key q mid, Reads (expression 0 tail) key (⟨.rightParen, q⟩ :: mid) ∧
        Reads (pipes key mid) e r := by
  rw [reads_operand]
  constructor
  · rintro (⟨_, _, _, eq, -⟩ | ⟨key, mid, run, more⟩)
    · cases eq
    · rcases reads_primary.1 run with ⟨l, _, eq, -⟩ | ⟨ref, _, _, eq, -⟩ |
        ⟨_, _, _, _, _, eq, -⟩ | ⟨_, _, eq, -⟩ | ⟨_, q, tail, eq, run⟩
      · -- only parentheses begin with one
        cases l <;> cases eq
      · obtain ⟨name, update⟩ := ref
        cases update <;> cases eq
      · cases eq
      · cases eq
      · cases eq
        exact ⟨key, q, mid, run, more⟩
  · rintro ⟨key, q, mid, run, more⟩
    exact .inr ⟨key, mid, reads_primary.2 (.inr (.inr (.inr (.inr ⟨p, q, tail, rfl, run⟩)))), more⟩

/-- A tracker with a key in parentheses may be piped as well. -/
theorem reads_operand_keyed :
    Reads (operand (⟨ref.token, p⟩ :: ⟨.leftParen, q⟩ :: tail)) e r ↔
      ∃ key q mid, Reads (expression 0 tail) key (⟨.rightParen, q⟩ :: mid) ∧
        Reads (pipes (.mapped ref key) mid) e r := by
  rw [reads_operand]
  constructor
  · rintro (⟨_, _, _, eq, -⟩ | ⟨key, mid, run, more⟩)
    · obtain ⟨name, update⟩ := ref
      cases update <;> cases eq
    · rcases reads_primary.1 run with ⟨l, _, eq, -⟩ | ⟨ref', _, tail', eq, run⟩ |
        ⟨_, _, _, _, _, eq, -⟩ | ⟨_, _, eq, -⟩ | ⟨_, _, _, eq, -⟩
      · obtain ⟨name, update⟩ := ref
        cases update <;> cases l <;> cases eq
      · -- a tracker, whose parenthesis is taken for its key
        obtain ⟨same, rfl⟩ := List.cons.inj eq
        obtain rfl := TrackerRef.token_inj (congrArg Located.token same)
        rcases reads_keyed.1 run with ⟨_, q', _, inner, eq, run, rfl⟩ | ⟨noParen, -⟩
        · cases eq
          exact ⟨inner, q', mid, run, more⟩
        · exact absurd ⟨_, _, rfl⟩ noParen
      · obtain ⟨name, update⟩ := ref
        cases update <;> cases eq
      · obtain ⟨name, update⟩ := ref
        cases update <;> cases eq
      · obtain ⟨name, update⟩ := ref
        cases update <;> cases eq
  · rintro ⟨key, q', mid, run, more⟩
    have keyed : Reads (keyed ref (⟨.leftParen, q⟩ :: tail)) (.mapped ref key) mid :=
      reads_keyed.2 (.inl ⟨q, q', tail, key, rfl, run, rfl⟩)
    exact .inr ⟨_, mid, reads_primary.2 (.inr (.inl ⟨ref, p, _, rfl, keyed⟩)), more⟩

end

section

variable {k : List Token} {e? : Option Expr} (h : Bracket k e?) (ref : TrackerRef)

include h

/-- A key in parentheses and a pipe into a tracker. -/
theorem standFor_piped :
    StandFor (.leftParen :: (k ++ [.rightParen, .pipe, ref.token])) (e?.map (.mapped ref)) where
  begins := ⟨_, _, rfl, trivial⟩
  reads := by
    intro front rest r e is
    obtain ⟨p, _, rfl, h₁⟩ := tokens_eq_cons is
    obtain ⟨front, _, rfl, isKey, h₂⟩ := tokens_eq_append h₁
    obtain ⟨q, _, rfl, h₃⟩ := tokens_eq_cons h₂
    obtain ⟨p', _, rfl, h₄⟩ := tokens_eq_cons h₃
    obtain ⟨q', rfl⟩ := tokens_eq_singleton h₄
    rw [List.cons_append, List.append_assoc, reads_operand_paren]
    constructor
    · rintro ⟨key, _, _, read, run⟩
      obtain ⟨mem, rfl, rfl⟩ := (h isKey).1 read
      exact ⟨.mapped ref key, Option.mem_map_of_mem _ mem, reads_pipes_cons.1 run⟩
    · rintro ⟨_, mem, run⟩
      obtain ⟨key, found, rfl⟩ := Option.map_eq_some_iff.1 mem
      exact ⟨key, q, _, (h isKey).2 ⟨found, rfl, rfl⟩, reads_pipes_cons.2 run⟩

/-- A tracker and a key in parentheses. -/
theorem standFor_keyed :
    StandFor (ref.token :: .leftParen :: (k ++ [.rightParen])) (e?.map (.mapped ref)) where
  begins := ⟨_, _, rfl, ref.beginsOperand_token⟩
  reads := by
    intro front rest r e is
    obtain ⟨p, _, rfl, h₁⟩ := tokens_eq_cons is
    obtain ⟨p', _, rfl, h₂⟩ := tokens_eq_cons h₁
    obtain ⟨front, q, rfl, isKey⟩ := tokens_eq_concat h₂
    rw [List.cons_append, List.cons_append, List.append_assoc, reads_operand_keyed]
    constructor
    · rintro ⟨key, _, _, read, run⟩
      obtain ⟨mem, rfl, rfl⟩ := (h isKey).1 read
      exact ⟨.mapped ref key, Option.mem_map_of_mem _ mem, run⟩
    · rintro ⟨_, mem, run⟩
      obtain ⟨key, found, rfl⟩ := Option.map_eq_some_iff.1 mem
      exact ⟨key, q, _, (h isKey).2 ⟨found, rfl, rfl⟩, run⟩

end

/-- **A pipe into a tracker and the tracker with a key are two spellings of one operand.**  Take any
tokens before it that are none or end where an operand follows, any tokens behind it, and a key that
forms an expression by itself: the tokens with the one spelling form an expression if and only if
those with the other do, and it is the same.  Positions have no part in it. -/
theorem Expr.ofTokens_piped_iff_keyed {pre post : List Token} {k piped called : List Located}
    {key : Expr} (ref : TrackerRef) (opens : ∀ t ∈ pre.getLast?, t.OpensOperand)
    (parses : ofTokens k = .ok key)
    (isPiped : tokens piped =
      pre ++ .leftParen :: (tokens k ++ .rightParen :: .pipe :: ref.token :: post))
    (isCalled : tokens called =
      pre ++ ref.token :: .leftParen :: (tokens k ++ .rightParen :: post)) (e : Expr) :
    ofTokens piped = .ok e ↔ ofTokens called = .ok e := by
  -- the key parses alone, so in parentheses it is read as a whole wherever it stands
  obtain ⟨e?, bracket⟩ := exists_bracket parses
  have stand : StandAlike (.leftParen :: (tokens k ++ [.rightParen, .pipe, ref.token]))
      (ref.token :: .leftParen :: (tokens k ++ [.rightParen])) (e?.map (.mapped ref)) :=
    ⟨standFor_piped bracket ref, standFor_keyed bracket ref⟩
  have isPiped' : tokens piped =
      pre ++ (.leftParen :: (tokens k ++ [.rightParen, .pipe, ref.token]) ++ post) := by
    simpa using isPiped
  have isCalled' : tokens called =
      pre ++ (ref.token :: .leftParen :: (tokens k ++ [.rightParen]) ++ post) := by
    simpa using isCalled
  constructor
  · exact ofTokens_of_alike stand (alike_of_context opens isPiped' isCalled')
  · exact ofTokens_of_alike stand.symm (alike_of_context opens isCalled' isPiped')

/-- `FC:f(x, NOT (a + b) | TR:m | TRU:n) > 1` and `FC:f(x, NOT TR:m(a + b) | TRU:n) > 1`: under a
negation in an argument, with another pipe behind. -/
theorem Expr.ofTokens_piped_iff_keyed_argument :
    let pre : List Token := [.foreignCall "f", .leftParen, .identifier "x", .comma, .not]
    let k : List Located :=
      [⟨.identifier "a", 0⟩, ⟨.operator (.plain (.arith .add)), 2⟩, ⟨.identifier "b", 4⟩]
    let post : List Token :=
      [.pipe, .trackerUpdate "n", .rightParen, .operator (.plain .greater), .number 1]
    let key : Expr := .binary (.plain (.arith .add)) (.identifier "a") (.identifier "b")
    let piped : List Located :=
      (pre ++ .leftParen :: (tokens k ++ .rightParen :: .pipe :: .trackerRead "m" :: post)).map
        fun token => ⟨token, 0⟩
    let called : List Located :=
      (pre ++ .trackerRead "m" :: .leftParen :: (tokens k ++ .rightParen :: post)).map
        fun token => ⟨token, 1⟩
    let e : Expr := .binary (.plain .greater)
      (.foreignCall "f" [.identifier "x", .not (.mapped ⟨"n", true⟩ (.mapped ⟨"m", false⟩ key))])
      (.number 1)
    (∀ t ∈ pre.getLast?, t.OpensOperand) ∧ ofTokens k = .ok key ∧
      ofTokens (piped ++ [⟨.endOfInput, 0⟩]) = .ok e ∧
      ofTokens (called ++ [⟨.endOfInput, 1⟩]) = .ok e := by
  intro pre k post key piped called e
  have opens : ∀ t ∈ pre.getLast?, t.OpensOperand := by
    rintro t ⟨⟩
    trivial
  let name (s : String) : Phrase := .primary (.leaf (.identifier s))
  let sum : Phrase := .binary (.plain (.arith .add)) (name "a") (name "b")
  have parses : ofTokens k = .ok key := by
    simp [k, key, ofTokens, next, expression, operand, primary, pipes, climb, BinaryOp.power]
  -- the piped form is parsed by its phrase, the other one by the theorem
  have isPiped : ofTokens (piped ++ [⟨.endOfInput, 0⟩]) = .ok e :=
    ofTokens_complete (t := .binary (.plain .greater)
      (.primary (.callWith "f" (.more (name "x") (.last (.not (.primary
        (.piped (.piped (.paren sum) ⟨"m", false⟩) ⟨"n", true⟩)))))))
      (.primary (.leaf (.number 1)))) (by decide) rfl
  have isCalled : ofTokens (called ++ [⟨.endOfInput, 1⟩]) = .ok e :=
    (@Expr.ofTokens_piped_iff_keyed pre (post ++ [.endOfInput]) k (piped ++ [⟨.endOfInput, 0⟩])
      (called ++ [⟨.endOfInput, 1⟩]) key ⟨"m", false⟩ opens parses rfl rfl e).1 isPiped
  exact ⟨opens, parses, isPiped, isCalled⟩

end RuleCodec
