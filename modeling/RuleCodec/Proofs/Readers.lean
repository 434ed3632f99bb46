/-
RuleCodec/Proofs/Readers.lean

What each reader of the parser can do, said once.

`Reads r e rest` says that a reader succeeded with `e` and left `rest`; the
bound that a `Parsed` carries is forgotten.  For every reader there is one
lemma that lists its successful runs.  Soundness and completeness of the
parser are read off these lists, and nothing else unfolds a reader.
-/
import RuleCodec.Proofs.Grammar

namespace RuleCodec

namespace Expr

/-- A reader succeeds with a value and leaves some tokens. -/
def Reads {α : Type} {n : Nat} (r : Except Error (Parsed Located α n)) (value : α)
    (rest : List Located) : Prop :=
  ∃ p, r = .ok p ∧ p.value = value ∧ p.rest = rest

section Reads

variable {α : Type} {n : Nat} {value : α} {rest : List Located}

@[simp] theorem reads_ok {p : Parsed Located α n} :
    Reads (.ok p) value rest ↔ p.value = value ∧ p.rest = rest := by
  constructor
  · rintro ⟨q, same, hv, hr⟩
    cases same
    exact ⟨hv, hr⟩
  · rintro ⟨hv, hr⟩
    exact ⟨p, rfl, hv, hr⟩

@[simp] theorem reads_error {e : Error} :
    Reads (.error e : Except Error (Parsed Located α n)) value rest ↔ False := by
  constructor
  · rintro ⟨q, same, -⟩
    cases same
  · exact False.elim

/-- What is left is shorter than the bound. -/
theorem Reads.length_lt {r : Except Error (Parsed Located α n)} (h : Reads r value rest) :
    rest.length < n := by
  obtain ⟨p, -, -, rfl⟩ := h
  exact p.short

/-- A reader has at most one result. -/
theorem Reads.unique {r : Except Error (Parsed Located α n)} {value' : α} {rest' : List Located}
    (h : Reads r value rest) (h' : Reads r value' rest') : value = value' ∧ rest = rest' := by
  obtain ⟨p, rfl, rfl, rfl⟩ := h
  exact reads_ok.1 h'

end Reads

variable {least opened : Nat} {ts rest : List Located} {e : Expr}

/-! ### Single tokens -/

/-- A closing parenthesis is read where it comes next. -/
theorem reads_closing {u : Unit} :
    Reads (closing opened ts) u rest ↔ ∃ position, ts = ⟨.rightParen, position⟩ :: rest := by
  unfold closing
  split
  · simp
  · rename_i other
    simp only [reads_error, false_iff, not_exists]
    rintro position rfl
    exact other _ _ rfl

/-- Arguments are separated by a comma, behind which they go on, and end at a parenthesis. -/
theorem reads_separator {more : Bool} :
    Reads (separator ts) more rest ↔
      ∃ position, (more = true ∧ ts = ⟨.comma, position⟩ :: rest) ∨
        (more = false ∧ ts = ⟨.rightParen, position⟩ :: rest) := by
  unfold separator
  split
  · simp [eq_comm]
  · simp [eq_comm]
  · rename_i noComma noParen
    simp only [reads_error, false_iff, not_exists]
    rintro position (⟨-, rfl⟩ | ⟨-, rfl⟩)
    · exact noComma _ _ rfl
    · exact noParen _ _ rfl

/-! ### Pipes -/

/-- The tokens begin with a pipe. -/
def BeginsPipe (ts : List Located) : Prop :=
  ∃ position rest, ts = ⟨.pipe, position⟩ :: rest

/-- The tokens begin with an opening parenthesis. -/
def BeginsParen (ts : List Located) : Prop :=
  ∃ position rest, ts = ⟨.leftParen, position⟩ :: rest

theorem trackerRead_eq_token {name : String} {ref : TrackerRef} :
    Token.trackerRead name = ref.token ↔ ref = ⟨name, false⟩ := by
  obtain ⟨other, update⟩ := ref
  cases update <;> simp [TrackerRef.token, eq_comm]

theorem trackerUpdate_eq_token {name : String} {ref : TrackerRef} :
    Token.trackerUpdate name = ref.token ↔ ref = ⟨name, true⟩ := by
  obtain ⟨other, update⟩ := ref
  cases update <;> simp [TrackerRef.token, eq_comm]

/-- Pipes are read as long as there are any. -/
theorem reads_pipes {key : Expr} :
    Reads (pipes key ts) e rest ↔
      (∃ ref p q tail, ts = ⟨.pipe, p⟩ :: ⟨TrackerRef.token ref, q⟩ :: tail ∧
        Reads (pipes (.mapped ref key) tail) e rest) ∨
      (¬ BeginsPipe ts ∧ rest = ts ∧ e = key) := by
  rw [pipes.eq_def]
  split
  · -- a pipe into a tracker that is read
    rename_i p name q tail
    rcases h : pipes (.mapped ⟨name, false⟩ key) tail with _ | all
    · simp [BeginsPipe, trackerRead_eq_token, and_assoc, h]
    · simp [BeginsPipe, trackerRead_eq_token, and_assoc, h]
  · -- and into one that is updated
    rename_i p name q tail
    rcases h : pipes (.mapped ⟨name, true⟩ key) tail with _ | all
    · simp [BeginsPipe, trackerUpdate_eq_token, and_assoc, h]
    · simp [BeginsPipe, trackerUpdate_eq_token, and_assoc, h]
  · -- a pipe must lead into a tracker
    rename_i p tail noRead noUpdate
    simp only [reads_error, false_iff, BeginsPipe]
    rintro (⟨⟨name, update⟩, p', q, tail', same, -⟩ | ⟨none, -⟩)
    · cases update with
      | false => exact noRead _ _ _ (List.cons.inj same).2
      | true => exact noUpdate _ _ _ (List.cons.inj same).2
    · exact none ⟨_, _, rfl⟩
  -- no pipe: the key is all there is
  · rename_i noPipe
    have none : ¬ BeginsPipe ts := by
      rintro ⟨p, tail, rfl⟩
      exact noPipe _ _ rfl
    simp only [reads_ok, none, not_false_eq_true, true_and]
    constructor
    · rintro ⟨rfl, rfl⟩
      exact .inr ⟨rfl, rfl⟩
    · rintro (⟨ref, p, q, tail, rfl, -⟩ | ⟨rfl, rfl⟩)
      · exact absurd ⟨_, _, rfl⟩ none
      · exact ⟨rfl, rfl⟩

/-! ### Expressions -/

/-- An expression is an operand and what follows it. -/
theorem reads_expression :
    Reads (expression least ts) e rest ↔
      ∃ left mid, Reads (operand ts) left mid ∧ Reads (climb least left mid) e rest := by
  rw [expression]
  rcases operand ts with _ | left
  · simp
  · rcases h : climb least left.value left.rest with _ | all
    · simp [and_assoc, h]
    · simp [and_assoc, h]

/-- The power of the operator that the tokens begin with. -/
def nextPower? : List Located → Option Nat
  | ⟨.operator op, _⟩ :: _ => some op.power
  | _ => none

/-- Climbing goes on while the next operator is tight enough. -/
theorem reads_climb {left : Expr} :
    Reads (climb least left ts) e rest ↔
      (∃ op position tail right mid, ts = ⟨.operator op, position⟩ :: tail ∧
        least ≤ op.power ∧ Reads (expression op.power tail) right mid ∧
        Reads (climb least (.binary op left right) mid) e rest) ∨
      ((∀ power ∈ nextPower? ts, power < least) ∧ rest = ts ∧ e = left) := by
  rw [climb.eq_def]
  split
  · rename_i op position tail
    by_cases tight : least ≤ op.power
    · -- the operator is taken with its right operand, and climbing goes on
      have loose : ¬ op.power < least := Nat.not_lt.2 tight
      rw [if_pos tight]
      rcases h : expression op.power tail with _ | right
      · simp [nextPower?, and_assoc, tight, loose, h]
      · rcases h' : climb least (.binary op left right.value) right.rest with _ | all
        · simp [nextPower?, and_assoc, tight, loose, h, h']
        · simp [nextPower?, and_assoc, tight, loose, h, h']
    · -- the operator is left for a looser context
      rw [if_neg tight]
      simp only [reads_ok, List.cons.injEq, Located.mk.injEq, Token.operator.injEq]
      constructor
      · rintro ⟨rfl, rfl⟩
        exact .inr ⟨by simpa [nextPower?] using tight, rfl, rfl⟩
      · rintro (⟨op, _, _, _, _, ⟨⟨rfl, -⟩, -⟩, tight', -⟩ | ⟨-, rfl, rfl⟩)
        · exact absurd tight' tight
        · exact ⟨rfl, rfl⟩
  -- no operator follows at all
  · rename_i noOperator
    rw [reads_ok]
    constructor
    · rintro ⟨rfl, rfl⟩
      refine .inr ⟨?_, rfl, rfl⟩
      unfold nextPower?
      split
      · exact absurd rfl (noOperator _ _ _)
      · simp
    · rintro (⟨op, position, tail, _, _, rfl, -⟩ | ⟨-, rfl, rfl⟩)
      · exact absurd rfl (noOperator _ _ _)
      · exact ⟨rfl, rfl⟩

/-! ### Operands -/

/-- A global variable is found by its name. -/
theorem ofName?_name (which : GlobalVariable) :
    GlobalVariable.ofName? which.name = some which := by
  cases which <;> decide

/-- It has only that name. -/
theorem name_of_ofName? {name : String} {which : GlobalVariable}
    (h : GlobalVariable.ofName? name = some which) : name = which.name := by
  have same := List.find?_some h
  exact (eq_of_beq same).symm

/-- A primary phrase is a leaf, a tracker with or without a key, a foreign
call with or without arguments, or an expression in parentheses. -/
theorem reads_primary :
    Reads (primary ts) e rest ↔
      (∃ l p, ts = ⟨Leaf.token l, p⟩ :: rest ∧ e = l.erase) ∨
      (∃ ref p tail, ts = ⟨TrackerRef.token ref, p⟩ :: tail ∧
        Reads (keyed ref tail) e rest) ∨
      (∃ name p q tail args, ts = ⟨.foreignCall name, p⟩ :: ⟨.leftParen, q⟩ :: tail ∧
        Reads (arguments name q tail) args rest ∧ e = .foreignCall name args) ∨
      (∃ name p, ts = ⟨.foreignCall name, p⟩ :: rest ∧ ¬ BeginsParen rest ∧
        e = .foreignCall name []) ∨
      (∃ p q tail, ts = ⟨.leftParen, p⟩ :: tail ∧
        Reads (expression 0 tail) e (⟨.rightParen, q⟩ :: rest)) := by
  constructor
  · intro h
    rw [primary.eq_def] at h
    split at h
    -- leaves of one token
    · obtain ⟨rfl, rfl⟩ := reads_ok.1 h
      exact .inl ⟨.number _, _, rfl, rfl⟩
    · obtain ⟨rfl, rfl⟩ := reads_ok.1 h
      exact .inl ⟨.address _, _, rfl, rfl⟩
    · obtain ⟨rfl, rfl⟩ := reads_ok.1 h
      exact .inl ⟨.bytes _, _, rfl, rfl⟩
    · obtain ⟨rfl, rfl⟩ := reads_ok.1 h
      exact .inl ⟨.text _, _, rfl, rfl⟩
    · obtain ⟨rfl, rfl⟩ := reads_ok.1 h
      exact .inl ⟨.boolean _, _, rfl, rfl⟩
    · obtain ⟨rfl, rfl⟩ := reads_ok.1 h
      exact .inl ⟨.identifier _, _, rfl, rfl⟩
    · -- a global variable, if there is one of the name
      rename_i name p tail
      rcases found : GlobalVariable.ofName? name with _ | which
      · simp [found] at h
      · rw [found] at h
        obtain ⟨rfl, rfl⟩ := reads_ok.1 h
        refine .inl ⟨.global which, p, ?_, rfl⟩
        rw [name_of_ofName? found, Leaf.token]
    · -- a tracker that is read
      rename_i name p tail
      refine .inr (.inl ⟨⟨name, false⟩, p, tail, rfl, ?_⟩)
      rcases run : keyed ⟨name, false⟩ tail with _ | all
      · simp [run] at h
      · simpa [run] using h
    · -- a tracker that is updated
      rename_i name p tail
      refine .inr (.inl ⟨⟨name, true⟩, p, tail, rfl, ?_⟩)
      rcases run : keyed ⟨name, true⟩ tail with _ | all
      · simp [run] at h
      · simpa [run] using h
    · -- a call with arguments
      rename_i name p q tail
      rcases run : arguments name q tail with _ | all
      · simp [run] at h
      · rw [run] at h
        obtain ⟨rfl, rfl⟩ := reads_ok.1 h
        exact .inr (.inr (.inl ⟨name, p, q, tail, all.value, rfl, by simp [run], rfl⟩))
    · -- a call without
      rename_i name p tail noParen
      obtain ⟨rfl, rfl⟩ := reads_ok.1 h
      refine .inr (.inr (.inr (.inl ⟨name, p, rfl, ?_, rfl⟩)))
      rintro ⟨q, more, rfl⟩
      exact noParen _ _ rfl
    · -- an expression in parentheses
      rename_i p tail
      rcases run : expression 0 tail with _ | inner
      · simp [run] at h
      · rcases close : closing p inner.rest with _ | after
        · simp [run, close] at h
        · simp only [run, close, reads_ok] at h
          obtain ⟨rfl, rfl⟩ := h
          obtain ⟨q, eq⟩ := (reads_closing (u := ())).1 ⟨after, close, rfl, rfl⟩
          exact .inr (.inr (.inr (.inr ⟨p, q, tail, rfl, inner, run, rfl, eq⟩)))
    · simp at h
  · rintro (⟨l, p, rfl, rfl⟩ | ⟨⟨name, update⟩, p, tail, rfl, all, run, rfl, rfl⟩ |
      ⟨name, p, q, tail, args, rfl, ⟨all, run, rfl, rfl⟩, rfl⟩ | ⟨name, p, rfl, noParen, rfl⟩ |
      ⟨p, q, tail, rfl, inner, run, rfl, eq⟩)
    · cases l with
      | global which => simp [Leaf.token, Leaf.erase, primary, ofName?_name]
      | _ => simp [Leaf.token, Leaf.erase, primary]
    · cases update <;> simp [TrackerRef.token, primary, run]
    · simp [primary, run]
    · cases rest with
      | nil => simp [primary]
      | cons t more =>
        obtain ⟨token, q⟩ := t
        have ne : token ≠ .leftParen := by
          rintro rfl
          exact noParen ⟨q, more, rfl⟩
        simp [primary, ne]
    · have close : Reads (closing p inner.rest) () rest := reads_closing.2 ⟨q, eq⟩
      obtain ⟨after, closed, -, rfl⟩ := close
      simp [primary, run, closed]

/-- A key is read where a parenthesis opens. -/
theorem reads_keyed {ref : TrackerRef} :
    Reads (keyed ref ts) e rest ↔
      (∃ p q tail key, ts = ⟨.leftParen, p⟩ :: tail ∧
        Reads (expression 0 tail) key (⟨.rightParen, q⟩ :: rest) ∧ e = .mapped ref key) ∨
      (¬ BeginsParen ts ∧ rest = ts ∧ e = .tracker ref) := by
  rw [keyed.eq_def]
  split
  · -- a parenthesis opens a key, which has to be closed
    rename_i p tail
    constructor
    · intro h
      rcases run : expression 0 tail with _ | key
      · simp [run] at h
      · rcases close : closing p key.rest with _ | after
        · simp [run, close] at h
        · simp only [run, close, reads_ok] at h
          obtain ⟨rfl, rfl⟩ := h
          obtain ⟨q, eq⟩ := (reads_closing (u := ())).1 ⟨after, close, rfl, rfl⟩
          exact .inl ⟨p, q, tail, key.value, rfl, ⟨key, run, rfl, eq⟩, rfl⟩
    · rintro (⟨p', q, tail', key, same, ⟨read, run, rfl, eq⟩, rfl⟩ | ⟨none, -⟩)
      · cases same
        have close : Reads (closing p read.rest) () rest := reads_closing.2 ⟨q, eq⟩
        obtain ⟨after, closed, -, rfl⟩ := close
        simp [run, closed]
      · exact absurd ⟨_, _, rfl⟩ none
  · rename_i noParen
    have none : ∀ p tail, ts ≠ ⟨.leftParen, p⟩ :: tail := fun p tail => noParen p tail
    simp [BeginsParen, none, eq_comm, and_comm]

/-- A negation takes an expression above the logical operators; anything else
is a primary phrase and its pipes. -/
theorem reads_operand :
    Reads (operand ts) e rest ↔
      (∃ p tail inner, ts = ⟨.not, p⟩ :: tail ∧
        Reads (expression negationPower tail) inner rest ∧ e = .not inner) ∨
      (∃ key mid, Reads (primary ts) key mid ∧ Reads (pipes key mid) e rest) := by
  rw [operand.eq_def]
  split
  · rename_i p tail
    -- no primary begins with `NOT`
    have none : ∀ key mid, ¬ Reads (primary (⟨.not, p⟩ :: tail)) key mid := by
      simp [primary]
    rcases run : expression negationPower tail with _ | inner
    · simp [none, and_assoc, run]
    · simp [none, and_assoc, run, eq_comm, and_comm]
  · rename_i noNot
    have none : ∀ p tail, ts ≠ ⟨.not, p⟩ :: tail := fun p tail => noNot p tail
    rcases run : primary ts with _ | key
    · simp [none]
    · rcases run' : pipes key.value key.rest with _ | all
      · simp [none, run', and_assoc]
      · simp [none, run', and_assoc]

/-- Arguments end at a closing parenthesis, which may follow a comma. -/
theorem reads_arguments {name : String} {args : List Expr} :
    Reads (arguments name opened ts) args rest ↔
      (∃ p, ts = ⟨.rightParen, p⟩ :: rest ∧ args = []) ∨
      ((next ts).token ≠ .rightParen ∧ (next ts).token ≠ .endOfInput ∧
        ∃ one p, (∃ mid more, Reads (expression 0 ts) one (⟨.comma, p⟩ :: mid) ∧
            Reads (arguments name opened mid) more rest ∧ args = one :: more) ∨
          (Reads (expression 0 ts) one (⟨.rightParen, p⟩ :: rest) ∧ args = [one])) := by
  rw [arguments.eq_def]
  split
  · rename_i ended
    simp only [reads_error, false_iff]
    rintro (⟨p, rfl, -⟩ | ⟨-, notEnd, -⟩)
    · simp [next] at ended
    · exact notEnd ended
  · -- the parenthesis closes at once, or behind a comma
    rename_i closes
    constructor
    · intro h
      rcases close : closing opened ts with _ | after
      · simp [close] at h
      · simp only [close, reads_ok] at h
        obtain ⟨rfl, rfl⟩ := h
        obtain ⟨p, eq⟩ := (reads_closing (u := ())).1 ⟨after, close, rfl, rfl⟩
        exact .inl ⟨p, eq, rfl⟩
    · rintro (⟨p, eq, rfl⟩ | ⟨notParen, -⟩)
      · have close : Reads (closing opened ts) () rest := reads_closing.2 ⟨p, eq⟩
        obtain ⟨after, closed, -, rfl⟩ := close
        simp [closed]
      · exact absurd closes notParen
  · -- an argument, and then a comma or the closing parenthesis
    rename_i notEnd notParen
    constructor
    · intro h
      refine .inr ⟨notParen, notEnd, ?_⟩
      rcases run : expression 0 ts with _ | one
      · simp [run] at h
      · rcases sep : separator one.rest with _ | behind
        · simp [run, sep] at h
        · obtain ⟨p, ⟨more, eq⟩ | ⟨more, eq⟩⟩ :=
            reads_separator.1 ⟨behind, sep, rfl, rfl⟩
          · rcases run' : arguments name opened behind.rest with _ | others
            · simp [run, sep, more, run'] at h
            · simp only [run, sep, more, run', if_true, reads_ok] at h
              obtain ⟨rfl, rfl⟩ := h
              exact ⟨one.value, p, .inl ⟨behind.rest, others.value,
                ⟨one, rfl, rfl, eq⟩, ⟨others, run', rfl, rfl⟩, rfl⟩⟩
          · simp only [run, sep, more, if_false, Bool.false_eq_true, reads_ok] at h
            obtain ⟨rfl, rfl⟩ := h
            exact ⟨one.value, p, .inr ⟨⟨one, rfl, rfl, eq⟩, rfl⟩⟩
    · rintro (⟨p, rfl, -⟩ | ⟨-, -, one, p,
        ⟨mid, more, ⟨read, run, rfl, eq⟩, ⟨others, run', rfl, rfl⟩, rfl⟩ |
        ⟨⟨read, run, rfl, eq⟩, rfl⟩⟩)
      · simp [next] at notParen
      · have sep : Reads (separator read.rest) true mid := reads_separator.2 ⟨p, .inl ⟨rfl, eq⟩⟩
        obtain ⟨behind, seen, more, rfl⟩ := sep
        simp [run, seen, more, run']
      · have sep : Reads (separator read.rest) false rest :=
          reads_separator.2 ⟨p, .inr ⟨rfl, eq⟩⟩
        obtain ⟨behind, seen, more, rfl⟩ := sep
        simp [run, seen, more]

end Expr

end RuleCodec
