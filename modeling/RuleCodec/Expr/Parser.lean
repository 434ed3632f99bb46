/-
RuleCodec/Expr/Parser.lean

Reading tokens as an expression, by precedence climbing.

Design.  Every reader takes a list of tokens and gives back what it read and the tokens that are
left, with the proof that something was taken: `Parsed` carries it, and the recursion ends because
of it.  Where one reader calls another on the same tokens, the other has the lower rank, and the
measure is four times the number of tokens plus the rank.

A list that runs out and a list whose next token is the end of the input read alike, so tokens
behind the first end of the input are never seen.
-/
import RuleCodec.Expr
import RuleCodec.Parsed

namespace RuleCodec

namespace Expr

/-- The next token; the end of the input at position zero when there is none. -/
def next : List Located → Located
  | [] => ⟨.endOfInput, 0⟩
  | t :: _ => t

/-- Reads the parenthesis that closes the one at position `opened`. -/
def closing (opened : Nat) (ts : List Located) : Except Error (Parsed Located Unit ts.length) :=
  match ts with
  | ⟨.rightParen, _⟩ :: rest => .ok ⟨(), rest, by simp⟩
  | ts => .error (.malformed (.unbalanced opened (next ts).token) (next ts).position)

/-- Reads what stands behind an argument: a comma, after which the list goes on, or the closing
parenthesis. -/
def separator (ts : List Located) : Except Error (Parsed Located Bool ts.length) :=
  match ts with
  | ⟨.comma, _⟩ :: rest => .ok ⟨true, rest, by simp⟩
  | ⟨.rightParen, _⟩ :: rest => .ok ⟨false, rest, by simp⟩
  | ts => .error (.malformed (.expectedSeparator (next ts).token) (next ts).position)

/-- Reads any number of `| TR:name`, each of which takes what stands before it as its key. -/
def pipes (key : Expr) (ts : List Located) : Except Error (Parsed Located Expr (ts.length + 1)) :=
  match ts with
  | ⟨.pipe, _⟩ :: ⟨.trackerRead name, _⟩ :: rest =>
    match pipes (.mapped ⟨name, false⟩ key) rest with
    | .error e => .error e
    | .ok all => .ok ⟨all.value, all.rest, by have := all.short; simp; omega⟩
  | ⟨.pipe, _⟩ :: ⟨.trackerUpdate name, _⟩ :: rest =>
    match pipes (.mapped ⟨name, true⟩ key) rest with
    | .error e => .error e
    | .ok all => .ok ⟨all.value, all.rest, by have := all.short; simp; omega⟩
  | ⟨.pipe, _⟩ :: rest =>
    .error (.malformed (.expectedTracker (next rest).token) (next rest).position)
  | ts => .ok ⟨key, ts, by simp⟩

mutual

/-- Reads an expression whose bare operators bind at least as tightly as `least`. -/
def expression (least : Nat) (ts : List Located) : Except Error (Parsed Located Expr ts.length) :=
  match operand ts with
  | .error e => .error e
  | .ok left =>
    match climb least left.value left.rest with
    | .error e => .error e
    | .ok all => .ok ⟨all.value, all.rest, by have := left.short; have := all.short; omega⟩
termination_by 4 * ts.length + 2
decreasing_by
  · omega
  · have := left.short; omega

/-- Reads on behind a left operand, as long as the operators bind tightly enough. -/
def climb (least : Nat) (left : Expr) (ts : List Located) :
    Except Error (Parsed Located Expr (ts.length + 1)) :=
  match ts with
  | ⟨.operator op, position⟩ :: rest =>
    if least ≤ op.power then
      match expression op.power rest with
      | .error e => .error e
      | .ok right =>
        match climb least (.binary op left right.value) right.rest with
        | .error e => .error e
        | .ok all =>
          .ok ⟨all.value, all.rest, by
            have := right.short; have := all.short; simp only [List.length_cons]; omega⟩
    else .ok ⟨left, ⟨.operator op, position⟩ :: rest, by simp⟩
  | ts => .ok ⟨left, ts, by simp⟩
termination_by 4 * ts.length
decreasing_by
  · simp only [List.length_cons]; omega
  · have := right.short; simp only [List.length_cons]; omega

/-- Reads a negation, or a primary expression and the pipes behind it. -/
def operand (ts : List Located) : Except Error (Parsed Located Expr ts.length) :=
  match ts with
  | ⟨.not, _⟩ :: rest =>
    match expression negationPower rest with
    | .error e => .error e
    | .ok inner =>
      .ok ⟨.not inner.value, inner.rest, by
        have := inner.short; simp only [List.length_cons]; omega⟩
  | ts =>
    match primary ts with
    | .error e => .error e
    | .ok key =>
      match pipes key.value key.rest with
      | .error e => .error e
      | .ok all => .ok ⟨all.value, all.rest, by have := key.short; have := all.short; omega⟩
termination_by 4 * ts.length + 1
decreasing_by
  · simp only [List.length_cons]; omega
  · omega

/-- Reads a literal, a name, a reference or a parenthesised expression. -/
def primary (ts : List Located) : Except Error (Parsed Located Expr ts.length) :=
  match ts with
  | ⟨.number value, _⟩ :: rest => .ok ⟨.number value, rest, by simp⟩
  | ⟨.address value, _⟩ :: rest => .ok ⟨.address value, rest, by simp⟩
  | ⟨.bytes value, _⟩ :: rest => .ok ⟨.bytes value, rest, by simp⟩
  | ⟨.text value, _⟩ :: rest => .ok ⟨.text value, rest, by simp⟩
  | ⟨.boolean value, _⟩ :: rest => .ok ⟨.boolean value, rest, by simp⟩
  | ⟨.identifier name, _⟩ :: rest => .ok ⟨.identifier name, rest, by simp⟩
  | ⟨.globalVariable name, _⟩ :: rest =>
    match GlobalVariable.ofName? name with
    | some which => .ok ⟨.global which, rest, by simp⟩
    | none => .error (.unresolved ("GV:" ++ name) .globalVariable)
  | ⟨.trackerRead name, _⟩ :: rest =>
    match keyed ⟨name, false⟩ rest with
    | .error e => .error e
    | .ok all => .ok ⟨all.value, all.rest, by have := all.short; simpa using this⟩
  | ⟨.trackerUpdate name, _⟩ :: rest =>
    match keyed ⟨name, true⟩ rest with
    | .error e => .error e
    | .ok all => .ok ⟨all.value, all.rest, by have := all.short; simpa using this⟩
  | ⟨.foreignCall name, _⟩ :: ⟨.leftParen, opened⟩ :: rest =>
    match arguments name opened rest with
    | .error e => .error e
    | .ok all =>
      .ok ⟨.foreignCall name all.value, all.rest, by
        have := all.short; simp only [List.length_cons]; omega⟩
  | ⟨.foreignCall name, _⟩ :: rest => .ok ⟨.foreignCall name [], rest, by simp⟩
  | ⟨.leftParen, opened⟩ :: rest =>
    match expression 0 rest with
    | .error e => .error e
    | .ok inner =>
      match closing opened inner.rest with
      | .error e => .error e
      | .ok close =>
        .ok ⟨inner.value, close.rest, by
          have := inner.short; have := close.short; simp only [List.length_cons]; omega⟩
  | ts => .error (.malformed (.expectedOperand (next ts).token) (next ts).position)
termination_by 4 * ts.length
decreasing_by all_goals simp only [List.length_cons]; omega

/-- Reads the parenthesised key of a tracker, if there is one. -/
def keyed (ref : TrackerRef) (ts : List Located) :
    Except Error (Parsed Located Expr (ts.length + 1)) :=
  match ts with
  | ⟨.leftParen, opened⟩ :: rest =>
    match expression 0 rest with
    | .error e => .error e
    | .ok key =>
      match closing opened key.rest with
      | .error e => .error e
      | .ok close =>
        .ok ⟨.mapped ref key.value, close.rest, by
          have := key.short; have := close.short; simp only [List.length_cons]; omega⟩
  | ts => .ok ⟨.tracker ref, ts, by simp⟩
termination_by 4 * ts.length
decreasing_by simp only [List.length_cons]; omega

/-- Reads the arguments of a foreign call up to and with the closing parenthesis.  A comma may
stand behind the last argument. -/
def arguments (name : String) (opened : Nat) (ts : List Located) :
    Except Error (Parsed Located (List Expr) ts.length) :=
  match (next ts).token with
  | .endOfInput => .error (.malformed (.unclosedArguments name) opened)
  | .rightParen =>
    match closing opened ts with
    | .error e => .error e
    | .ok close => .ok ⟨[], close.rest, close.short⟩
  | _ =>
    match expression 0 ts with
    | .error e => .error e
    | .ok one =>
      match separator one.rest with
      | .error e => .error e
      | .ok behind =>
        if behind.value then
          match arguments name opened behind.rest with
          | .error e => .error e
          | .ok more =>
            .ok ⟨one.value :: more.value, more.rest, by
              have := one.short; have := behind.short; have := more.short; omega⟩
        else .ok ⟨[one.value], behind.rest, by have := one.short; have := behind.short; omega⟩
termination_by 4 * ts.length + 3
decreasing_by
  · omega
  · have := one.short; have := behind.short; omega

end

/-- The expression that a list of tokens forms as a whole. -/
def ofTokens (ts : List Located) : Except Error Expr :=
  if (next ts).token = .endOfInput then .error (.malformed .emptyExpression (next ts).position)
  else
    match expression 0 ts with
    | .error e => .error e
    | .ok all =>
      if (next all.rest).token = .endOfInput then .ok all.value
      else
        .error (.malformed (.unexpectedToken (next all.rest).token) (next all.rest).position)

/-- The expression that a text forms. -/
def parse (source : String) : Except Error Expr := do
  ofTokens (← Token.scan source)

end Expr

end RuleCodec
