/-
RuleCodec/Proofs/Refusals.lean

What a rule is not refused for.

A tracker or a foreign call that is in no table is noticed when an expression
is resolved.  Every other step of compiling has reasons of its own to fail, and
none of them is such a name (`MissesNothing`): a text is refused for its
characters, its tokens or its form, a type for its name, an expression for its
shape, and an opcode for having no number.  The one name that reading refuses
by itself is that of a global variable.
-/
import RuleCodec.Effect
import RuleCodec.Expr.Normal
import RuleCodec.Proofs.Shapes

namespace RuleCodec

/-- Whether an error is a tracker or a foreign call that is in no table. -/
def Error.isMissing : Error → Bool
  | unresolved _ .tracker | unresolved _ .foreignCall => true
  | _ => false

/-- Whatever the step fails for, it is no tracker and no foreign call that is missing. -/
def MissesNothing {α : Type} (x : Except Error α) : Prop :=
  ∀ err, x = .error err → err.isMissing = false

section

variable {α β : Type}

theorem missesNothing_ok (a : α) : MissesNothing (.ok a) := by
  intro err h
  cases h

theorem missesNothing_error {err : Error} (other : err.isMissing = false) :
    MissesNothing (.error err : Except Error α) := by
  intro err' h
  cases h
  exact other

/-- An error that is passed on. -/
theorem MissesNothing.error {x : Except Error α} (h : MissesNothing x) {err : Error}
    (fails : x = .error err) : MissesNothing (.error err : Except Error β) :=
  missesNothing_error (h err fails)

/-- Steps that miss nothing miss nothing in sequence. -/
theorem MissesNothing.bind {x : Except Error α} {f : α → Except Error β} (h : MissesNothing x)
    (later : ∀ a, x = .ok a → MissesNothing (f a)) : MissesNothing (x >>= f) := by
  intro err fails
  rcases bind_eq_error.1 fails with now | ⟨a, done, fails⟩
  · exact h err now
  · exact later a done err fails

/-- Neither do they over a list. -/
theorem missesNothing_mapM {f : α → Except Error β} (h : ∀ a, MissesNothing (f a)) (xs : List α) :
    MissesNothing (xs.mapM f) := by
  intro err fails
  obtain ⟨-, x, -, -, -, fails⟩ := exists_of_mapM_eq_error fails
  exact h x err fails

end

/-! ### Tokens -/

namespace Lexeme

theorem missesNothing_word (position : Nat) (c : Char) (rest : List Char) :
    MissesNothing (word position c rest) := by
  unfold word
  simp only
  split
  · split
    · exact missesNothing_error rfl
    · split
      · exact missesNothing_ok _
      · exact missesNothing_error rfl
  · exact missesNothing_ok _

theorem missesNothing_text (position : Nat) (quote : Char) (rest : List Char) :
    MissesNothing (text position quote rest) := by
  unfold text
  split
  · exact missesNothing_ok _
  · exact missesNothing_error rfl

theorem missesNothing_hex (position : Nat) (rest : List Char) :
    MissesNothing (hex position rest) := by
  unfold hex
  simp only
  split
  · exact missesNothing_error rfl
  · split
    · split
      · exact missesNothing_ok _
      · exact missesNothing_error rfl
    · split
      · exact missesNothing_ok _
      · exact missesNothing_error rfl

theorem missesNothing_number (position : Nat) (c : Char) (rest : List Char) :
    MissesNothing (number position c rest) := by
  unfold number
  simp only
  split
  · exact missesNothing_error rfl
  · split
    · exact missesNothing_ok _
    · exact missesNothing_error rfl

theorem missesNothing_numeral (position : Nat) (c : Char) (rest : List Char) :
    MissesNothing (numeral position c rest) := by
  unfold numeral
  split
  · split
    · exact missesNothing_hex _ _
    · exact missesNothing_number _ _ _
  · exact missesNothing_number _ _ _

/-- No token misses a symbol, whichever it is. -/
theorem missesNothing_first (position : Nat) (c : Char) (rest : List Char) :
    MissesNothing (first position c rest) := by
  unfold first
  split
  · exact missesNothing_ok _
  · split
    · split
      · exact missesNothing_ok _
      · exact missesNothing_ok _
    · split_ifs
      · exact missesNothing_ok _
      · exact missesNothing_text _ _ _
      · exact missesNothing_numeral _ _ _
      · exact missesNothing_word _ _ _
      · exact missesNothing_error rfl

end Lexeme

/-- Scanning looks at characters only. -/
theorem Token.missesNothing_scan (source : String) : MissesNothing (Token.scan source) := by
  unfold Token.scan
  generalize source.toList = cs
  generalize 0 = position
  fun_induction Token.scanFrom position cs with
  | case1 => exact missesNothing_ok _
  | case2 _ _ _ _ ih => exact ih
  | case3 position c cs _ err fails => exact (Lexeme.missesNothing_first position c cs).error fails
  | case4 _ _ _ _ _ _ err fails ih => exact ih.error fails
  | case5 => exact missesNothing_ok _

/-! ### Expressions -/

namespace Expr

theorem missesNothing_closing (opened : Nat) (ts : List Located) :
    MissesNothing (closing opened ts) := by
  unfold closing
  split
  · exact missesNothing_ok _
  · exact missesNothing_error rfl

theorem missesNothing_separator (ts : List Located) : MissesNothing (separator ts) := by
  unfold separator
  split
  · exact missesNothing_ok _
  · exact missesNothing_ok _
  · exact missesNothing_error rfl

theorem missesNothing_pipes (key : Expr) (ts : List Located) : MissesNothing (pipes key ts) := by
  rw [pipes.eq_def]
  split
  · rename_i name _ rest
    split
    · rename_i fails
      exact (missesNothing_pipes (.mapped ⟨name, false⟩ key) rest).error fails
    · exact missesNothing_ok _
  · rename_i name _ rest
    split
    · rename_i fails
      exact (missesNothing_pipes (.mapped ⟨name, true⟩ key) rest).error fails
    · exact missesNothing_ok _
  · exact missesNothing_error rfl
  · exact missesNothing_ok _
termination_by ts.length

mutual

/-- Reading an expression looks at tokens only, and so do all its readers. -/
theorem missesNothing_expression (least : Nat) (ts : List Located) :
    MissesNothing (expression least ts) := by
  rw [expression]
  split
  · rename_i fails
    exact (missesNothing_operand ts).error fails
  · rename_i left _
    have shorter := left.short
    split
    · rename_i fails
      exact (missesNothing_climb least left.value left.rest).error fails
    · exact missesNothing_ok _
termination_by 4 * ts.length + 2

theorem missesNothing_climb (least : Nat) (left : Expr) (ts : List Located) :
    MissesNothing (climb least left ts) := by
  rw [climb.eq_def]
  split
  · rename_i op position rest
    split
    · split
      · rename_i fails
        exact (missesNothing_expression op.power rest).error fails
      · rename_i right _
        -- the operator and its right operand are passed
        have shorter := right.short
        split
        · rename_i fails
          exact (missesNothing_climb least (.binary op left right.value) right.rest).error fails
        · exact missesNothing_ok _
    · exact missesNothing_ok _
  · exact missesNothing_ok _
termination_by 4 * ts.length
decreasing_by all_goals subst_vars; simp only [List.length_cons]; omega

theorem missesNothing_operand (ts : List Located) : MissesNothing (operand ts) := by
  rw [operand.eq_def]
  split
  · rename_i rest
    split
    · rename_i fails
      exact (missesNothing_expression negationPower rest).error fails
    · exact missesNothing_ok _
  · split
    · rename_i fails
      exact (missesNothing_primary ts).error fails
    · split
      · rename_i fails
        exact (missesNothing_pipes _ _).error fails
      · exact missesNothing_ok _
termination_by 4 * ts.length + 1

theorem missesNothing_primary (ts : List Located) : MissesNothing (primary ts) := by
  rw [primary.eq_def]
  split
  -- literals and bare names
  · exact missesNothing_ok _
  · exact missesNothing_ok _
  · exact missesNothing_ok _
  · exact missesNothing_ok _
  · exact missesNothing_ok _
  · exact missesNothing_ok _
  · -- a global variable has to be one that there is
    split
    · exact missesNothing_ok _
    · exact missesNothing_error rfl
  -- trackers, which may have keys, calls, which may have arguments, and parentheses
  · rename_i name _ rest
    split
    · rename_i fails
      exact (missesNothing_keyed ⟨name, false⟩ rest).error fails
    · exact missesNothing_ok _
  · rename_i name _ rest
    split
    · rename_i fails
      exact (missesNothing_keyed ⟨name, true⟩ rest).error fails
    · exact missesNothing_ok _
  · rename_i name _ opened rest
    split
    · rename_i fails
      exact (missesNothing_arguments name opened rest).error fails
    · exact missesNothing_ok _
  · exact missesNothing_ok _
  · rename_i opened rest
    split
    · rename_i fails
      exact (missesNothing_expression 0 rest).error fails
    · split
      · rename_i fails
        exact (missesNothing_closing _ _).error fails
      · exact missesNothing_ok _
  · exact missesNothing_error rfl
termination_by 4 * ts.length

theorem missesNothing_keyed (ref : TrackerRef) (ts : List Located) :
    MissesNothing (keyed ref ts) := by
  rw [keyed.eq_def]
  split
  · rename_i opened rest
    split
    · rename_i fails
      exact (missesNothing_expression 0 rest).error fails
    · split
      · rename_i fails
        exact (missesNothing_closing _ _).error fails
      · exact missesNothing_ok _
  · exact missesNothing_ok _
termination_by 4 * ts.length

theorem missesNothing_arguments (name : String) (opened : Nat) (ts : List Located) :
    MissesNothing (arguments name opened ts) := by
  rw [arguments.eq_def]
  split
  · exact missesNothing_error rfl
  · split
    · rename_i fails
      exact (missesNothing_closing _ _).error fails
    · exact missesNothing_ok _
  · split
    · rename_i fails
      exact (missesNothing_expression 0 ts).error fails
    · rename_i one _
      -- an argument is passed, and behind it a comma or the parenthesis
      have shorter := one.short
      split
      · rename_i fails
        exact (missesNothing_separator _).error fails
      · rename_i behind _
        have shorter' := behind.short
        split
        · split
          · rename_i fails
            exact (missesNothing_arguments name opened behind.rest).error fails
          · exact missesNothing_ok _
        · exact missesNothing_ok _
termination_by 4 * ts.length + 3

end

/-- So no symbol is missed in a list of tokens. -/
theorem missesNothing_ofTokens (ts : List Located) : MissesNothing (ofTokens ts) := by
  unfold ofTokens
  split
  · exact missesNothing_error rfl
  · split
    · rename_i fails
      exact (missesNothing_expression 0 ts).error fails
    · split
      · exact missesNothing_ok _
      · exact missesNothing_error rfl

/-- A parser that is given a source does not know the tables. -/
theorem missesNothing_parse (source : String) : MissesNothing (parse source) :=
  (Token.missesNothing_scan source).bind fun ts _ => missesNothing_ofTokens ts

/-- Pairing parentheses looks at tokens only. -/
theorem missesNothing_checkParentheses (opened : List Nat) (ts : List Located) :
    MissesNothing (checkParentheses opened ts) := by
  induction ts generalizing opened with
  | nil =>
    cases opened with
    | nil => exact missesNothing_ok _
    | cons => exact missesNothing_error rfl
  | cons t ts ih =>
    rw [checkParentheses_cons]
    split
    · exact ih _
    · split
      · exact missesNothing_error rfl
      · exact ih _
    · exact ih _

/-- Normalizing parses and prints, without the tables. -/
theorem missesNothing_normalize (source : String) : MissesNothing (normalize source) := by
  refine (Token.missesNothing_scan source).bind fun ts _ => ?_
  refine (missesNothing_checkParentheses [] ts).bind fun _ _ => ?_
  exact (missesNothing_ofTokens ts).bind fun _ _ => missesNothing_ok _

/-- What a catalog has everything for is refused for its shape alone. -/
theorem missesNothing_encode {catalog : Catalog} {e : Expr}
    (serves : catalog.Serves (fun _ => True) e) (ps : Placeholders) :
    MissesNothing (e.encode catalog ps).1 := by
  intro err fails
  obtain ⟨fault, rfl⟩ := exists_invalid_of_encode serves fails
  rfl

end Expr

/-! ### Signatures -/

/-- A type that is not known is no missing symbol. -/
theorem ValueType.missesNothing_ofText (cs : List Char) : MissesNothing (ofText cs) := by
  fun_induction ofText cs with
  | case1 _ _ _ err fails ih => exact ih.error fails
  | case2 => exact missesNothing_ok _
  | case3 => exact missesNothing_error rfl
  | case4 => exact missesNothing_ok _
  | case5 => exact missesNothing_error rfl

namespace CallingFunction

theorem missesNothing_declaration (cs : List Char) : MissesNothing (declaration cs) := by
  unfold declaration
  split
  · exact missesNothing_error rfl
  · split
    · exact missesNothing_error rfl
    · split
      · rename_i fails
        exact (ValueType.missesNothing_ofText _).error fails
      · exact missesNothing_ok _

theorem missesNothing_parts (text : List Char) : MissesNothing (parts text) := by
  unfold parts
  split
  · exact missesNothing_ok _
  · split
    · exact missesNothing_error rfl
    · split
      · exact missesNothing_error rfl
      · exact missesNothing_ok _

/-- A signature is read without the tables. -/
theorem missesNothing_parse (signature : String) : MissesNothing (parse signature) := by
  refine (missesNothing_parts _).bind fun found _ => ?_
  refine (missesNothing_mapM missesNothing_declaration _).bind fun arguments _ => ?_
  exact missesNothing_ok _

end CallingFunction

/-! ### Clauses -/

/-- So is a clause. -/
theorem Clause.missesNothing_parse (source : String) : MissesNothing (parse source) := by
  unfold parse
  simp only
  split
  · unfold parseRevert
    split
    · exact missesNothing_ok _
    · split
      · exact missesNothing_ok _
      · exact missesNothing_error rfl
  · split
    · unfold parseEvent
      simp only
      split_ifs
      · exact missesNothing_error rfl
      · exact missesNothing_ok _
      · exact missesNothing_ok _
    · exact missesNothing_ok _

/-! ### Streams -/

/-- Words are missing numbers at most, which are not symbols. -/
theorem Stream.missesNothing_ofItems (registry : Registry) (items : List Item) :
    MissesNothing (ofItems registry items) := by
  refine (missesNothing_mapM (fun item => ?_) items).bind fun words _ => missesNothing_ok _
  cases item with
  | opcode op =>
    rw [Item.word, Registry.code]
    cases registry.codes.get? op with
    | none =>
      show MissesNothing (.error (.config (.unavailable op.symbol)))
      exact missesNothing_error rfl
    | some code => exact missesNothing_ok _
  | operand value => exact missesNothing_ok _

end RuleCodec
