/-
RuleCodec/Proofs/Normalizing.lean

A text has a normal form exactly if it parses.

Normalizing looks at the parentheses before it reads the tokens.  What parses
is the yield of a phrase, and the parentheses of a phrase pair up, so the check
never refuses what reading accepts.

The clauses of a rule are normalized only after they have been resolved, hence
parsed.  How drafts fail to encode can therefore be said without their texts
(`Effects.EncodingFails`), and compiling fails exactly where a clause is
malformed, an expression does not resolve, or a draft does not encode
(`Effects.compile_eq_error_iff`).
-/
import RuleCodec.Proofs.Effects

namespace RuleCodec

/-- The expression of a draft, if it has one, has a normal form. -/
def Draft.Normal : Draft → Prop
  | done _ => True
  | expression source _ => ∃ text, Expr.normalize source = .ok text

namespace Effects

variable {scope : Scope} {registry : Registry} {catalog catalog' : Catalog} {ps : Placeholders}
  {clauses : List Clause} {drafts : List Draft} {fault : Error}

/-- What is drafted as an expression has parsed, so it has a normal form. -/
theorem normalize_of_resolveAll (h : resolveAll scope catalog clauses = .ok (drafts, catalog'))
    {source : String} {resolved : Expr} (mem : .expression source resolved ∈ drafts) :
    ∃ e, Expr.parse source = .ok e ∧ Expr.normalize source = .ok e.render := by
  obtain ⟨clause, _, drafted⟩ := exists_left_of_forall₂ (drafts_of_resolveAll h).1 mem
  cases drafted with
  | expression parsed => exact ⟨_, parsed, (Expr.exists_phrase_of_parse parsed).1⟩

/-- The expressions that are drafted have been parsed. -/
theorem normal_of_resolveAll (h : resolveAll scope catalog clauses = .ok (drafts, catalog')) :
    ∀ draft ∈ drafts, draft.Normal := by
  intro draft mem
  cases draft with
  | done effect => trivial
  | expression source resolved =>
    obtain ⟨e, _, normalized⟩ := normalize_of_resolveAll h mem
    exact ⟨_, normalized⟩

/-- How drafts fail to encode: at the first of them that does not encode, or whose instructions
have no numbers.  Their texts have no part in it. -/
inductive EncodingFails (registry : Registry) (catalog : Catalog) (fault : Error) :
    Placeholders → List Draft → Prop
  | done {ps : Placeholders} {effect : Effect} {drafts : List Draft} :
      EncodingFails registry catalog fault ps drafts →
        EncodingFails registry catalog fault ps (.done effect :: drafts)
  | encode {ps ps' : Placeholders} {source : String} {resolved : Expr} {drafts : List Draft} :
      resolved.encode catalog ps = (.error fault, ps') →
        EncodingFails registry catalog fault ps (.expression source resolved :: drafts)
  | number {ps ps' : Placeholders} {source : String} {resolved : Expr} {drafts : List Draft}
      {instructions : List (Instruction Operand Nat)} :
      resolved.encode catalog ps = (.ok instructions, ps') →
      Stream.ofItems registry (instructions.flatMap Instruction.items) = .error fault →
        EncodingFails registry catalog fault ps (.expression source resolved :: drafts)
  | later {ps ps' : Placeholders} {source : String} {resolved : Expr} {drafts : List Draft}
      {instructions : List (Instruction Operand Nat)} {stream : Stream} :
      resolved.encode catalog ps = (.ok instructions, ps') →
      Stream.ofItems registry (instructions.flatMap Instruction.items) = .ok stream →
      EncodingFails registry catalog fault ps' drafts →
        EncodingFails registry catalog fault ps (.expression source resolved :: drafts)

/-- Drafts whose sources parse fail only where their encoding fails. -/
theorem encodingFails_of_encodeAll (normal : ∀ draft ∈ drafts, draft.Normal)
    (h : encodeAll registry catalog ps drafts = .error fault) :
    EncodingFails registry catalog fault ps drafts := by
  induction drafts generalizing ps with
  | nil => cases h
  | cons draft drafts ih =>
    obtain ⟨first, others⟩ := List.forall_mem_cons.1 normal
    cases draft with
    | done effect =>
      rw [encodeAll] at h
      rcases bind_eq_error.1 h with fails | ⟨_, _, h⟩
      · exact .done (ih others fails)
      · cases h
    | expression source resolved =>
      rw [encodeAll] at h
      split at h
      · rename_i run
        cases h
        exact .encode run
      · rename_i instructions ps' run
        rcases bind_eq_error.1 h with fails | ⟨stream, streamed, h⟩
        · exact .number run fails
        -- the one failure that the judgement leaves out, and a normal draft rules out
        obtain ⟨text, normalized⟩ := first
        rcases bind_eq_error.1 h with refused | ⟨_, _, h⟩
        · rw [normalized] at refused
          cases refused
        rcases bind_eq_error.1 h with fails | ⟨_, _, h⟩
        · exact .later run streamed (ih others fails)
        · cases h

/-- Where the encoding fails, the drafts fail with its error. -/
theorem EncodingFails.encodeAll_eq_error (h : EncodingFails registry catalog fault ps drafts)
    (normal : ∀ draft ∈ drafts, draft.Normal) :
    encodeAll registry catalog ps drafts = .error fault := by
  induction h with
  | done _ ih =>
    rw [encodeAll, ih (List.forall_mem_cons.1 normal).2]
    rfl
  | encode run => simp only [encodeAll, run]
  | number run fails =>
    simp only [encodeAll, run, fails]
    rfl
  | later run streamed _ ih =>
    obtain ⟨⟨text, normalized⟩, others⟩ := List.forall_mem_cons.1 normal
    simp only [encodeAll, run]
    rw [streamed, normalized, ih others]
    rfl

variable {positive negative : List String}

/-- The clauses of a rule are read in one go. -/
theorem compile_eq :
    compile scope registry positive negative = (do
      let clauses ← (positive ++ negative).mapM Clause.parse
      let (drafts, catalog) ← resolveAll scope .empty clauses
      let (effects, placeholders) ← encodeAll registry catalog .empty drafts
      return ⟨effects.take positive.length, effects.drop positive.length, catalog,
        placeholders⟩) := by
  rw [compile, List.mapM_append]
  rcases parsed : positive.mapM Clause.parse with fault | clauses
  · rfl
  · rw [(mapM_eq_ok_iff.1 parsed).length_eq]
    cases negative.mapM Clause.parse with
    | error fault => rfl
    | ok clauses' => rfl

/-- Why compiling fails, texts aside: a clause is malformed, an expression does not resolve, or a
draft does not encode. -/
theorem compile_eq_error_iff :
    compile scope registry positive negative = .error fault ↔
      (positive ++ negative).mapM Clause.parse = .error fault ∨
      ∃ clauses, (positive ++ negative).mapM Clause.parse = .ok clauses ∧
        (resolveAll scope .empty clauses = .error fault ∨
          ∃ drafts catalog, resolveAll scope .empty clauses = .ok (drafts, catalog) ∧
            EncodingFails registry catalog fault .empty drafts) := by
  rw [compile_eq, bind_eq_error]
  refine or_congr_right (exists_congr fun clauses => and_congr_right fun parsed => ?_)
  rw [bind_eq_error]
  refine or_congr_right ?_
  constructor
  · rintro ⟨⟨drafts, catalog⟩, resolves, h⟩
    refine ⟨drafts, catalog, resolves, ?_⟩
    -- the texts were parsed already, so normalizing them cannot fail
    rcases bind_eq_error.1 h with fails | ⟨_, _, h⟩
    · exact encodingFails_of_encodeAll (normal_of_resolveAll resolves) fails
    · cases h
  · rintro ⟨drafts, catalog, resolves, fails⟩
    refine ⟨_, resolves, bind_eq_error.2 (.inl ?_)⟩
    exact fails.encodeAll_eq_error (normal_of_resolveAll resolves)

end Effects

/-- **Texts have a normal form exactly if they parse.**  The check of parentheses accepts the tokens
of whatever parses, and the normal form is then what its expression is written as.  So where the
effects of a rule are compiled, no clause is left without a normal form once it has parsed: whatever
compiling fails for, it is not that. -/
theorem Expr.normalizes_iff_parses :
    (∀ source e, parse source = .ok e →
      (∃ ts, Token.scan source = .ok ts ∧ checkParentheses [] ts = .ok ()) ∧
        normalize source = .ok e.render) ∧
    (∀ source, (∃ text, normalize source = .ok text) ↔ ∃ e, parse source = .ok e) ∧
    (∀ (scope : Scope) catalog clauses drafts catalog',
      Effects.resolveAll scope catalog clauses = .ok (drafts, catalog') →
      ∀ source resolved, .expression source resolved ∈ drafts →
        ∃ e, parse source = .ok e ∧ normalize source = .ok e.render) ∧
    ∀ scope registry positive negative fault,
      Effects.compile scope registry positive negative = .error fault ↔
        (positive ++ negative).mapM Clause.parse = .error fault ∨
        ∃ clauses, (positive ++ negative).mapM Clause.parse = .ok clauses ∧
          (Effects.resolveAll scope .empty clauses = .error fault ∨
            ∃ drafts catalog, Effects.resolveAll scope .empty clauses = .ok (drafts, catalog) ∧
              Effects.EncodingFails registry catalog fault .empty drafts) := by
  refine ⟨fun source e parsed => ?_, fun source => ?_, ?_, ?_⟩
  · obtain ⟨ts, t, scanned, _, yields, _⟩ := exists_scan_of_parse parsed
    exact ⟨⟨ts, scanned, checkParentheses_of_yield yields⟩, (exists_phrase_of_parse parsed).1⟩
  · constructor
    · rintro ⟨text, normalized⟩
      obtain ⟨e, parsed, _⟩ := normalize_eq_ok_iff.1 normalized
      exact ⟨e, parsed⟩
    · rintro ⟨e, parsed⟩
      exact ⟨e.render, (exists_phrase_of_parse parsed).1⟩
  · intro scope catalog clauses drafts catalog' resolves source resolved mem
    exact Effects.normalize_of_resolveAll resolves mem
  · intro scope registry positive negative fault
    exact Effects.compile_eq_error_iff

/-- Parentheses around a call, inside its arguments and around a key are all accepted, and a text
with one of them left open has no normal form.  A rule whose last clause stores an update inside an
update is refused, all of its clauses having parsed and resolved, because a draft does not
encode. -/
theorem Expr.normalizes_iff_parses_nested :
    let source := "((FC:fee((to), TR:sums((to)))) >= ((1 + 2) * 3))"
    let scope : Scope :=
      ⟨⟨none, [⟨"to", "address", .address⟩]⟩,
        ((default : SymbolTables).addTracker "x" ⟨1, .uint256, none⟩).addTracker "sums"
          ⟨2, .uint256, some .address⟩, .error⟩
    let clauses : List Clause :=
      [.expression "(TRU:x += (1))", .revert "", .expression "TRU:sums(to) += (TRU:x = 1)"]
    (∃ e, parse source = .ok e ∧
      (∃ ts, Token.scan source = .ok ts ∧ checkParentheses [] ts = .ok ()) ∧
        normalize source = .ok "FC:fee(to, TR:sums(to)) >= 1 + 2 * 3") ∧
    (¬ ∃ text, normalize "((to) == 1" = .ok text) ∧
    ∃ fault drafts catalog,
      Effects.compile scope .legacy ["(TRU:x += (1))"] ["revert", "TRU:sums(to) += (TRU:x = 1)"] =
        .error fault ∧
      Effects.resolveAll scope .empty clauses = .ok (drafts, catalog) ∧
      (∀ text resolved, .expression text resolved ∈ drafts →
        ∃ e, parse text = .ok e ∧ normalize text = .ok e.render) ∧
      Effects.EncodingFails .legacy catalog fault .empty drafts := by
  intro source scope clauses
  obtain ⟨accepts, agrees, drafted, fails⟩ := normalizes_iff_parses
  refine ⟨?_, ?_, ?_⟩
  · obtain ⟨e, parsed, written⟩ := exists_ok_of_any
      (show (parse source).toOption.any
        (fun e => e.render = "FC:fee(to, TR:sums(to)) >= 1 + 2 * 3") by decide +kernel)
    obtain ⟨paired, normalized⟩ := accepts source e parsed
    rw [of_decide_eq_true written] at normalized
    exact ⟨e, parsed, paired, normalized⟩
  · rw [agrees]
    rintro ⟨e, parsed⟩
    have refused : (parse "((to) == 1").toOption.isNone := by decide +kernel
    rw [parsed] at refused
    cases refused
  · obtain ⟨⟨drafts, catalog⟩, resolves, -⟩ := exists_ok_of_any
      (show (Effects.resolveAll scope .empty clauses).toOption.any (fun _ => true) by
        decide +kernel)
    have parsed : (["(TRU:x += (1))"] ++ ["revert", "TRU:sums(to) += (TRU:x = 1)"]).mapM
        Clause.parse = .ok clauses := by decide +kernel
    have refused : (Effects.compile scope .legacy ["(TRU:x += (1))"]
        ["revert", "TRU:sums(to) += (TRU:x = 1)"]).toOption.isNone := by decide +kernel
    rcases compiles : Effects.compile scope .legacy ["(TRU:x += (1))"]
        ["revert", "TRU:sums(to) += (TRU:x = 1)"] with fault | effects
    -- the clauses parse and resolve, so only the encoding is left to fail
    · refine ⟨fault, drafts, catalog, rfl, resolves, drafted _ _ _ _ _ resolves, ?_⟩
      rcases (fails _ _ _ _ _).1 compiles with malformed | ⟨clauses', parsed', stuck⟩
      · cases parsed.symm.trans malformed
      · cases parsed.symm.trans parsed'
        rcases stuck with unresolved | ⟨_, _, resolves', stuck⟩
        · cases resolves.symm.trans unresolved
        · cases resolves.symm.trans resolves'
          exact stuck
    · rw [compiles] at refused
      cases refused

end RuleCodec
