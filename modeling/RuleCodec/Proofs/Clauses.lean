/-
RuleCodec/Proofs/Clauses.lean

Reverts and events that are read back from their rendered text.

A revert is rendered with its message between quotes, and quotes come off
again, whatever the message is.  An event is rendered with its name and its
parameter bare.  A name that was read has no comma in it and no blank at its
ends, so it is found again; an address and a number are written as they are
read.  The text of a parameter is found again exactly if it is plain
(`EventParameter.Plain`), that is, if nothing is left out of it and it is not
taken for something else.

Effects of a rule are compiled together, so the main result is about all of
them at once (`Effects.RendersBack`).
-/
import RuleCodec.Proofs.Appending
import RuleCodec.Proofs.Formats
import RuleCodec.Proofs.Trimming

namespace RuleCodec

open Text

/-! ### Addresses and numbers -/

theorem Text.isBlank_of_isHexDigit {c : Char} (h : isHexDigit c) : isBlank c = false := by
  cases blank : isBlank c with
  | false => rfl
  | true =>
    rw [isHexDigit_of_isBlank blank] at h
    cases h

/-- An address of twenty bytes is read back from its forty digits. -/
theorem Word.ofAddress?_toAddress {w : Word} (fits : w.toNat < 16 ^ 40) :
    ofAddress? w.toAddress = some w := by
  have forty : (w.addressBytes.flatMap Bytes.hexPair).length = 40 := by
    rw [Bytes.length_flatMap_hexPair, addressBytes, Bytes.length_ofNat]
  have inSize : w.toNat < Word.size := w.isLt
  rw [ofAddress?, toAddress, Bytes.toHex, stripStart?_hexMark]
  simp only [if_pos forty]
  rw [addressBytes, Bytes.read?_flatMap_hexPair_ofNat 20 _ (by simpa using fits), Option.bind_some,
    ofNat?, if_pos inSize, BitVec.ofNat_toNat, BitVec.setWidth_eq]

/-- What is read as an address fits in twenty bytes. -/
theorem Word.toNat_lt_of_ofAddress? {cs : List Char} {w : Word} (h : ofAddress? cs = some w) :
    w.toNat < 16 ^ 40 := by
  cases stripped : stripStart? ['0', 'x'] cs with
  | none =>
    rw [ofAddress?, stripped] at h
    cases h
  | some digits =>
    rw [ofAddress?, stripped] at h
    simp only [Option.ite_none_right_eq_some, Option.bind_eq_some_iff] at h
    obtain ⟨forty, n, read, fits⟩ := h
    rw [toNat_of_ofNat? fits, ← forty]
    exact Numeral.read?_lt read

theorem Word.trimmed_toAddress (w : Word) : Trimmed w.toAddress := by
  have digits := List.all_eq_true.1 (Bytes.all_isHexDigit_flatMap_hexPair w.addressBytes)
  apply trimmed_of_forall
  rw [toAddress, Bytes.toHex, List.forall_mem_cons, List.forall_mem_cons]
  exact ⟨by decide, by decide, fun c mem => isBlank_of_isHexDigit (digits c mem)⟩

theorem Word.isDecimal_toDecimal (w : Word) : IsDecimal w.toDecimal :=
  isSome_ofDecimal?_iff.1 (Option.isSome_of_eq_some (ofDecimal?_toDecimal w))

theorem Word.toDecimal_ne_nil (w : Word) : w.toDecimal ≠ [] := by
  obtain ⟨d, ds, eq, -⟩ := Numeral.write_eq_cons w.toNat
  rw [toDecimal, eq]
  exact List.cons_ne_nil _ _

theorem Word.trimmed_toDecimal (w : Word) : Trimmed w.toDecimal := by
  apply trimmed_of_forall
  intro c mem
  have digit := Numeral.isDecimalDigit_iff.1 (w.isDecimal_toDecimal.1 c mem)
  exact isBlank_of_isHexDigit (Numeral.isHexDigit_iff.2 (.inl digit))

/-! ### Parameters -/

namespace EventParameter

/-- A text that is taken for itself where a parameter is expected. -/
structure Plain (cs : List Char) : Prop where
  ne_nil : cs ≠ []
  trimmed : Trimmed cs
  not_address : ¬ Word.IsAddress cs
  not_decimal : ¬ Word.IsDecimal cs
  not_quoted : ¬ Quoted cs

/-- A parameter is an address if it can be read as one. -/
theorem infer_of_address {cs : List Char} {w : Word} (h : Word.ofAddress? (trim cs) = some w) :
    infer cs = address w := by
  simp only [infer, h]

/-- If not, it is a number if it can be read as one. -/
theorem infer_of_decimal {cs : List Char} {w : Word} (other : Word.ofAddress? (trim cs) = none)
    (ne : trim cs ≠ []) (h : Word.ofDecimal? (trim cs) = some w) : infer cs = uint256 w := by
  have nonempty : ¬ (trim cs).isEmpty = true := by simpa using ne
  simp only [infer, other, if_neg nonempty, h]

/-- Whatever else it is, it is a text, without the quotes around it. -/
theorem infer_of_text {cs : List Char} (notAddress : Word.ofAddress? (trim cs) = none)
    (notDecimal : Word.ofDecimal? (trim cs) = none) :
    infer cs = text (String.ofList (unquote (trim cs))) := by
  simp only [infer, notAddress, notDecimal, ite_self]

/-- The blanks around a parameter do not count. -/
theorem infer_trim (cs : List Char) : infer (trim cs) = infer cs := by
  simp only [infer, trim_trim]

theorem toNat_lt_of_infer {cs : List Char} {w : Word} (h : infer cs = address w) :
    w.toNat < 16 ^ 40 := by
  cases found : Word.ofAddress? (trim cs) with
  | some v =>
    rw [infer_of_address found] at h
    cases h
    exact Word.toNat_lt_of_ofAddress? found
  | none =>
    simp only [infer, found] at h
    split at h <;> cases h

/-- An address that is written out is inferred as that address. -/
theorem infer_toAddress {w : Word} (fits : w.toNat < 16 ^ 40) : infer w.toAddress = address w := by
  apply infer_of_address
  rw [w.trimmed_toAddress.trim_eq]
  exact Word.ofAddress?_toAddress fits

/-- A number that is written out is inferred as that number. -/
theorem infer_toDecimal (w : Word) : infer w.toDecimal = uint256 w := by
  have same := w.trimmed_toDecimal.trim_eq
  apply infer_of_decimal
  · rw [same, Word.ofAddress?, w.isDecimal_toDecimal.stripStart?_hexMark]
  · rw [same]
    exact w.toDecimal_ne_nil
  · rw [same, Word.ofDecimal?_toDecimal]

/-- A text is taken for itself exactly if it is plain. -/
theorem infer_eq_text_iff {t : String} :
    trim t.toList ≠ [] ∧ infer t.toList = text t ↔ Plain t.toList := by
  constructor
  · rintro ⟨ne, same⟩
    cases isAddress : Word.ofAddress? (trim t.toList) with
    | some w =>
      rw [infer_of_address isAddress] at same
      cases same
    | none =>
      cases isDecimal : Word.ofDecimal? (trim t.toList) with
      | some w =>
        rw [infer_of_decimal isAddress ne isDecimal] at same
        cases same
      | none =>
        -- unquoting only ever shortens, so the text is its own source exactly if no quotes are
        -- around it
        rw [infer_of_text isAddress isDecimal, text.injEq, ← String.toList_inj,
          String.toList_ofList] at same
        obtain ⟨trimmed, unquoted⟩ := unquote_trim_eq_self_iff.1 same
        rw [trimmed.trim_eq] at ne isAddress isDecimal
        refine ⟨ne, trimmed, ?_, ?_, unquoted⟩
        · rw [← Word.isSome_ofAddress?_iff, isAddress]
          exact Bool.false_ne_true
        · rw [← Word.isSome_ofDecimal?_iff, isDecimal]
          exact Bool.false_ne_true
  · rintro ⟨ne, trimmed, notAddress, notDecimal, unquoted⟩
    rw [← Word.isSome_ofAddress?_iff, Option.not_isSome_iff_eq_none] at notAddress
    rw [← Word.isSome_ofDecimal?_iff, Option.not_isSome_iff_eq_none] at notDecimal
    have same := unquote_trim_eq_self_iff.2 ⟨trimmed, unquoted⟩
    rw [← trimmed.trim_eq] at ne notAddress notDecimal
    refine ⟨ne, ?_⟩
    rw [infer_of_text notAddress notDecimal, same, String.ofList_toList]

/-- What a parameter is rendered as is taken for the parameter, unless that is a text which is not
plain. -/
theorem infer_render_iff {cs : List Char} {parameter : EventParameter}
    (h : infer cs = parameter) :
    trim parameter.render.toList ≠ [] ∧ infer parameter.render.toList = parameter ↔
      ∀ t, parameter = text t → Plain t.toList := by
  -- numbers and addresses are always read back, texts only if they look like nothing else
  cases parameter with
  | address w =>
    refine iff_of_true ?_ (fun t eq => by cases eq)
    rw [render, String.toList_ofList, w.trimmed_toAddress.trim_eq]
    exact ⟨List.cons_ne_nil _ _, infer_toAddress (toNat_lt_of_infer h)⟩
  | uint256 w =>
    refine iff_of_true ?_ (fun t eq => by cases eq)
    rw [render, String.toList_ofList, w.trimmed_toDecimal.trim_eq]
    exact ⟨w.toDecimal_ne_nil, infer_toDecimal w⟩
  | text t =>
    rw [render, infer_eq_text_iff]
    constructor
    · rintro plain t' eq
      cases eq
      exact plain
    · exact fun plain => plain t rfl

end EventParameter

/-! ### Clauses -/

namespace Clause

/-- What follows a keyword is handed on without blanks around it. -/
theorem trimmed_of_afterKeyword? {keyword cs rest : List Char}
    (h : afterKeyword? keyword cs = some rest) : Trimmed rest := by
  rw [afterKeyword?] at h
  split at h
  · cases h
  · cases h
    exact ⟨by simp, by simp⟩
  · obtain ⟨-, is⟩ := Option.ite_none_right_eq_some.1 h
    cases is
    exact trimmed_trim _

/-- A keyword with a blank behind it is recognized. -/
theorem afterKeyword?_append (keyword rest : List Char) :
    afterKeyword? keyword (keyword ++ ' ' :: rest) = some (trim rest) := by
  have blank : isBlank ' ' := by decide
  rw [afterKeyword?, stripStart?_append]
  simp only [blank, or_true, if_true, trim_cons blank]

/-- The name of an event that was read. -/
structure IsName (cs : List Char) : Prop where
  ne_nil : cs ≠ []
  trimmed : Trimmed cs
  single : ',' ∉ cs

/-- The event that is parsed has a proper name, and its parameter was inferred. -/
theorem isName_of_parseEvent {clause rest : List Char} {name : String}
    {parameter : Option EventParameter} (trimmed : Trimmed rest)
    (h : parseEvent clause rest = .ok (.event name parameter)) :
    IsName name.toList ∧ ∀ p ∈ parameter, ∃ cs, EventParameter.infer cs = p := by
  rw [parseEvent] at h
  cases found : splitOnce? ',' rest with
  | none =>
    simp only [found, List.isEmpty_nil, if_true] at h
    split_ifs at h with empty
    cases h
    rw [String.toList_ofList]
    exact ⟨⟨by simpa using empty, trimmed, splitOnce?_eq_none_iff.1 found⟩, by simp⟩
  | some parts =>
    obtain ⟨front, back⟩ := parts
    obtain ⟨-, absent⟩ := splitOnce?_eq_some_iff.1 found
    -- the name stands in front of the first comma, so it has none
    have named (ne : ¬ (trim front).isEmpty) : IsName (trim front) :=
      ⟨by simpa using ne, trimmed_trim front, fun mem => absent (mem_of_mem_trim mem)⟩
    simp only [found] at h
    split_ifs at h with empty
    · cases h
      rw [String.toList_ofList]
      exact ⟨named empty, by simp⟩
    · cases h
      rw [String.toList_ofList]
      exact ⟨named empty, fun p mem => ⟨_, Option.some.inj mem⟩⟩

theorem parseRevert_ne_event {clause rest : List Char} {name : String}
    {parameter : Option EventParameter} :
    parseRevert clause rest ≠ .ok (.event name parameter) := by
  intro h
  rw [parseRevert] at h
  split_ifs at h
  · cases h
  · split at h <;> cases h

/-- So a clause that parses as an event has a proper name, whatever the clause is. -/
theorem isName_of_parse {source name : String} {parameter : Option EventParameter}
    (h : parse source = .ok (.event name parameter)) :
    IsName name.toList ∧ ∀ p ∈ parameter, ∃ cs, EventParameter.infer cs = p := by
  rw [parse] at h
  split at h
  · exact absurd h parseRevert_ne_event
  · split at h
    · rename_i rest after
      exact isName_of_parseEvent (trimmed_of_afterKeyword? after) h
    · cases h

/-- An event, from a name and what follows it. -/
theorem parse_emit {source : String} {name rest : List Char} (is : IsName name)
    (eq : source.toList = "emit ".toList ++ (name ++ rest)) :
    ∃ clause, parse source = parseEvent clause (name ++ trimEnd rest) := by
  have front : Trimmed ("emit ".toList ++ name) := by
    constructor
    · intro c mem
      cases mem
      decide
    · intro c mem
      rw [List.getLast?_append_of_ne_nil _ is.ne_nil] at mem
      exact is.trimmed.last c mem
  -- the name ends in no blank, so the blanks at the end of the whole are those of what follows it
  have whole : trim source.toList = "emit".toList ++ ' ' :: (name ++ trimEnd rest) := by
    rw [eq, ← List.append_assoc, trim_append front (List.cons_ne_nil _ _), List.append_assoc]
    rfl
  have other : afterKeyword? "revert".toList (trim source.toList) = none := by
    rw [whole]
    rfl
  have same : trim (name ++ trimEnd rest) = name ++ trimEnd rest := by
    rw [← trim_append is.trimmed is.ne_nil, trim_trim]
  have emit : afterKeyword? "emit".toList (trim source.toList) = some (name ++ trimEnd rest) := by
    rw [whole, afterKeyword?_append, same]
  refine ⟨trim source.toList, ?_⟩
  simp only [parse, other, emit]

/-- An event without a parameter is read back from its name. -/
theorem parse_event_alone {name : String} (is : IsName name.toList) :
    parse ("emit " ++ name) = .ok (.event name none) := by
  have eq : ("emit " ++ name).toList = "emit ".toList ++ (name.toList ++ []) := by
    rw [String.toList_append, List.append_nil]
  have only : name.toList ++ trimEnd [] = name.toList := List.append_nil _
  have nonempty : ¬ name.toList.isEmpty = true := by simpa using is.ne_nil
  obtain ⟨clause, parsed⟩ := parse_emit is eq
  rw [parsed, only, parseEvent, splitOnce?_eq_none_iff.2 is.single]
  simp only [if_neg nonempty, List.isEmpty_nil, if_true, String.ofList_toList]

/-- An event with a parameter is read back, with what is inferred from the parameter. -/
theorem parse_event_with {name : String} (is : IsName name.toList) (parameter : String) :
    parse ("emit " ++ name ++ ", " ++ parameter) =
      .ok (.event name (if (trim parameter.toList).isEmpty then none
        else some (EventParameter.infer parameter.toList))) := by
  have eq : ("emit " ++ name ++ ", " ++ parameter).toList =
      "emit ".toList ++ (name.toList ++ (',' :: ' ' :: parameter.toList)) := by
    rw [String.toList_append, String.toList_append, String.toList_append, List.append_assoc,
      List.append_assoc]
    rfl
  have comma : isBlank ',' = false := by decide
  have blank : isBlank ' ' = true := by decide
  -- the name has no comma, so the first comma is the one behind it
  have cut : splitOnce? ',' (name.toList ++ trimEnd (',' :: ' ' :: parameter.toList)) =
      some (name.toList, trimEnd (' ' :: parameter.toList)) :=
    splitOnce?_eq_some_iff.2 ⟨congrArg _ (trimEnd_append comma [] _), is.single⟩
  have nonempty : ¬ name.toList.isEmpty = true := by simpa using is.ne_nil
  obtain ⟨clause, parsed⟩ := parse_emit is eq
  rw [parsed, parseEvent, cut]
  simp only [is.trimmed.trim_eq, if_neg nonempty, String.ofList_toList, trim_trimEnd,
    trim_cons blank, EventParameter.infer_trim]

/-- A message in quotes and parentheses is read back as it is, whatever stands in it. -/
theorem parse_revert_with (message : String) :
    parse ("revert(\"" ++ message ++ "\")") = .ok (.revert message) := by
  -- the message with its quotes is kept as one piece, so that only its two ends are looked at
  obtain ⟨inner, is⟩ : ∃ inner, inner = '"' :: (message.toList ++ ['"']) := ⟨_, rfl⟩
  have eq : ("revert(\"" ++ message ++ "\")").toList =
      "revert".toList ++ '(' :: (inner ++ [')']) := by
    rw [String.toList_append, String.toList_append, is]
    simp
  have ends : trimEnd ('(' :: (inner ++ [')'])) = '(' :: (inner ++ [')']) :=
    trimEnd_append (by decide) ('(' :: inner) []
  have inParens : Trimmed ('(' :: (inner ++ [')'])) :=
    trimmed_between (by decide) (by decide) inner
  have inQuotes : Trimmed inner := by
    rw [is]
    exact trimmed_between (by decide) (by decide) message.toList
  have after : afterKeyword? "revert".toList (trim ("revert(\"" ++ message ++ "\")").toList) =
      some ('(' :: (inner ++ [')'])) := by
    rw [eq, trim_append (by decide) (by decide), ends, afterKeyword?, stripStart?_append]
    simp only [true_or, if_true, inParens.trim_eq]
  have unwrapped : (stripStart? ['('] ('(' :: (inner ++ [')']))).bind (stripEnd? [')']) =
      some inner := by
    rw [show '(' :: (inner ++ [')']) = ['('] ++ (inner ++ [')']) from rfl, stripStart?_append,
      Option.bind_some, stripEnd?_append]
  simp only [parse, after, parseRevert, List.isEmpty_cons, Bool.false_eq_true, if_false, unwrapped,
    inQuotes.trim_eq]
  rw [is, unquote_quoted, String.ofList_toList]

/-- A clause that is read back from what it is rendered as: not an event with a text that is not
plain. -/
def Recoverable (clause : Clause) : Prop :=
  ∀ name t, clause = .event name (some (.text t)) → EventParameter.Plain t.toList

/-- The rendered event is read back exactly if its clause is recoverable. -/
theorem parse_event_with_iff {name : String} (is : IsName name.toList) {cs : List Char}
    {parameter : EventParameter} (inferred : EventParameter.infer cs = parameter) :
    parse ("emit " ++ name ++ ", " ++ parameter.render) = .ok (.event name (some parameter)) ↔
      Recoverable (.event name (some parameter)) := by
  rw [parse_event_with is, Except.ok.injEq, event.injEq, Option.ite_none_left_eq_some,
    Option.some.injEq, List.isEmpty_iff, and_iff_right rfl,
    EventParameter.infer_render_iff inferred]
  constructor
  · intro plain name' t eq
    cases eq
    exact plain t rfl
  · intro recoverable t eq
    exact recoverable name t (by rw [eq])

end Clause

/-! ### Effects -/

namespace Effects

/-- What a revert or an event became is rendered as a text, and that text is read as the same
clause exactly if it is recoverable. -/
def RendersBack (source : String) (effect : Effect) : Prop :=
  ∀ clause, Clause.parse source = .ok clause → (∀ text, clause ≠ .expression text) →
    ∀ registry names trackerNames, ∃ text,
      effect.render registry names trackerNames = .ok text ∧
      (Clause.parse text = .ok clause ↔ clause.Recoverable)

/-- What a clause is compiled to renders back to the clause. -/
theorem CompiledTo.rendersBack {scope : Scope} {registry : Registry} {catalog : Catalog}
    {final : Placeholders} {source : String} {effect : Effect}
    (h : CompiledTo scope registry catalog final source effect) : RendersBack source effect := by
  intro clause parsed plain registry' names trackerNames
  obtain ⟨clause', draft, parsed', drafted, encoded⟩ := h
  rw [parsed, Except.ok.injEq] at parsed'
  cases parsed'
  cases drafted with
  | @revert message =>
    cases encoded
    refine ⟨_, rfl, iff_of_true ?_ (fun name t eq => by cases eq)⟩
    show Clause.parse (if message.isEmpty then "revert" else _) = _
    -- an empty message is left out, and a revert without one has the empty message
    split_ifs with empty
    · rw [String.isEmpty_iff.1 empty]
      rfl
    · exact Clause.parse_revert_with message
  | @event name parameter =>
    cases encoded
    obtain ⟨is, inferred⟩ := Clause.isName_of_parse parsed
    cases parameter with
    | none =>
      exact ⟨_, rfl, iff_of_true (Clause.parse_event_alone is) (fun name t eq => by cases eq)⟩
    | some parameter =>
      obtain ⟨cs, inferred⟩ := inferred parameter rfl
      exact ⟨_, rfl, Clause.parse_event_with_iff is inferred⟩
  | expression => exact absurd rfl (plain _)

/-- Reverts and events are done as they are drafted. -/
theorem exists_encodesAll (scope : Scope) (registry : Registry) (catalog : Catalog)
    (ps : Placeholders) {clauses : List Clause}
    (plain : ∀ clause ∈ clauses, ∀ text, clause ≠ .expression text) :
    ∃ drafts effects, resolveAll scope catalog clauses = .ok (drafts, catalog) ∧
      EncodesAll registry catalog ps drafts effects ps := by
  -- no clause refers to anything, so catalog and placeholders stay as they are
  induction clauses with
  | nil => exact ⟨[], [], rfl, .nil⟩
  | cons clause clauses ih =>
    obtain ⟨here, others⟩ := List.forall_mem_cons.1 plain
    obtain ⟨drafts, effects, resolved, encodes⟩ := ih others
    cases clause with
    | revert message =>
      refine ⟨.done ⟨.revert, message, [], [], none, none⟩ :: drafts, _, ?_, .done encodes⟩
      rw [resolveAll, resolved]
      rfl
    | event name parameter =>
      refine ⟨.done ⟨.event, name, [], [], parameter.map EventParameter.valueType, parameter⟩ ::
        drafts, _, ?_, .done encodes⟩
      rw [resolveAll, resolved]
      rfl
    | expression text => exact absurd rfl (here text)

/-- Clauses that hold no expression are always compiled. -/
theorem exists_compile (scope : Scope) (registry : Registry) {positive negative : List String}
    (plain : ∀ source ∈ positive ++ negative, ∃ clause, Clause.parse source = .ok clause ∧
      ∀ text, clause ≠ .expression text) :
    ∃ compiled, compile scope registry positive negative = .ok compiled := by
  obtain ⟨front, back⟩ := List.forall_mem_append.1 plain
  -- the same on either side of the rule
  have parses : ∀ sources : List String, (∀ source ∈ sources, ∃ clause,
      Clause.parse source = .ok clause ∧ ∀ text, clause ≠ .expression text) →
      ∃ clauses, sources.mapM Clause.parse = .ok clauses ∧
        ∀ clause ∈ clauses, ∀ text, clause ≠ .expression text := by
    intro sources each
    obtain ⟨clauses, parsed⟩ := mapM_eq_ok_of_forall (f := Clause.parse)
      fun source mem => (each source mem).imp fun clause is => is.1
    refine ⟨clauses, parsed, fun clause mem => ?_⟩
    obtain ⟨source, inside, read⟩ := exists_left_of_forall₂ (mapM_eq_ok_iff.1 parsed) mem
    obtain ⟨clause', read', is⟩ := each source inside
    rw [read, Except.ok.injEq] at read'
    rw [read']
    exact is
  obtain ⟨clauses, parsed, isPlain⟩ := parses positive front
  obtain ⟨clauses', parsed', isPlain'⟩ := parses negative back
  obtain ⟨drafts, effects, resolved, encodes⟩ := exists_encodesAll scope registry .empty .empty
    (List.forall_mem_append.2 ⟨isPlain, isPlain'⟩)
  exact ⟨_, compile_of_encodesAll parsed parsed' resolved encodes⟩

/-- **Reverts and events are read back from what they are rendered as, except for texts that are
taken for something else.**  Clauses that are all reverts and events can be compiled.  In whatever
compiles, each revert and each event has its effect, and the text of that effect is read as the
same clause unless it is an event with a text that is not plain. -/
theorem rendersBack_of_compile (scope : Scope) (registry : Registry)
    (positive negative : List String) :
    ((∀ source ∈ positive ++ negative, ∃ clause, Clause.parse source = .ok clause ∧
        ∀ text, clause ≠ .expression text) →
      ∃ compiled, compile scope registry positive negative = .ok compiled) ∧
    ∀ compiled, compile scope registry positive negative = .ok compiled →
      List.Forall₂ RendersBack positive compiled.positive ∧
      List.Forall₂ RendersBack negative compiled.negative := by
  refine ⟨exists_compile scope registry, ?_⟩
  intro compiled h
  have made := compiledFrom_of_compile h
  exact ⟨made.eachPositive.imp fun _ _ => CompiledTo.rendersBack,
    made.eachNegative.imp fun _ _ => CompiledTo.rendersBack⟩

/-- A text with quotes and a comma in it, in quotes of the other kind. -/
theorem rendersBack_of_compile_quoted :
    let scope : Scope := ⟨⟨none, []⟩, default, .error⟩
    ∃ compiled effect text,
      compile scope .current ["revert('no')"] ["emit Paid , 'to \"x\", y'"] = .ok compiled ∧
      compiled.negative = [effect] ∧ effect.render .current [] .empty = .ok text ∧
      Clause.parse "emit Paid , 'to \"x\", y'" =
        .ok (.event "Paid" (some (.text "to \"x\", y"))) ∧
      Clause.parse text = .ok (.event "Paid" (some (.text "to \"x\", y"))) := by
  intro scope
  have revert : Clause.parse "revert('no')" = .ok (.revert "no") := by decide +kernel
  have event : Clause.parse "emit Paid , 'to \"x\", y'" =
      .ok (.event "Paid" (some (.text "to \"x\", y"))) := by decide +kernel
  have plain : ∀ source ∈ ["revert('no')"] ++ ["emit Paid , 'to \"x\", y'"],
      ∃ clause, Clause.parse source = .ok clause ∧ ∀ text, clause ≠ .expression text := by
    rw [List.singleton_append, List.forall_mem_cons, List.forall_mem_singleton]
    exact ⟨⟨_, revert, by simp⟩, ⟨_, event, by simp⟩⟩
  -- the text is no address, no number and not in quotes: its first letter tells each time
  have recoverable : Clause.Recoverable (.event "Paid" (some (.text "to \"x\", y"))) := by
    intro name t eq
    cases eq
    refine ⟨by decide, by decide, ?_, ?_, ?_⟩
    · rintro ⟨digits, eq, -⟩
      exact absurd (List.cons.inj eq).1 (by decide)
    · intro is
      exact absurd (is.1 't' List.mem_cons_self) (by decide)
    · rintro ⟨quote, inner, rfl | rfl, eq⟩
      · exact absurd (List.cons.inj eq).1 (by decide)
      · exact absurd (List.cons.inj eq).1 (by decide)
  have result := rendersBack_of_compile scope .current ["revert('no')"]
    ["emit Paid , 'to \"x\", y'"]
  obtain ⟨compiled, is⟩ := result.1 plain
  obtain ⟨-, each⟩ := result.2 compiled is
  obtain ⟨effect, rest, back, none, eq⟩ := List.forall₂_cons_left_iff.1 each
  rw [List.forall₂_nil_left_iff] at none
  rw [none] at eq
  obtain ⟨text, rendered, same⟩ := back _ event (by simp) .current [] .empty
  exact ⟨compiled, effect, text, is, eq, rendered, event, same.2 recoverable⟩

/-- A text of digits is read back as a number. -/
theorem parse_render_digits :
    let scope : Scope := ⟨⟨none, []⟩, default, .error⟩
    Clause.parse "emit E, \"5\"" = .ok (.event "E" (some (.text "5"))) ∧
    (compile scope .current ["emit E, \"5\""] []).toOption.map (fun compiled =>
      compiled.positive.map fun effect =>
        (effect.render .current compiled.placeholders.names .empty).toOption) =
      some [some "emit E, 5"] ∧
    Clause.parse "emit E, 5" = .ok (.event "E" (some (.uint256 5))) := by
  decide +kernel

end Effects

end RuleCodec
