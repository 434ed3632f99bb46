/-
RuleCodec/Proofs/Selectors.lean

Signatures from which selectors are made.

`Writes` says which texts write a function with a given name and given types:
a comma between parameters, any names behind the types, any blanks.  A text
writes at most one function (`Writes.unique`), and it is accepted exactly when
it writes one whose types all have a meaning
(`canonicalSignature_eq_ok_iff`).  Its signature is then the name with the
canonical spellings of the types, which itself writes the function
(`writes_canonicalText`).

Two spellings of a type have one canonical form exactly when they are the same
up to `uint` for `uint256` (`sameType_iff`).  So the signature of a text depends
on the function it writes and on nothing else
(`canonicalSignature_canonical`), and so does the selector, which is a hash of
the signature.
-/
import RuleCodec.Definition.ForeignCall
import RuleCodec.Proofs.Fields
import RuleCodec.Proofs.Tables

namespace RuleCodec

namespace ForeignCallDefinition

open Text

/-! ### Spellings of a type -/

/-- Two spellings of one type: `uint` is `uint256`, also as the item of an array. -/
inductive SameType : List Char → List Char → Prop
  | uint : SameType "uint".toList "uint256".toList
  | array {a b : List Char} : SameType a b → SameType (a ++ ['[', ']']) (b ++ ['[', ']'])
  | refl (a : List Char) : SameType a a
  | symm {a b : List Char} : SameType a b → SameType b a
  | trans {a b c : List Char} : SameType a b → SameType b c → SameType a c

theorem canonicalType_brackets (element : List Char) :
    canonicalType (element ++ ['[', ']']) = canonicalType element ++ ['[', ']'] := by
  rw [canonicalType]
  split
  · rename_i element' ends
    rw [stripEnd?_append] at ends
    cases ends
    rfl
  · rename_i other
    rw [stripEnd?_append] at other
    cases other

/-- Spellings of one type have one canonical spelling. -/
theorem SameType.canonicalType_eq {a b : List Char} (h : SameType a b) :
    canonicalType a = canonicalType b := by
  induction h with
  | uint => decide +kernel
  | array _ ih => rw [canonicalType_brackets, canonicalType_brackets, ih]
  | refl => rfl
  | symm _ ih => exact ih.symm
  | trans _ _ ih ih' => exact ih.trans ih'

/-- The canonical spelling is a spelling of the same type. -/
theorem sameType_canonicalType (cs : List Char) : SameType cs (canonicalType cs) := by
  fun_induction canonicalType cs with
  | case1 cs element ends ih =>
    obtain rfl := stripEnd?_eq_some ends
    exact .array ih
  | case2 => exact .uint
  | case3 => exact .refl _

/-- The canonical form of a spelling tells which spellings are of the same type. -/
theorem sameType_iff {a b : List Char} : SameType a b ↔ canonicalType a = canonicalType b := by
  refine ⟨SameType.canonicalType_eq, fun same => ?_⟩
  have back := (sameType_canonicalType b).symm
  rw [← same] at back
  exact (sameType_canonicalType a).trans back

theorem canonicalType_canonicalType (cs : List Char) :
    canonicalType (canonicalType cs) = canonicalType cs :=
  (sameType_canonicalType cs).canonicalType_eq.symm

/-- A canonical spelling has no characters but those of the type and of `uint256`. -/
theorem mem_of_mem_canonicalType {c : Char} {cs : List Char} (mem : c ∈ canonicalType cs) :
    c ∈ cs ∨ c ∈ "uint256".toList := by
  fun_induction canonicalType cs with
  | case1 cs element ends ih =>
    rw [stripEnd?_eq_some ends, List.mem_append]
    rcases List.mem_append.1 mem with inElement | bracket
    · exact (ih inElement).imp_left .inl
    · exact .inl (.inr bracket)
  | case2 => exact .inr mem
  | case3 => exact .inl mem

theorem canonicalType_ne_nil {cs : List Char} (ne : cs ≠ []) : canonicalType cs ≠ [] := by
  fun_induction canonicalType cs with
  | case1 => exact List.append_ne_nil_of_right_ne_nil _ (List.cons_ne_nil _ _)
  | case2 => decide +kernel
  | case3 => exact ne

/-- The canonical spelling of a word is a word. -/
theorem isWord_canonicalType {cs : List Char} (is : IsWord cs) : IsWord (canonicalType cs) where
  ne := canonicalType_ne_nil is.ne
  solid := by
    have long : IsWord "uint256".toList := by decide +kernel
    intro c mem
    exact (mem_of_mem_canonicalType mem).elim (is.solid c) (long.solid c)

theorem not_mem_canonicalType {cs : List Char} (plain : ',' ∉ cs) : ',' ∉ canonicalType cs := by
  intro mem
  exact (mem_of_mem_canonicalType mem).elim plain (by decide +kernel)

/-- The canonical spelling has the meaning of the spelling. -/
theorem ofText_canonicalType {cs : List Char} {t : ValueType} (is : IsWord cs) :
    ValueType.ofText (canonicalType cs) = .ok t ↔ ValueType.ofText cs = .ok t := by
  have solid := (isWord_canonicalType is).solid
  replace is := is.solid
  fun_induction canonicalType cs generalizing t with
  | case1 cs element ends ih =>
    obtain rfl := stripEnd?_eq_some ends
    rw [ValueType.ofText_brackets solid, ValueType.ofText_brackets is]
    simp only [ih (fun c mem => solid c (List.mem_append_left _ mem))
      (fun c mem => is c (List.mem_append_left _ mem))]
  | case2 =>
    have same : ValueType.ofText "uint256".toList = ValueType.ofText "uint".toList := by
      decide +kernel
    rw [same]
  | case3 => rfl

/-! ### Functions that a text writes -/

/-- The types of parameters: the first word of each field, and none where a field has no words. -/
inductive Parameters : List (List Char) → List (List Char) → Prop
  | nil : Parameters [] []
  | blank {field : List Char} {fields types : List (List Char)} : Worded [] field →
      Parameters fields types → Parameters (field :: fields) types
  | typed {type field : List Char} {names fields types : List (List Char)} :
      Worded (type :: names) field → Parameters fields types →
        Parameters (field :: fields) (type :: types)

/-- The text writes the function with the name and with parameters of the types. -/
inductive Writes : List Char → List Char → List (List Char) → Prop
  | call {lead name gap trail : List Char} {fields types : List (List Char)} :
      (∀ c ∈ lead, isBlank c) → (∀ c ∈ gap, isBlank c) → (∀ c ∈ trail, isBlank c) →
      name ≠ [] → Trimmed name → '(' ∉ name →
      fields ≠ [] → (∀ field ∈ fields, ',' ∉ field) → Parameters fields types →
      Writes (lead ++ name ++ gap ++ '(' :: [','].intercalate fields ++ ')' :: trail) name types

/-- The types of a parameter list are the first words of its fields. -/
theorem filterMap_eq_iff {fields types : List (List Char)} :
    (fields.filterMap fun field => (words field).head?) = types ↔ Parameters fields types := by
  constructor
  · rintro rfl
    induction fields with
    | nil => exact .nil
    | cons field fields ih =>
      -- a field without a word declares nothing
      cases found : words field with
      | nil =>
        rw [List.filterMap_cons_none (by rw [found]; rfl)]
        exact .blank (words_eq_iff.1 found) ih
      | cons type names =>
        rw [List.filterMap_cons_some (by rw [found]; rfl)]
        exact .typed (words_eq_iff.1 found) ih
  · intro h
    induction h with
    | nil => rfl
    | blank worded _ ih =>
      rw [List.filterMap_cons_none (by rw [worded.words_eq]; rfl)]
      exact ih
    | typed worded _ ih =>
      rw [List.filterMap_cons_some (by rw [worded.words_eq]; rfl), ih]

/-- A signature has parts exactly if it is a name with parentheses behind it. -/
theorem parts?_eq_some_iff {text name parameters : List Char} :
    parts? text = some (name, parameters) ↔ ∃ front, text = front ++ '(' :: (parameters ++ [')']) ∧
      '(' ∉ front ∧ trim front = name ∧ name ≠ [] := by
  constructor
  · intro found
    rw [parts?] at found
    split at found
    · cases found
    · rename_i front back cut
      obtain ⟨whole, plain⟩ := splitOnce?_eq_some_iff.1 cut
      split at found
      · cases found
      · rename_i list ends
        split at found
        · cases found
        · rename_i ne
          cases found
          refine ⟨front, ?_, plain, rfl, by simpa using ne⟩
          rw [whole, stripEnd?_eq_some ends]
  · rintro ⟨front, rfl, plain, rfl, ne⟩
    rw [parts?, splitOnce?_eq_some_iff.2 ⟨rfl, plain⟩]
    simp only [stripEnd?_append, List.isEmpty_iff, if_neg ne]

/-- What a text writes is what is found in it. -/
theorem writes_iff {text name : List Char} {types : List (List Char)} :
    Writes text name types ↔ ∃ parameters, parts? (trim text) = some (name, parameters) ∧
      ((splitOn ',' parameters).filterMap fun field => (words field).head?) = types := by
  constructor
  · rintro ⟨before, between, behind, ne, trimmed, plain, exist, apart, typed⟩
    rename_i lead gap trail fields
    refine ⟨[','].intercalate fields, ?_, ?_⟩
    · rw [trim_call ne trimmed before behind, parts?_eq_some_iff]
      exact ⟨name ++ gap, rfl, not_mem_head plain between, trim_head trimmed between, ne⟩
    · rw [splitOn_eq_iff.2 ⟨exist, apart, rfl⟩]
      exact filterMap_eq_iff.2 typed
  · rintro ⟨parameters, found, types⟩
    obtain ⟨front, whole, plain, rfl, ne⟩ := parts?_eq_some_iff.1 found
    obtain ⟨exist, apart, joined⟩ := splitOn_eq_iff.1 (rfl : splitOn ',' parameters = _)
    -- blanks around the whole text and around the name
    obtain ⟨lead, trail, around, before, behind⟩ := exists_trim text
    obtain ⟨lead', gap, head, before', between⟩ := exists_trim front
    have leads : ∀ c ∈ lead ++ lead', isBlank c := List.forall_mem_append.2 ⟨before, before'⟩
    have written := Writes.call leads between behind ne (trimmed_trim front)
      (fun mem => plain (mem_of_mem_trim mem)) exist apart (filterMap_eq_iff.1 types)
    rw [← joined] at written
    have same : text = lead ++ lead' ++ trim front ++ gap ++ '(' :: parameters ++ ')' :: trail := by
      rw [around, whole]
      nth_rewrite 1 [head]
      simp
    rw [same]
    exact written

/-- A text writes one signature at most. -/
theorem Writes.unique {text name name' : List Char} {types types' : List (List Char)}
    (h : Writes text name types) (h' : Writes text name' types') :
    name = name' ∧ types = types' := by
  obtain ⟨parameters, found, rfl⟩ := writes_iff.1 h
  obtain ⟨parameters', found', rfl⟩ := writes_iff.1 h'
  cases found.symm.trans found'
  exact ⟨rfl, rfl⟩

/-- The types of a function are words without commas. -/
theorem Writes.isWord {text name : List Char} {types : List (List Char)}
    (h : Writes text name types) : ∀ type ∈ types, IsWord type ∧ ',' ∉ type := by
  obtain ⟨-, -, -, -, -, -, -, apart, typed⟩ := h
  induction typed with
  | nil => exact List.forall_mem_nil _
  | blank _ _ ih => exact ih (List.forall_mem_cons.1 apart).2
  | typed worded _ ih =>
    obtain ⟨here, others⟩ := List.forall_mem_cons.1 apart
    refine List.forall_mem_cons.2 ⟨⟨?_, ?_⟩, ih others⟩
    · exact worded.isWord_of_mem List.mem_cons_self
    · exact fun mem => here (worded.subset_of_mem List.mem_cons_self mem)

/-! ### Canonical texts -/

/-- The canonical text of a function: canonical types with only commas between them. -/
def canonicalText (name : List Char) (types : List (List Char)) : List Char :=
  name ++ '(' :: [','].intercalate (types.map canonicalType) ++ [')']

/-- Canonical types are spelled as they are. -/
theorem canonicalText_canonical (name : List Char) (types : List (List Char)) :
    canonicalText name (types.map canonicalType) = canonicalText name types := by
  rw [canonicalText, List.map_map]
  congr 3
  exact congrArg _ (List.map_congr_left fun type _ => canonicalType_canonicalType type)

theorem parameters_self {types : List (List Char)} (h : ∀ type ∈ types, IsWord type) :
    Parameters types types := by
  induction types with
  | nil => exact .nil
  | cons type types ih =>
    obtain ⟨here, others⟩ := List.forall_mem_cons.1 h
    have alone : Worded [type] (type ++ []) := .word here trivial .nil
    rw [List.append_nil] at alone
    exact .typed alone (ih others)

/-- The canonical text of the function that a text writes is another text of it. -/
theorem Writes.canonicalText {text name : List Char} {types : List (List Char)}
    (h : Writes text name types) :
    Writes (canonicalText name types) name (types.map canonicalType) := by
  have word : ∀ type ∈ types.map canonicalType, IsWord type ∧ ',' ∉ type := by
    rw [List.forall_mem_map]
    intro type mem
    obtain ⟨is, plain⟩ := h.isWord type mem
    exact ⟨isWord_canonicalType is, not_mem_canonicalType plain⟩
  obtain ⟨-, -, -, ne, trimmed, plain, -⟩ := h
  rw [ForeignCallDefinition.canonicalText]
  generalize types.map canonicalType = types at word ⊢
  have none := List.forall_mem_nil fun c => isBlank c = true
  cases types with
  | nil =>
    -- parentheses with nothing between them hold one field, which is blank
    have written := Writes.call none none none ne trimmed plain (List.cons_ne_nil [] [])
      (List.forall_mem_singleton.2 List.not_mem_nil) (.blank .nil .nil)
    simpa using written
  | cons type types =>
    have written := Writes.call none none none ne trimmed plain (List.cons_ne_nil type types)
      (fun field mem => (word field mem).2) (parameters_self fun field mem => (word field mem).1)
    simpa using written

/-! ### Canonical signatures -/

theorem parameter_eq_ok_iff {word canonical : List Char} {t : ValueType} :
    parameter word = .ok (canonical, t) ↔
      canonicalType word = canonical ∧ ValueType.ofText word = .ok t := by
  rw [parameter, bind_eq_ok]
  constructor
  · rintro ⟨t, named, eq⟩
    cases eq
    exact ⟨rfl, named⟩
  · rintro ⟨rfl, named⟩
    exact ⟨t, named, rfl⟩

/-- Types are read one by one. -/
theorem mapM_parameter_iff {words : List (List Char)} {read : List (List Char × ValueType)} :
    words.mapM parameter = .ok read ↔ words.map canonicalType = read.map Prod.fst ∧
      List.Forall₂ (fun word t => ValueType.ofText word = .ok t) words (read.map Prod.snd) := by
  rw [mapM_eq_ok_iff]
  induction words generalizing read with
  | nil => cases read <;> simp
  | cons word words ih =>
    cases read with
    | nil => simp
    | cons first read =>
      rw [List.forall₂_cons, parameter_eq_ok_iff, ih]
      simp only [List.map_cons, List.cons.injEq, List.forall₂_cons]
      exact and_and_and_comm

/-- A text is accepted when it writes a function whose types have a meaning, and its signature is
the canonical text of the function. -/
theorem canonicalSignature_eq_ok_iff {function signature : String} {ts : List ValueType} :
    canonicalSignature function = .ok (signature, ts) ↔
      ∃ name types, Writes function.toList name types ∧
        List.Forall₂ (fun type t => ValueType.ofText type = .ok t) types ts ∧
        signature.toList = canonicalText name types := by
  simp only [writes_iff]
  rw [canonicalSignature]
  split
  · rename_i missing
    simp [missing]
  · rename_i name parameters found
    rw [found, bind_eq_ok]
    constructor
    · rintro ⟨read, typed, eq⟩
      cases eq
      obtain ⟨canonical, typed⟩ := mapM_parameter_iff.1 typed
      refine ⟨name, _, ⟨parameters, rfl, rfl⟩, typed, ?_⟩
      rw [String.toList_ofList, canonicalText, canonical]
    · rintro ⟨name', types, ⟨parameters', eq, cut⟩, typed, written⟩
      cases eq
      -- as many types as meanings, so pairing them loses nothing
      have lengths : (types.map canonicalType).length = ts.length := by
        rw [List.length_map, typed.length_eq]
      have names := List.map_fst_zip (Nat.le_of_eq lengths)
      have meanings := List.map_snd_zip (Nat.le_of_eq lengths.symm)
      refine ⟨(types.map canonicalType).zip ts, ?_, ?_⟩
      · rw [cut, mapM_parameter_iff, names, meanings]
        exact ⟨rfl, typed⟩
      · rw [names, meanings]
        show Except.ok (String.ofList (canonicalText name types), ts) = _
        rw [← written, String.ofList_toList]

/-- A text has a signature exactly if it writes one of known types. -/
theorem exists_signature_iff {function : String} {ts : List ValueType} :
    (∃ signature, canonicalSignature function = .ok (signature, ts)) ↔
      ∃ name types, Writes function.toList name types ∧
        List.Forall₂ (fun type t => ValueType.ofText type = .ok t) types ts := by
  simp only [canonicalSignature_eq_ok_iff]
  constructor
  · rintro ⟨-, name, types, written, typed, -⟩
    exact ⟨name, types, written, typed⟩
  · rintro ⟨name, types, written, typed⟩
    refine ⟨String.ofList (canonicalText name types), name, types, written, typed, ?_⟩
    rw [String.toList_ofList]

/-- A type is known exactly if its canonical spelling is. -/
theorem forall₂_canonicalType {types : List (List Char)} {ts : List ValueType}
    (h : ∀ type ∈ types, IsWord type) :
    List.Forall₂ (fun type t => ValueType.ofText type = .ok t) (types.map canonicalType) ts ↔
      List.Forall₂ (fun type t => ValueType.ofText type = .ok t) types ts := by
  induction types generalizing ts with
  | nil => rfl
  | cons type types ih =>
    obtain ⟨here, others⟩ := List.forall_mem_cons.1 h
    cases ts with
    | nil => simp
    | cons t ts => rw [List.map_cons, List.forall₂_cons, List.forall₂_cons,
        ofText_canonicalType here, ih others]

/-- Two texts write one function: the name is the same, and so are the types, one by one. -/
def SameFunction (f g : String) : Prop :=
  ∃ name types types', Writes f.toList name types ∧ Writes g.toList name types' ∧
    List.Forall₂ SameType types types'

/-- Lists of types are the same exactly if they have the same canonical spellings. -/
theorem forall₂_sameType_iff {types types' : List (List Char)} :
    List.Forall₂ SameType types types' ↔ types.map canonicalType = types'.map canonicalType := by
  have same : SameType = fun a b => canonicalType a = canonicalType b := by
    funext a b
    exact propext sameType_iff
  rw [same, ← List.forall₂_eq_eq_eq (α := List Char), List.forall₂_map_left_iff,
    List.forall₂_map_right_iff]

section Accepted

variable {f g signature signature' : String} {ts ts' : List ValueType}

/-- A signature is its own signature. -/
theorem canonicalSignature_of_eq_ok (h : canonicalSignature f = .ok (signature, ts)) :
    canonicalSignature signature = .ok (signature, ts) := by
  obtain ⟨name, types, written, typed, eq⟩ := canonicalSignature_eq_ok_iff.1 h
  refine canonicalSignature_eq_ok_iff.2 ⟨name, types.map canonicalType, ?_, ?_, ?_⟩
  · rw [eq]
    exact written.canonicalText
  · exact (forall₂_canonicalType fun type mem => (written.isWord type mem).1).2 typed
  · rw [eq, canonicalText_canonical]

/-- The signatures of two texts are equal exactly when the texts write one function. -/
theorem signature_eq_iff (h : canonicalSignature f = .ok (signature, ts))
    (h' : canonicalSignature g = .ok (signature', ts')) :
    signature = signature' ↔ SameFunction f g := by
  obtain ⟨name, types, written, -, eq⟩ := canonicalSignature_eq_ok_iff.1 h
  obtain ⟨name', types', written', -, eq'⟩ := canonicalSignature_eq_ok_iff.1 h'
  constructor
  · rintro rfl
    have one := written.canonicalText
    rw [← eq, eq'] at one
    obtain ⟨rfl, same⟩ := one.unique written'.canonicalText
    exact ⟨name, types, types', written, written', forall₂_sameType_iff.2 same⟩
  · rintro ⟨common, spelled, spelled', writes, writes', same⟩
    obtain ⟨rfl, rfl⟩ := written.unique writes
    obtain ⟨rfl, rfl⟩ := written'.unique writes'
    rw [← String.toList_inj, eq, eq', canonicalText, canonicalText, forall₂_sameType_iff.1 same]

/-- Two texts with one signature have the same types. -/
theorem types_eq_of_signature_eq (h : canonicalSignature f = .ok (signature, ts))
    (h' : canonicalSignature g = .ok (signature, ts')) : ts = ts' := by
  have own := canonicalSignature_of_eq_ok h
  rw [canonicalSignature_of_eq_ok h'] at own
  cases own
  rfl

end Accepted

/-- What an encoded call has of the function that is called. -/
theorem of_encode_eq_ok {call : ForeignCallDefinition} {function : CallingFunction}
    {tables : SymbolTables} {encoded : EncodedForeignCall}
    (h : call.encode function tables = .ok encoded) :
    canonicalSignature call.function = .ok (encoded.signature, encoded.parameterTypes) ∧
      encoded.selector = Abi.selector (Utf8.encode encoded.signature.toList) ∧
      encoded.encodedIndices.length = encoded.parameterTypes.length := by
  unfold encode at h
  split at h
  · obtain ⟨address, -, h⟩ := bind_eq_ok.1 h
    obtain ⟨⟨signature, types⟩, canonical, h⟩ := bind_eq_ok.1 h
    obtain ⟨returned, -, h⟩ := bind_eq_ok.1 h
    dsimp only at h
    split at h
    · cases h
    · -- the values were counted against the types
      rename_i counted
      obtain ⟨indices, found, h⟩ := bind_eq_ok.1 h
      cases h
      refine ⟨canonical, rfl, ?_⟩
      rw [← (mapM_eq_ok_iff.1 found).length_eq]
      exact not_not.1 counted
  · cases h

/-- **Signatures are canonical.**  A signature is its own signature, and a text is accepted exactly
when it writes a function whose types have a meaning.  Two texts that are accepted have one
signature exactly when they write one function, and then they have the same types; so do the calls
that are encoded from them, and these have one selector.  An encoded call has as many indices as
its function has parameters. -/
theorem canonicalSignature_canonical :
    (∀ {f signature : String} {ts : List ValueType}, canonicalSignature f = .ok (signature, ts) →
      canonicalSignature signature = .ok (signature, ts)) ∧
    (∀ {f : String} {ts : List ValueType}, (∃ signature, canonicalSignature f = .ok (signature, ts))
      ↔ ∃ name types, Writes f.toList name types ∧
        List.Forall₂ (fun type t => ValueType.ofText type = .ok t) types ts) ∧
    (∀ {f g signature signature' : String} {ts ts' : List ValueType},
      canonicalSignature f = .ok (signature, ts) → canonicalSignature g = .ok (signature', ts') →
      (signature = signature' ↔ SameFunction f g) ∧ (SameFunction f g → ts = ts')) ∧
    (∀ {call call' : ForeignCallDefinition} {function function' : CallingFunction}
      {tables tables' : SymbolTables} {encoded encoded' : EncodedForeignCall},
      call.encode function tables = .ok encoded → call'.encode function' tables' = .ok encoded' →
      SameFunction call.function call'.function →
      encoded.signature = encoded'.signature ∧ encoded.parameterTypes = encoded'.parameterTypes ∧
        encoded.selector = encoded'.selector) ∧
    (∀ {call : ForeignCallDefinition} {function : CallingFunction} {tables : SymbolTables}
      {encoded : EncodedForeignCall}, call.encode function tables = .ok encoded →
      encoded.encodedIndices.length = encoded.parameterTypes.length) := by
  refine ⟨canonicalSignature_of_eq_ok, exists_signature_iff,
    fun h h' => ⟨signature_eq_iff h h', fun same => ?_⟩, fun h h' same => ?_,
    fun h => (of_encode_eq_ok h).2.2⟩
  · obtain rfl := (signature_eq_iff h h').2 same
    exact types_eq_of_signature_eq h h'
  · obtain ⟨canonical, selector, -⟩ := of_encode_eq_ok h
    obtain ⟨canonical', selector', -⟩ := of_encode_eq_ok h'
    -- one signature, so one selector and one list of types
    have one := (signature_eq_iff canonical canonical').2 same
    rw [← one] at canonical' selector'
    exact ⟨one, types_eq_of_signature_eq canonical canonical', selector.trans selector'.symm⟩

/-- `uint` in an array, and parameters with names and blanks. -/
theorem canonicalSignature_canonical_total :
    let written := " total( uint[]  shares,\taddress to )"
    let canonical := "total(uint256[],address)"
    let function : CallingFunction := ⟨none, [⟨"owner", "address", .address⟩]⟩
    let call (text : String) : ForeignCallDefinition :=
      ⟨"total", "0x00000000000000000000000000000000000000ff", text, "uint", "TR:shares, owner"⟩
    let tables := (default : SymbolTables).addTracker "shares" ⟨1, .staticArray, none⟩
    canonicalSignature canonical = .ok (canonical, [.staticArray, .address]) ∧
      SameFunction written canonical ∧
      ∃ encoded encoded', (call written).encode function tables = .ok encoded ∧
        (call canonical).encode function tables = .ok encoded' ∧
        encoded.selector = encoded'.selector ∧
        encoded.encodedIndices.length = encoded.parameterTypes.length := by
  intro written canonical function call tables
  have accepted : canonicalSignature written = .ok (canonical, [.staticArray, .address]) := by
    decide +kernel
  -- what the theorem does not say: both spellings are accepted with these values
  have encodes : ∀ text ∈ [written, canonical],
      ((call text).encode function tables).toOption.any fun _ => true := by
    decide +kernel
  obtain ⟨encoded, encode, -⟩ := exists_ok_of_any (encodes written List.mem_cons_self)
  obtain ⟨encoded', encode', -⟩ := exists_ok_of_any (encodes canonical (by simp))
  obtain ⟨again, -, same, selectors, indices⟩ := canonicalSignature_canonical
  have one := (same accepted (again accepted)).1.1 rfl
  exact ⟨again accepted, one, encoded, encoded', encode, encode',
    (selectors encode encode' one).2.2, indices encode⟩

end ForeignCallDefinition

end RuleCodec
