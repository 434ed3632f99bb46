/-
RuleCodec/Proofs/Signatures.lean

Signatures of calling functions.

A `Declaration` is an argument with the storage words that stand between its
type and its name; it holds what makes it readable.  `Declares` says which
texts list given declarations: commas between them, and any blanks between
their words.  Such a list is read as the arguments that it declares, behind a
name and in parentheses as well as by itself (`CallingFunction.parse_declares`).

The marks that cut a signature are in no type, no storage word and no name
(`Declaration.not_mem`), so each of them is found where it was put.
-/
import RuleCodec.Proofs.Fields
import RuleCodec.Proofs.Tables
import RuleCodec.Signature

namespace RuleCodec

open Text

/-! ### Declarations -/

/-- The words that say where an argument is kept. -/
def storageWords : List String :=
  ["memory", "calldata", "storage"]

/-- An argument as it is declared: its type, any storage words, and its name, which is a word but no
storage word. -/
structure Declaration where
  argument : Argument
  storage : List String
  typed : ValueType.ofText argument.rawType.toList = .ok argument.valueType
  solid : ∀ c ∈ argument.rawType.toList, isBlank c = false
  stored : ∀ word ∈ storage, word ∈ storageWords
  named : IsWord argument.name.toList
  plain : ∀ mark ∈ [',', '(', ')'], mark ∉ argument.name.toList
  free : argument.name ∉ storageWords

/-- The words of a declaration, in their order. -/
def Declaration.words (d : Declaration) : List (List Char) :=
  d.argument.rawType.toList :: (d.storage.map String.toList ++ [d.argument.name.toList])

/-- The text lists the declarations: each with blanks around its words, and commas between them. -/
inductive Declares : List Declaration → List Char → Prop
  | none {cs : List Char} : (∀ c ∈ cs, isBlank c) → Declares [] cs
  | last {d : Declaration} {cs : List Char} : Worded d.words cs → Declares [d] cs
  | more {d next : Declaration} {ds : List Declaration} {cs rest : List Char} :
      Worded d.words cs → Declares (next :: ds) rest →
        Declares (d :: next :: ds) (cs ++ ',' :: rest)

namespace Declaration

variable {d : Declaration} {cs : List Char}

/-- The marks that cut a signature are part of no declaration. -/
theorem not_mem {mark : Char} (isMark : mark ∈ [',', '(', ')']) (worded : Worded d.words cs) :
    mark ∉ cs := by
  -- blanks, words for storage and names of types have none of the marks
  have marks : ([',', '(', ')'].all fun mark => !isBlank mark &&
      (storageWords.all fun word => !word.toList.contains mark) &&
      (['[', ']'] :: ValueType.scalarNames.map String.toList).all fun name =>
        !name.contains mark) := by
    decide +kernel
  have apart := List.all_eq_true.1 marks mark isMark
  simp only [Bool.and_eq_true] at apart
  obtain ⟨⟨notBlank, notStored⟩, notTyped⟩ := apart
  intro mem
  rcases worded.isBlank_or_mem mem with blank | ⟨word, inWords, mem⟩
  · rw [blank] at notBlank
    cases notBlank
  · rcases List.mem_cons.1 inWords with rfl | inWords
    · exact ValueType.not_mem_of_ofText d.typed d.solid notTyped mem
    · rcases List.mem_append.1 inWords with stored | named
      · obtain ⟨word, isStored, rfl⟩ := List.mem_map.1 stored
        have absent := List.all_eq_true.1 notStored word (d.stored word isStored)
        rw [List.contains_iff_mem.2 mem] at absent
        cases absent
      · rw [List.mem_singleton.1 named] at mem
        exact d.plain mark isMark mem

end Declaration

theorem Declares.not_mem {ds : List Declaration} {cs : List Char} {mark : Char}
    (isMark : mark ∈ ['(', ')']) (h : Declares ds cs) : mark ∉ cs := by
  have apart : ['(', ')'].all (fun mark => !isBlank mark && mark != ',') := by decide
  have apart := List.all_eq_true.1 apart mark isMark
  simp only [Bool.and_eq_true, bne_iff_ne] at apart
  induction h with
  | none blank =>
    intro mem
    rw [blank mark mem] at apart
    cases apart.1
  | last worded => exact Declaration.not_mem (List.mem_cons_of_mem _ isMark) worded
  | more worded _ ih =>
    rw [List.mem_append, List.mem_cons, not_or, not_or]
    exact ⟨Declaration.not_mem (List.mem_cons_of_mem _ isMark) worded, apart.2, ih⟩

namespace CallingFunction

/-! ### Lists of arguments -/

theorem isStorageWord_iff {word : List Char} :
    isStorageWord word ↔ String.ofList word ∈ storageWords := by
  simp [isStorageWord, storageWords, or_assoc]

/-- Of the words behind the type only the name is no storage word. -/
theorem filter_isStorageWord (d : Declaration) :
    (d.storage.map String.toList ++ [d.argument.name.toList]).filter
      (fun word => !isStorageWord word) = [d.argument.name.toList] := by
  have stored : (d.storage.map String.toList).filter (fun word => !isStorageWord word) = [] := by
    rw [List.filter_eq_nil_iff, List.forall_mem_map]
    intro word mem
    have isStored : isStorageWord word.toList := by
      rw [isStorageWord_iff, String.ofList_toList]
      exact d.stored word mem
    simp [isStored]
  have kept : isStorageWord d.argument.name.toList = false := by
    rw [Bool.eq_false_iff, ne_eq, isStorageWord_iff, String.ofList_toList]
    exact d.free
  rw [List.filter_append, stored, List.nil_append]
  simp [kept]

/-- A declaration is read as its argument. -/
theorem declaration_of_worded {d : Declaration} {cs : List Char} (worded : Worded d.words cs) :
    declaration (trim cs) = .ok d.argument := by
  have cut : words (trim cs) = d.words := by rw [words_trim, worded.words_eq]
  rw [declaration, cut, Declaration.words]
  simp only [filter_isStorageWord, List.getLast?_singleton, d.typed, String.ofList_toList]

/-- The arguments that fields declare, one after the other; blank fields declare none. -/
def readFields (fields : List (List Char)) : Except Error (List Argument) :=
  ((fields.map trim).filter fun field => !field.isEmpty).mapM declaration

theorem readFields_blank {cs : List Char} (blank : ∀ c ∈ cs, isBlank c) :
    readFields [cs] = .ok [] := by
  have empty : trim cs = [] := by
    have all := trim_blanks blank (List.forall_mem_nil _) []
    rwa [List.append_nil, List.append_nil] at all
  rw [readFields, List.map_singleton, empty]
  rfl

/-- A declaration is read from its field. -/
theorem readFields_cons {d : Declaration} {cs : List Char} {fields : List (List Char)}
    {others : List Argument} (worded : Worded d.words cs) (rest : readFields fields = .ok others) :
    readFields (cs :: fields) = .ok (d.argument :: others) := by
  have ne : (trim cs).isEmpty = false := by
    cases text : trim cs with
    | nil =>
      have none := words_trim cs
      rw [text, worded.words_eq] at none
      cases none
    | cons c cs => rfl
  rw [readFields, List.map_cons, List.filter_cons_of_pos (by simp [ne]), List.mapM_cons]
  exact bind_eq_ok.2 ⟨_, declaration_of_worded worded, bind_eq_ok.2 ⟨_, rest, rfl⟩⟩

/-- A list is read as the arguments that it declares. -/
theorem declarations_of_declares {ds : List Declaration} {cs : List Char} (h : Declares ds cs) :
    declarations cs = .ok (ds.map Declaration.argument) := by
  show readFields (splitOn ',' cs) = _
  -- a field without commas is not cut
  have whole : ∀ {cs : List Char}, ',' ∉ cs → splitOn ',' cs = [cs] := by
    intro cs absent
    rw [splitOn_eq_list_splitOn, List.splitOn_eq_singleton absent]
  induction h with
  | none blank =>
    have absent : ',' ∉ _ := fun mem => ne_of_isBlank (blank ',' mem) rfl rfl
    rw [whole absent, readFields_blank blank, List.map_nil]
  | last worded =>
    rw [whole (Declaration.not_mem List.mem_cons_self worded)]
    exact readFields_cons worded rfl
  | more worded _ ih =>
    have absent := Declaration.not_mem List.mem_cons_self worded
    rw [splitOn_eq_list_splitOn, List.splitOn_append_cons_self_of_not_mem absent,
      ← splitOn_eq_list_splitOn]
    exact readFields_cons worded ih

theorem declarations_trim (cs : List Char) : declarations (trim cs) = declarations cs := by
  obtain ⟨lead, trail, eq, before, behind⟩ := exists_trim cs
  have cut : isBlank ',' = false := rfl
  have fields := map_trim_splitOn before behind cut (trim cs)
  rw [← eq] at fields
  rw [declarations, declarations, fields]

/-! ### Whole signatures -/

/-- The name and the list of a signature with parentheses. -/
theorem parts_of_call {name gap list : List Char} (ne : name ≠ []) (trimmed : Trimmed name)
    (plain : '(' ∉ name) (blank : ∀ c ∈ gap, isBlank c) :
    parts (name ++ gap ++ '(' :: (list ++ [')'])) = .ok (some (String.ofList name), list) := by
  have last : splitLast? ')' (name ++ gap ++ '(' :: (list ++ [')'])) =
      some (name ++ gap ++ '(' :: list, []) := by
    have back : (name ++ gap ++ '(' :: (list ++ [')'])).reverse =
        [] ++ ')' :: (name ++ gap ++ '(' :: list).reverse := by
      simp
    rw [splitLast?, splitOnce?_eq_some_iff.2 ⟨back, List.not_mem_nil⟩, Option.map_some,
      List.reverse_reverse, List.reverse_nil]
  have long : ¬ (name ++ gap ++ '(' :: list).length < (name ++ gap).length := by simp
  have behind : (name ++ gap ++ '(' :: list).drop ((name ++ gap).length + 1) = list := by
    rw [List.drop_append]
    simp
  rw [parts, splitOnce?_eq_some_iff.2 ⟨rfl, not_mem_head plain blank⟩, last]
  simp only [if_neg long, trim_head trimmed blank, behind, List.isEmpty_iff, if_neg ne]

/-- A signature is read by its parts. -/
theorem parse_of_parts {text : String} {name : Option String} {list : List Char}
    {arguments : List Argument} (h : parts (trim text.toList) = .ok (name, list))
    (read : declarations list = .ok arguments) : parse text = .ok ⟨name, arguments⟩ := by
  rw [parse, h]
  exact bind_eq_ok.2 ⟨_, rfl, bind_eq_ok.2 ⟨_, read, rfl⟩⟩

theorem position?_eq_findIdx? (f : CallingFunction) (name : String) :
    f.position? name = (f.arguments.map Argument.name).findIdx? (· == name) := by
  rw [List.findIdx?_map]
  rfl

/-- An argument has no place exactly if it is not declared. -/
theorem position?_eq_none_iff {f : CallingFunction} {name : String} :
    f.position? name = none ↔ name ∉ f.arguments.map Argument.name := by
  rw [position?_eq_findIdx?, List.findIdx?_eq_none_iff]
  simp only [beq_eq_false_iff_ne]
  exact ⟨fun others mem => others name mem rfl, fun absent n mem same => absent (same ▸ mem)⟩

/-- The place of a name is the first at which an argument has it. -/
theorem position?_eq_some_iff {f : CallingFunction} {name : String} {i : Nat} :
    f.position? name = some i ↔ (f.arguments.map Argument.name)[i]? = some name ∧
      ∀ j < i, (f.arguments.map Argument.name)[j]? ≠ some name := by
  rw [position?_eq_findIdx?, List.findIdx?_eq_some_iff_getElem]
  generalize f.arguments.map Argument.name = names
  constructor
  · rintro ⟨lt, named, before⟩
    refine ⟨by rw [List.getElem?_eq_getElem lt, beq_iff_eq.1 named], fun j earlier same => ?_⟩
    obtain ⟨_, eq⟩ := List.getElem?_eq_some_iff.1 same
    exact before j earlier (beq_iff_eq.2 eq)
  · rintro ⟨named, before⟩
    obtain ⟨lt, eq⟩ := List.getElem?_eq_some_iff.1 named
    refine ⟨lt, beq_iff_eq.2 eq, fun j earlier same => before j earlier ?_⟩
    rw [List.getElem?_eq_getElem (Nat.lt_trans earlier lt), beq_iff_eq.1 same]

/-- **A signature is read as what it declares.**  With a name before its parentheses it gives the
name and the arguments, and the list by itself gives the same arguments and no name, whatever blanks
stand between words.  The place of a name is the first at which an argument has it. -/
theorem parse_declares {ds : List Declaration} {list : List Char} (listed : Declares ds list)
    {name : String} (ne : name ≠ "") (trimmed : Trimmed name.toList) (plain : '(' ∉ name.toList)
    {lead gap trail : List Char} (before : ∀ c ∈ lead, isBlank c) (between : ∀ c ∈ gap, isBlank c)
    (behind : ∀ c ∈ trail, isBlank c) :
    parse (String.ofList (lead ++ name.toList ++ gap ++ '(' :: list ++ ')' :: trail)) =
      .ok ⟨some name, ds.map Declaration.argument⟩ ∧
    parse (String.ofList list) = .ok ⟨none, ds.map Declaration.argument⟩ ∧
    ∀ (f : CallingFunction) (n : String),
      (∀ i, f.position? n = some i ↔ (f.arguments.map Argument.name)[i]? = some n ∧
        ∀ j < i, (f.arguments.map Argument.name)[j]? ≠ some n) ∧
      (f.position? n = none ↔ n ∉ f.arguments.map Argument.name) := by
  have letters : name.toList ≠ [] := by simpa using ne
  refine ⟨?_, ?_, fun f n => ⟨fun i => position?_eq_some_iff, position?_eq_none_iff⟩⟩
  · refine parse_of_parts ?_ (declarations_of_declares listed)
    rw [String.toList_ofList, trim_call letters trimmed before behind,
      parts_of_call letters trimmed plain between, String.ofList_toList]
  · -- without a name there is no parenthesis, so all of it is the list
    have absent : '(' ∉ trim list :=
      fun mem => listed.not_mem List.mem_cons_self (mem_of_mem_trim mem)
    refine parse_of_parts ?_ ((declarations_trim list).trans (declarations_of_declares listed))
    rw [String.toList_ofList, parts, splitOnce?_eq_none_iff.2 absent]

/-- An array, two storage words, and blanks around the marks and at the ends. -/
theorem parse_declares_transfer :
    parse " transfer\n( address[] to ,\tstring memory  calldata note)" =
      .ok ⟨some "transfer", [⟨"to", "address[]", .staticArray⟩, ⟨"note", "string", .string⟩]⟩ ∧
    parse " address[] to ,\tstring memory  calldata note" =
      .ok ⟨none, [⟨"to", "address[]", .staticArray⟩, ⟨"note", "string", .string⟩]⟩ := by
  have recipient : IsWord "to".toList := by decide +kernel
  have note : IsWord "note".toList := by decide +kernel
  have array : IsWord "address[]".toList := by decide +kernel
  have text : IsWord "string".toList := by decide +kernel
  have memory : IsWord "memory".toList := by decide +kernel
  have calldata : IsWord "calldata".toList := by decide +kernel
  let first : Declaration :=
    ⟨⟨"to", "address[]", .staticArray⟩, [], by decide +kernel, array.solid, List.forall_mem_nil _,
      recipient, by simp, by decide⟩
  let second : Declaration :=
    ⟨⟨"note", "string", .string⟩, ["memory", "calldata"], by decide +kernel, text.solid,
      by decide, note, by simp, by decide⟩
  have before : Worded first.words (' ' :: ("address[]".toList ++ ' ' :: ("to".toList ++ [' ']))) :=
    .blank rfl (.word array rfl (.blank rfl (.word recipient rfl (.blank rfl .nil))))
  have behind : Worded second.words ('\t' :: ("string".toList ++ ' ' :: ("memory".toList ++
      ' ' :: ' ' :: ("calldata".toList ++ ' ' :: ("note".toList ++ []))))) :=
    .blank rfl (.word text rfl (.blank rfl (.word memory rfl (.blank rfl (.blank rfl
      (.word calldata rfl (.blank rfl (.word note trivial .nil))))))))
  have ne : "transfer" ≠ "" := by decide
  have lead : ∀ c ∈ [' '], isBlank c := List.forall_mem_singleton.2 rfl
  have gap : ∀ c ∈ ['\n'], isBlank c := List.forall_mem_singleton.2 rfl
  have read := parse_declares (.more before (.last behind)) ne (by decide +kernel)
    (by decide +kernel) lead gap (List.forall_mem_nil _)
  exact ⟨read.1, read.2.1⟩

end CallingFunction

end RuleCodec
