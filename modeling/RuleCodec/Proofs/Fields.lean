/-
RuleCodec/Proofs/Fields.lean

Lists of declarations, cut into fields and words.

A text is cut at its commas into the fields of which it is joined
(`Text.splitOn_eq_iff`), and blanks at its ends are blanks of the first field
or of the last (`Text.map_trim_splitOn`).  A field is cut at its blanks into
words: `Text.Worded` says which texts have given words, with any blanks around
them, and these are the texts that are cut so (`Text.words_eq_iff`).  The name
of a type is one such word, and none of its characters cuts a text
(`ValueType.not_mem_of_ofText`).
-/
import Mathlib.Data.List.Basic
import Mathlib.Tactic.ByContra
import RuleCodec.Proofs.Texts
import RuleCodec.ValueType.Text

namespace RuleCodec

namespace Text

/-! ### Fields -/

variable {sep c : Char} {cs : List Char} {fields : List (List Char)}

/-- Splitting at a character is what the library calls splitting a list. -/
theorem splitOn_eq_list_splitOn (sep : Char) (cs : List Char) :
    splitOn sep cs = List.splitOn sep cs := by
  induction cs with
  | nil => rw [splitOn, List.splitOn_nil]
  | cons c cs ih =>
    rw [splitOn, List.splitOn_cons_eq_if_modifyHead, ih]
    obtain ⟨field, fields, eq⟩ := List.exists_cons_of_ne_nil (List.splitOn_ne_nil sep cs)
    simp only [eq, beq_iff_eq, List.modifyHead_cons]

/-- No field contains the separator. -/
theorem not_mem_of_mem_splitOn {field : List Char} (mem : field ∈ splitOn sep cs) :
    sep ∉ field := by
  induction cs generalizing field with
  | nil =>
    rw [List.mem_singleton.1 mem]
    exact List.not_mem_nil
  | cons c cs ih =>
    rw [splitOn] at mem
    split at mem
    · rcases List.mem_cons.1 mem with rfl | mem
      · exact List.not_mem_nil
      · exact ih mem
    · rename_i other
      split at mem
      · rw [List.mem_singleton.1 mem, List.mem_singleton]
        exact Ne.symm other
      · -- a character that is not the separator goes to the first field
        rename_i first fields eq
        rw [eq] at ih
        rcases List.mem_cons.1 mem with rfl | mem
        · rw [List.mem_cons, not_or]
          exact ⟨Ne.symm other, ih List.mem_cons_self⟩
        · exact ih (List.mem_cons_of_mem _ mem)

/-- The fields of a text are those it is joined of that have no separator. -/
theorem splitOn_eq_iff : splitOn sep cs = fields ↔
    fields ≠ [] ∧ (∀ field ∈ fields, sep ∉ field) ∧ cs = [sep].intercalate fields := by
  constructor
  · rintro rfl
    refine ⟨?_, fun field mem => not_mem_of_mem_splitOn mem, ?_⟩
    · rw [splitOn_eq_list_splitOn]
      exact List.splitOn_ne_nil sep cs
    · rw [splitOn_eq_list_splitOn, List.intercalate_splitOn]
  · rintro ⟨ne, plain, rfl⟩
    rw [splitOn_eq_list_splitOn, List.splitOn_intercalate sep plain ne]

/-- What is put behind a joined text is put behind its last field. -/
theorem intercalate_concat_append (sep : Char) (front : List (List Char))
    (last trail : List Char) :
    [sep].intercalate (front ++ [last]) ++ trail =
      [sep].intercalate (front ++ [last ++ trail]) := by
  induction front with
  | nil => rw [List.nil_append, List.nil_append, List.intercalate_singleton,
      List.intercalate_singleton]
  | cons field front ih =>
    rw [List.cons_append, List.cons_append, List.intercalate_cons_of_ne_nil (by simp),
      List.intercalate_cons_of_ne_nil (by simp), ← ih, List.append_assoc]

/-- Blanks behind a text are blanks behind its last field. -/
theorem map_trim_splitOn_append {trail : List Char} (behind : ∀ c ∈ trail, isBlank c)
    (cut : isBlank sep = false) (cs : List Char) :
    (splitOn sep (cs ++ trail)).map trim = (splitOn sep cs).map trim := by
  obtain ⟨ne, plain, joined⟩ := splitOn_eq_iff.1 (rfl : splitOn sep cs = splitOn sep cs)
  rw [← List.dropLast_concat_getLast ne] at joined plain ⊢
  -- the blanks go to the last field, where trimming takes them off again
  have whole : splitOn sep (cs ++ trail) =
      (splitOn sep cs).dropLast ++ [(splitOn sep cs).getLast ne ++ trail] := by
    rw [splitOn_eq_iff, ← intercalate_concat_append, ← joined]
    refine ⟨by simp, ?_, rfl⟩
    rw [List.forall_mem_append] at plain ⊢
    refine ⟨plain.1, List.forall_mem_singleton.2 ?_⟩
    rw [List.mem_append, not_or]
    exact ⟨plain.2 _ (List.mem_singleton.2 rfl),
      fun mem => ne_of_isBlank (behind sep mem) cut rfl⟩
  have blanks := trim_blanks (List.forall_mem_nil _) behind ((splitOn sep cs).getLast ne)
  rw [whole, List.map_append, List.map_append, List.map_singleton, List.map_singleton, ← blanks,
    List.nil_append]

/-- A blank before a text is a blank before its first field. -/
theorem map_trim_splitOn_cons (here : isBlank c) (cut : isBlank sep = false) (cs : List Char) :
    (splitOn sep (c :: cs)).map trim = (splitOn sep cs).map trim := by
  obtain ⟨ne, -, -⟩ := splitOn_eq_iff.1 (rfl : splitOn sep cs = splitOn sep cs)
  obtain ⟨field, fields, found⟩ := List.exists_cons_of_ne_nil ne
  rw [splitOn, if_neg (ne_of_isBlank here cut), found]
  simp only [List.map_cons, trim_cons here]

/-- Blanks around a text are blanks around its fields. -/
theorem map_trim_splitOn {lead trail : List Char} (before : ∀ c ∈ lead, isBlank c)
    (behind : ∀ c ∈ trail, isBlank c) (cut : isBlank sep = false) (cs : List Char) :
    (splitOn sep (lead ++ (cs ++ trail))).map trim = (splitOn sep cs).map trim := by
  induction lead with
  | nil => exact map_trim_splitOn_append behind cut cs
  | cons c lead ih =>
    obtain ⟨here, others⟩ := List.forall_mem_cons.1 before
    rw [List.cons_append, map_trim_splitOn_cons here cut, ih others]

/-! ### Words -/

/-- Characters that are not blank, at least one. -/
structure IsWord (cs : List Char) : Prop where
  ne : cs ≠ []
  solid : ∀ c ∈ cs, isBlank c = false

instance (cs : List Char) : Decidable (IsWord cs) :=
  -- along the list, not over all characters
  decidable_of_iff (cs ≠ [] ∧ cs.all fun c => !isBlank c) (by
    simp only [List.all_eq_true, Bool.not_eq_true']
    exact ⟨fun h => ⟨h.1, h.2⟩, fun h => ⟨h.ne, h.solid⟩⟩)

/-- The text has the words, with blanks around them and at least one between neighbours. -/
inductive Worded : List (List Char) → List Char → Prop
  | nil : Worded [] []
  | blank {c : Char} {ws : List (List Char)} {cs : List Char} : isBlank c → Worded ws cs →
      Worded ws (c :: cs)
  | word {w : List Char} {ws : List (List Char)} {rest : List Char} : IsWord w → Fades rest →
      Worded ws rest → Worded (w :: ws) (w ++ rest)

theorem words_cons_of_isBlank (here : isBlank c) (cs : List Char) : words (c :: cs) = words cs := by
  rw [words.eq_def]
  exact if_pos here

/-- A word ends where blanks or the end of the text follow. -/
theorem words_append {w rest : List Char} (is : IsWord w) (fades : Fades rest) :
    words (w ++ rest) = w :: words rest := by
  obtain ⟨ne, solid⟩ := is
  induction w with
  | nil => exact absurd rfl ne
  | cons c w ih =>
    obtain ⟨here, others⟩ := List.forall_mem_cons.1 solid
    -- the next character decides: a word goes on or ends here
    cases w with
    | nil =>
      cases rest with
      | nil => simp [words, here]
      | cons d rest =>
        have blank : isBlank d = true := fades
        simp [words, here, blank]
    | cons d w =>
      have next : isBlank d = false := others d List.mem_cons_self
      have more := ih (List.cons_ne_nil _ _) others
      rw [List.cons_append] at more ⊢
      rw [List.cons_append, words, if_neg (by simp [here])]
      simp only [next, more]
      rfl

/-- A text that is made of words has these words. -/
theorem Worded.words_eq {ws : List (List Char)} (h : Worded ws cs) : words cs = ws := by
  induction h with
  | nil => rfl
  | blank here _ ih => rw [words_cons_of_isBlank here, ih]
  | word is fades _ ih => rw [words_append is fades, ih]

/-- What begins with no blank begins with a word. -/
theorem Worded.exists_word {ws : List (List Char)} (h : Worded ws (c :: cs))
    (here : isBlank c = false) :
    ∃ w ws' rest, ws = w :: ws' ∧ c :: cs = w ++ rest ∧ IsWord w ∧ Fades rest ∧
      Worded ws' rest := by
  generalize eq : c :: cs = text at h
  cases h with
  | nil => cases eq
  | blank blank _ =>
    cases eq
    rw [here] at blank
    cases blank
  | word is fades behind => exact ⟨_, _, _, rfl, rfl, is, fades, behind⟩

/-- Every text is made of its words. -/
theorem worded_words (cs : List Char) : Worded (words cs) cs := by
  fun_induction words cs with
  | case1 => exact .nil
  | case2 c cs here ih => exact .blank here ih
  | case3 c here => exact .word ⟨List.cons_ne_nil _ _, by simpa using here⟩ trivial .nil
  | case4 c here next rest blank ih =>
    have alone : IsWord [c] := ⟨List.cons_ne_nil _ _, by simpa using here⟩
    exact .word alone blank ih
  | case5 c here next rest solid none ih =>
    -- the next character begins a word, so there is one
    rw [none] at ih
    obtain ⟨w, ws, behind, eq, -⟩ := ih.exists_word (by simpa using solid)
    cases eq
  | case6 c here next rest solid w ws found ih =>
    rw [found] at ih
    obtain ⟨_, _, behind, eq, split, is, fades, worded⟩ := ih.exists_word (by simpa using solid)
    cases eq
    have longer : IsWord (c :: w) :=
      ⟨List.cons_ne_nil _ _, List.forall_mem_cons.2 ⟨by simpa using here, is.solid⟩⟩
    rw [found, split]
    exact .word longer fades worded

/-- A text is cut into the words that it has. -/
theorem words_eq_iff {ws : List (List Char)} : words cs = ws ↔ Worded ws cs := by
  constructor
  · rintro rfl
    exact worded_words cs
  · exact Worded.words_eq

namespace Worded

variable {ws : List (List Char)} {lead trail : List Char}

theorem prepend (before : ∀ c ∈ lead, isBlank c) (h : Worded ws cs) : Worded ws (lead ++ cs) := by
  induction lead with
  | nil => exact h
  | cons c lead ih =>
    obtain ⟨here, others⟩ := List.forall_mem_cons.1 before
    exact .blank here (ih others)

theorem append (h : Worded ws cs) (behind : ∀ c ∈ trail, isBlank c) : Worded ws (cs ++ trail) := by
  induction h with
  | nil =>
    have blanks := Worded.nil.prepend behind
    rwa [List.append_nil] at blanks
  | blank here _ ih => exact .blank here ih
  | @word w ws rest is fades _ ih =>
    have fades : Fades (rest ++ trail) := by
      cases rest with
      | nil => exact fades_of_forall behind
      | cons d rest => exact fades
    rw [List.append_assoc]
    exact .word is fades ih

/-- A character of the text is a blank or one of a word. -/
theorem isBlank_or_mem (h : Worded ws cs) (mem : c ∈ cs) : isBlank c ∨ ∃ w ∈ ws, c ∈ w := by
  induction h with
  | nil => cases mem
  | blank here _ ih =>
    rcases List.mem_cons.1 mem with rfl | mem
    · exact .inl here
    · exact ih mem
  | word _ _ _ ih =>
    rcases List.mem_append.1 mem with inWord | mem
    · exact .inr ⟨_, List.mem_cons_self, inWord⟩
    · rcases ih mem with blank | ⟨w, inWords, inWord⟩
      · exact .inl blank
      · exact .inr ⟨w, List.mem_cons_of_mem _ inWords, inWord⟩

/-- The parts of such a text are words. -/
theorem isWord_of_mem {w : List Char} (h : Worded ws cs) (mem : w ∈ ws) : IsWord w := by
  induction h with
  | nil => cases mem
  | blank _ _ ih => exact ih mem
  | word is _ _ ih =>
    rcases List.mem_cons.1 mem with rfl | mem
    · exact is
    · exact ih mem

theorem subset_of_mem {w : List Char} (h : Worded ws cs) (mem : w ∈ ws) : w ⊆ cs := by
  induction h with
  | nil => cases mem
  | blank _ _ ih => exact fun c inWord => List.mem_cons_of_mem _ (ih mem inWord)
  | word _ _ _ ih =>
    rcases List.mem_cons.1 mem with rfl | mem
    · exact List.subset_append_left _ _
    · exact fun c inWord => List.mem_append_right _ (ih mem inWord)

end Worded

/-- The blanks around a text do not count. -/
theorem words_trim (cs : List Char) : words (trim cs) = words cs := by
  obtain ⟨lead, trail, eq, before, behind⟩ := exists_trim cs
  have worded := ((worded_words (trim cs)).append behind).prepend before
  rw [← eq] at worded
  exact worded.words_eq.symm

/-! ### A name before parentheses -/

section Calls

variable {lead name gap list trail : List Char}

/-- A call without the blanks at its ends. -/
theorem trim_call (ne : name ≠ []) (trimmed : Trimmed name) (before : ∀ c ∈ lead, isBlank c)
    (behind : ∀ c ∈ trail, isBlank c) :
    trim (lead ++ name ++ gap ++ '(' :: list ++ ')' :: trail) =
      name ++ gap ++ '(' :: (list ++ [')']) := by
  have whole : lead ++ name ++ gap ++ '(' :: list ++ ')' :: trail =
      lead ++ (name ++ gap ++ '(' :: (list ++ [')']) ++ trail) := by
    simp
  rw [whole]
  refine trim_of_surrounded before behind ⟨fun c mem => ?_, fun c mem => ?_⟩
  · -- the name comes first, and it begins with no blank
    apply trimmed.head c
    rwa [List.append_assoc, List.head?_append_of_ne_nil _ ne] at mem
  · have last : (name ++ gap ++ '(' :: (list ++ [')'])).getLast? = some ')' := by
      rw [← List.cons_append, ← List.append_assoc, List.getLast?_concat]
    rw [last] at mem
    cases mem
    rfl

theorem trim_head (trimmed : Trimmed name) (blank : ∀ c ∈ gap, isBlank c) :
    trim (name ++ gap) = name := by
  have between := trim_of_surrounded (List.forall_mem_nil _) blank trimmed
  rwa [List.nil_append] at between

theorem not_mem_head (plain : '(' ∉ name) (blank : ∀ c ∈ gap, isBlank c) :
    '(' ∉ name ++ gap := by
  rw [List.mem_append, not_or]
  exact ⟨plain, fun mem => ne_of_isBlank (blank '(' mem) rfl rfl⟩

end Calls

end Text

/-! ### Names of types -/

namespace ValueType

open Text

/-- The names of the types that are no arrays. -/
def scalarNames : List String :=
  ["address", "string", "uint256", "uint", "bool", "void", "bytes"]

/-- What holds of the names of the types that are no arrays. -/
theorem of_scalar? {cs : List Char} {t : ValueType} {p : List Char → Bool}
    (h : scalar? cs = some t) (all : scalarNames.all fun name => p name.toList) : p cs := by
  have named : String.ofList cs ∈ scalarNames := by
    by_contra other
    simp only [scalarNames, List.mem_cons, List.not_mem_nil, or_false, not_or] at other
    simp [scalar?, other] at h
  have here := List.all_eq_true.1 all _ named
  rwa [String.toList_ofList] at here

/-- The name of a scalar type does not end in brackets. -/
theorem stripEnd?_of_scalar? {cs : List Char} {t : ValueType} (h : scalar? cs = some t) :
    stripEnd? ['[', ']'] cs = none := by
  have ends : (stripEnd? ['[', ']'] cs).isNone :=
    of_scalar? (p := fun name => (stripEnd? ['[', ']'] name).isNone) h (by decide +kernel)
  exact Option.isNone_iff_eq_none.1 ends

/-- Behind the name of a type, brackets name the type of its arrays. -/
theorem ofText_brackets {element : List Char} {t : ValueType}
    (solid : ∀ c ∈ element ++ ['[', ']'], isBlank c = false) :
    ofText (element ++ ['[', ']']) = .ok t ↔
      ∃ item, ofText element = .ok item ∧ item.array? = some t := by
  rw [ofText, (trimmed_of_forall solid).trim_eq]
  split
  · rename_i element' ends
    rw [stripEnd?_append] at ends
    cases ends
    cases ofText element with
    | error e => simp
    | ok item => cases named : item.array? <;> simp [named]
  · rename_i other
    rw [stripEnd?_append] at other
    cases other

/-- A type without brackets is read as a scalar type. -/
theorem ofText_single {cs : List Char} {t : ValueType} (solid : ∀ c ∈ cs, isBlank c = false)
    (single : stripEnd? ['[', ']'] cs = none) : ofText cs = .ok t ↔ scalar? cs = some t := by
  rw [ofText, (trimmed_of_forall solid).trim_eq]
  split
  · rename_i element ends
    rw [single] at ends
    cases ends
  · cases named : scalar? cs <;> simp

/-- A name without blanks is that of a scalar type, or that of a scalar type with brackets behind
it: there are no arrays of arrays. -/
theorem ofText_eq_ok_iff {cs : List Char} {t : ValueType} (solid : ∀ c ∈ cs, isBlank c = false) :
    ofText cs = .ok t ↔ scalar? cs = some t ∨
      ∃ element item, cs = element ++ ['[', ']'] ∧ scalar? element = some item ∧
        item.array? = some t := by
  cases ends : stripEnd? ['[', ']'] cs with
  | none =>
    rw [ofText_single solid ends, or_iff_left]
    rintro ⟨element, item, rfl, -⟩
    rw [stripEnd?_append] at ends
    cases ends
  | some element =>
    obtain rfl := stripEnd?_eq_some ends
    have within : ∀ c ∈ element, isBlank c = false :=
      fun c mem => solid c (List.mem_append_left _ mem)
    rw [ofText_brackets solid]
    constructor
    · rintro ⟨item, named, array⟩
      refine .inr ⟨element, item, rfl, ?_, array⟩
      cases inner : stripEnd? ['[', ']'] element with
      | none => exact (ofText_single within inner).1 named
      | some innermost =>
        -- the items would be arrays, of which there are no arrays
        obtain rfl := stripEnd?_eq_some inner
        obtain ⟨item', -, arrays⟩ := (ofText_brackets within).1 named
        cases item' <;> cases arrays <;> cases array
    · rintro (scalar | ⟨element', item, same, named, array⟩)
      · rw [stripEnd?_of_scalar? scalar] at ends
        cases ends
      · cases List.append_cancel_right same
        exact ⟨item, (ofText_single within (stripEnd?_of_scalar? named)).2 named, array⟩

/-- A character that is in no name of a type. -/
theorem not_mem_of_ofText {cs : List Char} {t : ValueType} {c : Char} (h : ofText cs = .ok t)
    (solid : ∀ c ∈ cs, isBlank c = false)
    (other : (['[', ']'] :: scalarNames.map String.toList).all fun name => !name.contains c) :
    c ∉ cs := by
  rw [List.all_cons, List.all_map, Bool.and_eq_true] at other
  obtain ⟨noBracket, noLetter⟩ := other
  have absent : ∀ {name : List Char} {t : ValueType}, scalar? name = some t → c ∉ name := by
    intro name t named
    have apart := of_scalar? (p := fun name => !name.contains c) named noLetter
    simpa using apart
  rcases (ofText_eq_ok_iff solid).1 h with scalar | ⟨element, item, rfl, named, -⟩
  · exact absent scalar
  · rw [List.mem_append, not_or]
    exact ⟨absent named, by simpa using noBracket⟩

end ValueType

end RuleCodec
