/-
RuleCodec/Proofs/Quotations.lean

Arrays of texts, each between double quotes.

An array literal is cut at its commas, but not at those between quotes.  A part
that leaves no quote open and has no comma outside its quotes is never cut
(`Definition.Uncut`); blanks are such a part, and so is a text between quotes.
Joined by commas, such parts are what the cut gives back
(`Definition.splitItems_intercalate`).  The blanks around each part and then its
quotes come off, so an array of quoted texts is laid out as the texts
themselves (`TrackerDefinition.encode_quotations`).
-/
import RuleCodec.Definition.Tracker
import RuleCodec.Proofs.Tables
import RuleCodec.Proofs.Texts

namespace RuleCodec

open Text

namespace Definition

/-! ### Cutting at commas -/

variable {c quote : Char} {cs item : List Char} {items : List (List Char)}

/-- Outside quotes a character other than a comma belongs to the item, and may open a quote. -/
theorem splitItems_outside (other : c ≠ ',')
    (h : splitItems (if c = '"' ∨ c = '\'' then some c else none) cs = some (item :: items)) :
    splitItems none (c :: cs) = some ((c :: item) :: items) := by
  rw [splitItems]
  · simp only [h]
  · exact fun _ => other

/-- Between quotes every character belongs to the item, and the same quote closes them. -/
theorem splitItems_inside
    (h : splitItems (if c = quote then none else some quote) cs = some (item :: items)) :
    splitItems (some quote) (c :: cs) = some ((c :: item) :: items) := by
  rw [splitItems]
  simp only [h]

/-- A part that is never cut, whatever stands behind it. -/
def Uncut (part : List Char) : Prop :=
  ∀ rest item items, splitItems none rest = some (item :: items) →
    splitItems none (part ++ rest) = some ((part ++ item) :: items)

/-- Texts that are not cut are not cut side by side. -/
theorem Uncut.append {part part' : List Char} (h : Uncut part) (h' : Uncut part') :
    Uncut (part ++ part') := by
  intro rest item items behind
  rw [List.append_assoc, List.append_assoc]
  exact h _ _ _ (h' _ _ _ behind)

theorem uncut_blanks {blanks : List Char} (h : ∀ c ∈ blanks, isBlank c) : Uncut blanks := by
  intro rest item items behind
  induction blanks with
  | nil => exact behind
  | cons c blanks ih =>
    obtain ⟨blank, others⟩ := List.forall_mem_cons.1 h
    have plain : ¬ (c = '"' ∨ c = '\'') :=
      not_or.2 ⟨ne_of_isBlank blank (by decide), ne_of_isBlank blank (by decide)⟩
    apply splitItems_outside (ne_of_isBlank blank (by decide))
    rw [if_neg plain]
    exact ih others

/-- A quoted text is not cut, commas in it or not. -/
theorem uncut_quoted {text : List Char} (is : quote = '"' ∨ quote = '\'') (plain : quote ∉ text) :
    Uncut (quote :: (text ++ [quote])) := by
  intro rest item items behind
  -- from behind the first quote on, up to the second
  have inside : splitItems (some quote) (text ++ [quote] ++ rest) =
      some ((text ++ [quote] ++ item) :: items) := by
    rw [List.append_assoc, List.append_assoc]
    induction text with
    | nil =>
      apply splitItems_inside
      rw [if_pos rfl]
      exact behind
    | cons c text ih =>
      rw [List.mem_cons, not_or] at plain
      apply splitItems_inside
      rw [if_neg (Ne.symm plain.1)]
      exact ih plain.2
  have open_ : quote ≠ ',' := by
    rcases is with rfl | rfl <;> decide
  apply splitItems_outside open_
  rw [if_pos is]
  exact inside

theorem mem_intercalate_of_mem {sep : List Char} (h : c ∈ item) :
    c ∈ List.intercalate sep (item :: items) := by
  cases items with
  | nil => rwa [List.intercalate_singleton]
  | cons second items =>
    rw [List.intercalate_cons_cons, List.append_assoc]
    exact List.mem_append_left _ h

/-- Parts that are never cut are cut where they were joined. -/
theorem splitItems_intercalate (ne : items ≠ []) (whole : ∀ item ∈ items, Uncut item) :
    splitItems none (List.intercalate [','] items) = some items := by
  induction items with
  | nil => exact absurd rfl ne
  | cons first items ih =>
    obtain ⟨uncut, others⟩ := List.forall_mem_cons.1 whole
    cases items with
    | nil =>
      have alone := uncut [] [] [] rfl
      rw [List.append_nil] at alone
      rwa [List.intercalate_singleton]
    | cons second items =>
      have behind := ih (List.cons_ne_nil _ _) others
      -- the comma stands outside quotes, so it cuts
      have cut : splitItems none (',' :: List.intercalate [','] (second :: items)) =
          some ([] :: second :: items) := by
        rw [splitItems, behind]
        rfl
      have joined := uncut _ _ _ cut
      rw [List.append_nil] at joined
      rwa [List.intercalate_cons_cons, List.append_assoc]

end Definition

/-! ### Quotations -/

/-- A text between double quotes, which it does not hold itself, with blanks around. -/
structure Quotation where
  before : List Char
  text : String
  behind : List Char
  blankBefore : ∀ c ∈ before, isBlank c
  plain : '"' ∉ text.toList
  blankBehind : ∀ c ∈ behind, isBlank c

namespace Quotation

/-- A text with its quotes. -/
def quoted (q : Quotation) : List Char :=
  '"' :: (q.text.toList ++ ['"'])

/-- A quotation as it is written. -/
def spell (q : Quotation) : List Char :=
  q.before ++ (q.quoted ++ q.behind)

/-- Quotations as an array: between brackets, with commas between them. -/
def array (quotations : List Quotation) : String :=
  String.ofList ('[' :: (List.intercalate [','] (quotations.map spell) ++ [']']))

/-- However a quotation is spelled, it is not cut. -/
theorem uncut_spell (q : Quotation) : Definition.Uncut q.spell :=
  (Definition.uncut_blanks q.blankBefore).append
    ((Definition.uncut_quoted (.inl rfl) q.plain).append (Definition.uncut_blanks q.blankBehind))

theorem quote_mem_spell (q : Quotation) : '"' ∈ q.spell :=
  List.mem_append_right _ (List.mem_append_left _ List.mem_cons_self)

/-- Without the blanks around it a spelling is the quotation. -/
theorem trim_spell (q : Quotation) : trim q.spell = q.quoted :=
  trim_of_surrounded q.blankBefore q.blankBehind (trimmed_between rfl rfl _)

theorem trim_quoted (q : Quotation) : trim q.quoted = q.quoted :=
  (trimmed_between rfl rfl _).trim_eq

end Quotation

namespace Definition

/-- What stands between brackets is cut at its commas, unless it is blank. -/
theorem arrayItems?_brackets (inner : List Char) :
    arrayItems? ('[' :: (inner ++ [']'])) =
      if (trim inner).isEmpty then some []
      else (splitItems none inner).map fun items => items.map trim := by
  have trimmed : Trimmed ('[' :: (inner ++ [']'])) := trimmed_between rfl rfl inner
  have opened : stripStart? ['['] ('[' :: (inner ++ [']'])) = some (inner ++ [']']) :=
    stripStart?_append ['['] _
  rw [arrayItems?, trimmed.trim_eq, opened, Option.bind_some, stripEnd?_append]

/-- The items of an array of quotations are the texts with their quotes. -/
theorem arrayItems?_array (quotations : List Quotation) :
    arrayItems? (Quotation.array quotations).toList = some (quotations.map Quotation.quoted) := by
  rw [Quotation.array, String.toList_ofList, arrayItems?_brackets]
  cases quotations with
  | nil => rfl
  | cons q quotations =>
    -- there is a quotation mark, so the list is not blank
    have ne :
        ¬ (trim (List.intercalate [','] ((q :: quotations).map Quotation.spell))).isEmpty := by
      intro empty
      have blank := isBlank_of_trim_eq_nil (List.isEmpty_iff.1 empty)
      exact absurd (blank '"' (mem_intercalate_of_mem q.quote_mem_spell)) (by decide)
    have cut : splitItems none (List.intercalate [','] ((q :: quotations).map Quotation.spell)) =
        some ((q :: quotations).map Quotation.spell) := by
      refine splitItems_intercalate (List.cons_ne_nil _ _) (List.forall_mem_map.2 ?_)
      exact fun q _ => q.uncut_spell
    rw [if_neg ne, cut, Option.map_some, List.map_map]
    congr 1
    apply List.map_congr_left
    exact fun q _ => q.trim_spell

/-- A quotation is read as its text. -/
theorem scalar_quoted (q : Quotation) :
    scalar .string q.quoted = .ok (Utf8.encode q.text.toList) := by
  rw [scalar, scalar?, q.trim_quoted, Quotation.quoted, unquote_quoted]

end Definition

/-- **An array of quotations is laid out as the texts without their quotes**, whatever commas,
brackets, single quotes and blanks they hold. -/
theorem TrackerDefinition.encode_quotations (name : String) (quotations : List Quotation) :
    (⟨name, "string[]", Quotation.array quotations⟩ : TrackerDefinition).encode =
      .ok ⟨name, .dynamicArray,
        Abi.dynamicArray (quotations.map fun q => Utf8.encode q.text.toList)⟩ := by
  have declared : ValueType.ofText (trim "string[]".toList) = .ok .dynamicArray := by
    decide +kernel
  have element : Definition.elementType (trim "string[]".toList) = .ok .string := by
    decide +kernel
  have items : (quotations.map Quotation.quoted).mapM (Definition.scalar .string) =
      .ok (quotations.map fun q => Utf8.encode q.text.toList) := by
    rw [mapM_eq_ok_iff, List.forall₂_map_left_iff, List.forall₂_map_right_iff, List.forall₂_same]
    exact fun q _ => Definition.scalar_quoted q
  have data : Definition.arrayData (trim "string[]".toList) (Quotation.array quotations).toList =
      .ok (quotations.map fun q => Utf8.encode q.text.toList) := by
    rw [Definition.arrayData, element, Definition.arrayItems?_array]
    exact items
  rw [encode, Definition.encodeValue, declared, data]
  rfl

/-- Commas, brackets, blanks and a single quote inside the texts, and a text that is empty. -/
theorem TrackerDefinition.encode_quotations_commas :
    (⟨"names", "string[]", "[\"a, [b]\" ,\t\"\",\" it's \"]"⟩ : TrackerDefinition).encode =
      .ok ⟨"names", .dynamicArray, Abi.dynamicArray
        [Utf8.encode "a, [b]".toList, Utf8.encode "".toList, Utf8.encode " it's ".toList]⟩ := by
  have spelled : Quotation.array
      [⟨[], "a, [b]", [' '], List.forall_mem_nil _, by decide, List.forall_mem_singleton.2 rfl⟩,
        ⟨['\t'], "", [], List.forall_mem_singleton.2 rfl, by decide, List.forall_mem_nil _⟩,
        ⟨[], " it's ", [], List.forall_mem_nil _, by decide, List.forall_mem_nil _⟩] =
      "[\"a, [b]\" ,\t\"\",\" it's \"]" := by
    decide +kernel
  rw [← spelled, encode_quotations]
  simp only [List.map_cons, List.map_nil]

end RuleCodec
