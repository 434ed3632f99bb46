/-
RuleCodec/Proofs/Records.lean

The JSON form of a compiled rule.

A compiled rule is read back from its JSON form as it was, and the same JSON
form, read as what a rule is decompiled from, gives the parts of the rule that
this takes (`CompiledRule.decode_encode`).  The entries of the objects may come
in any order, as a reader that sorts them would have them.

The parts are hexadecimal texts, numbers for types, and records in records;
each has its own lemma, by the laws of codecs.  One bound comes in from
outside: a position is written as a number of 64 bits.
-/
import RuleCodec.Json.Records
import RuleCodec.Proofs.Codecs
import RuleCodec.Proofs.Numerals

namespace RuleCodec

open Fields Json

/-! ### Hexadecimal texts -/

namespace Codec

theorem hexDigits_ofList (cs : List Char) : hexDigits (String.ofList ('0' :: 'x' :: cs)) = cs := by
  rw [hexDigits, String.toList_ofList]
  rfl

/-- A word is read back from its hexadecimal text. -/
theorem wordOfText_toHex (w : Word) : wordOfText (String.ofList w.toHex) = .ok w := by
  rw [wordOfText, Word.toHex, hexDigits_ofList, Word.ofHex?_write]

/-- Bytes are read back from their hexadecimal text. -/
theorem bytesOfText_toHex (bytes : Bytes) :
    bytesOfText (String.ofList bytes.toHex) = .ok bytes := by
  rw [bytesOfText, Bytes.toHex, hexDigits_ofList, Bytes.ofHex?_flatMap_hexPair]

theorem keeps_word (w : Word) : Codec.word.Keeps w :=
  (keeps_text _).via (wordOfText_toHex w)

theorem keeps_bytes (bytes : Bytes) : Codec.bytes.Keeps bytes :=
  (keeps_text _).via (bytesOfText_toHex bytes)

theorem keeps_words (ws : List Word) : Codec.words.Keeps ws := by
  refine (keeps_list fun text _ => keeps_text text).via ?_
  rw [mapM_eq_ok_iff, List.forall₂_map_left_iff]
  exact List.forall₂_same.2 fun w _ => wordOfText_toHex w

theorem keeps_texts (texts : List String) : Codec.text.list.Keeps texts :=
  keeps_list fun text _ => keeps_text text

end Codec

/-! ### Parts of a rule -/

/-- Types are kept. -/
theorem ValueType.keeps_codec (t : ValueType) : ValueType.codec.Keeps t :=
  (Codec.keeps_uint8 _).via (by cases t <;> rfl)

/-- `null` is no type, so a type that is left out is told from one that is there. -/
theorem ValueType.decode_null (t : ValueType) : ValueType.codec.decode .null ≠ .ok t := by
  intro h
  cases h

/-- Kinds of effects are kept. -/
theorem EffectType.keeps_codec (t : EffectType) : EffectType.codec.Keeps t := by
  intro j h
  cases h
  cases t <;> rfl

/-- Positions have 64 bits. -/
def RawEntry.Fits (entry : RawEntry) : Prop :=
  entry.position < UInt64.size

instance (entry : RawEntry) : Decidable entry.Fits :=
  inferInstanceAs (Decidable (entry.position < UInt64.size))

/-- An entry is kept if its place fits in 64 bits. -/
theorem RawEntry.keeps_codec {entry : RawEntry} (fits : entry.Fits) :
    RawEntry.codec.Keeps entry := by
  unfold RawEntry.codec
  refine (recovers_start entry RawEntry.mk
    |>.and ?_ (by decide) |>.and ?_ (by decide) |>.and ?_ (by decide)).keeps
  · exact recovers_required _ (Codec.keeps_natBelow fits)
  · exact recovers_required _ (ValueType.keeps_codec entry.valueType)
  · exact recovers_required _ (Codec.keeps_bytes entry.data)

/-- Placeholders are kept. -/
theorem Placeholder.keeps_codec (placeholder : Placeholder) :
    Placeholder.codec.Keeps placeholder := by
  unfold Placeholder.codec
  refine (recovers_start placeholder Placeholder.mk
    |>.and ?_ (by decide) |>.and ?_ (by decide) |>.and ?_ (by decide) |>.and ?_ (by decide)).keeps
  · exact recovers_required _ (ValueType.keeps_codec placeholder.valueType)
  · exact recovers_required _ (Codec.keeps_uint64 placeholder.index)
  · exact recovers_required _ (Codec.keeps_uint8 placeholder.flags)
  · exact recovers_optional _ (fun t _ => ValueType.keeps_codec t) ValueType.decode_null

/-! ### Effects -/

namespace EventParameter

/-- The kind and the value of a parameter are found in whatever order they come. -/
theorem decode_of_parts {kind : String} {value : Json} {parameter : EventParameter}
    (reads : ∀ j, value.Reordered j → ofParts (.string kind) j = .ok parameter) {j : Json}
    (h : (Json.object [("type", .string kind), ("value", value)]).Reordered j) :
    codec.decode j = .ok parameter := by
  obtain ⟨entries, rfl, shuffled⟩ := h.of_object
  -- wherever the two entries stand, each is the only one of its name
  have kinds := shuffled.filter (· == "type")
  have values := shuffled.filter (· == "value")
  obtain ⟨j, onlyKind, same⟩ := Shuffled.eq_singleton kinds
  obtain ⟨j', onlyValue, reordered⟩ := Shuffled.eq_singleton values
  cases same
  have kindAt : entries.find? (fun entry => entry.1 == "type") = some ("type", .string kind) := by
    rw [← List.head?_filter, onlyKind]
    rfl
  have valueAt : entries.find? (fun entry => entry.1 == "value") = some ("value", j') := by
    rw [← List.head?_filter, onlyValue]
    rfl
  simp only [codec, kindAt, valueAt]
  exact reads j' reordered

/-- Parameters of events are kept, each under the name of its type. -/
theorem keeps_codec (parameter : EventParameter) : codec.Keeps parameter := by
  intro j
  cases parameter with
  | address value =>
    refine decode_of_parts fun j reordered => ?_
    show (Codec.word.decode j).map address = _
    rw [Codec.keeps_word value j reordered]
    rfl
  | uint256 value =>
    refine decode_of_parts fun j reordered => ?_
    show (Codec.word.decode j).map uint256 = _
    rw [Codec.keeps_word value j reordered]
    rfl
  | text value =>
    refine decode_of_parts fun j reordered => ?_
    show (Codec.text.decode j).map text = _
    rw [Codec.keeps_text value j reordered]
    rfl

/-- `null` is no parameter. -/
theorem decode_null (parameter : EventParameter) : codec.decode .null ≠ .ok parameter := by
  intro h
  cases h

end EventParameter

/-- An effect is kept if its raw data is. -/
theorem Effect.keeps_codec {effect : Effect} (fits : ∀ entry ∈ effect.rawData, entry.Fits) :
    Effect.codec.Keeps effect := by
  unfold Effect.codec
  refine (recovers_start effect Effect.mk
    |>.and ?_ (by decide) |>.and ?_ (by decide) |>.and ?_ (by decide) |>.and ?_ (by decide)
    |>.and ?_ (by decide) |>.and ?_ (by decide)).keeps
  · exact recovers_required _ (EffectType.keeps_codec effect.effectType)
  · exact recovers_required _ (Codec.keeps_text effect.text)
  · exact recovers_required _ (Codec.keeps_words effect.words)
  · exact recovers_required _
      (Codec.keeps_list fun entry mem => RawEntry.keeps_codec (fits entry mem))
  · exact recovers_optional _ (fun t _ => ValueType.keeps_codec t) ValueType.decode_null
  · exact recovers_optional _ (fun parameter _ => EventParameter.keeps_codec parameter)
      EventParameter.decode_null

/-! ### Rules -/

/-- All positions of a rule have 64 bits. -/
structure CompiledRule.Fits (rule : CompiledRule) : Prop where
  condition : ∀ entry ∈ rule.rawData, entry.Fits
  effects : ∀ effect ∈ rule.positiveEffects ++ rule.negativeEffects,
    ∀ entry ∈ effect.rawData, entry.Fits

instance (rule : CompiledRule) : Decidable rule.Fits :=
  decidable_of_iff
    ((∀ entry ∈ rule.rawData, entry.Fits) ∧
      ∀ effect ∈ rule.positiveEffects ++ rule.negativeEffects, ∀ entry ∈ effect.rawData, entry.Fits)
    ⟨fun h => ⟨h.1, h.2⟩, fun h => ⟨h.condition, h.effects⟩⟩

namespace CompiledRule

variable {rule : CompiledRule}

theorem Fits.keeps_rawData (fits : rule.Fits) : RawEntry.codec.list.Keeps rule.rawData :=
  Codec.keeps_list fun entry mem => RawEntry.keeps_codec (fits.condition entry mem)

/-- The effects of a rule that fits are kept. -/
theorem Fits.keeps_positiveEffects (fits : rule.Fits) :
    Effect.codec.list.Keeps rule.positiveEffects :=
  Codec.keeps_list fun effect mem =>
    Effect.keeps_codec (fits.effects effect (List.mem_append_left _ mem))

theorem Fits.keeps_negativeEffects (fits : rule.Fits) :
    Effect.codec.list.Keeps rule.negativeEffects :=
  Codec.keeps_list fun effect mem =>
    Effect.keeps_codec (fits.effects effect (List.mem_append_right _ mem))

/-- A rule that fits is kept. -/
theorem keeps_codec (fits : rule.Fits) : CompiledRule.codec.Keeps rule := by
  unfold CompiledRule.codec
  refine (recovers_start rule CompiledRule.mk
    |>.and ?_ (by decide) |>.and ?_ (by decide) |>.and ?_ (by decide) |>.and ?_ (by decide)
    |>.and ?_ (by decide) |>.and ?_ (by decide) |>.and ?_ (by decide) |>.and ?_ (by decide)).keeps
  · exact recovers_required _ (Codec.keeps_words rule.words)
  · exact recovers_required _ fits.keeps_rawData
  · exact recovers_required _ (Codec.keeps_list fun p _ => Placeholder.keeps_codec p)
  · exact recovers_required _ fits.keeps_positiveEffects
  · exact recovers_required _ fits.keeps_negativeEffects
  · exact recovers_required _ (Codec.keeps_list fun p _ => Placeholder.keeps_codec p)
  · exact recovers_required _ (Codec.keeps_texts rule.placeholderNames)
  · exact recovers_required _ (Codec.keeps_texts rule.effectPlaceholderNames)

/-- What a rule is decompiled from finds its parts among the entries of a compiled rule, and takes
the default for the names of trackers. -/
theorem decode_decompileInput (fits : rule.Fits) {j : Json}
    (h : (CompiledRule.codec.encode rule).Reordered j) :
    DecompileInput.codec.decode j = .ok (DecompileInput.ofCompiled rule .empty) := by
  obtain ⟨entries, rfl, shuffled⟩ := Reordered.of_object h
  unfold DecompileInput.codec
  -- the keys that were written are literal, so what is under a name is found by computing
  refine Reads.decode_eq_ok (reads_start DecompileInput.mk
    |>.and ?_ |>.and ?_ |>.and ?_ |>.and ?_ |>.and ?_ |>.and ?_ |>.and ?_)
  · exact reads_of_written rfl shuffled (Codec.keeps_words rule.words)
  · exact reads_of_written rfl shuffled (Codec.keeps_texts rule.placeholderNames)
  · exact reads_of_written rfl shuffled fits.keeps_rawData
  · exact reads_of_written rfl shuffled fits.keeps_positiveEffects
  · exact reads_of_written rfl shuffled fits.keeps_negativeEffects
  · exact reads_of_written rfl shuffled (Codec.keeps_texts rule.effectPlaceholderNames)
  · exact reads_of_unwritten rfl shuffled

/-- **The JSON form of a compiled rule is read as the rule, and as what the rule is decompiled
from.**  The entries of the objects in it may come in any order, that of writing among them.  The
positions in the rule have to be numbers of 64 bits. -/
theorem decode_encode (fits : rule.Fits) {j : Json}
    (h : (CompiledRule.codec.encode rule).Reordered j) :
    CompiledRule.codec.decode j = .ok rule ∧
      DecompileInput.codec.decode j = .ok (DecompileInput.ofCompiled rule .empty) :=
  ⟨keeps_codec fits j h, decode_decompileInput fits h⟩

/-- Effects of every type, a key that is left out and one that is not, a word without digits to
spare and an empty byte string; read in the order of writing and in the opposite one. -/
theorem decode_encode_effects :
    let rule : CompiledRule :=
      ⟨[0, 255, BitVec.ofNat 256 (2 ^ 255)], [⟨1, .bytes, []⟩, ⟨UInt64.size - 1, .string, [0x0a]⟩],
        [⟨.uint256, 3, 2, some .address⟩, ⟨.bool, 0, 0, none⟩],
        [⟨.revert, "no", [], [], none, none⟩,
          ⟨.event, "paid", [], [], some .address, some (.address 17)⟩,
          ⟨.event, "told", [], [], some .string, some (.text "0x")⟩],
        [⟨.expression, "1 == 1", [0, 1], [⟨0, .address, [1, 2]⟩], none, none⟩],
        [], ["TR:sums", "ok"], []⟩
    CompiledRule.codec.decode (CompiledRule.codec.encode rule) = .ok rule ∧
      DecompileInput.codec.decode (CompiledRule.codec.encode rule) = .ok (.ofCompiled rule .empty) ∧
      ∃ entries, CompiledRule.codec.encode rule = .object entries ∧
        CompiledRule.codec.decode (.object entries.reverse) = .ok rule := by
  intro rule
  have fits : rule.Fits := by decide
  obtain ⟨asRule, asInput⟩ := decode_encode fits .refl
  refine ⟨asRule, asInput, _, rfl, (decode_encode fits ?_).1⟩
  -- the entries backwards are the same object
  exact .object (List.reverse_perm _).symm rfl (List.forall₂_same.2 fun _ _ => .refl)

end CompiledRule

end RuleCodec
