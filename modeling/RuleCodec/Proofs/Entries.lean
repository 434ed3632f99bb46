/-
RuleCodec/Proofs/Entries.lean

The entries that a mapped tracker begins with.

Keys and values are laid out side by side, and no two keys have one layout
(`MappedTrackerDefinition.encodeKeys_eq_ok_iff`).  Layouts are compared, but
what counts is the value: where all keys and values can be read, the tracker is
refused if and only if two keys denote the same value, however each is spelled
(`MappedTrackerDefinition.entries_of_encode`).
-/
import Mathlib.Data.List.Pairwise
import RuleCodec.Proofs.Denotations
import RuleCodec.Proofs.Tables

namespace RuleCodec

open Text Definition

/-- A relation between members of one list is the relation between those of a list that stands
beside it, if it is that for each pair. -/
theorem pairwise_iff_of_forall₂ {α β : Type} {R : α → β → Prop} {S : α → α → Prop}
    {S' : β → β → Prop} {xs : List α} {ys : List β} (beside : List.Forall₂ R xs ys)
    (same : ∀ {x x' y y'}, R x y → R x' y' → (S x x' ↔ S' y y')) :
    xs.Pairwise S ↔ ys.Pairwise S' := by
  obtain ⟨length, related⟩ := List.forall₂_iff_get.1 beside
  rw [List.pairwise_iff_get, List.pairwise_iff_get]
  constructor
  · intro all i j before
    have at_i := related i (by omega) i.isLt
    have at_j := related j (by omega) j.isLt
    exact (same at_i at_j).1 (all _ _ before)
  · intro all i j before
    have at_i := related i i.isLt (by omega)
    have at_j := related j j.isLt (by omega)
    exact (same at_i at_j).2 (all _ _ before)

/-- The type of a value that was laid out is the one that was declared. -/
theorem Definition.ofText_of_encodeValue {typeName value : String} {t : ValueType} {layout : Bytes}
    (h : encodeValue typeName value = .ok (t, layout)) :
    ValueType.ofText typeName.toList = .ok t := by
  rw [encodeValue] at h
  obtain ⟨declared, named, h⟩ := bind_eq_ok.1 h
  rw [ValueType.ofText_trim] at named
  cases declared with
  | void => cases h
  | address | uint256 | bool | string | bytes | staticArray | dynamicArray =>
    obtain ⟨_, _, h⟩ := bind_eq_ok.1 h
    cases h
    exact named

/-- Of the type and the layout of a value only the layout is kept: the type is declared. -/
theorem Definition.map_encodeValue_eq_ok_iff {typeName value : String} {t : ValueType}
    {layout : Bytes} (declared : ValueType.ofText typeName.toList = .ok t) :
    (encodeValue typeName value).map Prod.snd = .ok layout ↔
      encodeValue typeName value = .ok (t, layout) := by
  cases encoded : encodeValue typeName value with
  | error e => simp [Except.map]
  | ok pair =>
    obtain ⟨t', layout'⟩ := pair
    have same := ofText_of_encodeValue encoded
    rw [declared, Except.ok.injEq] at same
    simp [Except.map, same]

/-- A list of values is laid out exactly if each of them is. -/
theorem Definition.mapM_encodeValue_eq_ok_iff {typeName : String} {t : ValueType}
    {values : List String} {layouts : List Bytes}
    (declared : ValueType.ofText typeName.toList = .ok t) :
    (values.mapM fun value => (encodeValue typeName value).map Prod.snd) = .ok layouts ↔
      List.Forall₂ (fun value layout => encodeValue typeName value = .ok (t, layout))
        values layouts := by
  simp only [mapM_eq_ok_iff, map_encodeValue_eq_ok_iff declared]

/-- Values that can each be laid out have layouts side by side with them. -/
theorem Definition.exists_layouts {typeName : String} {t : ValueType} {values : List String}
    (declared : ValueType.ofText typeName.toList = .ok t)
    (readable : ∀ value ∈ values, ∃ encoded, encodeValue typeName value = .ok encoded) :
    ∃ layouts, List.Forall₂ (fun value layout => encodeValue typeName value = .ok (t, layout))
      values layouts := by
  simp only [← mapM_encodeValue_eq_ok_iff declared]
  apply mapM_eq_ok_of_forall
  intro value mem
  obtain ⟨encoded, laid⟩ := readable value mem
  exact ⟨encoded.2, by rw [laid]; rfl⟩

namespace MappedTrackerDefinition

/-- Keys are of the types whose values are single. -/
theorem isKeyType_iff {t : ValueType} : isKeyType t ↔ t ∈ scalarTypes := by
  cases t <;> decide

/-! ### Keys -/

variable {typeName : String} {t : ValueType} {seen layouts : List Bytes} {keys : List String}

/-- Keys are laid out one by one, all different and different from those seen before. -/
theorem encodeKeys_eq_ok_iff (declared : ValueType.ofText typeName.toList = .ok t) :
    encodeKeys typeName t seen keys = .ok layouts ↔
      List.Forall₂ (fun key layout => encodeValue typeName key = .ok (t, layout)) keys layouts ∧
        layouts.Nodup ∧ ∀ layout ∈ layouts, layout ∉ seen := by
  -- the layouts that were seen only grow, so the induction is for all of them
  induction keys generalizing seen layouts with
  | nil =>
    rw [encodeKeys, List.forall₂_nil_left_iff]
    constructor
    · intro h
      cases h
      exact ⟨rfl, List.nodup_nil, List.forall_mem_nil _⟩
    · rintro ⟨rfl, -⟩
      rfl
  | cons key keys ih =>
    rw [encodeKeys, List.forall₂_cons_left_iff]
    constructor
    · intro h
      obtain ⟨⟨t', layout⟩, first, h⟩ := bind_eq_ok.1 h
      have same := ofText_of_encodeValue first
      rw [declared] at same
      cases same
      simp only [List.contains_iff_mem] at h
      split at h
      · cases h
      · rename_i new
        obtain ⟨rest, others, h⟩ := bind_eq_ok.1 h
        cases h
        obtain ⟨beside, distinct, apart⟩ := ih.1 others
        refine ⟨⟨layout, rest, first, beside, rfl⟩, ?_, ?_⟩
        · refine List.nodup_cons.2 ⟨?_, distinct⟩
          intro again
          exact apart layout again List.mem_cons_self
        · refine List.forall_mem_cons.2 ⟨new, ?_⟩
          intro other mem old
          exact apart other mem (List.mem_cons_of_mem _ old)
    · rintro ⟨⟨layout, rest, first, beside, rfl⟩, distinct, apart⟩
      obtain ⟨new, distinct⟩ := List.nodup_cons.1 distinct
      obtain ⟨here, apart⟩ := List.forall_mem_cons.1 apart
      refine bind_eq_ok.2 ⟨(t, layout), first, ?_⟩
      simp only [List.contains_iff_mem]
      rw [if_neg here]
      refine bind_eq_ok.2 ⟨rest, ih.2 ⟨beside, distinct, ?_⟩, rfl⟩
      intro other mem old
      rcases List.mem_cons.1 old with rfl | old
      · exact new mem
      · exact apart other mem old

/-- Keys that can all be laid out are refused only for being alike. -/
theorem encodeKeys_eq_error {e : Error} (h : encodeKeys typeName t seen keys = .error e)
    (readable : ∀ key ∈ keys, ∃ encoded, encodeValue typeName key = .ok encoded) :
    ∃ key ∈ keys, e = .invalidDefault key ("unique " ++ t.name ++ " key") := by
  induction keys generalizing seen with
  | nil => cases h
  | cons key keys ih =>
    obtain ⟨⟨⟨t', layout⟩, first⟩, others⟩ := List.forall_mem_cons.1 readable
    rw [encodeKeys, first] at h
    simp only [bind, Except.bind] at h
    split at h
    · -- every key can be laid out, so only one that was seen before fails
      cases h
      exact ⟨key, List.mem_cons_self, rfl⟩
    · split at h
      · rename_i fault failed
        cases h
        obtain ⟨later, mem, eq⟩ := ih failed others
        exact ⟨later, List.mem_cons_of_mem _ mem, eq⟩
      · cases h

/-! ### Whole definitions -/

variable {tracker : MappedTrackerDefinition} {valueType : ValueType}

/-- What a definition needs before its entries are looked at: as many keys as values, keys of a
scalar type and values of any type that has some. -/
structure Supported (tracker : MappedTrackerDefinition) (t valueType : ValueType) : Prop where
  counts : tracker.initialKeys.length = tracker.initialValues.length
  keyDeclared : ValueType.ofText tracker.keyType.toList = .ok t
  single : t ∈ scalarTypes
  valueDeclared : ValueType.ofText tracker.valueType.toList = .ok valueType
  inhabited : valueType ≠ .void

/-- Encoding a tracker of supported types lays out its keys and then its values. -/
theorem Supported.encode_eq (h : Supported tracker t valueType) :
    tracker.encode = do
      let initialKeys ← encodeKeys tracker.keyType t [] tracker.initialKeys
      let initialValues ← tracker.initialValues.mapM fun value =>
        (encodeValue tracker.valueType value).map Prod.snd
      return ⟨tracker.name, t, valueType, initialKeys, initialValues⟩ := by
  have scalar : isKeyType t = true := isKeyType_iff.2 h.single
  simp only [encode, h.counts, h.keyDeclared, h.valueDeclared, scalar, h.inhabited, ne_eq,
    not_true_eq_false, if_false, if_true, bind, Except.bind]

/-- Only trackers of supported types are encoded. -/
theorem supported_of_encode {encoded : EncodedMappedTracker} (h : tracker.encode = .ok encoded) :
    ∃ t valueType, Supported tracker t valueType := by
  rw [encode] at h
  by_cases counts : tracker.initialKeys.length = tracker.initialValues.length
  · simp only [counts, ne_eq, not_true_eq_false, if_false] at h
    obtain ⟨t, keyDeclared, h⟩ := bind_eq_ok.1 h
    by_cases scalar : isKeyType t = true
    · rw [if_pos scalar] at h
      obtain ⟨valueType, valueDeclared, h⟩ := bind_eq_ok.1 h
      by_cases void : valueType = .void
      · rw [if_pos void] at h
        cases h
      · exact ⟨t, valueType, counts, keyDeclared, isKeyType_iff.1 scalar, valueDeclared, void⟩
    · rw [if_neg scalar] at h
      cases h
  · simp only [ne_eq, counts, not_false_eq_true, if_true] at h
    cases h

/-- The layouts of an encoded tracker stand side by side with its keys and its values. -/
theorem laid_of_encode {encoded : EncodedMappedTracker} (h : tracker.encode = .ok encoded) :
    List.Forall₂ (fun key layout => encodeValue tracker.keyType key = .ok (encoded.keyType, layout))
        tracker.initialKeys encoded.initialKeys ∧
      List.Forall₂ (fun value layout =>
        encodeValue tracker.valueType value = .ok (encoded.valueType, layout))
        tracker.initialValues encoded.initialValues ∧
      encoded.initialKeys.Nodup := by
  obtain ⟨t, valueType, supported⟩ := supported_of_encode h
  rw [supported.encode_eq] at h
  obtain ⟨keys, initialKeys, h⟩ := bind_eq_ok.1 h
  obtain ⟨values, initialValues, h⟩ := bind_eq_ok.1 h
  cases h
  obtain ⟨laid, distinct, -⟩ := (encodeKeys_eq_ok_iff supported.keyDeclared).1 initialKeys
  exact ⟨laid, (mapM_encodeValue_eq_ok_iff supported.valueDeclared).1 initialValues, distinct⟩

/-- Where keys and values have layouts, the tracker is refused exactly if two keys have one. -/
theorem Supported.fails_iff {keys values : List Bytes} (h : Supported tracker t valueType)
    (laidKeys : List.Forall₂ (fun key layout => encodeValue tracker.keyType key = .ok (t, layout))
      tracker.initialKeys keys)
    (laidValues : List.Forall₂ (fun value layout =>
      encodeValue tracker.valueType value = .ok (valueType, layout)) tracker.initialValues values) :
    (∃ e, tracker.encode = .error e) ↔ ¬ keys.Nodup := by
  constructor
  · rintro ⟨e, failed⟩ distinct
    have initialKeys : encodeKeys tracker.keyType t [] tracker.initialKeys = .ok keys :=
      (encodeKeys_eq_ok_iff h.keyDeclared).2 ⟨laidKeys, distinct, fun _ _ => List.not_mem_nil⟩
    have initialValues := (mapM_encodeValue_eq_ok_iff h.valueDeclared).2 laidValues
    rw [h.encode_eq, initialKeys, initialValues] at failed
    cases failed
  · intro alike
    cases encodes : tracker.encode with
    | error e => exact ⟨e, rfl⟩
    | ok encoded =>
      rw [h.encode_eq] at encodes
      obtain ⟨keys', initialKeys, -⟩ := bind_eq_ok.1 encodes
      obtain ⟨laid, distinct, -⟩ := (encodeKeys_eq_ok_iff h.keyDeclared).1 initialKeys
      -- a key has only one layout, so these are the keys that were compared
      have one : Relator.RightUnique fun key layout =>
          encodeValue tracker.keyType key = .ok (t, layout) := by
        intro key layout layout' first second
        rw [first] at second
        cases second
        rfl
      rw [List.right_unique_forall₂' one laid laidKeys] at distinct
      exact absurd distinct alike

/-- Keys have layouts of their own exactly if they denote values of their own. -/
theorem nodup_iff_of_laid (declared : ValueType.ofText typeName.toList = .ok t)
    (single : t ∈ scalarTypes)
    (laid : List.Forall₂ (fun key layout => encodeValue typeName key = .ok (t, layout))
      keys layouts) :
    layouts.Nodup ↔ keys.Pairwise fun key later => ¬ SameValue t key later := by
  refine (pairwise_iff_of_forall₂ laid ?_).symm
  intro key later layout layout' first second
  exact not_congr (layout_eq_iff declared single first second).symm

/-- **A mapped tracker has one entry for each key, told apart by value.**  Its keys and values are
laid out side by side, no two keys alike.  Where it is supported and all of them can be read, each
key denotes one value, and the tracker is refused exactly if two keys denote the same. -/
theorem entries_of_encode (tracker : MappedTrackerDefinition) :
    (∀ encoded, tracker.encode = .ok encoded →
      encoded.initialKeys.length = encoded.initialValues.length ∧
      List.Forall₂ (fun key layout =>
        encodeValue tracker.keyType key = .ok (encoded.keyType, layout))
        tracker.initialKeys encoded.initialKeys ∧
      List.Forall₂ (fun value layout =>
        encodeValue tracker.valueType value = .ok (encoded.valueType, layout))
        tracker.initialValues encoded.initialValues ∧
      encoded.initialKeys.Nodup) ∧
    ∀ t valueType, Supported tracker t valueType →
      (∀ key ∈ tracker.initialKeys, ∃ encoded, encodeValue tracker.keyType key = .ok encoded) →
      (∀ value ∈ tracker.initialValues,
        ∃ encoded, encodeValue tracker.valueType value = .ok encoded) →
      (∀ key ∈ tracker.initialKeys, ∃! v, Denotes t (trim key.toList) v) ∧
      ((∃ e, tracker.encode = .error e) ↔
        ∃ i j : Fin tracker.initialKeys.length, i < j ∧
          SameValue t (tracker.initialKeys.get i) (tracker.initialKeys.get j)) ∧
      ∀ e, tracker.encode = .error e →
        ∃ key ∈ tracker.initialKeys, e = .invalidDefault key ("unique " ++ t.name ++ " key") := by
  constructor
  · intro encoded encodes
    obtain ⟨laidKeys, laidValues, distinct⟩ := laid_of_encode encodes
    obtain ⟨t, valueType, supported⟩ := supported_of_encode encodes
    refine ⟨?_, laidKeys, laidValues, distinct⟩
    rw [← laidKeys.length_eq, ← laidValues.length_eq, supported.counts]
  · intro t valueType supported readableKeys readableValues
    obtain ⟨keys, laidKeys⟩ := exists_layouts supported.keyDeclared readableKeys
    obtain ⟨values, laidValues⟩ := exists_layouts supported.valueDeclared readableValues
    refine ⟨?_, ?_, ?_⟩
    · intro key mem
      obtain ⟨⟨t', layout⟩, laid⟩ := readableKeys key mem
      have same := ofText_of_encodeValue laid
      rw [supported.keyDeclared] at same
      cases same
      exact existsUnique_denotes supported.keyDeclared supported.single laid
    · rw [supported.fails_iff laidKeys laidValues,
        nodup_iff_of_laid supported.keyDeclared supported.single laidKeys, List.pairwise_iff_get]
      simp only [not_forall, not_not, exists_prop]
    · intro e failed
      rw [supported.encode_eq] at failed
      rcases bind_eq_error.1 failed with alike | ⟨keys', -, failed⟩
      · exact encodeKeys_eq_error alike readableKeys
      · -- the values have layouts, so they cannot have failed
        rw [(mapM_encodeValue_eq_ok_iff supported.valueDeclared).2 laidValues] at failed
        cases failed

/-- One number in two spellings is one key, two names are two. -/
theorem entries_of_encode_spellings :
    (∃ e, (⟨"limits", "uint256", "bool", ["0x1F", " 31"], ["true", "false"]⟩ :
      MappedTrackerDefinition).encode = .error e) ∧
    ∃ encoded, (⟨"names", "string", "uint256", ["a", "'b'"], ["1", "0x2"]⟩ :
      MappedTrackerDefinition).encode = .ok encoded ∧ encoded.initialKeys.Nodup := by
  constructor
  · have supported : Supported ⟨"limits", "uint256", "bool", ["0x1F", " 31"], ["true", "false"]⟩
        .uint256 .bool :=
      ⟨rfl, by decide +kernel, by decide, by decide +kernel, by decide⟩
    -- both keys denote the number thirty-one
    refine ((entries_of_encode _).2 _ _ supported ?_ ?_).2.1.2 ⟨0, 1, by decide, .number 31, ?_, ?_⟩
    · rw [List.forall_mem_cons, List.forall_mem_singleton]
      exact ⟨⟨(.uint256, Abi.natWord 31), by decide +kernel⟩,
        ⟨(.uint256, Abi.natWord 31), by decide +kernel⟩⟩
    · rw [List.forall_mem_cons, List.forall_mem_singleton]
      exact ⟨⟨(.bool, Abi.boolWord true), by decide +kernel⟩,
        ⟨(.bool, Abi.boolWord false), by decide +kernel⟩⟩
    · have digits : Word.IsHex ['1', 'F'] := by decide
      exact Denotes.hexadecimal digits
    · have digits : Word.IsDecimal ['3', '1'] := ⟨List.all_eq_true.1 rfl, by decide⟩
      exact Denotes.decimal digits
  · have encodes : (⟨"names", "string", "uint256", ["a", "'b'"], ["1", "0x2"]⟩ :
        MappedTrackerDefinition).encode = .ok ⟨"names", .string, .uint256,
          [Abi.dynamic [97], Abi.dynamic [98]], [Abi.natWord 1, Abi.natWord 2]⟩ := by
      decide +kernel
    exact ⟨_, encodes, ((entries_of_encode _).1 _ encodes).2.2.2⟩

end MappedTrackerDefinition

end RuleCodec
