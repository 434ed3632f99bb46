/-
RuleCodec/Proofs/Literals.lean

What the words of a stream stand for, and how its literals are found again.

The words of a stream go along with its items one by one (`Item.Denotes`).  The
raw data go along with those items that are texts, byte strings or addresses
(`Operand.Kept`), in the order of their positions.  Together they lose nothing
but the kind of a boolean: the text of a literal comes back from its position
and its word (`Stream.ofItemsWith_exact`).

The hash is any function, and nothing is asked of it.  Two literals may share a
hash, and a number may be equal to one; the positions still tell them apart.
-/
import RuleCodec.Proofs.Decoding
import RuleCodec.Proofs.Numerals
import RuleCodec.Proofs.Replaying

namespace RuleCodec

/-! ### Words -/

/-- The word that an item stands for: an opcode's number, a number or an address itself, one or zero
for a boolean, and for a text or a byte string the hash of its layout. -/
inductive Item.Denotes (hash : Bytes → Bytes) (registry : Registry) : Item → Word → Prop
  | opcode {op : Opcode} {code : UInt64} :
      registry.code op = .ok code →
        Denotes hash registry (.opcode op) (BitVec.ofNat 256 code.toNat)
  | number {value : Word} : Denotes hash registry (.operand (.number value)) value
  | boolean {value : Bool} :
      Denotes hash registry (.operand (.boolean value)) (if value then 1 else 0)
  | address {value : Word} : Denotes hash registry (.operand (.address value)) value
  | text {value : String} :
      Denotes hash registry (.operand (.text value))
        (Word.ofBytes (hash (Abi.dynamic (Text.Utf8.encode value.toList))))
  | bytes {value : Bytes} :
      Denotes hash registry (.operand (.bytes value)) (Word.ofBytes (hash (Abi.dynamic value)))

/-- An opcode has the number that the registry gives it. -/
theorem Registry.code_eq_ok_iff {registry : Registry} {op : Opcode} {code : UInt64} :
    registry.code op = .ok code ↔ registry.codes.get? op = some code := by
  unfold Registry.code
  cases registry.codes.get? op with
  | none => simp
  | some code' => simp

/-- An item that is known denotes its number. -/
theorem Item.denotes_number {hash : Bytes → Bytes} {registry : Registry} {item : Item}
    (known : item.Known registry) : item.Denotes hash registry (item.number hash registry) := by
  cases item with
  | opcode op =>
    obtain ⟨code, found⟩ := known
    rw [number, found, Option.getD_some]
    exact .opcode (Registry.code_eq_ok_iff.2 found)
  | operand value =>
    cases value with
    | number value => exact .number
    | address value => exact .address
    | text value => exact .text
    | bytes value => exact .bytes
    | boolean value => cases value <;> exact .boolean

/-- Items are known exactly if the opcodes among them have numbers. -/
theorem Item.forall_known_iff {registry : Registry} {items : List Item} :
    (∀ item ∈ items, item.Known registry) ↔
      ∀ op, .opcode op ∈ items → ∃ code, registry.code op = .ok code := by
  simp only [Registry.code_eq_ok_iff]
  constructor
  · intro known op mem
    exact known _ mem
  · intro known item mem
    cases item with
    | opcode op => exact known op mem
    | operand value => trivial

/-! ### Raw data -/

/-- What is kept of a literal on the side: the bytes of a text, a byte string as it is, and the
twenty low bytes of an address. -/
inductive Operand.Kept : Operand → ValueType → Bytes → Prop
  | text {value : String} : Kept (.text value) .string (Text.Utf8.encode value.toList)
  | bytes {value : Bytes} : Kept (.bytes value) .bytes value
  | address {value : Word} : Kept (.address value) .address (value.toBytes.drop 12)

/-- The raw data that goes with a value is what is kept of it. -/
theorem Operand.raw?_eq_some_iff {value : Operand} {t : ValueType} {data : Bytes} :
    value.raw? = some (t, data) ↔ value.Kept t data := by
  constructor
  · intro h
    cases value with
    | number value => cases h
    | boolean value => cases h
    | text value => cases h; exact .text
    | bytes value => cases h; exact .bytes
    | address value =>
      cases h
      rw [Word.addressBytes_eq_drop]
      exact .address
  · intro h
    cases h with
    | text => rfl
    | bytes => rfl
    | address => rw [raw?, Word.addressBytes_eq_drop]

namespace RawData

/-- There is an entry for each literal that is kept, and no other. -/
theorem mem_ofItems_iff {items : List Item} {entry : RawEntry} :
    entry ∈ ofItems 0 items ↔ ∃ value, items[entry.position]? = some (.operand value) ∧
      value.Kept entry.valueType entry.data := by
  unfold ofItems
  rw [List.mem_filterMap]
  constructor
  · rintro ⟨⟨item, i⟩, mem, kept⟩
    -- the entry was made at its own place, from an operand there
    obtain ⟨⟨t, data⟩, raw, rfl⟩ := Option.map_eq_some_iff.1 kept
    cases item with
    | opcode op => cases raw
    | operand value =>
      exact ⟨value, List.mk_mem_zipIdx_iff_getElem?.1 mem, Operand.raw?_eq_some_iff.1 raw⟩
  · rintro ⟨value, at_i, kept⟩
    refine ⟨(.operand value, entry.position), List.mk_mem_zipIdx_iff_getElem?.2 at_i, ?_⟩
    show value.raw?.map _ = some entry
    rw [Operand.raw?_eq_some_iff.2 kept]
    rfl

/-- The entries come in the order of their positions. -/
theorem pairwise_ofItems (position : Nat) (items : List Item) :
    (ofItems position items).Pairwise fun entry later => entry.position < later.position := by
  -- positions are counted up along the items, and leaving some out keeps their order
  have places : (items.zipIdx position).Pairwise fun entry later => entry.2 < later.2 := by
    rw [← List.pairwise_map (f := Prod.snd), List.zipIdx_map_snd]
    exact List.pairwise_lt_range'
  unfold ofItems
  rw [List.pairwise_filterMap]
  refine places.imp ?_
  intro entry later before raw at_raw raw' at_raw'
  rw [position_of_rawAt? at_raw, position_of_rawAt? at_raw']
  exact before

end RawData

/-! ### Literals found again -/

/-- As a literal, a value is spelled like the item it is, and a boolean like a number. -/
theorem Operand.ofList_spell (value : Operand) :
    String.ofList value.spell = (Item.operand value.plain).render := by
  cases value with
  | boolean value =>
    show String.ofList [if value then '1' else '0'] = String.ofList (Numeral.write 10 _)
    rw [Numeral.write]
    cases value <;> rfl
  | number | address | text | bytes => rfl

/-- **A stream is exact, and its literals can be found again.**  There is a stream exactly if every
opcode has a number.  It then has one word for each item, the one that the item stands for.  The raw
data have, in the order of positions, one entry for each text, byte string and address, with its
position, its type and its bytes.  And whatever is read with these raw data, the text of a value at
its position is the text it had, where a boolean is one or zero.  All this is so under any hash, and
so for `Stream.ofItems`. -/
theorem Stream.ofItemsWith_exact (hash : Bytes → Bytes) (registry : Registry)
    (items : List Item) :
    ((∃ stream, Stream.ofItemsWith hash registry items = .ok stream) ↔
      ∀ op, .opcode op ∈ items → ∃ code, registry.code op = .ok code) ∧
    ∀ stream, Stream.ofItemsWith hash registry items = .ok stream →
      List.Forall₂ (Item.Denotes hash registry) items stream.words ∧
      (stream.rawData.Pairwise fun entry later => entry.position < later.position) ∧
      (∀ entry, entry ∈ stream.rawData ↔
        ∃ value, items[entry.position]? = some (.operand value) ∧
          value.Kept entry.valueType entry.data) ∧
      ∀ replay : Replay, replay.rawData = stream.rawData →
        ∀ i value w, items[i]? = some (.operand value) → stream.words[i]? = some w →
          String.ofList (replay.literalText i w) = (Item.operand value.plain).render := by
  constructor
  · rw [← Item.forall_known_iff]
    constructor
    · rintro ⟨stream, h⟩
      exact (Stream.ofItemsWith_eq_ok_iff.1 h).1
    · intro known
      exact ⟨_, Stream.ofItemsWith_eq_ok_iff.2 ⟨known, rfl⟩⟩
  · intro stream h
    obtain ⟨known, rfl⟩ := Stream.ofItemsWith_eq_ok_iff.1 h
    refine ⟨?_, RawData.pairwise_ofItems 0 items, fun entry => RawData.mem_ofItems_iff, ?_⟩
    · rw [List.forall₂_map_right_iff, List.forall₂_same]
      intro item mem
      exact Item.denotes_number (known item mem)
    · intro replay same i value w at_i word_i
      -- the word is the value's own, and so is what the raw data have at its position
      have word : value.word hash = w := by
        rw [List.getElem?_map, at_i] at word_i
        exact Option.some.inj word_i
      have raw : (replay.rawData.find? fun entry => entry.position == i) =
          (Item.operand value).rawAt? i := by
        have agrees := RawData.agrees_ofItems 0 items i (.operand value) at_i
        rw [Nat.zero_add] at agrees
        rw [same]
        exact agrees
      rw [← word, Replay.literalText_word raw, Operand.ofList_spell]

/-- A text that needs quotes, an empty text and an empty byte string beside a boolean and a number,
in the numbering without mapped trackers and hashed with Keccak; a mapped read has no stream
there. -/
theorem Stream.ofItemsWith_exact_quoted :
    let items : List Item := [.opcode .literal, .operand (.text "a \"b\""), .operand (.text ""),
      .operand (.bytes []), .operand (.boolean true), .operand (.number 7)]
    (∃ stream w, Stream.ofItems .legacy items = .ok stream ∧
      stream.words.length = 6 ∧ ⟨2, .string, []⟩ ∈ stream.rawData ∧
      ⟨3, .bytes, []⟩ ∈ stream.rawData ∧ stream.words[1]? = some w ∧
      String.ofList (Replay.literalText ⟨.legacy, [], stream.rawData, .empty⟩ 1 w) =
        "\"a \\\"b\\\"\"") ∧
      ¬ ∃ stream, Stream.ofItems .legacy (.opcode .readMapped :: items) = .ok stream := by
  intro items
  obtain ⟨iff, exact⟩ := Stream.ofItemsWith_exact Keccak.hash .legacy items
  constructor
  · obtain ⟨stream, streamed⟩ := iff.2 fun op mem => by
      have only : op = .literal := by simpa [items] using mem
      exact ⟨0, by rw [only]; decide⟩
    obtain ⟨words, -, entries, texts⟩ := exact stream streamed
    have length : stream.words.length = 6 := words.length_eq.symm
    have one : 1 < stream.words.length := by omega
    refine ⟨stream, stream.words[1], streamed, length, ?_, ?_, List.getElem?_eq_getElem one, ?_⟩
    · exact (entries _).2 ⟨.text "", rfl, .text⟩
    · exact (entries _).2 ⟨.bytes [], rfl, .bytes⟩
    · rw [texts _ rfl 1 (.text "a \"b\"") _ rfl (List.getElem?_eq_getElem one)]
      decide +kernel
  · intro streamed
    obtain ⟨code, found⟩ :=
      (Stream.ofItemsWith_exact Keccak.hash .legacy (.opcode .readMapped :: items)).1.1 streamed
        .readMapped List.mem_cons_self
    -- there is no number for this opcode
    cases found

end RuleCodec
