/-
RuleCodec/Proofs/Layouts.lean

Layouts are read back as what was laid out.

Reading goes by the numbers that the layout itself holds.  A byte string is
found behind an offset word, takes as many bytes as its length word says, and is
filled up with zeros (`Abi.readTail?`).  An array has a count behind its offset
word, and for each item a word, or an offset that counts from the first of the
offsets.

Whatever is read is read at a position, so everything rests on which bytes stand
where (`Bytes.HasAt`).  The items of an array of byte strings follow each other
without gap or overlap up to the end of the layout (`Abi.Adjoin`).
-/
import Mathlib.Algebra.Ring.Nat
import Mathlib.Logic.Function.Basic
import RuleCodec.Abi
import RuleCodec.Proofs.Numerals

namespace RuleCodec

/-! ### Numbers in bytes -/

namespace Bytes

/-- The last byte is the lowest. -/
theorem toNat_append_singleton (bytes : Bytes) (b : UInt8) :
    toNat (bytes ++ [b]) = toNat bytes * 256 + b.toNat := by
  rw [toNat, toNat, List.foldl_append, List.foldl_cons, List.foldl_nil]

/-- The last bytes of a number are those of its remainder. -/
theorem toNat_ofNat (width n : Nat) : toNat (ofNat width n) = n % 256 ^ width := by
  induction width generalizing n with
  | zero => rw [Nat.pow_zero, Nat.mod_one]; rfl
  | succ width ih =>
    have byte : (UInt8.ofNat (n % 256)).toNat = n % 256 :=
      UInt8.toNat_ofNat_of_lt (Nat.mod_lt _ (by decide))
    rw [ofNat, toNat_append_singleton, ih, byte, Nat.pow_succ', Nat.mod_mul, Nat.mul_comm,
      Nat.add_comm]

end Bytes

/-- The bytes of a word have its value. -/
theorem Word.toNat_toBytes (w : Word) : w.toBytes.toNat = w.toNat := by
  rw [toBytes, Bytes.toNat_ofNat]
  exact Nat.mod_eq_of_lt w.isLt

namespace Abi

theorem length_natWord (n : Nat) : (natWord n).length = 32 :=
  Bytes.length_ofNat 32 _

theorem toNat_natWord (n : Nat) : (natWord n).toNat = n % Word.size := by
  rw [natWord, Word.toNat_toBytes, BitVec.toNat_ofNat]
  rfl

/-- Numbers that fit in a word are told apart by it. -/
theorem natWord_inj {n m : Nat} (hn : n < Word.size) (hm : m < Word.size)
    (same : natWord n = natWord m) : n = m := by
  have numbers := congrArg Bytes.toNat same
  rwa [toNat_natWord, toNat_natWord, Nat.mod_eq_of_lt hn, Nat.mod_eq_of_lt hm] at numbers

/-! ### Lengths -/

/-- The bytes of a string with the zeros behind them are whole words. -/
theorem length_add_fill (n : Nat) : n + (fill n).length = 32 * ((n + 31) / 32) := by
  rw [fill, List.length_replicate]
  omega

/-- A tail is its length and the data, filled up to whole words. -/
theorem length_tail (data : Bytes) :
    (tail data).length = 32 + 32 * ((data.length + 31) / 32) := by
  rw [tail, List.length_append, List.length_append, length_natWord, Nat.add_assoc, length_add_fill]

theorem length_dynamic (data : Bytes) : (dynamic data).length = 32 + (tail data).length := by
  rw [dynamic, List.length_append, length_natWord]

theorem length_flatMap_natWord (ns : List Nat) : (ns.flatMap natWord).length = 32 * ns.length := by
  induction ns with
  | nil => rfl
  | cons n ns ih =>
    rw [List.flatMap_cons, List.length_append, length_natWord, ih, List.length_cons]
    omega

/-- Each item has an offset. -/
theorem length_offsets (start : Nat) (items : List Bytes) :
    (offsets start items).length = items.length := by
  induction items generalizing start with
  | nil => rfl
  | cons item items ih => rw [offsets, List.length_cons, List.length_cons, ih]

/-- An array is two words, an offset for each item and then the items. -/
theorem length_dynamicArray (items : List Bytes) :
    (dynamicArray items).length = 64 + 32 * items.length + (items.map tail).flatten.length := by
  rw [dynamicArray, List.length_append, List.length_append, List.length_append, length_natWord,
    length_natWord, length_flatMap_natWord, length_offsets, List.length_map]

/-- Tails are whole words. -/
theorem dvd_length_tails (items : List Bytes) : 32 ∣ (items.map tail).flatten.length := by
  induction items with
  | nil => exact Nat.dvd_zero 32
  | cons item items ih =>
    rw [List.map_cons, List.flatten_cons, List.length_append, length_tail]
    omega

end Abi

/-! ### What stands where -/

namespace Bytes

/-- Among the bytes a part stands at a position. -/
def HasAt (bytes : Bytes) (start : Nat) (part : Bytes) : Prop :=
  ∃ front back, bytes = front ++ (part ++ back) ∧ front.length = start

variable {bytes part part' : Bytes} {start : Nat}

theorem hasAt_self (bytes : Bytes) : HasAt bytes 0 bytes :=
  ⟨[], [], (List.append_nil bytes).symm, rfl⟩

/-- What begins with a part has the part where it begins. -/
theorem HasAt.left (h : HasAt bytes start (part ++ part')) : HasAt bytes start part := by
  obtain ⟨front, back, eq, at_⟩ := h
  exact ⟨front, part' ++ back, by rw [eq, List.append_assoc], at_⟩

/-- What stands behind the part is found behind it. -/
theorem HasAt.right (h : HasAt bytes start (part ++ part')) :
    HasAt bytes (start + part.length) part' := by
  obtain ⟨front, back, eq, at_⟩ := h
  refine ⟨front ++ part, back, ?_, ?_⟩
  · rw [eq, List.append_assoc, List.append_assoc]
  · rw [List.length_append, at_]

/-- The bytes at a position, if there are that many. -/
def slice? (bytes : Bytes) (start count : Nat) : Option Bytes :=
  if start + count ≤ bytes.length then some ((bytes.drop start).take count) else none

/-- A part that is there can be cut out. -/
theorem HasAt.slice?_eq (h : HasAt bytes start part) :
    bytes.slice? start part.length = some part := by
  obtain ⟨front, back, rfl, rfl⟩ := h
  rw [slice?, if_pos, List.drop_left, List.take_left]
  rw [List.length_append, List.length_append]
  omega

end Bytes

/-! ### Reading -/

namespace Abi

/-- The number in the word at a position. -/
def readNumber? (bytes : Bytes) (start : Nat) : Option Nat :=
  (bytes.slice? start 32).map Bytes.toNat

/-- A byte string in its place: where its length word begins and where its zeros end. -/
structure Placed where
  start : Nat
  data : Bytes
  stop : Nat
  deriving DecidableEq, Repr

/-- Reads the byte string whose length word is at a position.  It is filled up with zeros to whole
words. -/
def readTail? (bytes : Bytes) (start : Nat) : Option Placed := do
  let length ← readNumber? bytes start
  let block ← bytes.slice? (start + 32) (32 * ((length + 31) / 32))
  if (block.drop length).all (· == 0) then
    some ⟨start, block.take length, start + 32 + block.length⟩
  else none

/-- Reads a byte string behind its offset word. -/
def readDynamic? (bytes : Bytes) : Option Placed := do
  let start ← readNumber? bytes 0
  readTail? bytes start

/-- Reads byte strings by their offsets, which count from `base`; the next offset word is at a given
place. -/
def readByOffset? (bytes : Bytes) (base : Nat) : (place count : Nat) → Option (List Placed)
  | _, 0 => some []
  | place, count + 1 => do
    let offset ← readNumber? bytes place
    let item ← readTail? bytes (base + offset)
    let items ← readByOffset? bytes base (place + 32) count
    some (item :: items)

/-- Reads an array of byte strings: behind the offset word a count, and then the offsets. -/
def readDynamicArray? (bytes : Bytes) : Option (List Placed) := do
  let start ← readNumber? bytes 0
  let count ← readNumber? bytes start
  readByOffset? bytes (start + 32) (start + 32) count

/-- Reads words one after the other. -/
def readWords? (bytes : Bytes) : (start count : Nat) → Option (List Bytes)
  | _, 0 => some []
  | start, count + 1 => do
    let word ← bytes.slice? start 32
    let words ← readWords? bytes (start + 32) count
    some (word :: words)

/-- Reads an array of words: behind the offset word a count, and then the words. -/
def readStaticArray? (bytes : Bytes) : Option (List Bytes) := do
  let start ← readNumber? bytes 0
  let count ← readNumber? bytes start
  readWords? bytes (start + 32) count

variable {bytes data : Bytes} {start : Nat}

/-- A number that fits in its word is read back. -/
theorem readNumber?_of_hasAt {n : Nat} (h : bytes.HasAt start (natWord n)) (fits : n < Word.size) :
    readNumber? bytes start = some n := by
  have word := h.slice?_eq
  rw [length_natWord] at word
  rw [readNumber?, word, Option.map_some, toNat_natWord, Nat.mod_eq_of_lt fits]

/-- A word is thirty-two bytes long. -/
theorem hasAt_behind_word {n : Nat} {part : Bytes} (h : bytes.HasAt start (natWord n ++ part)) :
    bytes.HasAt (start + 32) part := by
  have behind := h.right
  rwa [length_natWord] at behind

/-- A tail is read back from where it stands. -/
theorem readTail?_of_hasAt (h : bytes.HasAt start (tail data)) (fits : data.length < Word.size) :
    readTail? bytes start = some ⟨start, data, start + (tail data).length⟩ := by
  rw [tail, List.append_assoc] at h
  have block := (hasAt_behind_word h).slice?_eq
  rw [List.length_append, length_add_fill] at block
  have zeros : (fill data.length).all (· == 0) = true := by
    rw [fill, List.all_replicate]
    simp
  rw [readTail?, readNumber?_of_hasAt h.left fits]
  simp only [Option.bind_eq_bind, Option.bind_some]
  rw [block]
  simp only [Option.bind_some]
  rw [List.drop_left, if_pos zeros, List.take_left, List.length_append, length_add_fill,
    length_tail, Nat.add_assoc]

/-- Bytes are read back from their layout. -/
theorem readDynamic?_dynamic (fits : data.length < Word.size) :
    readDynamic? (dynamic data) = some ⟨32, data, (dynamic data).length⟩ := by
  have whole := Bytes.hasAt_self (dynamic data)
  rw [dynamic] at whole
  have behind := hasAt_behind_word whole
  rw [Nat.zero_add] at behind
  rw [readDynamic?, dynamic, readNumber?_of_hasAt whole.left (by decide), List.length_append,
    length_natWord]
  simp only [Option.bind_eq_bind, Option.bind_some]
  exact readTail?_of_hasAt behind fits

/-! ### Items one behind the other -/

/-- Byte strings follow each other without gap or overlap, from one position to another. -/
def Adjoin : Nat → List Placed → Nat → Prop
  | start, [], stop => start = stop
  | start, item :: items, stop =>
    item.start = start ∧ start < item.stop ∧ Adjoin item.stop items stop

/-- Items that stand one behind the other stand behind the first place. -/
theorem Adjoin.start_le {items : List Placed} {stop : Nat} (h : Adjoin start items stop) :
    ∀ item ∈ items, start ≤ item.start := by
  induction items generalizing start with
  | nil => exact List.forall_mem_nil _
  | cons item items ih =>
    obtain ⟨rfl, longer, rest⟩ := h
    refine List.forall_mem_cons.2 ⟨Nat.le_refl _, ?_⟩
    intro other mem
    exact Nat.le_of_lt (Nat.lt_of_lt_of_le longer (ih rest other mem))

/-- Byte strings that follow each other do not overlap. -/
theorem Adjoin.pairwise {items : List Placed} {stop : Nat} (h : Adjoin start items stop) :
    items.Pairwise fun item later => item.stop ≤ later.start := by
  induction items generalizing start with
  | nil => exact List.Pairwise.nil
  | cons item items ih =>
    obtain ⟨rfl, -, rest⟩ := h
    exact List.Pairwise.cons rest.start_le (ih rest)

/-- Where tails stand one behind the other, and their offsets elsewhere, the byte strings are read
one behind the other.  The induction moves along the offsets and the tails at once. -/
theorem readByOffset?_of_hasAt {items : List Bytes} {base place offset : Nat}
    (heads : bytes.HasAt place ((offsets offset (items.map tail)).flatMap natWord))
    (tails : bytes.HasAt (base + offset) (items.map tail).flatten)
    (fits : offset + (items.map tail).flatten.length ≤ Word.size) :
    ∃ found, readByOffset? bytes base place items.length = some found ∧
      found.map Placed.data = items ∧
      Adjoin (base + offset) found (base + offset + (items.map tail).flatten.length) := by
  -- the heads are read forward while the offset moves over the tails
  induction items generalizing place offset with
  | nil => exact ⟨[], rfl, rfl, rfl⟩
  | cons item items ih =>
    rw [List.map_cons, offsets, List.flatMap_cons] at heads
    rw [List.map_cons, List.flatten_cons] at tails fits ⊢
    rw [List.length_append] at fits ⊢
    have long := length_tail item
    have number := readNumber?_of_hasAt heads.left (by omega)
    -- the offset leads to the tail of this item, which is where the last one stopped
    have here := readTail?_of_hasAt tails.left (by omega)
    have tailsBehind := tails.right
    rw [Nat.add_assoc] at tailsBehind
    obtain ⟨found, read, same, adjoin⟩ := ih (hasAt_behind_word heads) tailsBehind (by omega)
    refine ⟨⟨base + offset, item, base + offset + (tail item).length⟩ :: found, ?_, ?_, ?_⟩
    · rw [List.length_cons, readByOffset?]
      simp only [number, here, read, Option.bind_eq_bind, Option.bind_some]
    · rw [List.map_cons, same]
    · refine ⟨rfl, ?_, ?_⟩
      · show base + offset < base + offset + (tail item).length
        omega
      · rw [← Nat.add_assoc] at adjoin
        rwa [← Nat.add_assoc]

/-- An array of byte strings is read back, item by item. -/
theorem readDynamicArray?_dynamicArray {items : List Bytes}
    (fits : (dynamicArray items).length < Word.size) :
    ∃ found, readDynamicArray? (dynamicArray items) = some found ∧
      found.map Placed.data = items ∧
      Adjoin (64 + 32 * items.length) found (dynamicArray items).length := by
  have whole : (dynamicArray items).HasAt 0
      (natWord 32 ++ (natWord items.length ++
        ((offsets (32 * items.length) (items.map tail)).flatMap natWord ++
          (items.map tail).flatten))) := by
    rw [← List.append_assoc, ← List.append_assoc]
    exact Bytes.hasAt_self _
  have counted := hasAt_behind_word whole
  have heads := hasAt_behind_word counted
  have tails := heads.right
  rw [length_flatMap_natWord, length_offsets, List.length_map] at tails
  -- the whole layout fits in a word, so every offset into it does
  rw [length_dynamicArray] at fits ⊢
  obtain ⟨found, read, same, adjoin⟩ := readByOffset?_of_hasAt heads.left tails (by omega)
  refine ⟨found, ?_, same, adjoin⟩
  rw [readDynamicArray?, readNumber?_of_hasAt whole.left (by decide)]
  simp only [Option.bind_eq_bind, Option.bind_some]
  rw [readNumber?_of_hasAt counted.left (by omega)]
  exact read

/-- Words that stand one behind the other are read back. -/
theorem readWords?_of_hasAt {words : List Bytes} (h : bytes.HasAt start words.flatten)
    (whole : ∀ word ∈ words, word.length = 32) :
    readWords? bytes start words.length = some words := by
  induction words generalizing start with
  | nil => rfl
  | cons word words ih =>
    obtain ⟨here, others⟩ := List.forall_mem_cons.1 whole
    rw [List.flatten_cons] at h
    have first := h.left.slice?_eq
    have behind := h.right
    rw [here] at first behind
    rw [List.length_cons, readWords?, first]
    simp only [ih behind others, Option.bind_eq_bind, Option.bind_some]

/-- An array of words is read back. -/
theorem readStaticArray?_staticArray {words : List Bytes} (whole : ∀ word ∈ words, word.length = 32)
    (fits : words.length < Word.size) : readStaticArray? (staticArray words) = some words := by
  have all : (staticArray words).HasAt 0
      (natWord 32 ++ (natWord words.length ++ words.flatten)) := by
    rw [← List.append_assoc]
    exact Bytes.hasAt_self _
  have counted := hasAt_behind_word all
  rw [readStaticArray?, readNumber?_of_hasAt all.left (by decide)]
  simp only [Option.bind_eq_bind, Option.bind_some]
  rw [readNumber?_of_hasAt counted.left fits]
  exact readWords?_of_hasAt (hasAt_behind_word counted) whole

/-! ### No two byte strings have one layout -/

/-- The length word and the number of words together tell the length, however long the bytes. -/
theorem tail_injective : Function.Injective tail := by
  intro data data' same
  have sizes := congrArg List.length same
  rw [length_tail, length_tail] at sizes
  rw [tail, tail, List.append_assoc, List.append_assoc] at same
  obtain ⟨lengths, blocks⟩ :=
    List.append_inj same (by rw [length_natWord, length_natWord])
  have remainders : data.length % 32 = data'.length % 32 := by
    have numbers := congrArg Bytes.toNat lengths
    rw [toNat_natWord, toNat_natWord] at numbers
    have divides : 32 ∣ Word.size := by decide
    rw [← Nat.mod_mod_of_dvd data.length divides, numbers, Nat.mod_mod_of_dvd _ divides]
  exact List.append_inj_left blocks (by omega)

/-- Different bytes have different layouts, of whatever length they are. -/
theorem dynamic_injective : Function.Injective dynamic := by
  intro data data' same
  exact tail_injective (List.append_cancel_left same)

/-! ### All layouts -/

/-- **Layouts are whole words and are read back.**  The items of an array of byte strings stand one
behind the other from the end of the offsets to the end of the layout.  The bounds say that a length
fits its word, which it does for whatever a machine can store. -/
theorem layouts_read_back :
    (∀ data : Bytes, 32 ∣ (dynamic data).length ∧
      (data.length < Word.size →
        readDynamic? (dynamic data) = some ⟨32, data, (dynamic data).length⟩)) ∧
    Function.Injective dynamic ∧
    (∀ items : List Bytes, 32 ∣ (dynamicArray items).length ∧
      ((dynamicArray items).length < Word.size →
        ∃ found, readDynamicArray? (dynamicArray items) = some found ∧
          found.map Placed.data = items ∧
          Adjoin (64 + 32 * items.length) found (dynamicArray items).length ∧
          found.Pairwise fun item later => item.stop ≤ later.start)) ∧
    ∀ words : List Bytes, (∀ word ∈ words, word.length = 32) → words.length < Word.size →
      readStaticArray? (staticArray words) = some words := by
  refine ⟨?_, dynamic_injective, ?_, ?_⟩
  · intro data
    refine ⟨?_, readDynamic?_dynamic⟩
    rw [length_dynamic, length_tail]
    omega
  · intro items
    constructor
    · have tails := dvd_length_tails items
      rw [length_dynamicArray]
      omega
    · intro fits
      obtain ⟨found, read, same, adjoin⟩ := readDynamicArray?_dynamicArray fits
      exact ⟨found, read, same, adjoin, adjoin.pairwise⟩
  · intro words whole fits
    exact readStaticArray?_staticArray whole fits

/-- One byte more than a word takes two words, and an empty item none beyond its length. -/
theorem layouts_read_back_boundary :
    readDynamic? (dynamic (List.replicate 33 7)) = some ⟨32, List.replicate 33 7, 128⟩ ∧
    (∃ found, readDynamicArray? (dynamicArray [[97, 98], [], List.replicate 32 7]) = some found ∧
      found.map Placed.data = [[97, 98], [], List.replicate 32 7] ∧ Adjoin 160 found 320) ∧
    readStaticArray? (staticArray [natWord 1, natWord 2]) = some [natWord 1, natWord 2] := by
  obtain ⟨strings, -, arrays, wordArrays⟩ := layouts_read_back
  refine ⟨?_, ?_, ?_⟩
  · rw [(strings (List.replicate 33 7)).2 (by decide), length_dynamic, length_tail]
    rfl
  · have length : (dynamicArray [[97, 98], [], List.replicate 32 7]).length = 320 := by
      rw [length_dynamicArray]
      simp only [List.map_cons, List.map_nil, List.flatten_cons, List.flatten_nil,
        List.length_append, length_tail]
      rfl
    obtain ⟨found, read, same, adjoin, -⟩ := (arrays [[97, 98], [], List.replicate 32 7]).2 (by
      rw [length]
      decide)
    rw [length] at adjoin
    exact ⟨found, read, same, adjoin⟩
  · apply wordArrays
    · rw [List.forall_mem_cons, List.forall_mem_singleton]
      exact ⟨length_natWord 1, length_natWord 2⟩
    · decide

end Abi

end RuleCodec
