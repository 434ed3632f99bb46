/-
RuleCodec/Proofs/Acceptance.lean

Which streams a replay accepts.

Words are accepted if they are complete instructions, one behind the other,
that refer to no placeholder without a name and to no slot before it is
written.  Any other stream is refused, with the fault of the first instruction
that is not of this kind (`Replay.run_eq_ok_iff_spells`).

A store looks at more than its operands: to tell an update from a value that is
stored whole, it follows how the value was computed, and nothing checks the
slots that it comes to on this way.  They are written all the same, because
what a slot was computed from was written before it (`Memory.Grounded`).

Design.  A replay is followed by its stages, as in `Replay.Performs`, but over
words of which nothing is known: `Replay.Reaches` holds of each stage that the
replay comes to and of the words it then has before it.  What is claimed of all
stages is proved by induction on it, from what one instruction leaves in memory
(`Replay.wrote_of_step`).
-/
import RuleCodec.Proofs.Replaying
import RuleCodec.Proofs.Slots

namespace RuleCodec

/-! ### Numbers of opcodes -/

namespace Registry

/-- The opcode that holds a number is entered with it. -/
theorem mem_of_holder? {op : Opcode} {code : UInt64} {entries : List (Opcode × UInt64)}
    (h : holder? code entries = some op) : (op, code) ∈ entries := by
  induction entries with
  | nil => cases h
  | cons entry rest ih =>
    obtain ⟨op', code'⟩ := entry
    rw [holder?] at h
    split at h
    · rename_i same
      cases h
      rw [same]
      exact List.mem_cons_self
    · exact List.mem_cons_of_mem _ (ih h)

/-- A number stands for an opcode exactly if the opcode was given that number. -/
theorem opcode?_eq_some_iff {r : Registry} {op : Opcode} {code : UInt64} :
    r.opcode? code = some op ↔ r.codes.get? op = some code :=
  ⟨fun h => Table.get?_eq_some_iff.2 (mem_of_holder? h), opcode?_of_get?⟩

/-- The word is the number of the opcode. -/
def Numbers (registry : Registry) (w : Word) (op : Opcode) : Prop :=
  ∃ code, registry.codes.get? op = some code ∧ w = BitVec.ofNat 256 code.toNat

end Registry

namespace Word

/-- A word is an index exactly if it is below 2⁶⁴, and then the index is the word. -/
theorem index?_eq_some_iff {w : Word} {i : Nat} :
    w.index? = some i ↔ w.toNat < UInt64.size ∧ i = w.toNat := by
  rw [index?, Option.ite_none_right_eq_some, Option.some.injEq, eq_comm (a := i)]

/-- A look-up that has nothing at the value of a word has nothing for the word. -/
theorem index?_bind_eq_none {α : Type} {w : Word} {found : Nat → Option α}
    (h : found w.toNat = none) : w.index?.bind found = none := by
  refine Option.bind_eq_none_iff.2 fun i is => ?_
  obtain ⟨-, rfl⟩ := index?_eq_some_iff.1 is
  exact h

/-- A word that is not wide is told by its low 64 bits. -/
theorem eq_ofNat_low64 {w : Word} (h : w.toNat < UInt64.size) :
    w = BitVec.ofNat 256 w.low64.toNat := by
  rw [low64, UInt64.toNat_ofNat_of_lt' h, BitVec.ofNat_toNat, BitVec.setWidth_eq]

end Word

namespace Replay

/-- A word is read as an opcode exactly if it is the number of one. -/
theorem opcode?_eq_some_iff {replay : Replay} {w : Word} {op : Opcode} :
    replay.opcode? w = some op ↔ replay.registry.Numbers w op := by
  constructor
  · intro h
    obtain ⟨n, is, h⟩ := Option.bind_eq_some_iff.1 h
    obtain ⟨small, -⟩ := Word.index?_eq_some_iff.1 is
    exact ⟨w.low64, Registry.opcode?_eq_some_iff.1 h, Word.eq_ofNat_low64 small⟩
  · rintro ⟨code, found, rfl⟩
    rw [opcode?, Word.index?_ofNat code.toNat_lt, Option.bind_some, Word.low64_ofNat]
    exact Registry.opcode?_of_get? found

end Replay

/-! ### Instructions of words -/

namespace Instruction

/-- The operands of an instruction of words. -/
def parts : Instruction Word Word → List Word
  | literal value => [value]
  | not operand => [operand]
  | read placeholder => [placeholder]
  | readMapped placeholder key => [placeholder, key]
  | compute _ left right => [left, right]
  | store tracker value spare => [tracker, value, spare]
  | storeMapped tracker value key => [tracker, value, key]

theorem length_parts (i : Instruction Word Word) : i.parts.length = i.opcode.operandCount := by
  cases i <;> rfl

/-- An instruction is taken from the front of words exactly if its operands stand there. -/
theorem take?_eq_some_iff {op : Opcode} {words rest : List Word} {i : Instruction Word Word} :
    take? op words = some (i, rest) ↔ i.opcode = op ∧ words = i.parts ++ rest := by
  constructor
  · intro h
    unfold take? at h
    split at h <;> cases h <;> exact ⟨rfl, rfl⟩
  · rintro ⟨rfl, rfl⟩
    cases i <;> rfl

/-- Nothing is taken exactly if operands are missing. -/
theorem take?_eq_none_iff {op : Opcode} {words : List Word} :
    take? op words = none ↔ words.length < op.operandCount := by
  cases op <;> rcases words with _ | ⟨a, _ | ⟨b, _ | ⟨c, rest⟩⟩⟩ <;>
    simp [take?, Opcode.operandCount]

/-- The placeholder that an instruction reads, if it reads one. -/
def placeholders {Literal Ref : Type} : Instruction Literal Ref → List Ref
  | read placeholder => [placeholder]
  | readMapped placeholder _ => [placeholder]
  | _ => []

/-- No instruction reads more than one placeholder. -/
theorem placeholders_eq_singleton {Literal Ref : Type} {i : Instruction Literal Ref} {p : Ref}
    (mem : p ∈ i.placeholders) : i.placeholders = [p] := by
  cases i with
  | read placeholder => rw [List.mem_singleton.1 mem]; rfl
  | readMapped placeholder key => rw [List.mem_singleton.1 mem]; rfl
  | _ => cases mem

/-- What an instruction refers to is there: the placeholder is one of `names`, the slots are among
the `written`. -/
structure Refers (names written : Nat) (i : Instruction Word Word) : Prop where
  named : ∀ p ∈ i.placeholders, p.toNat < names
  written : ∀ s ∈ i.slots, s.toNat < written

instance (names written : Nat) (i : Instruction Word Word) : Decidable (i.Refers names written) :=
  -- over the lists: a statement about all words would be decided one word after the other
  have := List.decidableBAll (fun p : Word => p.toNat < names) i.placeholders
  have := List.decidableBAll (fun s : Word => s.toNat < written) i.slots
  decidable_of_iff ((∀ p ∈ i.placeholders, p.toNat < names) ∧ ∀ s ∈ i.slots, s.toNat < written)
    ⟨fun h => ⟨h.1, h.2⟩, fun h => ⟨h.named, h.written⟩⟩

/-- What is wrong with an instruction that refers to something else.  Its placeholder comes first,
then the slots in order. -/
inductive Faults (names written position : Nat) (i : Instruction Word Word) : Error → Prop
  | unnamed {p : Word} :
      p ∈ i.placeholders → names ≤ p.toNat →
        Faults names written position i (.missingPlaceholderName p.low64)
  | unwritten {before after : List Word} {s : Word} :
      (∀ p ∈ i.placeholders, p.toNat < names) → i.slots = before ++ s :: after →
      (∀ s' ∈ before, s'.toNat < written) → written ≤ s.toNat →
        Faults names written position i (.invalidSlot s.low64 position)

/-- What does not refer to things that are there has a first reference that is at fault. -/
theorem refers_or_faults (names written position : Nat) (i : Instruction Word Word) :
    i.Refers names written ∨ ∃ e, i.Faults names written position e := by
  by_cases named : ∀ p ∈ i.placeholders, p.toNat < names
  · -- the slots are looked up in order, so the first that is not written is reported
    cases first : i.slots.find? fun s => decide (written ≤ s.toNat) with
    | none =>
      refine .inl ⟨named, fun s mem => ?_⟩
      simpa using List.find?_eq_none.1 first s mem
    | some s =>
      obtain ⟨unwritten, before, after, eq, others⟩ := List.find?_eq_some_iff_append.1 first
      refine .inr ⟨_, .unwritten named eq (fun s' mem => ?_) (by simpa using unwritten)⟩
      simpa using others s' mem
  · simp only [not_forall, Nat.not_lt] at named
    obtain ⟨p, mem, unnamed⟩ := named
    exact .inr ⟨_, .unnamed mem unnamed⟩

/-- Each instruction refers to what is there when its turn comes, `written` slots being there to
begin with. -/
def Sound (names written : Nat) (is : List (Instruction Word Word)) : Prop :=
  ∀ (k : Nat) (i : Instruction Word Word), is[k]? = some i →
    i.Refers names (written + (is.take k).countP writes)

theorem sound_nil (names written : Nat) : Sound names written [] := by
  intro k i at_k
  cases at_k

theorem countP_writes_cons (i : Instruction Word Word) (is : List (Instruction Word Word)) :
    (i :: is).countP writes = [i].countP writes + is.countP writes := by
  rw [← List.singleton_append, List.countP_append]

/-- Soundness goes along the instructions, with one more slot behind each that writes. -/
theorem sound_cons {names written : Nat} {i : Instruction Word Word}
    {is : List (Instruction Word Word)} :
    Sound names written (i :: is) ↔
      i.Refers names written ∧ Sound names (written + [i].countP writes) is := by
  constructor
  · intro h
    refine ⟨h 0 i rfl, fun k j at_k => ?_⟩
    have later := h (k + 1) j at_k
    rw [List.take_succ_cons, countP_writes_cons, ← Nat.add_assoc] at later
    exact later
  · rintro ⟨here, later⟩ k j at_k
    cases k with
    | zero =>
      cases at_k
      exact here
    | succ k =>
      rw [List.take_succ_cons, countP_writes_cons, ← Nat.add_assoc]
      exact later k j at_k

instance decidableSound (names : Nat) :
    ∀ (written : Nat) (is : List (Instruction Word Word)), Decidable (Sound names written is)
  | _, [] => .isTrue (sound_nil _ _)
  | written, i :: is =>
    have := decidableSound names (written + [i].countP writes) is
    decidable_of_iff _ sound_cons.symm

end Instruction

/-- The words are complete instructions, one behind the other: the number of an opcode, and as many
words more as it has operands. -/
inductive Registry.Spells (registry : Registry) :
    List (Instruction Word Word) → List Word → Prop
  | nil : Spells registry [] []
  | cons {i : Instruction Word Word} {is : List (Instruction Word Word)} {w : Word}
      {words : List Word} :
      registry.Numbers w i.opcode → Spells registry is words →
        Spells registry (i :: is) (w :: (i.parts ++ words))

theorem Registry.Spells.length_le {registry : Registry} {is : List (Instruction Word Word)}
    {words : List Word} (h : registry.Spells is words) : is.length ≤ words.length := by
  induction h with
  | nil => exact Nat.le_refl _
  | cons _ _ ih =>
    simp only [List.length_cons, List.length_append]
    omega

/-! ### Looking up -/

namespace Memory

variable {memory : Memory} {position k : Nat} {w : Word} {f : Fragment}

/-- A slot that is written is found. -/
theorem slot_eq_ok (position : Nat) (fits : memory.size ≤ UInt64.size) (h : w.toNat < memory.size) :
    ∃ found, memory.slot position w = .ok found := by
  refine ⟨(w.toNat, memory[w.toNat]), ?_⟩
  rw [slot, Word.index?_eq_some_iff.2 ⟨Nat.lt_of_lt_of_le h fits, rfl⟩, Option.bind_some,
    Array.getElem?_eq_getElem h]
  rfl

/-- A slot that is not written is reported with its low 64 bits. -/
theorem slot_eq_error (h : memory.size ≤ w.toNat) :
    memory.slot position w = .error (.invalidSlot w.low64 position) := by
  have none : (w.index?.bind fun i => memory[i]?.map fun f => (i, f)) = none :=
    Word.index?_bind_eq_none (by rw [Array.getElem?_eq_none h, Option.map_none])
  rw [slot, none]

/-- A slot that is found is there. -/
theorem getElem?_of_slot (h : memory.slot position w = .ok (k, f)) :
    k = w.toNat ∧ memory[k]? = some f := by
  unfold slot at h
  split at h
  · rename_i found is
    cases h
    obtain ⟨i, index, is⟩ := Option.bind_eq_some_iff.1 is
    obtain ⟨f', at_i, eq⟩ := Option.map_eq_some_iff.1 is
    cases eq
    exact ⟨(Word.index?_eq_some_iff.1 index).2, at_i⟩
  · cases h

theorem lt_of_slot (h : memory.slot position w = .ok (k, f)) : k < memory.size :=
  (Array.getElem?_eq_some_iff.1 (getElem?_of_slot h).2).1

/-- Memories that agree at a slot find the same there. -/
theorem slot_congr {other : Memory} (same : other[w.toNat]? = memory[w.toNat]?) :
    other.slot position w = memory.slot position w := by
  rw [slot, slot]
  cases is : w.index? with
  | none => rfl
  | some i =>
    obtain ⟨-, rfl⟩ := Word.index?_eq_some_iff.1 is
    rw [Option.bind_some, Option.bind_some, same]

end Memory

namespace Replay

variable {replay : Replay} {w : Word}

/-- A placeholder that has a name is found. -/
theorem placeholder_eq_ok (fits : replay.placeholderNames.length ≤ UInt64.size)
    (h : w.toNat < replay.placeholderNames.length) :
    ∃ found, replay.placeholder w = .ok found := by
  refine ⟨(w.toNat, replay.placeholderNames[w.toNat].toList), ?_⟩
  rw [placeholder, Word.index?_eq_some_iff.2 ⟨Nat.lt_of_lt_of_le h fits, rfl⟩, Option.bind_some,
    List.getElem?_eq_getElem h]
  rfl

/-- A placeholder without a name is reported with its low 64 bits. -/
theorem placeholder_eq_error (h : replay.placeholderNames.length ≤ w.toNat) :
    replay.placeholder w = .error (.missingPlaceholderName w.low64) := by
  have none : (w.index?.bind fun i =>
      replay.placeholderNames[i]?.map fun name => (i, name.toList)) = none :=
    Word.index?_bind_eq_none (by rw [List.getElem?_eq_none h, Option.map_none])
  rw [placeholder, none]

end Replay

/-! ### Where a slot comes from -/

/-- The slots that a slot was made of. -/
def Origin.slots : Origin → List Nat
  | readMapped _ key => [key]
  | computed _ left right => [left, right]
  | _ => []

namespace Memory

/-- Every slot was made of slots before it. -/
def Grounded (memory : Memory) : Prop :=
  ∀ (k : Nat) (f : Fragment), memory[k]? = some f → ∀ s ∈ f.origin.slots, s < k

/-- A fragment that is made of written slots can be added. -/
theorem Grounded.push {memory : Memory} (h : memory.Grounded) {f : Fragment}
    (made : ∀ s ∈ f.origin.slots, s < memory.size) : Grounded (memory.push f) := by
  intro k f' at_k
  rw [Array.getElem?_push] at at_k
  split at at_k
  · rename_i last
    cases at_k
    rw [last]
    exact made
  · exact h k f' at_k

/-- The slots that are recorded of a slot. -/
def behind (memory : Memory) (slot : Nat) : List Nat :=
  match memory[slot]? with
  | some f => f.origin.slots
  | none => []

/-- What stands behind a slot of a grounded memory is written. -/
theorem Grounded.behind_lt {memory : Memory} (h : memory.Grounded) {slot s : Nat}
    (mem : s ∈ memory.behind slot) : s < memory.size := by
  unfold behind at mem
  split at mem
  · rename_i f at_slot
    exact Nat.lt_trans (h slot f at_slot s mem) (Array.getElem?_eq_some_iff.1 at_slot).1
  · cases mem

end Memory

namespace Instruction

/-- The slot of the value that an instruction stores, if it stores one. -/
def stored {Literal Ref : Type} : Instruction Literal Ref → List Ref
  | store _ value _ => [value]
  | storeMapped _ value _ => [value]
  | _ => []

/-- The slots at which performing an instruction looks: those of its operands, and behind a stored
value those that it was made of. -/
def looksAt (memory : Memory) (i : Instruction Word Word) : List Nat :=
  i.slots.map BitVec.toNat ++ i.stored.flatMap fun value => memory.behind value.toNat

end Instruction

/-! ### One instruction -/

namespace Replay

variable {replay : Replay} {position : Nat} {memory after : Memory} {i : Instruction Word Word}
  {said : Option (List Char)} {e : Error}

/-- Performing an instruction fails where looking up its references fails, and nowhere else. -/
theorem step_map (replay : Replay) (position : Nat) (memory : Memory)
    (i : Instruction Word Word) :
    (replay.step position memory i).map (fun _ => ()) = (do
      let _ ← i.placeholders.mapM replay.placeholder
      let _ ← i.slots.mapM (memory.slot position)
      return ()) := by
  -- which texts a step makes is left out: only its lookups can fail
  cases i with
  | literal value => rfl
  | not operand =>
    simp only [step, Instruction.placeholders, Instruction.slots, List.mapM_nil, List.mapM_cons]
    cases memory.slot position operand <;> rfl
  | read placeholder =>
    simp only [step, Instruction.placeholders, Instruction.slots, List.mapM_nil, List.mapM_cons]
    cases replay.placeholder placeholder <;> rfl
  | readMapped placeholder key =>
    simp only [step, Instruction.placeholders, Instruction.slots, List.mapM_nil, List.mapM_cons]
    cases replay.placeholder placeholder <;> cases memory.slot position key <;> rfl
  | compute op left right =>
    simp only [step, Instruction.placeholders, Instruction.slots, List.mapM_nil, List.mapM_cons]
    cases memory.slot position left <;> cases memory.slot position right <;> rfl
  | store tracker value spare =>
    simp only [step, Instruction.placeholders, Instruction.slots, List.mapM_nil, List.mapM_cons]
    cases memory.slot position value <;> rfl
  | storeMapped tracker value key =>
    simp only [step, Instruction.placeholders, Instruction.slots, List.mapM_nil, List.mapM_cons]
    cases memory.slot position value <;> cases memory.slot position key <;> rfl

section

variable (few : replay.placeholderNames.length ≤ UInt64.size) (fits : memory.size ≤ UInt64.size)

include few fits

/-- An instruction that refers to what is there is performed. -/
theorem step_eq_ok (position : Nat) (h : i.Refers replay.placeholderNames.length memory.size) :
    ∃ after said, replay.step position memory i = .ok (after, said) := by
  obtain ⟨names, named⟩ := mapM_eq_ok_of_forall fun p mem => placeholder_eq_ok few (h.named p mem)
  obtain ⟨slots, written⟩ := mapM_eq_ok_of_forall fun s mem =>
    Memory.slot_eq_ok position fits (h.written s mem)
  have run := replay.step_map position memory i
  rw [named] at run
  simp only [bind, Except.bind, written] at run
  rcases performed : replay.step position memory i with fault | ⟨after, said⟩
  · rw [performed] at run
    cases run
  · exact ⟨after, said, rfl⟩

/-- And one that does not is refused for it. -/
theorem step_eq_error (h : i.Faults replay.placeholderNames.length memory.size position e) :
    replay.step position memory i = .error e := by
  have refused : (replay.step position memory i).map (fun _ => ()) = .error e := by
    rw [step_map]
    cases h with
    | unnamed mem unnamed =>
      -- placeholders are looked up before slots, and there is one at most
      rw [Instruction.placeholders_eq_singleton mem, List.mapM_cons, placeholder_eq_error unnamed]
      rfl
    | @unwritten before behind s named slots written unwritten =>
      obtain ⟨names, found⟩ := mapM_eq_ok_of_forall fun p mem => placeholder_eq_ok few (named p mem)
      -- the slots in front of it are written, so this one is the first that is missed
      have missing : i.slots.mapM (memory.slot position) =
          .error (.invalidSlot s.low64 position) := by
        rw [slots]
        exact mapM_eq_error (fun s mem => Memory.slot_eq_ok position fits (written s mem))
          (Memory.slot_eq_error unwritten)
      rw [found]
      simp only [bind, Except.bind, missing]
  rcases performed : replay.step position memory i with fault | done
  · rw [performed] at refused
    cases refused
    rfl
  · rw [performed] at refused
    cases refused

end

/-- What an instruction leaves in memory: what was there and, if it writes, a slot made of slots
that were there. -/
inductive Wrote (memory : Memory) (i : Instruction Word Word) : Memory → Prop
  | nothing : i.writes = false → Wrote memory i memory
  | slot {f : Fragment} :
      i.writes = true → (∀ s ∈ f.origin.slots, s < memory.size) → Wrote memory i (memory.push f)

/-- A step that succeeds writes what its instruction writes. -/
theorem wrote_of_step (h : replay.step position memory i = .ok (after, said)) :
    Wrote memory i after := by
  cases i with
  | literal value =>
    cases h
    exact .slot rfl (by simp [Origin.slots])
  | not operand =>
    obtain ⟨⟨k, f⟩, -, h⟩ := bind_eq_ok.1 h
    cases h
    exact .slot rfl (by simp [Origin.slots])
  | read placeholder =>
    obtain ⟨⟨p, name⟩, -, h⟩ := bind_eq_ok.1 h
    cases h
    exact .slot rfl (by simp [Origin.slots])
  | readMapped placeholder key =>
    obtain ⟨⟨p, name⟩, -, h⟩ := bind_eq_ok.1 h
    obtain ⟨⟨k, f⟩, found, h⟩ := bind_eq_ok.1 h
    cases h
    -- the slot of the key was found, so it is written
    exact .slot rfl (by simpa [Origin.slots] using Memory.lt_of_slot found)
  | compute op left right =>
    obtain ⟨⟨l, fl⟩, foundLeft, h⟩ := bind_eq_ok.1 h
    obtain ⟨⟨r, fr⟩, foundRight, h⟩ := bind_eq_ok.1 h
    cases h
    exact .slot rfl (by
      simpa [Origin.slots] using ⟨Memory.lt_of_slot foundLeft, Memory.lt_of_slot foundRight⟩)
  | store tracker value spare =>
    -- a store writes nothing, whatever it says
    obtain ⟨⟨k, f⟩, -, h⟩ := bind_eq_ok.1 h
    cases h
    exact .nothing rfl
  | storeMapped tracker value key =>
    obtain ⟨⟨k, f⟩, -, h⟩ := bind_eq_ok.1 h
    obtain ⟨foundKey, -, h⟩ := bind_eq_ok.1 h
    cases h
    exact .nothing rfl

/-- The memory grows by a slot for an instruction that writes, and not otherwise. -/
theorem Wrote.size_eq (h : Wrote memory i after) :
    after.size = memory.size + [i].countP Instruction.writes := by
  cases h with
  | nothing writes => simp [writes]
  | slot writes => simp [writes]

/-- Steps keep a memory grounded. -/
theorem Wrote.grounded (h : Wrote memory i after) (grounded : memory.Grounded) :
    after.Grounded := by
  cases h with
  | nothing => exact grounded
  | slot _ made => exact grounded.push made

/-! ### What a store looks at -/

/-- What is read as an update was computed. -/
theorem origin_of_readUpdate? {value : Fragment} {key : Option Nat} {p right : Nat} {op : BinaryOp}
    (h : readUpdate? memory value key = some (p, op, right)) :
    ∃ operation left, value.origin = .computed operation left right := by
  unfold readUpdate? at h
  split at h
  · rename_i operation left right' origin
    have eq : right' = right := by
      split at h
      · obtain ⟨update, -, eq⟩ := Option.map_eq_some_iff.1 h
        cases eq
        rfl
      · obtain ⟨-, h⟩ := Option.ite_none_right_eq_some.1 h
        obtain ⟨update, -, eq⟩ := Option.map_eq_some_iff.1 h
        cases eq
        rfl
      · cases h
    exact ⟨operation, left, by rw [origin, eq]⟩
  · cases h

/-- Memories that agree where a value came from show its store alike. -/
theorem updateText?_congr (replay : Replay) {other : Memory} {value : Fragment} (tracker : Word)
    (same : ∀ k ∈ value.origin.slots, other[k]? = memory[k]?) (key : Option (Nat × Fragment)) :
    replay.updateText? other tracker value key = replay.updateText? memory tracker value key := by
  -- an update is read off the left operand, and its text is made of the right one
  have update : readUpdate? other value (key.map Prod.fst) =
      readUpdate? memory value (key.map Prod.fst) := by
    unfold readUpdate?
    cases origin : value.origin with
    | computed op left right =>
      rw [origin] at same
      simp only [same left List.mem_cons_self]
    | _ => rfl
  unfold updateText?
  rw [update]
  cases is : readUpdate? memory value (key.map Prod.fst) with
  | none => rfl
  | some found =>
    obtain ⟨p, op, right⟩ := found
    obtain ⟨operation, left, origin⟩ := origin_of_readUpdate? is
    rw [origin] at same
    simp only [same right (by simp [Origin.slots])]

/-- What an instruction says depends on the slots it looks at and on no others. -/
theorem said_congr {other : Memory} (h : replay.step position memory i = .ok (after, said))
    (same : ∀ k ∈ i.looksAt memory, other[k]? = memory[k]?) :
    (replay.step position other i).map Prod.snd = .ok said := by
  obtain ⟨operands, behind⟩ := List.forall_mem_append.1 same
  have slots : ∀ s ∈ i.slots, other.slot position s = memory.slot position s := by
    intro s mem
    exact Memory.slot_congr (operands _ (List.mem_map_of_mem mem))
  have stored : ∀ value ∈ i.stored, ∀ k f, memory.slot position value = .ok (k, f) →
      ∀ s ∈ f.origin.slots, other[s]? = memory[s]? := by
    intro value mem k f found s inside
    obtain ⟨rfl, at_k⟩ := Memory.getElem?_of_slot found
    refine behind s (List.mem_flatMap.2 ⟨value, mem, ?_⟩)
    rw [Memory.behind, at_k]
    exact inside
  -- every operand is found as before; a store also follows the origin of its value
  cases i with
  | literal value => cases h; rfl
  | not operand =>
    obtain ⟨found, is, h⟩ := bind_eq_ok.1 h
    cases h
    rw [step, slots operand (List.mem_singleton_self _), is]
    rfl
  | read placeholder =>
    obtain ⟨found, is, h⟩ := bind_eq_ok.1 h
    cases h
    rw [step, is]
    rfl
  | readMapped placeholder key =>
    obtain ⟨found, is, h⟩ := bind_eq_ok.1 h
    obtain ⟨foundKey, isKey, h⟩ := bind_eq_ok.1 h
    cases h
    rw [step, is]
    simp only [bind, Except.bind, slots key (List.mem_singleton_self _), isKey]
    rfl
  | compute op left right =>
    obtain ⟨found, is, h⟩ := bind_eq_ok.1 h
    obtain ⟨found', is', h⟩ := bind_eq_ok.1 h
    cases h
    rw [step, slots left List.mem_cons_self, is]
    simp only [bind, Except.bind, slots right (List.mem_cons_of_mem _ List.mem_cons_self), is']
    rfl
  | store tracker value spare =>
    obtain ⟨⟨k, f⟩, is, h⟩ := bind_eq_ok.1 h
    cases h
    rw [step, slots value (List.mem_singleton_self _), is]
    have congr := replay.updateText?_congr tracker
      (stored value (List.mem_singleton_self _) k f is) none
    exact congrArg Except.ok congr
  | storeMapped tracker value key =>
    obtain ⟨⟨k, f⟩, is, h⟩ := bind_eq_ok.1 h
    obtain ⟨foundKey, isKey, h⟩ := bind_eq_ok.1 h
    cases h
    rw [step, slots value List.mem_cons_self, is]
    simp only [bind, Except.bind, slots key (List.mem_cons_of_mem _ List.mem_cons_self), isKey]
    have congr := replay.updateText?_congr tracker
      (stored value (List.mem_singleton_self _) k f is) (some foundKey)
    exact congrArg Except.ok congr

/-! ### Stages of a replay -/

/-- What a replay does with an instruction that it has read. -/
theorem runFrom_cons {w : Word} {text : List Char} (rest : List Word)
    (h : replay.registry.Numbers w i.opcode) :
    replay.runFrom position memory text (w :: (i.parts ++ rest)) =
      match replay.step position memory i with
      | .error e => .error e
      | .ok (after, said) =>
        replay.runFrom (position + 1 + i.opcode.operandCount) after (said.getD text) rest := by
  have taken : Instruction.take? i.opcode (i.parts ++ rest) = some (i, rest) :=
    Instruction.take?_eq_some_iff.2 ⟨rfl, rfl⟩
  rw [runFrom, opcode?_eq_some_iff.2 h]
  simp only
  split
  · rename_i missing
    rw [taken] at missing
    cases missing
  · rename_i instruction behind found
    rw [taken] at found
    cases found
    rfl

/-- A stage that the replay of some words comes to, and the words it has then before it. -/
inductive Reaches (replay : Replay) (words : List Word) : Stage → List Word → Prop
  | start : Reaches replay words ⟨0, #[], []⟩ words
  | step {s : Stage} {w : Word} {i : Instruction Word Word} {rest : List Word} {after : Memory}
      {said : Option (List Char)} :
      Reaches replay words s (w :: (i.parts ++ rest)) → replay.registry.Numbers w i.opcode →
      replay.step s.position s.memory i = .ok (after, said) →
        Reaches replay words
          ⟨s.position + 1 + i.opcode.operandCount, after, said.getD s.text⟩ rest

variable {words rest : List Word} {s : Stage}

/-- From a stage on, the replay goes on as from the beginning. -/
theorem Reaches.run_eq (h : replay.Reaches words s rest) :
    replay.run words = (replay.resume s rest).map String.ofList := by
  induction h with
  | start => rfl
  | step _ numbers performed ih => rw [ih, resume, runFrom_cons _ numbers, performed]; rfl

/-- So the memory is grounded wherever a replay has come. -/
theorem Reaches.grounded (h : replay.Reaches words s rest) : s.memory.Grounded := by
  induction h with
  | start =>
    intro k f at_k
    cases at_k
  | step _ _ performed ih => exact (wrote_of_step performed).grounded ih

/-- An instruction that is performed looks at slots that are written. -/
theorem Reaches.lt_size (h : replay.Reaches words s rest)
    (performed : replay.step s.position s.memory i = .ok (after, said)) :
    ∀ k ∈ i.looksAt s.memory, k < s.memory.size := by
  intro k mem
  rcases List.mem_append.1 mem with mem | mem
  · -- the operands were looked up
    obtain ⟨operand, inside, rfl⟩ := List.mem_map.1 mem
    have run := replay.step_map s.position s.memory i
    rw [performed] at run
    obtain ⟨names, -, run⟩ := bind_eq_ok.1 run.symm
    obtain ⟨slots, found, -⟩ := bind_eq_ok.1 run
    obtain ⟨⟨k, f⟩, -, is⟩ := exists_left_of_forall₂ (mapM_eq_ok_iff.1 found).flip inside
    have lt := Memory.lt_of_slot is
    rwa [(Memory.getElem?_of_slot is).1] at lt
  · -- what a stored value was made of was not, but it was written before the value
    obtain ⟨value, -, inside⟩ := List.mem_flatMap.1 mem
    exact h.grounded.behind_lt inside

/-- What is wrong with the instruction at the front of some words: no opcode has the number, there
are too few words, or it refers to something that is not there. -/
inductive Offends (replay : Replay) (position written : Nat) : List Word → Error → Prop
  | unknown {w : Word} {rest : List Word} :
      (∀ op, ¬ replay.registry.Numbers w op) →
        Offends replay position written (w :: rest) (.unknownOpcode w.low64 position)
  | incomplete {w : Word} {op : Opcode} {rest : List Word} :
      replay.registry.Numbers w op → rest.length < op.operandCount →
        Offends replay position written (w :: rest) (.missingOperand position)
  | faulty {w : Word} {i : Instruction Word Word} {rest : List Word} {e : Error} :
      replay.registry.Numbers w i.opcode →
      i.Faults replay.placeholderNames.length written position e →
        Offends replay position written (w :: (i.parts ++ rest)) e

/-- What the first word begins is at fault, or it is an instruction that refers to what is there. -/
theorem offends_or_refers (replay : Replay) (position written : Nat) (w : Word)
    (words : List Word) :
    (∃ e, replay.Offends position written (w :: words) e) ∨
      ∃ i rest, words = Instruction.parts i ++ rest ∧ replay.registry.Numbers w i.opcode ∧
        i.Refers replay.placeholderNames.length written := by
  by_cases numbers : ∃ op, replay.registry.Numbers w op
  · obtain ⟨op, numbers⟩ := numbers
    rcases taken : Instruction.take? op words with _ | ⟨i, rest⟩
    · exact .inl ⟨_, .incomplete numbers (Instruction.take?_eq_none_iff.1 taken)⟩
    · obtain ⟨rfl, rfl⟩ := Instruction.take?_eq_some_iff.1 taken
      rcases i.refers_or_faults replay.placeholderNames.length written position with
        refers | ⟨e, faults⟩
      · exact .inr ⟨i, rest, rfl, numbers, refers⟩
      · exact .inl ⟨e, .faulty numbers faults⟩
  · exact .inl ⟨_, .unknown fun op is => numbers ⟨op, is⟩⟩

/-- Words are sound instructions up to their end, or up to the first one that is at fault. -/
theorem exists_spells (replay : Replay) (position written : Nat) (words : List Word) :
    ∃ is front rest, words = front ++ rest ∧ replay.registry.Spells is front ∧
      Instruction.Sound replay.placeholderNames.length written is ∧
      (rest = [] ∨ ∃ e, replay.Offends (position + front.length)
        (written + is.countP Instruction.writes) rest e) := by
  -- one instruction at a time, until the words are over or something offends
  match words with
  | [] => exact ⟨[], [], [], rfl, .nil, Instruction.sound_nil _ _, .inl rfl⟩
  | w :: words =>
    rcases replay.offends_or_refers position written w words with
      offends | ⟨i, behind, eq, numbers, refers⟩
    · exact ⟨[], [], w :: words, rfl, .nil, Instruction.sound_nil _ _, .inr offends⟩
    · have shorter : behind.length < (w :: words).length := by
        rw [eq, List.length_cons, List.length_append]
        omega
      obtain ⟨is, front, rest, rfl, spells, sound, ends⟩ := exists_spells replay
        (position + 1 + i.opcode.operandCount) (written + [i].countP Instruction.writes) behind
      subst eq
      refine ⟨i :: is, w :: (i.parts ++ front), rest, by simp, .cons numbers spells,
        Instruction.sound_cons.2 ⟨refers, sound⟩, ?_⟩
      have length : position + (w :: (i.parts ++ front)).length =
          position + 1 + i.opcode.operandCount + front.length := by
        rw [List.length_cons, List.length_append, i.length_parts]
        omega
      rwa [length, Instruction.countP_writes_cons, ← Nat.add_assoc]
termination_by words.length

/-- A replay comes through instructions that refer to what is there. -/
theorem Reaches.through (few : replay.placeholderNames.length ≤ UInt64.size)
    {is : List (Instruction Word Word)} {front : List Word}
    (spells : replay.registry.Spells is front) (h : replay.Reaches words s (front ++ rest))
    (sound : Instruction.Sound replay.placeholderNames.length s.memory.size is)
    (fits : s.memory.size + is.countP Instruction.writes ≤ UInt64.size) :
    ∃ s', replay.Reaches words s' rest ∧ s'.position = s.position + front.length ∧
      s'.memory.size = s.memory.size + is.countP Instruction.writes := by
  -- the size of the memory is the number of slots written, which is what `Sound` counts
  induction spells generalizing s with
  | nil => exact ⟨s, h, rfl, rfl⟩
  | @cons i is w front numbers _ ih =>
    obtain ⟨refers, later⟩ := Instruction.sound_cons.1 sound
    rw [Instruction.countP_writes_cons, ← Nat.add_assoc] at fits ⊢
    obtain ⟨after, said, performed⟩ :=
      step_eq_ok few (by omega) s.position refers
    have size := (wrote_of_step performed).size_eq
    rw [List.cons_append, List.append_assoc] at h
    rw [← size] at later fits ⊢
    obtain ⟨s', reaches, position, written⟩ := ih (.step h numbers performed) later fits
    refine ⟨s', reaches, ?_, written⟩
    rw [position, List.length_cons, List.length_append, i.length_parts]
    simp only
    omega

/-- An instruction that is at fault ends the replay. -/
theorem resume_of_offends (few : replay.placeholderNames.length ≤ UInt64.size)
    (fits : s.memory.size ≤ UInt64.size)
    (h : replay.Offends s.position s.memory.size rest e) : replay.resume s rest = .error e := by
  cases h with
  | @unknown w rest unknown =>
    have missing : replay.opcode? w = none :=
      Option.eq_none_iff_forall_not_mem.2 fun op is => unknown op (opcode?_eq_some_iff.1 is)
    rw [resume, runFrom, missing]
  | incomplete numbers short =>
    rw [resume, runFrom, opcode?_eq_some_iff.2 numbers]
    simp only
    split
    · rfl
    · rename_i found
      rw [Instruction.take?_eq_none_iff.2 short] at found
      cases found
  | faulty numbers faults =>
    rw [resume, runFrom_cons _ numbers, step_eq_error few fits faults]

section

variable (short : words.length ≤ UInt64.size) (few : replay.placeholderNames.length ≤ UInt64.size)

include short few

/-- A replay comes through instructions that are sound from the start. -/
theorem exists_reaches {is : List (Instruction Word Word)} {front : List Word}
    (eq : words = front ++ rest) (spells : replay.registry.Spells is front)
    (sound : Instruction.Sound replay.placeholderNames.length 0 is) :
    ∃ s, replay.Reaches words s rest ∧ s.position = front.length ∧
      s.memory.size = is.countP Instruction.writes ∧ s.memory.size ≤ UInt64.size := by
  have fits : is.countP Instruction.writes ≤ UInt64.size := by
    have writing : is.countP Instruction.writes ≤ is.length := List.countP_le_length
    have length := congrArg List.length eq
    rw [List.length_append] at length
    have := spells.length_le
    omega
  have begun : replay.Reaches words ⟨0, #[], []⟩ (front ++ rest) := eq ▸ .start
  obtain ⟨s, reaches, position, size⟩ :=
    begun.through few spells sound (Nat.le_trans (Nat.le_of_eq (Nat.zero_add _)) fits)
  simp only [Array.size_empty, Nat.zero_add] at position size
  exact ⟨s, reaches, position, size, size ▸ fits⟩

/-- A replay of sound instructions ends in a text. -/
theorem run_eq_ok {is : List (Instruction Word Word)} (spells : replay.registry.Spells is words)
    (sound : Instruction.Sound replay.placeholderNames.length 0 is) :
    ∃ text, replay.run words = .ok text := by
  obtain ⟨s, reaches, -⟩ := exists_reaches short few (List.append_nil words).symm spells sound
  refine ⟨String.ofList s.text, ?_⟩
  rw [reaches.run_eq, resume, runFrom]
  rfl

/-- A replay that comes to something offensive ends there, with its error. -/
theorem run_eq_error {is : List (Instruction Word Word)} {front : List Word}
    (eq : words = front ++ rest) (spells : replay.registry.Spells is front)
    (sound : Instruction.Sound replay.placeholderNames.length 0 is)
    (offends : replay.Offends front.length (is.countP Instruction.writes) rest e) :
    replay.run words = .error e := by
  obtain ⟨s, reaches, position, size, fits⟩ := exists_reaches short few eq spells sound
  rw [← position, ← size] at offends
  rw [reaches.run_eq, resume_of_offends few fits offends]
  rfl

end

/-- A replay accepts the streams that are complete instructions which refer to placeholders that
have a name and to slots that are written before.  What it refuses, it refuses for the first
instruction at fault.  And wherever it performs an instruction, what it looks at is written: the
slots of the operands, and those that it comes to from the origin of a stored value.  (No other slot
has a part in what the instruction says.)  The lists are such as can be counted in 64 bits. -/
theorem run_eq_ok_iff_spells (replay : Replay) (words : List Word)
    (short : words.length ≤ UInt64.size)
    (few : replay.placeholderNames.length ≤ UInt64.size) :
    ((∃ text, replay.run words = .ok text) ↔
      ∃ is, replay.registry.Spells is words ∧
        Instruction.Sound replay.placeholderNames.length 0 is) ∧
    (∀ e, replay.run words = .error e ↔
      ∃ is front rest, words = front ++ rest ∧ replay.registry.Spells is front ∧
        Instruction.Sound replay.placeholderNames.length 0 is ∧
        replay.Offends front.length (is.countP Instruction.writes) rest e) ∧
    ∀ (s : Stage) (w : Word) (i : Instruction Word Word) (rest : List Word) (after : Memory)
      (said : Option (List Char)), replay.Reaches words s (w :: (i.parts ++ rest)) →
      replay.registry.Numbers w i.opcode →
      replay.step s.position s.memory i = .ok (after, said) →
        (∀ k ∈ i.looksAt s.memory, k < s.memory.size) ∧
        ∀ other : Memory, (∀ k ∈ i.looksAt s.memory, other[k]? = s.memory[k]?) →
          (replay.step s.position other i).map Prod.snd = .ok said := by
  -- either way is decided by how far the words are sound instructions
  obtain ⟨is, front, rest, eq, spells, sound, ends⟩ := replay.exists_spells 0 0 words
  rw [Nat.zero_add, Nat.zero_add] at ends
  refine ⟨⟨?_, ?_⟩, fun e => ⟨?_, ?_⟩, ?_⟩
  · rintro ⟨text, accepted⟩
    rcases ends with rfl | ⟨e, offends⟩
    · rw [List.append_nil] at eq
      exact ⟨is, eq ▸ spells, sound⟩
    · rw [run_eq_error short few eq spells sound offends] at accepted
      cases accepted
  · rintro ⟨is, spells, sound⟩
    exact run_eq_ok short few spells sound
  · intro refused
    rcases ends with rfl | ⟨e', offends⟩
    · rw [List.append_nil] at eq
      obtain ⟨text, accepted⟩ := run_eq_ok short few (eq ▸ spells) sound
      rw [accepted] at refused
      cases refused
    · rw [run_eq_error short few eq spells sound offends] at refused
      cases refused
      exact ⟨is, front, rest, eq, spells, sound, offends⟩
  · rintro ⟨is, front, rest, eq, spells, sound, offends⟩
    exact run_eq_error short few eq spells sound offends
  · intro s w i rest after said reaches numbers performed
    exact ⟨reaches.lt_size performed, fun other same => said_congr performed same⟩

/-- An update of a mapped tracker is accepted, and the store comes to all three slots written before
it; with another slot for the value, which is not yet written, it is refused. -/
theorem run_eq_ok_iff_spells_update :
    let replay : Replay := ⟨.current, ["TR:m"], [], .empty⟩
    let front : List Word := [0, 5, 4, 0, 0, 5, 1, 0]
    (front ++ [18, 0, 2, 0]).length ≤ UInt64.size ∧
      replay.placeholderNames.length ≤ UInt64.size ∧
      (∃ text, replay.run (front ++ [18, 0, 2, 0]) = .ok text) ∧
      (∃ s, replay.Reaches (front ++ [18, 0, 2, 0]) s [18, 0, 2, 0] ∧
        (Instruction.storeMapped 0 2 0).looksAt s.memory = [2, 0, 1, 0] ∧
        ∀ k ∈ [2, 0, 1, 0], k < s.memory.size) ∧
      replay.run (front ++ [18, 0, 3, 0]) = .error (.invalidSlot 3 8) := by
  intro replay front
  have spells : ∀ {is words}, replay.registry.Spells is words → replay.registry.Spells
      (.literal 5 :: .readMapped 0 0 :: .compute (.arith .add) 1 0 :: is) (front ++ words) := by
    intro is words behind
    exact .cons (i := .literal 5) ⟨0, rfl, rfl⟩ (.cons (i := .readMapped 0 0) ⟨4, rfl, rfl⟩
      (.cons (i := .compute (.arith .add) 1 0) ⟨5, rfl, rfl⟩ behind))
  have storeNumbers : replay.registry.Numbers 18 .storeMapped := ⟨18, rfl, rfl⟩
  refine ⟨by decide, by decide, ?_, ?_, ?_⟩
  · exact (run_eq_ok_iff_spells replay (front ++ [18, 0, 2, 0]) (by decide) (by decide)).1.2
      ⟨_, spells (.cons (i := .storeMapped 0 2 0) storeNumbers .nil), by decide +kernel⟩
  · -- the replay up to the store, step by step
    have begun : replay.Reaches (front ++ [18, 0, 2, 0]) ⟨0, #[], []⟩ (front ++ [18, 0, 2, 0]) :=
      .start
    have key := begun.step (i := .literal 5) ⟨0, rfl, rfl⟩ rfl
    have sum := key.step (i := .readMapped 0 0) ⟨4, rfl, rfl⟩ rfl
    have store := sum.step (i := .compute (.arith .add) 1 0) ⟨5, rfl, rfl⟩ rfl
    obtain ⟨written, -⟩ := (run_eq_ok_iff_spells replay (front ++ [18, 0, 2, 0]) (by decide)
      (by decide)).2.2 _ 18 (.storeMapped 0 2 0) [] _ _ store storeNumbers rfl
    exact ⟨_, store, rfl, written⟩
  · have unwritten : (Instruction.storeMapped 0 3 0).Faults 1 3 8 (.invalidSlot 3 8) :=
      @Instruction.Faults.unwritten _ _ _ _ [] [0] 3 (List.forall_mem_nil _) rfl
        (List.forall_mem_nil _) (by decide +kernel)
    have offends : replay.Offends 8 3 [18, 0, 3, 0] (.invalidSlot 3 8) :=
      @Offends.faulty replay 8 3 18 (.storeMapped 0 3 0) [] _ storeNumbers unwritten
    exact ((run_eq_ok_iff_spells replay (front ++ [18, 0, 3, 0]) (by decide) (by decide)).2.1 _).2
      ⟨_, front, [18, 0, 3, 0], rfl, spells .nil, by decide +kernel, offends⟩

end Replay

end RuleCodec
