/-
RuleCodec/Proofs/Widths.lean

How wide the words are that a replay looks things up with.

Opcodes, slots and placeholders are looked up with a whole word: one of 2⁶⁴ or
more is found nowhere and ends the replay.  A tracker is looked up with the low
64 bits of its word.  So the name that an update is shown under is that of the
word's residue, and of the word itself only if that is below 2⁶⁴.

Design.  Names of trackers have no part in whether a replay goes on, so they
are seen only in what a store says.  `Replay.ShowsName` holds of a key if
another name for it would be seen there.
-/
import Mathlib.Algebra.Ring.Nat
import RuleCodec.Proofs.Acceptance

namespace RuleCodec

/-! ### Wide words -/

theorem Word.toNat_low64 (w : Word) : w.low64.toNat = w.toNat % 2 ^ 64 :=
  UInt64.toNat_ofNat'

/-- A word of 2⁶⁴ or more is no index. -/
theorem Word.index?_of_wide {w : Word} (wide : 2 ^ 64 ≤ w.toNat) : w.index? = none := by
  have large : ¬ w.toNat < UInt64.size := Nat.not_lt.2 wide
  rw [index?, if_neg large]

namespace Replay

variable {replay : Replay} {words rest : List Word} {s : Stage} {i : Instruction Word Word}

/-- It is no opcode either. -/
theorem opcode?_of_wide (replay : Replay) {w : Word} (wide : 2 ^ 64 ≤ w.toNat) :
    replay.opcode? w = none := by
  rw [opcode?, Word.index?_of_wide wide, Option.bind_none]

theorem placeholder_of_wide (replay : Replay) {w : Word} (wide : 2 ^ 64 ≤ w.toNat) :
    replay.placeholder w = .error (.missingPlaceholderName w.low64) := by
  rw [placeholder, Word.index?_of_wide wide, Option.bind_none]

theorem slot_of_wide (memory : Memory) (position : Nat) {w : Word} (wide : 2 ^ 64 ≤ w.toNat) :
    memory.slot position w = .error (.invalidSlot w.low64 position) := by
  rw [Memory.slot, Word.index?_of_wide wide, Option.bind_none]

/-- An instruction that is performed refers to nothing with a wide word. -/
theorem lt_of_step {position : Nat} {memory after : Memory} {said : Option (List Char)}
    (h : replay.step position memory i = .ok (after, said)) :
    ∀ w ∈ i.placeholders ++ i.slots, w.toNat < 2 ^ 64 := by
  -- a step that succeeds has found all that it looks up
  have run := replay.step_map position memory i
  rw [h] at run
  obtain ⟨names, named, run⟩ := bind_eq_ok.1 run.symm
  obtain ⟨slots, written, -⟩ := bind_eq_ok.1 run
  intro w mem
  by_contra wide
  rw [Nat.not_lt] at wide
  rcases List.mem_append.1 mem with mem | mem
  · obtain ⟨found, -, is⟩ := exists_left_of_forall₂ (mapM_eq_ok_iff.1 named).flip mem
    rw [placeholder_of_wide replay wide] at is
    cases is
  · obtain ⟨found, -, is⟩ := exists_left_of_forall₂ (mapM_eq_ok_iff.1 written).flip mem
    rw [slot_of_wide memory position wide] at is
    cases is

/-- A replay that comes to its end performs the instruction it comes to. -/
theorem Reaches.performed {w : Word} {text : String}
    (h : replay.Reaches words s (w :: (i.parts ++ rest)))
    (numbers : replay.registry.Numbers w i.opcode) (accepted : replay.run words = .ok text) :
    ∃ after said, replay.step s.position s.memory i = .ok (after, said) := by
  rcases performed : replay.step s.position s.memory i with e | ⟨after, said⟩
  · rw [h.run_eq, resume, runFrom_cons _ numbers, performed] at accepted
    cases accepted
  · exact ⟨after, said, rfl⟩

/-- And so it comes through all instructions on the way. -/
theorem Reaches.along {is : List (Instruction Word Word)} {front : List Word} {text : String}
    (spells : replay.registry.Spells is front) (h : replay.Reaches words s (front ++ rest))
    (accepted : replay.run words = .ok text) : ∃ s', replay.Reaches words s' rest := by
  induction spells generalizing s with
  | nil => exact ⟨s, h⟩
  | cons numbers _ ih =>
    rw [List.cons_append, List.append_assoc] at h
    obtain ⟨after, said, performed⟩ := h.performed numbers accepted
    exact ih (.step h numbers performed)

/-- A replay that gives no text gives an error. -/
theorem run_eq_error_of_not_ok (h : ∀ text, replay.run words ≠ .ok text) :
    ∃ e, replay.run words = .error e := by
  cases accepted : replay.run words with
  | error e => exact ⟨e, rfl⟩
  | ok text => exact absurd accepted (h text)

/-- No opcode has a wide number. -/
theorem run_eq_error_of_opcode {is : List (Instruction Word Word)} {front : List Word} {w : Word}
    (eq : words = front ++ w :: rest) (spells : replay.registry.Spells is front)
    (wide : 2 ^ 64 ≤ w.toNat) : ∃ e, replay.run words = .error e := by
  apply run_eq_error_of_not_ok
  intro text accepted
  have begun : replay.Reaches words ⟨0, #[], []⟩ (front ++ w :: rest) := eq ▸ .start
  obtain ⟨s, reaches⟩ := begun.along spells accepted
  rw [reaches.run_eq, resume, runFrom, opcode?_of_wide replay wide] at accepted
  cases accepted

/-- No slot and no placeholder has one. -/
theorem run_eq_error_of_operand {is : List (Instruction Word Word)} {front : List Word}
    {w operand : Word} (eq : words = front ++ w :: (i.parts ++ rest))
    (spells : replay.registry.Spells is front) (numbers : replay.registry.Numbers w i.opcode)
    (mem : operand ∈ i.placeholders ++ i.slots) (wide : 2 ^ 64 ≤ operand.toNat) :
    ∃ e, replay.run words = .error e := by
  apply run_eq_error_of_not_ok
  intro text accepted
  have begun : replay.Reaches words ⟨0, #[], []⟩ (front ++ w :: (i.parts ++ rest)) := eq ▸ .start
  obtain ⟨s, reaches⟩ := begun.along spells accepted
  obtain ⟨after, said, performed⟩ := reaches.performed numbers accepted
  exact absurd (lt_of_step performed operand mem) (Nat.not_lt.2 wide)

end Replay

/-! ### Names of trackers -/

/-- The tracker that an instruction stores to, if it stores. -/
def Instruction.tracker? {Literal Ref : Type} : Instruction Literal Ref → Option Ref
  | store tracker _ _ => some tracker
  | storeMapped tracker _ _ => some tracker
  | _ => none

namespace Replay

/-- The replay with another name for the tracker at a key. -/
def renamed (replay : Replay) (key : UInt64) (name : String) : Replay :=
  { replay with trackerNames := replay.trackerNames.insert key name }

/-- What an instruction says shows the name of the tracker at a key: there is one, and with another
name in its place the instruction would say something else. -/
def ShowsName (replay : Replay) (position : Nat) (memory : Memory) (i : Instruction Word Word)
    (key : UInt64) : Prop :=
  (∃ name, replay.trackerNames.get? key = some name) ∧
    ∃ name, ((replay.renamed key name).step position memory i).map Prod.snd ≠
      (replay.step position memory i).map Prod.snd

variable {replay : Replay} {position : Nat} {memory after : Memory} {i : Instruction Word Word}
  {said : Option (List Char)} {tracker : Word} {key : UInt64}

/-- An update whose tracker has a name is shown under it. -/
theorem updateText?_of_name {name : String}
    (h : replay.trackerNames.get? tracker.low64 = some name) (memory : Memory) (value : Fragment)
    (index : Option (Nat × Fragment)) :
    ∃ tail, replay.updateText? memory tracker value index =
      some ("TRU:".toList ++ (name.toList ++ tail)) := by
  simp only [updateText?, trackerName?, h, List.append_assoc]
  split
  · exact ⟨_, rfl⟩
  · split
    · split
      · exact ⟨_, rfl⟩
      · exact ⟨_, rfl⟩
    · exact ⟨_, rfl⟩

/-- The name at another key has no part in it. -/
theorem updateText?_renamed (other : key ≠ tracker.low64) (name : String) (memory : Memory)
    (value : Fragment) (index : Option (Nat × Fragment)) :
    (replay.renamed key name).updateText? memory tracker value index =
      replay.updateText? memory tracker value index := by
  have same : (replay.renamed key name).trackerNames.get? tracker.low64 =
      replay.trackerNames.get? tracker.low64 := Table.get?_insert_of_ne _ name other
  simp only [updateText?, trackerName?, same]
  rfl

/-- What a store says, under whatever names. -/
theorem step_store (stores : i.tracker? = some tracker)
    (h : replay.step position memory i = .ok (after, said)) :
    ∃ value index, said = replay.updateText? memory tracker value index ∧
      ∀ key name, ((replay.renamed key name).step position memory i).map Prod.snd =
        .ok ((replay.renamed key name).updateText? memory tracker value index) := by
  -- names are read only to say the update, so the lookups stay as they are
  cases i with
  | store x value spare =>
    cases stores
    obtain ⟨⟨k, f⟩, found, h⟩ := bind_eq_ok.1 h
    cases h
    refine ⟨f, none, rfl, fun key name => ?_⟩
    rw [step, found]
    rfl
  | storeMapped x value slot =>
    cases stores
    obtain ⟨⟨k, f⟩, found, h⟩ := bind_eq_ok.1 h
    obtain ⟨index, foundKey, h⟩ := bind_eq_ok.1 h
    cases h
    refine ⟨f, some index, rfl, fun key name => ?_⟩
    rw [step, found]
    simp only [bind, Except.bind, foundKey]
    rfl
  | _ => cases stores

/-- A name has a part in what an instruction does only at the residue of a word that is stored
to. -/
theorem step_renamed (replay : Replay) (position : Nat) (memory : Memory) (name : String)
    (apart : ∀ tracker, i.tracker? = some tracker → key.toNat ≠ tracker.toNat % 2 ^ 64) :
    (replay.renamed key name).step position memory i = replay.step position memory i := by
  have other : ∀ tracker, i.tracker? = some tracker → key ≠ tracker.low64 := by
    intro tracker stores eq
    exact apart tracker stores (by rw [eq, Word.toNat_low64])
  cases i with
  | store tracker value spare =>
    simp only [step, updateText?_renamed (other tracker rfl)]
  | storeMapped tracker value slot =>
    simp only [step, updateText?_renamed (other tracker rfl)]
  | _ => rfl

/-- Nor has it anywhere else in a replay. -/
theorem runFrom_renamed {is : List (Instruction Word Word)} {words : List Word}
    (spells : replay.registry.Spells is words) (name : String)
    (apart : ∀ i ∈ is, ∀ tracker, i.tracker? = some tracker →
      key.toNat ≠ tracker.toNat % 2 ^ 64) (position : Nat) (memory : Memory) (text : List Char) :
    (replay.renamed key name).runFrom position memory text words =
      replay.runFrom position memory text words := by
  induction spells generalizing position memory text with
  | nil => rw [runFrom, runFrom]
  | @cons i is w words numbers _ ih =>
    obtain ⟨here, later⟩ := List.forall_mem_cons.1 apart
    have numbers' : (replay.renamed key name).registry.Numbers w i.opcode := numbers
    rw [runFrom_cons _ numbers, runFrom_cons _ numbers',
      step_renamed replay position memory name here]
    cases replay.step position memory i with
    | error e => rfl
    | ok result => exact ih later _ _ _

/-- A name is shown where its key is the residue of the word that is stored to. -/
theorem showsName_iff (h : replay.step position memory i = .ok (after, said)) :
    replay.ShowsName position memory i key ↔
      (∃ name, replay.trackerNames.get? key = some name) ∧
        ∃ tracker, i.tracker? = some tracker ∧ key.toNat = tracker.toNat % 2 ^ 64 := by
  refine and_congr_right fun _ => ?_
  constructor
  · rintro ⟨name, differs⟩
    by_contra none
    apply differs
    rw [step_renamed replay position memory name]
    intro tracker stores eq
    exact none ⟨tracker, stores, eq⟩
  · rintro ⟨tracker, stores, eq⟩
    rw [← Word.toNat_low64] at eq
    cases UInt64.toNat_inj.1 eq
    obtain ⟨value, index, rfl, under⟩ := step_store stores h
    -- a name that is longer than all that is said now
    obtain ⟨now, is⟩ : ∃ now, replay.updateText? memory tracker value index = now := ⟨_, rfl⟩
    obtain ⟨long, longer⟩ : ∃ long : String, (now.getD []).length < long.toList.length :=
      ⟨String.ofList (List.replicate ((now.getD []).length + 1) 'x'), by simp⟩
    have named : (replay.renamed tracker.low64 long).trackerNames.get? tracker.low64 = some long :=
      Table.get?_insert_self _ _ _
    obtain ⟨tail, text⟩ := updateText?_of_name named memory value index
    refine ⟨long, fun same => ?_⟩
    rw [under, h, text, is] at same
    cases same
    rw [Option.getD_some, List.length_append, List.length_append] at longer
    omega

/-- **Opcodes, slots and placeholders are looked up with whole words, trackers with the low half of
theirs.**  Behind complete instructions, a wide word in place of an opcode ends the replay with an
error, and so does an instruction that refers to a slot or a placeholder with a wide word.  In what
a store says, the name of a tracker is seen exactly if its key is the residue of the word that is
stored to; for a word below 2⁶⁴ that is the word itself.  A name that is not at such a residue has
no part in the text of the stream. -/
theorem run_eq_error_of_wide_and_showsName_iff (replay : Replay) (words : List Word) :
    (∀ is front w rest, words = front ++ w :: rest → replay.registry.Spells is front →
      2 ^ 64 ≤ w.toNat → ∃ e, replay.run words = .error e) ∧
    (∀ is front w i rest, words = front ++ w :: (Instruction.parts i ++ rest) →
      replay.registry.Spells is front → replay.registry.Numbers w i.opcode →
      (∃ operand ∈ i.placeholders ++ i.slots, 2 ^ 64 ≤ operand.toNat) →
        ∃ e, replay.run words = .error e) ∧
    (∀ position memory i after said, replay.step position memory i = .ok (after, said) →
      ∀ tracker, i.tracker? = some tracker → ∀ key,
        (replay.ShowsName position memory i key ↔
          (∃ name, replay.trackerNames.get? key = some name) ∧
            key.toNat = tracker.toNat % 2 ^ 64) ∧
        (replay.ShowsName position memory i key → tracker.toNat < 2 ^ 64 →
          key.toNat = tracker.toNat) ∧
        ∀ name, replay.trackerNames.get? key = some name →
          replay.ShowsName position memory i key →
            ∃ tail, said = some ("TRU:".toList ++ (name.toList ++ tail))) ∧
    ∀ is, replay.registry.Spells is words → ∀ key,
      (∀ i ∈ is, ∀ tracker, i.tracker? = some tracker → key.toNat ≠ tracker.toNat % 2 ^ 64) →
        ∀ name, (replay.renamed key name).run words = replay.run words := by
  refine ⟨?_, ?_, ?_, ?_⟩
  · intro is front w rest eq spells wide
    exact run_eq_error_of_opcode eq spells wide
  · rintro is front w i rest eq spells numbers ⟨operand, mem, wide⟩
    exact run_eq_error_of_operand eq spells numbers mem wide
  · intro position memory i after said performed tracker stores key
    have iff : replay.ShowsName position memory i key ↔
        (∃ name, replay.trackerNames.get? key = some name) ∧
          key.toNat = tracker.toNat % 2 ^ 64 := by
      rw [showsName_iff performed, stores]
      simp
    refine ⟨iff, ?_, ?_⟩
    · intro shows narrow
      rw [(iff.1 shows).2, Nat.mod_eq_of_lt narrow]
    · intro name found shows
      -- the name is looked up by the low 64 bits of the tracker
      have eq := (iff.1 shows).2
      rw [← Word.toNat_low64] at eq
      cases UInt64.toNat_inj.1 eq
      obtain ⟨value, index, rfl, -⟩ := step_store stores performed
      exact updateText?_of_name found memory value index
  · intro is spells key apart name
    rw [run, run, runFrom_renamed spells name apart]

/-- A store of 5 to the tracker 3, with a wide opcode, with a wide slot, and as it should be. -/
theorem run_eq_error_of_wide_and_showsName_iff_total :
    let replay : Replay := ⟨.current, [], [], Table.empty.insert 3 "total"⟩
    (∃ e, replay.run ([0, 5] ++ [.ofNat 256 (2 ^ 64 + 17), 3, 0, 0]) = .error e) ∧
    (∃ e, replay.run ([0, 5] ++ [17, 3, .ofNat 256 (2 ^ 64), 0]) = .error e) ∧
    replay.ShowsName 2 #[⟨['5'], .other⟩] (.store 3 0 0) 3 ∧
    (replay.renamed 4 "spent").run ([0, 5] ++ [17, 3, 0, 0]) =
      replay.run ([0, 5] ++ [17, 3, 0, 0]) := by
  intro replay
  have spells : ∀ {is words}, replay.registry.Spells is words →
      replay.registry.Spells (.literal 5 :: is) ([0, 5] ++ words) := by
    intro is words behind
    exact .cons (i := .literal 5) ⟨0, rfl, rfl⟩ behind
  have stores : replay.registry.Numbers 17 .store := ⟨17, rfl, rfl⟩
  refine ⟨?_, ?_, ?_, ?_⟩
  · exact (run_eq_error_of_wide_and_showsName_iff replay _).1 _ [0, 5] _ _ rfl (spells .nil)
      (by decide +kernel)
  · exact (run_eq_error_of_wide_and_showsName_iff replay _).2.1 _ [0, 5] 17
      (.store 3 (.ofNat 256 (2 ^ 64)) 0) [] rfl (spells .nil) stores
      ⟨.ofNat 256 (2 ^ 64), List.mem_singleton_self _, by decide +kernel⟩
  · exact ((run_eq_error_of_wide_and_showsName_iff replay []).2.2.1 2 #[⟨['5'], .other⟩]
      (.store 3 0 0) _ _ rfl 3 rfl 3).1.2 ⟨⟨"total", by decide +kernel⟩, by decide⟩
  · refine (run_eq_error_of_wide_and_showsName_iff replay _).2.2.2 _
      (spells (.cons (i := .store 3 0 0) stores .nil)) 4 ?_ "spent"
    intro i mem tracker is
    rw [List.mem_cons, List.mem_singleton] at mem
    rcases mem with rfl | rfl
    · cases is
    · cases is
      decide

/-- A word that is three more than 2⁶⁴ is taken for the tracker 3. -/
theorem run_wide_tracker :
    let replay : Replay := ⟨.current, [], [], Table.empty.insert 3 "total"⟩
    let tracker : Word := .ofNat 256 (2 ^ 64 + 3)
    replay.run [0, 5, 17, tracker, 0, 0] = .ok "TRU:total = 5" ∧
      replay.ShowsName 2 #[⟨['5'], .other⟩] (.store tracker 0 0) 3 ∧
      (3 : UInt64).toNat ≠ tracker.toNat := by
  intro replay tracker
  refine ⟨by decide +kernel, ?_, by decide +kernel⟩
  have performed : ∃ after said,
      replay.step 2 #[⟨['5'], .other⟩] (.store tracker 0 0) = .ok (after, said) := ⟨_, _, rfl⟩
  obtain ⟨after, said, performed⟩ := performed
  exact (showsName_iff performed).2 ⟨⟨"total", by decide +kernel⟩, _, rfl, by decide +kernel⟩

end Replay

end RuleCodec
