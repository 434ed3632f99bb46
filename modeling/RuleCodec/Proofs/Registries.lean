/-
RuleCodec/Proofs/Registries.lean

Registries and their tables.

A table of spellings and numbers makes a registry by entering one opcode after
the other.  Each step looks only at the numbers that are taken so far
(`Registry.insert_eq_ok_iff`), and that is enough: as the spellings of a table
differ, no entry ever replaces an earlier one, and the registry has the entries
of the table in the order of the table (`Registry.ofTable_eq_ok_iff`).  Hence
the tables that make registries are those whose spellings all name opcodes and
whose numbers all differ, and a registry is made again from its own table
(`Registry.ofTable_exact`).
-/
import Mathlib.Data.List.Nodup
import Mathlib.Data.Prod.Basic
import RuleCodec.Proofs.Acceptance
import RuleCodec.Proofs.Literals

namespace RuleCodec

/-! ### Spellings of opcodes -/

namespace Opcode

/-- Every opcode is listed. -/
theorem mem_all (op : Opcode) : op ∈ all := by
  cases op with
  | compute op =>
    cases op with
    | arith a => cases a <;> decide
    | _ => decide
  | _ => decide

/-- Opcodes are told apart by their spellings. -/
theorem symbol_injective : Function.Injective symbol := by
  have apart : ∀ op ∈ all, ∀ op' ∈ all, op.symbol = op'.symbol → op = op' := by
    decide +kernel
  intro op op' same
  exact apart op (mem_all op) op' (mem_all op') same

theorem symbol_of_ofSymbol? {text : String} {op : Opcode} (h : ofSymbol? text = some op) :
    op.symbol = text := by
  have is := List.find?_some h
  exact beq_iff_eq.1 is

/-- A text is an opcode exactly if it is its spelling. -/
theorem ofSymbol?_eq_some_iff {text : String} {op : Opcode} :
    ofSymbol? text = some op ↔ op.symbol = text := by
  constructor
  · exact symbol_of_ofSymbol?
  · rintro rfl
    -- some opcode with the spelling is found, and there is no other
    cases found : ofSymbol? op.symbol with
    | none => exact absurd (beq_self_eq_true _) (List.find?_eq_none.1 found op (mem_all op))
    | some op' => rw [symbol_injective (symbol_of_ofSymbol? found)]

end Opcode

/-! ### Tables of entries -/

namespace Table

variable {κ α : Type}

/-- A table is its list of entries. -/
theorem ext_entries {t u : Table κ α} (same : t.entries = u.entries) : t = u := by
  obtain ⟨entries, _⟩ := t
  obtain ⟨entries', _⟩ := u
  cases same
  rfl

variable [DecidableEq κ]

/-- Entries whose keys are new, and differ, all go to the end. -/
theorem entries_foldl_insert {t : Table κ α} {added : List (κ × α)}
    (distinct : ((t.entries ++ added).map Prod.fst).Nodup) :
    (added.foldl (fun t entry => t.insert entry.1 entry.2) t).entries = t.entries ++ added := by
  induction added generalizing t with
  | nil => rw [List.foldl_nil, List.append_nil]
  | cons entry added ih =>
    have new : entry.1 ∉ t.keys := by
      rw [List.map_append, List.map_cons, List.nodup_append] at distinct
      exact fun mem => distinct.2.2 _ mem _ List.mem_cons_self rfl
    have next : (t.insert entry.1 entry.2).entries ++ added = t.entries ++ entry :: added := by
      rw [insert_entries_of_not_mem new, List.append_assoc, List.singleton_append]
    rw [List.foldl_cons, ih (by rw [next]; exact distinct), next]

/-- A list with distinct keys is the table. -/
theorem entries_ofList {entries : List (κ × α)} (distinct : (entries.map Prod.fst).Nodup) :
    (ofList entries).entries = entries :=
  entries_foldl_insert distinct

end Table

/-! ### The entries of a registry -/

namespace Registry

variable {r m : Registry}

/-- The spellings of a registry are those of its opcodes. -/
theorem map_fst_entries (r : Registry) :
    r.entries.map Prod.fst = r.codes.keys.map Opcode.symbol := by
  rw [entries, Table.keys, List.map_map, List.map_map]
  rfl

theorem map_snd_entries (r : Registry) : r.entries.map Prod.snd = r.codes.values := by
  rw [entries, List.map_map]
  rfl

/-- No opcode is listed twice. -/
theorem nodup_spellings (r : Registry) : (r.entries.map Prod.fst).Nodup := by
  rw [map_fst_entries]
  exact List.Nodup.map Opcode.symbol_injective r.codes.distinct

/-- No number is given twice. -/
theorem nodup_numbers (r : Registry) : (r.entries.map Prod.snd).Nodup := by
  rw [map_snd_entries]
  exact r.apart

/-- A registry is given by its entries. -/
theorem entries_injective : Function.Injective entries := by
  intro r m same
  have spelling : Function.Injective (Prod.map Opcode.symbol (id : UInt64 → UInt64)) :=
    Opcode.symbol_injective.prodMap Function.injective_id
  have codes : r.codes = m.codes := Table.ext_entries (List.map_injective_iff.2 spelling same)
  obtain ⟨codes, _⟩ := r
  obtain ⟨codes', _⟩ := m
  cases codes
  rfl

/-- A spelling is listed with a number exactly if its opcode has the number. -/
theorem mem_entries_iff {text : String} {code : UInt64} :
    (text, code) ∈ r.entries ↔ ∃ op : Opcode, op.symbol = text ∧ r.codes.get? op = some code := by
  constructor
  · intro mem
    obtain ⟨⟨op, code'⟩, entered, eq⟩ := List.mem_map.1 mem
    cases eq
    exact ⟨op, rfl, Table.get?_eq_some_iff.2 entered⟩
  · rintro ⟨op, rfl, found⟩
    exact List.mem_map.2 ⟨(op, code), Table.get?_eq_some_iff.1 found, rfl⟩

theorem symbol_mem_entries_iff {op : Opcode} {code : UInt64} :
    (op.symbol, code) ∈ r.entries ↔ r.codes.get? op = some code := by
  rw [mem_entries_iff]
  constructor
  · rintro ⟨op', same, found⟩
    rwa [← Opcode.symbol_injective same]
  · intro found
    exact ⟨op, rfl, found⟩

/-- A number stands for no opcode exactly if it was not given. -/
theorem opcode?_eq_none_iff {code : UInt64} : r.opcode? code = none ↔ code ∉ r.codes.values := by
  constructor
  · exact not_mem_values_of_holder?_eq_none
  · intro free
    cases held : r.opcode? code with
    | none => rfl
    | some op => exact absurd (List.mem_map.2 ⟨_, mem_of_holder? held, rfl⟩) free

/-! ### Entering -/

/-- An entry is accepted if its spelling names an opcode and its number is free. -/
theorem insert_eq_ok_iff {text : String} {code : UInt64} :
    r.insert text code = .ok m ↔
      ∃ op : Opcode, op.symbol = text ∧ code ∉ r.codes.values ∧
        m.codes = r.codes.insert op code := by
  unfold insert
  split
  · rename_i unknown
    constructor
    · intro h
      cases h
    · rintro ⟨op, named, -, -⟩
      rw [Opcode.ofSymbol?_eq_some_iff.2 named] at unknown
      cases unknown
  · rename_i op named
    rw [Opcode.ofSymbol?_eq_some_iff] at named
    split
    -- the number is held by some opcode already, be it this one
    · rename_i taken held
      constructor
      · intro h
        cases h
      · rintro ⟨-, -, free, -⟩
        rw [opcode?_eq_none_iff.2 free] at held
        cases held
    · rename_i free
      constructor
      · intro h
        cases h
        exact ⟨op, named, opcode?_eq_none_iff.1 free, rfl⟩
      · rintro ⟨op', named', -, eq⟩
        obtain ⟨codes, apart⟩ := m
        cases Opcode.symbol_injective (named.trans named'.symm)
        cases eq
        rfl

/-- A new spelling is entered at the end. -/
theorem entries_of_insert {text : String} {code : UInt64} (new : text ∉ r.entries.map Prod.fst)
    (h : r.insert text code = .ok m) : m.entries = r.entries ++ [(text, code)] := by
  obtain ⟨op, rfl, -, eq⟩ := insert_eq_ok_iff.1 h
  have absent : op ∉ r.codes.keys := by
    intro mem
    rw [map_fst_entries] at new
    exact new (List.mem_map_of_mem mem)
  rw [entries, eq, Table.insert_entries_of_not_mem absent, List.map_append, List.map_singleton]
  rfl

/-- Entering new spellings one after the other makes the registry that has them at its end, if
there is one. -/
theorem foldlM_insert_eq_ok_iff {added : List (String × UInt64)}
    (distinct : ((r.entries ++ added).map Prod.fst).Nodup) :
    added.foldlM (fun r entry => r.insert entry.1 entry.2) r = .ok m ↔
      m.entries = r.entries ++ added := by
  induction added generalizing r with
  | nil =>
    rw [List.foldlM_nil, List.append_nil]
    constructor
    · intro h
      cases h
      rfl
    · intro same
      rw [entries_injective same]
      rfl
  | cons entry added ih =>
    obtain ⟨text, code⟩ := entry
    have new : text ∉ r.entries.map Prod.fst := by
      rw [List.map_append, List.map_cons, List.nodup_append] at distinct
      exact fun mem => distinct.2.2 _ mem _ List.mem_cons_self rfl
    -- what is entered next stands at the end of what was there
    have next : ∀ {r' : Registry}, r.insert text code = .ok r' →
        r'.entries ++ added = r.entries ++ (text, code) :: added := by
      intro r' h
      rw [entries_of_insert new h, List.append_assoc, List.singleton_append]
    rw [List.foldlM_cons, bind_eq_ok]
    constructor
    · rintro ⟨r', first, rest⟩
      rw [← next first] at distinct ⊢
      exact (ih distinct).1 rest
    · intro eq
      have entered : (text, code) ∈ m.entries := by
        rw [eq]
        exact List.mem_append_right _ List.mem_cons_self
      have free : code ∉ r.codes.values := by
        have apart := m.nodup_numbers
        rw [eq, List.map_append, List.map_cons, map_snd_entries, List.nodup_append] at apart
        exact fun mem => apart.2.2 _ mem _ List.mem_cons_self rfl
      obtain ⟨op, named, -⟩ := mem_entries_iff.1 entered
      have first : r.insert text code =
          .ok ⟨r.codes.insert op code, nodup_values_set free r.apart⟩ :=
        insert_eq_ok_iff.2 ⟨op, named, free, rfl⟩
      refine ⟨_, first, ?_⟩
      rw [← next first] at distinct eq
      exact (ih distinct).2 eq

/-! ### Whole tables -/

/-- The registry of a table is the one with the entries of the table. -/
theorem ofTable_eq_ok_iff {table : Table String UInt64} :
    ofTable table = .ok r ↔ r.entries = table.entries :=
  foldlM_insert_eq_ok_iff table.distinct

/-- The table of a registry has its entries. -/
theorem entries_ofList_entries (r : Registry) : (Table.ofList r.entries).entries = r.entries :=
  Table.entries_ofList r.nodup_spellings

/-- There is a registry with given entries if the spellings name opcodes and all differ, as the
numbers do. -/
theorem exists_entries_eq {added : List (String × UInt64)}
    (named : ∀ text ∈ added.map Prod.fst, ∃ op : Opcode, op.symbol = text)
    (distinct : (added.map Prod.fst).Nodup) (apart : (added.map Prod.snd).Nodup) :
    ∃ r : Registry, r.entries = added := by
  have spelled : ∃ codes : List (Opcode × UInt64),
      codes.map (fun entry => (entry.1.symbol, entry.2)) = added := by
    clear distinct apart
    induction added with
    | nil => exact ⟨[], rfl⟩
    | cons entry added ih =>
      obtain ⟨⟨op, is⟩, others⟩ := List.forall_mem_cons.1 named
      obtain ⟨codes, rfl⟩ := ih others
      refine ⟨(op, entry.2) :: codes, ?_⟩
      rw [List.map_cons, is]
  obtain ⟨codes, rfl⟩ := spelled
  rw [List.map_map] at distinct apart
  -- opcodes with different spellings are different
  have keys : (codes.map Prod.fst).Nodup := by
    apply List.Nodup.of_map Opcode.symbol
    rw [List.map_map]
    exact distinct
  exact ⟨⟨⟨codes, keys⟩, apart⟩, rfl⟩

/-- The tables that make a registry. -/
theorem exists_ofTable_iff {table : Table String UInt64} :
    (∃ r, ofTable table = .ok r) ↔
      (∀ text ∈ table.keys, ∃ op : Opcode, op.symbol = text) ∧ table.values.Nodup := by
  simp only [ofTable_eq_ok_iff]
  constructor
  · rintro ⟨r, eq⟩
    constructor
    · intro text mem
      obtain ⟨⟨text, code⟩, entered, rfl⟩ := List.mem_map.1 mem
      rw [← eq] at entered
      obtain ⟨op, named, -⟩ := mem_entries_iff.1 entered
      exact ⟨op, named⟩
    · rw [Table.values, ← eq]
      exact r.nodup_numbers
  · rintro ⟨named, apart⟩
    exact exists_entries_eq named table.distinct apart

/-- **A registry and its table say the same.**  A table makes a registry exactly if its spellings
name opcodes and no two of its entries have one number; the registry has the entries of the table,
in their order, and each of its two look-ups finds an opcode and its number exactly where an entry
has both.  In every registry, so also in the current and in the legacy one, the two look-ups are
inverse to each other, and the registry is made again from its table. -/
theorem ofTable_exact (table : Table String UInt64) :
    ((∃ r, ofTable table = .ok r) ↔
      (∀ text ∈ table.keys, ∃ op : Opcode, op.symbol = text) ∧ table.values.Nodup) ∧
    (∀ r, ofTable table = .ok r →
      Table.ofList r.entries = table ∧
      ∀ op code, (r.code op = .ok code ↔ (op.symbol, code) ∈ table.entries) ∧
        (r.opcode? code = some op ↔ (op.symbol, code) ∈ table.entries)) ∧
    ∀ r : Registry, (∀ op code, r.code op = .ok code ↔ r.opcode? code = some op) ∧
      ofTable (Table.ofList r.entries) = .ok r := by
  refine ⟨exists_ofTable_iff, fun r made => ?_, fun r => ⟨fun op code => ?_, ?_⟩⟩
  · rw [ofTable_eq_ok_iff] at made
    refine ⟨Table.ext_entries (r.entries_ofList_entries.trans made), fun op code => ⟨?_, ?_⟩⟩
    · rw [code_eq_ok_iff, ← made, symbol_mem_entries_iff]
    · rw [opcode?_eq_some_iff, ← made, symbol_mem_entries_iff]
  · rw [code_eq_ok_iff, opcode?_eq_some_iff]
  · exact ofTable_eq_ok_iff.2 r.entries_ofList_entries.symm

/-- Three opcodes, out of the order of their numbers, one of them with the largest. -/
theorem ofTable_exact_three :
    ∃ (table : Table String UInt64) (r : Registry),
      table.entries = [("TRUM", 9), ("!=", 18446744073709551615), ("N", 0)] ∧
      ofTable table = .ok r ∧ Table.ofList r.entries = table ∧
      r.code (.compute .notEqual) = .ok 18446744073709551615 ∧
      r.opcode? 18446744073709551615 = some (.compute .notEqual) := by
  let table : Table String UInt64 :=
    ⟨[("TRUM", 9), ("!=", 18446744073709551615), ("N", 0)], by decide⟩
  obtain ⟨r, made⟩ : ∃ r, ofTable table = .ok r := by
    refine (ofTable_exact table).1.2 ⟨?_, by decide⟩
    intro text mem
    have spelled : text = "TRUM" ∨ text = "!=" ∨ text = "N" := by
      simpa [table, Table.keys] using mem
    rcases spelled with rfl | rfl | rfl
    · exact ⟨.storeMapped, rfl⟩
    · exact ⟨.compute .notEqual, rfl⟩
    · exact ⟨.literal, rfl⟩
  obtain ⟨back, finds⟩ := (ofTable_exact table).2.1 r made
  have entered : ((Opcode.compute .notEqual).symbol, 18446744073709551615) ∈ table.entries :=
    List.mem_cons_of_mem _ List.mem_cons_self
  exact ⟨table, r, rfl, made, back, (finds _ _).1.2 entered, (finds _ _).2.2 entered⟩

end Registry

end RuleCodec
