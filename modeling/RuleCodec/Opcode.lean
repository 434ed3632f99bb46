/-
RuleCodec/Opcode.lean

Opcodes, and the registries that give them numbers.  A registry need not know every opcode, but it
gives no two of them the same number.
-/
import RuleCodec.Error
import RuleCodec.Table

namespace RuleCodec

/-! ### Opcodes -/

/-- What an instruction does. -/
inductive Opcode
  | literal
  | not
  | read
  | readMapped
  | compute (op : Operation)
  | store
  | storeMapped
  deriving DecidableEq, Repr

namespace Opcode

/-- The spelling of an opcode. -/
def symbol : Opcode → String
  | literal => "N"
  | not => "NOT"
  | read => "PLH"
  | readMapped => "PLHM"
  | compute op => op.symbol
  | store => "TRU"
  | storeMapped => "TRUM"

/-- How many operands an opcode takes. -/
def operandCount : Opcode → Nat
  | literal | not | read => 1
  | readMapped | compute _ => 2
  | store | storeMapped => 3

/-- Every opcode, in the order of the current numbering. -/
def all : List Opcode :=
  [literal, not, read, compute .assign, readMapped, compute (.arith .add),
   compute (.arith .subtract), compute (.arith .multiply), compute (.arith .divide), compute .less,
   compute .greater, compute .equal, compute .and, compute .or, compute .greaterEqual,
   compute .lessEqual, compute .notEqual, store, storeMapped]

/-- The opcode with a given spelling. -/
def ofSymbol? (text : String) : Option Opcode :=
  all.find? fun op => op.symbol == text

/-- The operator that an opcode computes. -/
def operator? : Opcode → Option BinaryOp
  | compute op => some (.plain op)
  | _ => none

/-- The opcode that computes an operator; compound updates have none of their own. -/
def ofOperator? : BinaryOp → Option Opcode
  | .plain op => some (compute op)
  | .compound _ => none

end Opcode

/-! ### Registries -/

/-- The numbers of opcodes. -/
structure Registry where
  codes : Table Opcode UInt64
  /-- No number stands for two opcodes. -/
  apart : codes.values.Nodup
  deriving DecidableEq

namespace Registry

/-- The opcode that a number stands for in a list of entries. -/
def holder? (code : UInt64) : List (Opcode × UInt64) → Option Opcode
  | [] => none
  | (op, c) :: rest => if c = code then some op else holder? code rest

/-- The number of an opcode. -/
def code (r : Registry) (op : Opcode) : Except Error UInt64 :=
  match r.codes.get? op with
  | some c => .ok c
  | none => .error (.config (.unavailable op.symbol))

/-- The opcode that a number stands for. -/
def opcode? (r : Registry) (code : UInt64) : Option Opcode :=
  holder? code r.codes.entries

/-- The numbering in use now. -/
def current : Registry where
  codes := ⟨Opcode.all.zipIdx.map fun entry => (entry.1, UInt64.ofNat entry.2), by decide⟩
  apart := by decide

/-- The earlier numbering, which has no mapped trackers and no `!=`. -/
def legacy : Registry where
  codes :=
    ⟨[(.literal, 0), (.compute (.arith .add), 1), (.compute (.arith .subtract), 2),
      (.compute (.arith .multiply), 3), (.compute (.arith .divide), 4), (.compute .less, 5),
      (.compute .greater, 6), (.compute .equal, 7), (.compute .and, 8), (.compute .or, 9),
      (.not, 10), (.read, 11), (.store, 12), (.compute .assign, 13), (.compute .greaterEqual, 14),
      (.compute .lessEqual, 15)], by decide⟩
  apart := by decide

instance : Inhabited Registry := ⟨current⟩

/-- The registry without opcodes. -/
def empty : Registry := ⟨.empty, List.nodup_nil⟩

theorem not_mem_values_of_holder?_eq_none {code : UInt64} {entries : List (Opcode × UInt64)}
    (h : holder? code entries = none) : code ∉ entries.map Prod.snd := by
  induction entries with
  | nil => simp
  | cons entry rest ih =>
    obtain ⟨op, c⟩ := entry
    simp only [holder?] at h
    split at h
    · cases h
    · rename_i other
      simp only [List.map_cons, List.mem_cons, not_or]
      exact ⟨fun same => other same.symm, ih h⟩

theorem mem_values_set {op : Opcode} {code c : UInt64} {entries : List (Opcode × UInt64)}
    (h : c ∈ (Table.set op code entries).map Prod.snd) : c = code ∨ c ∈ entries.map Prod.snd := by
  induction entries with
  | nil => simpa [Table.set] using h
  | cons entry rest ih =>
    obtain ⟨op', c'⟩ := entry
    simp only [Table.set] at h
    split at h
    · simp only [List.map_cons, List.mem_cons] at h ⊢
      rcases h with h | h
      · exact .inl h
      · exact .inr (.inr h)
    · simp only [List.map_cons, List.mem_cons] at h ⊢
      rcases h with h | h
      · exact .inr (.inl h)
      · rcases ih h with h | h
        · exact .inl h
        · exact .inr (.inr h)

theorem nodup_values_set {op : Opcode} {code : UInt64} {entries : List (Opcode × UInt64)}
    (fresh : code ∉ entries.map Prod.snd) (h : (entries.map Prod.snd).Nodup) :
    ((Table.set op code entries).map Prod.snd).Nodup := by
  induction entries with
  | nil => simp [Table.set]
  | cons entry rest ih =>
    obtain ⟨op', c'⟩ := entry
    simp only [List.map_cons, List.mem_cons, not_or] at fresh
    simp only [List.map_cons, List.nodup_cons] at h
    simp only [Table.set]
    split
    · simp only [List.map_cons, List.nodup_cons]
      exact ⟨fresh.2, h.2⟩
    · simp only [List.map_cons, List.nodup_cons]
      refine ⟨fun present => ?_, ih fresh.2 h.2⟩
      rcases mem_values_set present with same | present
      · exact fresh.1 same.symm
      · exact h.1 present

/-- The registry with one more opcode.  The number must not be taken. -/
def insert (r : Registry) (symbol : String) (code : UInt64) : Except Error Registry :=
  match Opcode.ofSymbol? symbol with
  | none => .error (.config (.unknownSymbol symbol))
  | some op =>
    match free : r.opcode? code with
    | some taken => .error (.config (.codeClash code taken.symbol symbol))
    | none =>
      .ok ⟨r.codes.insert op code,
        nodup_values_set (not_mem_values_of_holder?_eq_none free) r.apart⟩

/-- The registry of a table of spellings and numbers. -/
def ofTable (table : Table String UInt64) : Except Error Registry :=
  table.entries.foldlM (fun r entry => r.insert entry.1 entry.2) empty

/-- The spellings and numbers of a registry, in order. -/
def entries (r : Registry) : List (String × UInt64) :=
  r.codes.entries.map fun entry => (entry.1.symbol, entry.2)

end Registry

end RuleCodec
