/-
RuleCodec/Table.lean

Tables with distinct keys that keep the order in which keys were first entered.  Entering a key
again replaces its value and leaves it in its place.
-/

namespace RuleCodec

/-- Entries with distinct keys, in the order of their first entry. -/
structure Table (κ α : Type) where
  entries : List (κ × α)
  distinct : (entries.map Prod.fst).Nodup
  deriving DecidableEq

namespace Table

variable {κ α : Type}

/-- The table without entries. -/
def empty : Table κ α := ⟨[], List.nodup_nil⟩

instance : Inhabited (Table κ α) := ⟨empty⟩

def keys (t : Table κ α) : List κ :=
  t.entries.map Prod.fst

def values (t : Table κ α) : List α :=
  t.entries.map Prod.snd

def size (t : Table κ α) : Nat :=
  t.entries.length

variable [DecidableEq κ]

/-! ### Looking up -/

/-- The value of a key in a list of entries. -/
def find? (key : κ) : List (κ × α) → Option α
  | [] => none
  | (k, v) :: rest => if k = key then some v else find? key rest

/-- The place of a key in a list of entries. -/
def place? (key : κ) : List (κ × α) → Option Nat
  | [] => none
  | (k, _) :: rest => if k = key then some 0 else (place? key rest).map (· + 1)

def get? (t : Table κ α) (key : κ) : Option α :=
  find? key t.entries

def indexOf? (t : Table κ α) (key : κ) : Option Nat :=
  place? key t.entries

def contains (t : Table κ α) (key : κ) : Bool :=
  (t.get? key).isSome

/-! ### Entering -/

/-- The entries with a key set to a value: in its place if it is there, else at the end. -/
def set (key : κ) (value : α) : List (κ × α) → List (κ × α)
  | [] => [(key, value)]
  | (k, v) :: rest => if k = key then (key, value) :: rest else (k, v) :: set key value rest

theorem mem_keys_set {key k : κ} {value : α} {entries : List (κ × α)} :
    k ∈ (set key value entries).map Prod.fst ↔ k = key ∨ k ∈ entries.map Prod.fst := by
  induction entries with
  | nil => simp [set]
  | cons entry rest ih =>
    obtain ⟨k', v'⟩ := entry
    simp only [set]
    split
    · rename_i same
      subst same
      simp
    · simp only [List.map_cons, List.mem_cons, ih]
      constructor
      · rintro (h | h | h)
        · exact .inr (.inl h)
        · exact .inl h
        · exact .inr (.inr h)
      · rintro (h | h | h)
        · exact .inr (.inl h)
        · exact .inl h
        · exact .inr (.inr h)

theorem nodup_keys_set (key : κ) (value : α) {entries : List (κ × α)}
    (h : (entries.map Prod.fst).Nodup) : ((set key value entries).map Prod.fst).Nodup := by
  induction entries with
  | nil => simp [set]
  | cons entry rest ih =>
    obtain ⟨k', v'⟩ := entry
    simp only [List.map_cons, List.nodup_cons] at h
    simp only [set]
    split
    · rename_i same
      subst same
      simpa using h
    · rename_i other
      simp only [List.map_cons, List.nodup_cons, mem_keys_set]
      refine ⟨?_, ih h.2⟩
      rintro (same | present)
      · exact other same
      · exact h.1 present

/-- The table with a key set to a value. -/
def insert (t : Table κ α) (key : κ) (value : α) : Table κ α :=
  ⟨set key value t.entries, nodup_keys_set key value t.distinct⟩

/-- The table of a list of entries; of entries with one key the first gives the place and the last
the value. -/
def ofList (entries : List (κ × α)) : Table κ α :=
  entries.foldl (fun t entry => t.insert entry.1 entry.2) empty

end Table

end RuleCodec
