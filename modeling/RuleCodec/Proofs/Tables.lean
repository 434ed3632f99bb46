/-
RuleCodec/Proofs/Tables.lean

Tables: where a key is, and what entering a key leaves in place.

A table that only grows at its end keeps every place it has given away.
`Table.Extends` says so, and interning a placeholder is the operation it is
said of: the place that `Placeholders.intern` returns is the place of the
component's key from then on.
-/
import Mathlib.Data.List.Forall2
import RuleCodec.Placeholder

namespace RuleCodec

/-! ### Steps that may fail -/

/-- A step that fails ends the work. -/
theorem bind_eq_ok {ε α β : Type} {x : Except ε α} {f : α → Except ε β} {b : β} :
    (x >>= f) = .ok b ↔ ∃ a, x = .ok a ∧ f a = .ok b := by
  cases x with
  | error e => simp [bind, Except.bind]
  | ok a => simp [bind, Except.bind]

/-- Two steps fail if the first fails, or succeeds and the second fails. -/
theorem bind_eq_error {ε α β : Type} {x : Except ε α} {f : α → Except ε β} {e : ε} :
    (x >>= f) = .error e ↔ x = .error e ∨ ∃ a, x = .ok a ∧ f a = .error e := by
  cases x with
  | error e => simp [bind, Except.bind]
  | ok a => simp [bind, Except.bind]

/-- What is decided of a result is decided of an outcome that there is. -/
theorem exists_ok_of_any {ε α : Type} {x : Except ε α} {p : α → Bool} (h : x.toOption.any p) :
    ∃ a, x = .ok a ∧ p a := by
  cases x with
  | error e => cases h
  | ok a => exact ⟨a, rfl, h⟩

/-- Where every step succeeds, each has a result. -/
theorem mapM_eq_ok_iff {ε α β : Type} {f : α → Except ε β} {xs : List α} {ys : List β} :
    xs.mapM f = .ok ys ↔ List.Forall₂ (fun x y => f x = .ok y) xs ys := by
  induction xs generalizing ys with
  | nil =>
    rw [List.forall₂_nil_left_iff]
    exact ⟨fun h => (Except.ok.inj h).symm, fun h => congrArg Except.ok h.symm⟩
  | cons x xs ih =>
    rw [List.mapM_cons, List.forall₂_cons_left_iff, bind_eq_ok]
    constructor
    · rintro ⟨y, first, h⟩
      obtain ⟨others, rest, h⟩ := bind_eq_ok.1 h
      cases h
      exact ⟨y, others, first, ih.1 rest, rfl⟩
    · rintro ⟨y, others, first, rest, rfl⟩
      exact ⟨y, first, bind_eq_ok.2 ⟨others, ih.2 rest, rfl⟩⟩

theorem mapM_eq_ok_of_forall {ε α β : Type} {f : α → Except ε β} {xs : List α}
    (h : ∀ x ∈ xs, ∃ y, f x = .ok y) : ∃ ys, xs.mapM f = .ok ys := by
  induction xs with
  | nil => exact ⟨[], rfl⟩
  | cons x xs ih =>
    obtain ⟨⟨y, first⟩, others⟩ := List.forall_mem_cons.1 h
    obtain ⟨ys, rest⟩ := ih others
    refine ⟨y :: ys, ?_⟩
    rw [List.mapM_cons, first, rest]
    rfl

/-- The first step that fails is the one that counts. -/
theorem mapM_eq_error {ε α β : Type} {f : α → Except ε β} {before after : List α} {x : α} {e : ε}
    (succeed : ∀ x' ∈ before, ∃ y, f x' = .ok y) (fails : f x = .error e) :
    (before ++ x :: after).mapM f = .error e := by
  obtain ⟨ys, done⟩ := mapM_eq_ok_of_forall succeed
  rw [List.mapM_append, done, List.mapM_cons, fails]
  rfl

/-- A list fails at the first element that fails. -/
theorem exists_of_mapM_eq_error {ε α β : Type} {f : α → Except ε β} {xs : List α} {e : ε}
    (h : xs.mapM f = .error e) :
    ∃ before x after, xs = before ++ x :: after ∧ (∀ x' ∈ before, ∃ y, f x' = .ok y) ∧
      f x = .error e := by
  induction xs with
  | nil => cases h
  | cons x xs ih =>
    rw [List.mapM_cons] at h
    rcases bind_eq_error.1 h with fails | ⟨y, first, h⟩
    · exact ⟨[], x, xs, rfl, List.forall_mem_nil _, fails⟩
    · rcases bind_eq_error.1 h with fails | ⟨ys, -, h⟩
      · obtain ⟨before, x', after, rfl, succeed, fails⟩ := ih fails
        exact ⟨x :: before, x', after, rfl, List.forall_mem_cons.2 ⟨⟨y, first⟩, succeed⟩, fails⟩
      · cases h

theorem mapM_congr {ε α β γ : Type} {f : α → Except ε γ} {g : β → Except ε γ} {xs : List α}
    {ys : List β} (h : List.Forall₂ (fun x y => f x = g y) xs ys) : xs.mapM f = ys.mapM g := by
  induction h with
  | nil => rfl
  | cons first _ ih => rw [List.mapM_cons, List.mapM_cons, first, ih]

theorem forall₂_comp {α β γ : Type} {R : α → β → Prop} {S : β → γ → Prop} {xs : List α}
    {ys : List β} {zs : List γ} (h : List.Forall₂ R xs ys) (h' : List.Forall₂ S ys zs) :
    List.Forall₂ (fun x z => ∃ y, R x y ∧ S y z) xs zs := by
  induction h generalizing zs with
  | nil =>
    cases h'
    exact .nil
  | cons first _ ih =>
    obtain ⟨z, zs, first', rest', rfl⟩ := List.forall₂_cons_left_iff.1 h'
    exact .cons ⟨_, first, first'⟩ (ih rest')

theorem exists_left_of_forall₂ {α β : Type} {R : α → β → Prop} {xs : List α} {ys : List β}
    (h : List.Forall₂ R xs ys) {y : β} (mem : y ∈ ys) : ∃ x ∈ xs, R x y := by
  induction h with
  | nil => cases mem
  | @cons a b _ _ first _ ih =>
    rcases List.mem_cons.1 mem with rfl | mem
    · exact ⟨a, List.mem_cons_self, first⟩
    · obtain ⟨x, inside, related⟩ := ih mem
      exact ⟨x, List.mem_cons_of_mem _ inside, related⟩

namespace Table

variable {κ α : Type}

/-! ### Growing -/

/-- The entries of `t` stand at the front of those of `u`. -/
def Extends (t u : Table κ α) : Prop :=
  t.entries <+: u.entries

theorem Extends.refl (t : Table κ α) : t.Extends t :=
  List.prefix_refl _

theorem Extends.trans {t u v : Table κ α} (h : t.Extends u) (h' : u.Extends v) : t.Extends v :=
  List.IsPrefix.trans h h'

/-- What stands at a place stays there as the table grows. -/
theorem Extends.getElem?_eq {t u : Table κ α} (h : t.Extends u) {i : Nat} {entry : κ × α}
    (at_i : t.entries[i]? = some entry) : u.entries[i]? = some entry := by
  obtain ⟨more, eq⟩ := h
  rw [← eq, List.getElem?_append_left (List.getElem?_eq_some_iff.1 at_i).1]
  exact at_i

variable [DecidableEq κ]

/-! ### Looking up -/

theorem find?_eq_some_iff {key : κ} {value : α} {entries : List (κ × α)}
    (distinct : (entries.map Prod.fst).Nodup) :
    find? key entries = some value ↔ (key, value) ∈ entries := by
  induction entries with
  | nil => simp [find?]
  | cons entry rest ih =>
    obtain ⟨k, v⟩ := entry
    rw [List.map_cons, List.nodup_cons] at distinct
    rw [find?, List.mem_cons]
    by_cases same : k = key
    · subst same
      rw [if_pos rfl]
      constructor
      · rintro ⟨⟩
        exact .inl rfl
      · rintro (eq | mem)
        · cases eq
          rfl
        · -- the key would be entered twice
          exact absurd (List.mem_map_of_mem mem) distinct.1
    · rw [if_neg same, ih distinct.2]
      constructor
      · exact .inr
      · rintro (eq | mem)
        · cases eq
          exact absurd rfl same
        · exact mem

/-- A key has a value exactly if the two are entered together. -/
theorem get?_eq_some_iff {t : Table κ α} {key : κ} {value : α} :
    t.get? key = some value ↔ (key, value) ∈ t.entries :=
  find?_eq_some_iff t.distinct

/-- A key has a place exactly where an entry holds it. -/
theorem place?_eq_some_iff {key : κ} {i : Nat} {entries : List (κ × α)}
    (distinct : (entries.map Prod.fst).Nodup) :
    place? key entries = some i ↔ ∃ value, entries[i]? = some (key, value) := by
  induction entries generalizing i with
  | nil => simp [place?]
  | cons entry rest ih =>
    obtain ⟨k, v⟩ := entry
    rw [List.map_cons, List.nodup_cons] at distinct
    rw [place?]
    by_cases same : k = key
    · subst same
      rw [if_pos rfl]
      constructor
      · rintro ⟨⟩
        exact ⟨v, rfl⟩
      · rintro ⟨value, at_i⟩
        cases i with
        | zero => rfl
        | succ i =>
          rw [List.getElem?_cons_succ] at at_i
          exact absurd (List.mem_map_of_mem (List.mem_of_getElem? at_i)) distinct.1
    · rw [if_neg same, Option.map_eq_some_iff]
      cases i with
      | zero => simp [same]
      | succ i => simp [ih distinct.2]

/-- A key has a place exactly if it is entered there. -/
theorem indexOf?_eq_some_iff {t : Table κ α} {key : κ} {i : Nat} :
    t.indexOf? key = some i ↔ ∃ value, t.entries[i]? = some (key, value) :=
  place?_eq_some_iff t.distinct

theorem lt_size_of_indexOf? {t : Table κ α} {key : κ} {i : Nat} (h : t.indexOf? key = some i) :
    i < t.size := by
  obtain ⟨value, at_i⟩ := indexOf?_eq_some_iff.1 h
  exact (List.getElem?_eq_some_iff.1 at_i).1

/-- A place is that of one key. -/
theorem key_eq_of_indexOf? {t : Table κ α} {key key' : κ} {i : Nat} (h : t.indexOf? key = some i)
    (h' : t.indexOf? key' = some i) : key = key' := by
  obtain ⟨value, at_i⟩ := indexOf?_eq_some_iff.1 h
  obtain ⟨value', at_i'⟩ := indexOf?_eq_some_iff.1 h'
  exact (Prod.mk.inj (Option.some.inj (at_i.symm.trans at_i'))).1

theorem indexOf?_eq_none_iff {t : Table κ α} {key : κ} :
    t.indexOf? key = none ↔ key ∉ t.keys := by
  have h : t.indexOf? key = none ↔ ∀ i, t.indexOf? key ≠ some i :=
    Option.eq_none_iff_forall_ne_some
  rw [h]
  simp only [ne_eq, indexOf?_eq_some_iff, not_exists, keys, List.mem_map, not_and]
  constructor
  · rintro none ⟨k, v⟩ mem rfl
    obtain ⟨i, at_i⟩ := List.getElem?_of_mem mem
    exact none i v at_i
  · intro absent i v at_i
    exact absent (key, v) (List.mem_of_getElem? at_i) rfl

/-! ### Entering -/

/-- A key that is new goes to the end. -/
theorem set_of_not_mem {key : κ} {value : α} {entries : List (κ × α)}
    (new : key ∉ entries.map Prod.fst) : set key value entries = entries ++ [(key, value)] := by
  induction entries with
  | nil => rfl
  | cons entry rest ih =>
    obtain ⟨k, v⟩ := entry
    rw [List.map_cons, List.mem_cons, not_or] at new
    rw [set, if_neg (Ne.symm new.1), ih new.2, List.cons_append]

theorem insert_entries_of_not_mem {t : Table κ α} {key : κ} {value : α} (new : key ∉ t.keys) :
    (t.insert key value).entries = t.entries ++ [(key, value)] :=
  set_of_not_mem new

theorem size_insert_of_not_mem {t : Table κ α} {key : κ} {value : α} (new : key ∉ t.keys) :
    (t.insert key value).size = t.size + 1 := by
  rw [size, insert_entries_of_not_mem new, List.length_append]
  rfl

theorem not_mem_keys_of_contains {t : Table κ α} {key : κ} (h : ¬ t.contains key) :
    key ∉ t.keys := by
  intro mem
  obtain ⟨⟨k, value⟩, entered, rfl⟩ := List.mem_map.1 mem
  rw [contains, get?_eq_some_iff.2 entered] at h
  exact h rfl

theorem get?_insert_self (t : Table κ α) (key : κ) (value : α) :
    (t.insert key value).get? key = some value := by
  show find? key (set key value t.entries) = some value
  induction t.entries with
  | nil => simp [set, find?]
  | cons entry rest ih =>
    obtain ⟨k, v⟩ := entry
    rw [set]
    split
    · rw [find?, if_pos rfl]
    · rename_i other
      rw [find?, if_neg other, ih]

theorem get?_insert_of_ne (t : Table κ α) {key k : κ} (value : α) (other : key ≠ k) :
    (t.insert key value).get? k = t.get? k := by
  show find? k (set key value t.entries) = find? k t.entries
  induction t.entries with
  | nil => simp [set, find?, other]
  | cons entry rest ih =>
    obtain ⟨k', v⟩ := entry
    rw [set]
    split
    · rename_i same
      rw [find?, if_neg other, find?, same, if_neg other]
    · rw [find?, find?, ih]

/-- Entering a new key changes nothing for the others. -/
theorem get?_insert_of_not_mem {t : Table κ α} {key k : κ} {value v : α} (new : key ∉ t.keys) :
    (t.insert key value).get? k = some v ↔ t.get? k = some v ∨ (k, v) = (key, value) := by
  rw [get?_eq_some_iff, get?_eq_some_iff, insert_entries_of_not_mem new, List.mem_append,
    List.mem_singleton]

/-- A key keeps its place as the table grows. -/
theorem Extends.indexOf?_eq {t u : Table κ α} (h : t.Extends u) {key : κ} {i : Nat}
    (at_i : t.indexOf? key = some i) : u.indexOf? key = some i := by
  obtain ⟨value, at_i⟩ := indexOf?_eq_some_iff.1 at_i
  exact indexOf?_eq_some_iff.2 ⟨value, h.getElem?_eq at_i⟩

end Table

/-! ### Interning -/

/-- What tells the placeholders of two components apart. -/
def Component.key (c : Component) : UInt64 × UInt8 :=
  (c.index, c.source.flags)

namespace Placeholders

/-- A component that is there already is not added again. -/
theorem intern_of_mem {ps : Placeholders} {c : Component} {i : Nat}
    (h : ps.indexOf? c.key = some i) : ps.intern c = (i, ps) := by
  have h' : ps.indexOf? (c.placeholder.index, c.placeholder.flags) = some i := h
  simp only [intern, h']

/-- A component that is new is added at the end. -/
theorem intern_of_new {ps : Placeholders} {c : Component} (h : ps.indexOf? c.key = none) :
    ps.intern c = (ps.size, ps.insert c.key (c.placeholder, c.displayName)) := by
  have h' : ps.indexOf? (c.placeholder.index, c.placeholder.flags) = none := h
  simp only [intern, h']
  rfl

/-- Interning enters at the end or not at all. -/
theorem extends_intern (ps : Placeholders) (c : Component) : ps.Extends (ps.intern c).2 := by
  rcases h : ps.indexOf? c.key with _ | i
  · rw [intern_of_new h]
    refine ⟨[(c.key, c.placeholder, c.displayName)], ?_⟩
    exact (Table.insert_entries_of_not_mem (Table.indexOf?_eq_none_iff.1 h)).symm
  · rw [intern_of_mem h]
    exact Table.Extends.refl ps

theorem size_intern_le (ps : Placeholders) (c : Component) :
    (ps.intern c).2.size ≤ ps.size + 1 := by
  rcases h : ps.indexOf? c.key with _ | i
  · rw [intern_of_new h]
    exact Nat.le_of_eq (Table.size_insert_of_not_mem (Table.indexOf?_eq_none_iff.1 h))
  · rw [intern_of_mem h]
    exact Nat.le_succ _

/-- The place returned is the place of the component's key. -/
theorem indexOf?_intern (ps : Placeholders) (c : Component) :
    (ps.intern c).2.indexOf? c.key = some (ps.intern c).1 := by
  rcases h : ps.indexOf? c.key with _ | i
  · rw [intern_of_new h]
    refine Table.indexOf?_eq_some_iff.2 ⟨(c.placeholder, c.displayName), ?_⟩
    rw [Table.insert_entries_of_not_mem (Table.indexOf?_eq_none_iff.1 h)]
    exact List.getElem?_concat_length
  · rw [intern_of_mem h]
    exact h

/-- The place stays the component's for as long as the table grows at its end. -/
theorem indexOf?_of_intern_extends {ps final : Placeholders} {c : Component}
    (h : (ps.intern c).2.Extends final) : final.indexOf? c.key = some (ps.intern c).1 :=
  h.indexOf?_eq (indexOf?_intern ps c)

end Placeholders

end RuleCodec
