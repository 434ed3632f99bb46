/-
RuleCodec/Proofs/Codecs.lean

Values that are read as they were written.

A codec keeps a value if the JSON form of the value is read as the value again,
and that in whatever order the entries of the objects in it come
(`Codec.Keeps`, `Json.Reordered`).  The laws follow the ways in which codecs
are made: a list keeps its items, a value by way of another keeps what the way
back finds, and a record keeps its fields (`Fields.Recovers.keeps`).

Design.  What fields find among entries is one thing (`Fields.Reads`), and that
these are the entries they would have written is another (`Fields.Recovers`).
Fields only care for the entries under their own names, so the fields of one
record can find their values in what another record wrote.
-/
import RuleCodec.Json.Codec
import RuleCodec.Proofs.Tables

namespace RuleCodec

/-! ### Order of entries -/

namespace Json

/-- Two JSON values that differ in the order of the entries of objects at most. -/
inductive Reordered : Json → Json → Prop
  | refl {j : Json} : Reordered j j
  | array {items items' : List Json} :
      List.Forall₂ Reordered items items' → Reordered (.array items) (.array items')
  | object {entries moved entries' : List (String × Json)} :
      entries.Perm moved → moved.map Prod.fst = entries'.map Prod.fst →
      List.Forall₂ Reordered (moved.map Prod.snd) (entries'.map Prod.snd) →
        Reordered (.object entries) (.object entries')

/-- The same for the entries of an object. -/
def Shuffled (entries entries' : List (String × Json)) : Prop :=
  ∃ moved, entries.Perm moved ∧
    List.Forall₂ (fun entry entry' => entry.1 = entry'.1 ∧ entry.2.Reordered entry'.2)
      moved entries'

/-- Entries agree one by one if their keys are the same and their values agree. -/
theorem forall₂_entries {R : Json → Json → Prop} {entries entries' : List (String × Json)}
    (keys : entries.map Prod.fst = entries'.map Prod.fst)
    (values : List.Forall₂ R (entries.map Prod.snd) (entries'.map Prod.snd)) :
    List.Forall₂ (fun entry entry' => entry.1 = entry'.1 ∧ R entry.2 entry'.2)
      entries entries' := by
  rw [List.forall₂_map_left_iff, List.forall₂_map_right_iff] at values
  rw [← List.forall₂_eq_eq_eq, List.forall₂_map_left_iff, List.forall₂_map_right_iff] at keys
  exact List.Forall₂.mp (fun _ _ => And.intro) keys values

/-- Arrays are reordered only inside their items. -/
theorem Reordered.of_array {items : List Json} {j : Json} (h : (Json.array items).Reordered j) :
    ∃ items', j = .array items' ∧ List.Forall₂ Reordered items items' := by
  cases h with
  | refl => exact ⟨items, rfl, List.forall₂_same.2 fun _ _ => .refl⟩
  | array each => exact ⟨_, rfl, each⟩

/-- Objects are reordered by shuffling their entries. -/
theorem Reordered.of_object {entries : List (String × Json)} {j : Json}
    (h : (Json.object entries).Reordered j) :
    ∃ entries', j = .object entries' ∧ Shuffled entries entries' := by
  cases h with
  | refl =>
    exact ⟨entries, rfl, entries, .refl entries, List.forall₂_same.2 fun _ _ => ⟨rfl, .refl⟩⟩
  | object moved keys values => exact ⟨_, rfl, _, moved, forall₂_entries keys values⟩

namespace Shuffled

variable {entries entries' : List (String × Json)}

/-- Entries that are selected by their keys are shuffled in the same way. -/
theorem filter (h : Shuffled entries entries') (p : String → Bool) :
    Shuffled (entries.filter fun entry => p entry.1) (entries'.filter fun entry => p entry.1) := by
  obtain ⟨moved, perm, each⟩ := h
  refine ⟨moved.filter fun entry => p entry.1, perm.filter _, List.rel_filter ?_ each⟩
  rintro entry entry' ⟨same, -⟩
  show p entry.1 = true ↔ p entry'.1 = true
  rw [same]

theorem eq_nil (h : Shuffled [] entries') : entries' = [] := by
  obtain ⟨moved, perm, each⟩ := h
  rw [List.nil_perm.1 perm, List.forall₂_nil_left_iff] at each
  exact each

/-- A single entry stays where it is. -/
theorem eq_singleton {key : String} {j : Json} (h : Shuffled [(key, j)] entries') :
    ∃ j', entries' = [(key, j')] ∧ j.Reordered j' := by
  obtain ⟨moved, perm, each⟩ := h
  rw [← List.singleton_perm.1 perm, List.forall₂_cons_left_iff] at each
  obtain ⟨⟨key', j'⟩, rest, ⟨same, reordered⟩, none, rfl⟩ := each
  cases same
  rw [List.forall₂_nil_left_iff.1 none]
  exact ⟨j', rfl, reordered⟩

end Shuffled

end Json

/-! ### Values that are kept -/

namespace Codec

open Json

/-- The JSON form of the value is read as the value, in whatever order the entries of the objects in
it come. -/
def Keeps {α : Type} (c : Codec α) (a : α) : Prop :=
  ∀ j, (c.encode a).Reordered j → c.decode j = .ok a

variable {α β : Type} {c : Codec α}

theorem keeps_text (value : String) : Codec.text.Keeps value := by
  intro j h
  cases h
  rfl

/-- A number within the limit is kept. -/
theorem keeps_natBelow {limit n : Nat} (lt : n < limit) : (Codec.natBelow limit).Keeps n := by
  intro j h
  cases h
  exact if_pos lt

/-- A codec that goes through a view keeps what comes back from its view. -/
theorem Keeps.via {view : β → α} {back : α → Except DecodeError β} {b : β}
    (h : c.Keeps (view b)) (returns : back (view b) = .ok b) : (c.via view back).Keeps b := by
  intro j reordered
  simp only [Codec.via, h j reordered]
  exact returns

theorem keeps_uint8 (n : UInt8) : Codec.uint8.Keeps n :=
  (keeps_natBelow n.toNat_lt).via (by rw [UInt8.ofNat_toNat])

theorem keeps_uint64 (n : UInt64) : Codec.uint64.Keeps n :=
  (keeps_natBelow n.toNat_lt).via (by rw [UInt64.ofNat_toNat])

/-- A list is kept if each of its elements is. -/
theorem keeps_list {as : List α} (h : ∀ a ∈ as, c.Keeps a) : c.list.Keeps as := by
  intro j reordered
  obtain ⟨items, rfl, each⟩ := reordered.of_array
  rw [List.forall₂_map_left_iff] at each
  show items.mapM c.decode = .ok as
  rw [mapM_eq_ok_iff]
  have both := (List.forall₂_and_left as items).2 ⟨h, each⟩
  exact both.flip.imp fun j a kept => kept.1 j kept.2

/-- What is read from a JSON value that is not `null` is read as well where `null` would do. -/
theorem decode_nullable {j : Json} {a : α} (refuses : ∀ a, c.decode .null ≠ .ok a)
    (h : c.decode j = .ok a) : c.nullable.decode j = .ok (some a) := by
  cases j with
  | null => exact absurd h (refuses a)
  | _ =>
    show (c.decode _).map some = _
    rw [h]
    rfl

end Codec

/-! ### Fields and entries -/

namespace Fields

open Json

variable {ρ α β : Type} {entries : List (String × Json)}

/-- Under the names of a field there is at most one entry, and its value can be read. -/
def Passes (entries : List (String × Json))
    (check : List String × (Json → Except DecodeError Unit)) : Prop :=
  (entries.filter fun entry => check.1.contains entry.1).length ≤ 1 ∧
    ∀ entry ∈ entries, check.1.contains entry.1 → check.2 entry.2 = .ok ()

theorem Passes.tail {check : List String × (Json → Except DecodeError Unit)}
    {entry : String × Json} (h : Passes (entry :: entries) check) : Passes entries check := by
  refine ⟨Nat.le_trans ?_ h.1, fun entry mem => h.2 entry (List.mem_cons_of_mem _ mem)⟩
  exact ((List.sublist_cons_self entry entries).filter _).length_le

/-- The one entry that the names of a field allow is the first. -/
theorem Passes.not_contains {check : List String × (Json → Except DecodeError Unit)}
    {entry : String × Json} (h : Passes (entry :: entries) check)
    (named : check.1.contains entry.1) : ∀ later ∈ entries, ¬ check.1.contains later.1 := by
  have once := h.1
  rw [List.filter_cons, if_pos named, List.length_cons] at once
  have none := List.length_eq_zero_iff.1 (Nat.le_zero.1 (Nat.le_of_succ_le_succ once))
  exact List.filter_eq_nil_iff.1 none

/-- Entries of which each passes the check for its name, and no name comes up twice, pass all of
them. -/
theorem visit_eq_ok {checks : List (List String × (Json → Except DecodeError Unit))}
    {seen : List (List String)} (passes : ∀ check ∈ checks, Passes entries check)
    (unseen : ∀ names ∈ seen, ∀ entry ∈ entries, ¬ names.contains entry.1) :
    visit checks seen entries = .ok () := by
  induction entries generalizing seen with
  | nil => rfl
  | cons entry rest ih =>
    obtain ⟨key, j⟩ := entry
    have later : ∀ check ∈ checks, Passes rest check := fun check mem => (passes check mem).tail
    have unseenLater : ∀ names ∈ seen, ∀ entry ∈ rest, ¬ names.contains entry.1 :=
      fun names mem entry inside => unseen names mem entry (List.mem_cons_of_mem _ inside)
    rw [visit]
    cases found : checks.find? fun check => check.1.contains key with
    | none =>
      -- a name that is no field's is passed over
      exact ih later unseenLater
    | some check =>
      obtain ⟨names, check⟩ := check
      have mem := List.mem_of_find?_eq_some found
      have named := List.find?_some found
      change names.contains key = true at named
      have new : ¬ seen.contains names := fun old =>
        unseen names (List.contains_iff_mem.1 old) _ List.mem_cons_self named
      have passed : check j = .ok () := (passes _ mem).2 (key, j) List.mem_cons_self named
      simp only [if_neg new, passed]
      exact ih later (List.forall_mem_cons.2 ⟨(passes _ mem).not_contains named, unseenLater⟩)

/-- The fields find a value among the entries of an object. -/
structure Reads (f : Fields ρ α) (entries : List (String × Json)) (a : α) : Prop where
  passes : ∀ check ∈ f.checks, Passes entries check
  finds : f.ofEntries entries = .ok a

/-- Fields that read a record out of the entries decode the object to it. -/
theorem Reads.decode_eq_ok {f : Fields ρ ρ} {r : ρ} (h : f.Reads entries r) :
    f.codec.decode (.object entries) = .ok r := by
  refine bind_eq_ok.2 ⟨(), visit_eq_ok h.passes ?_, h.finds⟩
  intro names mem
  cases mem

theorem reads_start (a : α) : (start a : Fields ρ α).Reads entries a where
  passes := by
    intro check mem
    cases mem
  finds := rfl

/-- Fields are read side by side. -/
theorem Reads.and {f : Fields ρ (α → β)} {x : Fields ρ α} {g : α → β} {a : α}
    (h : f.Reads entries g) (h' : x.Reads entries a) : (f.and x).Reads entries (g a) where
  passes := List.forall_mem_append.2 ⟨h.passes, h'.passes⟩
  finds := bind_eq_ok.2 ⟨g, h.finds, bind_eq_ok.2 ⟨a, h'.finds, rfl⟩⟩

section

variable {names : List String} {write : ρ → List (String × Json)}
  {decode : Json → Except DecodeError α} {unnamed unplaced : Option α} {a : α}

/-- A field is read from the only entry that has one of its names. -/
theorem reads_one {key : String} {j : Json}
    (only : (entries.filter fun entry => names.contains entry.1) = [(key, j)])
    (decodes : decode j = .ok a) : (one names write decode unnamed unplaced).Reads entries a where
  passes := by
    refine List.forall_mem_singleton.2
      ⟨by rw [only]; exact Nat.le_refl _, fun entry mem named => ?_⟩
    -- an entry with one of the names can only be this one
    have inside : entry ∈ entries.filter fun entry => names.contains entry.1 :=
      List.mem_filter.2 ⟨mem, named⟩
    rw [only, List.mem_singleton] at inside
    rw [inside]
    show (decode j).map _ = _
    rw [decodes]
    rfl
  finds := by
    have first : entries.find? (fun entry => names.contains entry.1) = some (key, j) := by
      rw [← List.head?_filter, only]
      rfl
    simp only [one, first]
    exact decodes

/-- A field that may be left out is read from no entry at all. -/
theorem reads_one_absent (none : (entries.filter fun entry => names.contains entry.1) = []) :
    (one names write decode (some a) unplaced).Reads entries a where
  passes := by
    refine List.forall_mem_singleton.2
      ⟨by rw [none]; exact Nat.zero_le _, fun entry mem named => ?_⟩
    exact absurd named (List.filter_eq_nil_iff.1 none entry mem)
  finds := by
    have nowhere : entries.find? (fun entry => names.contains entry.1) = .none := by
      rw [← List.head?_filter, none]
      rfl
    simp only [one, nowhere]

variable {written : List (String × Json)}

/-- A field finds what was written under its names, whoever wrote it. -/
theorem reads_of_written {key : String} {j : Json}
    (only : (written.filter fun entry => names.contains entry.1) = [(key, j)])
    (shuffled : Shuffled written entries) (decodes : ∀ j', j.Reordered j' → decode j' = .ok a) :
    (one names write decode unnamed unplaced).Reads entries a := by
  have found := shuffled.filter names.contains
  rw [only] at found
  obtain ⟨j', only', reordered⟩ := found.eq_singleton
  exact reads_one only' (decodes j' reordered)

/-- A field that is not written gets its default. -/
theorem reads_of_unwritten (none : (written.filter fun entry => names.contains entry.1) = [])
    (shuffled : Shuffled written entries) :
    (one names write decode (some a) unplaced).Reads entries a := by
  have found := shuffled.filter names.contains
  rw [none] at found
  exact reads_one_absent found.eq_nil

end

/-! ### Fields and what they wrote -/

/-- The names of all fields. -/
def names (f : Fields ρ α) : List String :=
  f.checks.flatMap Prod.fst

/-- The fields of a record find a value wherever what stands under their names is what they
wrote. -/
structure Recovers (f : Fields ρ α) (r : ρ) (a : α) : Prop where
  named : ∀ entry ∈ f.write r, entry.1 ∈ f.names
  reads : ∀ {written entries : List (String × Json)},
    (written.filter fun entry => f.names.contains entry.1) = f.write r →
      Shuffled written entries → f.Reads entries a

theorem recovers_start (r : ρ) (a : α) : (start a : Fields ρ α).Recovers r a where
  named := by
    intro entry mem
    cases mem
  reads := fun _ _ => reads_start a

theorem names_one (fieldNames : List String) (write : ρ → List (String × Json))
    (decode : Json → Except DecodeError α) (unnamed unplaced : Option α) :
    (one fieldNames write decode unnamed unplaced).names = fieldNames :=
  List.append_nil fieldNames

theorem names_and (f : Fields ρ (α → β)) (x : Fields ρ α) : (f.and x).names = f.names ++ x.names :=
  List.flatMap_append

/-- Selecting fewer names of what was selected is to select them at once. -/
theorem filter_filter_names {part whole : List String} (subset : part ⊆ whole)
    (written : List (String × Json)) :
    ((written.filter fun entry => whole.contains entry.1).filter fun entry =>
      part.contains entry.1) = written.filter fun entry => part.contains entry.1 := by
  rw [List.filter_filter]
  refine List.filter_congr fun entry _ => ?_
  by_cases named : entry.1 ∈ part
  · simp [named, subset named]
  · simp [named]

/-- Fields write only under their own names. -/
theorem Recovers.filter_write {f : Fields ρ α} {r : ρ} {a : α} (h : f.Recovers r a) :
    ((f.write r).filter fun entry => f.names.contains entry.1) = f.write r :=
  List.filter_eq_self.2 fun entry mem => List.contains_iff_mem.2 (h.named entry mem)

/-- A record that its fields recover is kept by their codec. -/
theorem Recovers.keeps {f : Fields ρ ρ} {r : ρ} (h : f.Recovers r r) : f.codec.Keeps r := by
  intro j reordered
  obtain ⟨entries, rfl, shuffled⟩ := reordered.of_object
  exact (h.reads h.filter_write shuffled).decode_eq_ok

/-- Nothing is written under the names of other fields. -/
theorem Recovers.filter_write_of_apart {f : Fields ρ α} {r : ρ} {a : α} (h : f.Recovers r a)
    {names : List String} (apart : ∀ name ∈ f.names, name ∉ names) :
    ((f.write r).filter fun entry => names.contains entry.1) = [] :=
  List.filter_eq_nil_iff.2 fun entry mem named =>
    apart entry.1 (h.named entry mem) (List.contains_iff_mem.1 named)

/-- Fields whose names are apart recover their values side by side. -/
theorem Recovers.and {f : Fields ρ (α → β)} {x : Fields ρ α} {r : ρ} {g : α → β} {a : α}
    (h : f.Recovers r g) (h' : x.Recovers r a) (apart : ∀ name ∈ f.names, name ∉ x.names) :
    (f.and x).Recovers r (g a) where
  named := by
    rw [names_and]
    intro entry mem
    rcases List.mem_append.1 mem with mem | mem
    · exact List.mem_append_left _ (h.named entry mem)
    · exact List.mem_append_right _ (h'.named entry mem)
  reads := by
    intro written entries wrote shuffled
    have both : (written.filter fun entry => (f.names ++ x.names).contains entry.1) =
        f.write r ++ x.write r := by
      rw [← names_and]
      exact wrote
    -- of what both wrote, each finds under its own names what it wrote itself
    refine (h.reads ?_ shuffled).and (h'.reads ?_ shuffled)
    · rw [← filter_filter_names (List.subset_append_left f.names x.names), both,
        List.filter_append, h.filter_write,
        h'.filter_write_of_apart fun name mem mem' => apart name mem' mem, List.append_nil]
    · rw [← filter_filter_names (List.subset_append_right f.names x.names), both,
        List.filter_append, h.filter_write_of_apart apart, h'.filter_write, List.nil_append]

section

variable {fieldNames : List String} {write : ρ → List (String × Json)}
  {decode : Json → Except DecodeError α} {unnamed unplaced : Option α} {r : ρ} {a : α}

/-- A field that was written. -/
theorem recovers_of_write {name : String} {j : Json} (wrote : write r = [(name, j)])
    (named : name ∈ fieldNames) (decodes : ∀ j', j.Reordered j' → decode j' = .ok a) :
    (one fieldNames write decode unnamed unplaced).Recovers r a where
  named := by
    show ∀ entry ∈ write r, _
    rw [wrote, names_one]
    exact List.forall_mem_singleton.2 named
  reads := by
    intro written entries under shuffled
    rw [names_one] at under
    exact reads_of_written (under.trans wrote) shuffled decodes

/-- A field that was left out. -/
theorem recovers_of_write_nil (wrote : write r = []) :
    (one fieldNames write decode (some a) unplaced).Recovers r a where
  named := by
    show ∀ entry ∈ write r, _
    rw [wrote]
    exact List.forall_mem_nil _
  reads := by
    intro written entries under shuffled
    rw [names_one] at under
    exact reads_of_unwritten (under.trans wrote) shuffled

end

variable {c : Codec α} {r : ρ}

/-- A field that is always written is recovered if its codec keeps the value. -/
theorem recovers_required {get : ρ → α} (name : String) (keeps : c.Keeps (get r)) :
    (required name c get).Recovers r (get r) :=
  recovers_of_write rfl List.mem_cons_self keeps

/-- A field that is written only if it is there is recovered, since `null` is no value of it. -/
theorem recovers_optional {get : ρ → Option α} (name : String)
    (keeps : ∀ a, get r = some a → c.Keeps a) (refuses : ∀ a, c.decode .null ≠ .ok a) :
    (optional name c get).Recovers r (get r) := by
  cases value : get r with
  | none =>
    refine recovers_of_write_nil ?_
    rw [value]
  | some a =>
    refine recovers_of_write (by rw [value]) List.mem_cons_self fun j reordered => ?_
    exact Codec.decode_nullable refuses (keeps a value j reordered)

end Fields

end RuleCodec
