/-
RuleCodec/Json/Codec.lean

Codecs: a kind of value together with its JSON form, both ways.

A record is described once, field by field; the description says how the record is written and how
it is read.  A record is read from an object by the names of its fields, or from an array by their
places.  In an object the entries are looked at in their order, unknown names are passed over, a
field given twice is refused, and only then are the missing fields looked for.  So the first faulty
entry decides which error is reported.
-/
import RuleCodec.Json
import RuleCodec.Table

namespace RuleCodec

/-- A kind of value and its JSON form. -/
structure Codec (α : Type) where
  encode : α → Json
  decode : Json → Except DecodeError α

namespace Codec

/-! ### Simple values -/

def text : Codec String where
  encode := .string
  decode
    | .string value => .ok value
    | _ => .error .shape

/-- A natural number below a limit. -/
def natBelow (limit : Nat) : Codec Nat where
  encode n := .integer n
  decode
    | .integer value =>
      match value.toNat? with
      | some n => if n < limit then .ok n else .error .shape
      | none => .error .shape
    | _ => .error .shape

/-- A value by way of another that stands for it. -/
def via {α β : Type} (c : Codec α) (view : β → α) (back : α → Except DecodeError β) : Codec β where
  encode b := c.encode (view b)
  decode j :=
    match c.decode j with
    | .error e => .error e
    | .ok a => back a

def uint8 : Codec UInt8 :=
  (natBelow UInt8.size).via UInt8.toNat fun n => .ok (UInt8.ofNat n)

def uint64 : Codec UInt64 :=
  (natBelow UInt64.size).via UInt64.toNat fun n => .ok (UInt64.ofNat n)

/-- A list, as an array. -/
def list {α : Type} (c : Codec α) : Codec (List α) where
  encode xs := .array (xs.map c.encode)
  decode
    | .array items => items.mapM c.decode
    | _ => .error .shape

/-- An optional value, `null` if there is none. -/
def nullable {α : Type} (c : Codec α) : Codec (Option α) where
  encode
    | some a => c.encode a
    | none => .null
  decode
    | .null => .ok none
    | j => (c.decode j).map some

/-- One of several named values: its name, or an object that holds `null` under that name. -/
def choice {α : Type} (name : α → String) (choices : List α) : Codec α where
  encode a := .string (name a)
  decode j :=
    let found (text : String) :=
      match choices.find? fun a => name a == text with
      | some a => .ok a
      | none => .error .shape
    match j with
    | .string text => found text
    | .object [(text, .null)] => found text
    | _ => .error .shape

/-- Reads the entries of an object in turn, each key before its value. -/
def entries {κ α : Type} (key : String → Except DecodeError κ)
    (value : Json → Except DecodeError α) :
    List (String × Json) → Except DecodeError (List (κ × α))
  | [] => .ok []
  | (k, v) :: rest => do
    let k ← key k
    let v ← value v
    let rest ← entries key value rest
    return (k, v) :: rest

/-- A table, as an object. -/
def table {κ α : Type} [DecidableEq κ] (keyText : κ → String)
    (key : String → Except DecodeError κ) (c : Codec α) : Codec (Table κ α) where
  encode t := .object (t.entries.map fun entry => (keyText entry.1, c.encode entry.2))
  decode
    | .object members => (entries key c.decode members).map Table.ofList
    | _ => .error .shape

end Codec

/-! ### Records -/

/-- Part of the description of a record `ρ`: how it is written, and how an `α` is read from it. -/
structure Fields (ρ α : Type) where
  /-- The entries that are written. -/
  write : ρ → List (String × Json)
  /-- The names of each field, and what its value is checked with. -/
  checks : List (List String × (Json → Except DecodeError Unit))
  /-- Reads from the entries of an object. -/
  ofEntries : List (String × Json) → Except DecodeError α
  /-- Reads from the front of an array. -/
  ofItems : List Json → Except DecodeError (α × List Json)

namespace Fields

variable {ρ α β : Type}

/-- The description without fields. -/
def start (a : α) : Fields ρ α where
  write _ := []
  checks := []
  ofEntries _ := .ok a
  ofItems items := .ok (a, items)

/-- The description with one more field. -/
def and (f : Fields ρ (α → β)) (x : Fields ρ α) : Fields ρ β where
  write r := f.write r ++ x.write r
  checks := f.checks ++ x.checks
  ofEntries entries := do
    let g ← f.ofEntries entries
    let a ← x.ofEntries entries
    return g a
  ofItems items := do
    let (g, items) ← f.ofItems items
    let (a, items) ← x.ofItems items
    return (g a, items)

/-- A field with its names, and what it is when an object or an array does not have it. -/
def one (names : List String) (write : ρ → List (String × Json))
    (decode : Json → Except DecodeError α) (unnamed unplaced : Option α) : Fields ρ α where
  write := write
  checks := [(names, fun j => (decode j).map fun _ => ())]
  ofEntries entries :=
    match entries.find? fun entry => names.contains entry.1 with
    | some (_, j) => decode j
    | none =>
      match unnamed with
      | some a => .ok a
      | none => .error .shape
  ofItems
    | j :: items => (decode j).map fun a => (a, items)
    | [] =>
      match unplaced with
      | some a => .ok (a, [])
      | none => .error .shape

/-- A field that must be there. -/
def required (name : String) (c : Codec α) (get : ρ → α) : Fields ρ α :=
  one [name] (fun r => [(name, c.encode (get r))]) c.decode none none

/-- A field that must be there, under one of two names. -/
def renamed (name other : String) (c : Codec α) (get : ρ → α) : Fields ρ α :=
  one [name, other] (fun r => [(name, c.encode (get r))]) c.decode none none

/-- A field that has a value when it is not there. -/
def withDefault (name : String) (c : Codec α) (value : α) (get : ρ → α) : Fields ρ α :=
  one [name] (fun r => [(name, c.encode (get r))]) c.decode (some value) (some value)

/-- A field that has a value when it is not there, under one of two names. -/
def renamedWithDefault (name other : String) (c : Codec α) (value : α) (get : ρ → α) :
    Fields ρ α :=
  one [name, other] (fun r => [(name, c.encode (get r))]) c.decode (some value) (some value)

/-- A field that may be `null` or left out of an object, and that is written as `null`. -/
def nullable (name : String) (c : Codec α) (get : ρ → Option α) : Fields ρ (Option α) :=
  one [name] (fun r => [(name, c.nullable.encode (get r))]) c.nullable.decode (some none) none

/-- A field that may be `null` or left out, and that is left out when it is written. -/
def optional (name : String) (c : Codec α) (get : ρ → Option α) : Fields ρ (Option α) :=
  one [name]
    (fun r =>
      match get r with
      | some a => [(name, c.encode a)]
      | none => [])
    c.nullable.decode (some none) (some none)

/-- Checks the entries of an object in turn.  A field must not be given twice. -/
def visit (checks : List (List String × (Json → Except DecodeError Unit))) :
    (seen : List (List String)) → List (String × Json) → Except DecodeError Unit
  | _, [] => .ok ()
  | seen, (key, j) :: rest =>
    match checks.find? fun check => check.1.contains key with
    | none => visit checks seen rest
    | some (names, check) =>
      if seen.contains names then .error .shape
      else
        match check j with
        | .error e => .error e
        | .ok () => visit checks (names :: seen) rest

/-- The codec of a record with these fields. -/
def codec (fields : Fields ρ ρ) : Codec ρ where
  encode r := .object (fields.write r)
  decode
    | .object entries => do
      visit fields.checks [] entries
      fields.ofEntries entries
    | .array items => do
      let (r, rest) ← fields.ofItems items
      if rest.isEmpty then return r else .error .shape
    | _ => .error .shape

end Fields

end RuleCodec
