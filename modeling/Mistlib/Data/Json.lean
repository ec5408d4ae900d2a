import Mathlib.Algebra.Ring.Nat
import Mathlib.Data.List.Nodup

/-!
# JSON values and the records read from them

A value is what the text of a document says, with the entries of an object in order: a repeated
key is there twice. Floats are an arbitrary type, into which an integer may be cast.

A record is read from an object with each of its fields at most once and any other key passed
over or refused, or from an array with the fields in order. A codec writes a value and reads it
back.
-/

inductive Json (F : Type) where
  | null
  | bool (b : Bool)
  | natural (n : UInt64)
  | negative (n : Int)
  | float (x : F)
  | string (s : String)
  | array (values : List (Json F))
  | object (entries : List (String × Json F))

namespace Json

variable {F α : Type}

/-! ## Codecs -/

/-- Written values are read back, and none of them is `null`. -/
structure Codec (F α : Type) where
  encode : α → Json F
  decode : Json F → Option α
  decode_encode : ∀ a, decode (encode a) = some a
  encode_ne_null : ∀ a, encode a ≠ .null

namespace Codec

attribute [simp] decode_encode

def bool : Codec F Bool where
  encode := .bool
  decode
    | .bool b => some b
    | _ => none
  decode_encode _ := rfl
  encode_ne_null _ := nofun

def string : Codec F String where
  encode := .string
  decode
    | .string s => some s
    | _ => none
  decode_encode _ := rfl
  encode_ne_null _ := nofun

def u64 : Codec F UInt64 where
  encode := .natural
  decode
    | .natural n => some n
    | _ => none
  decode_encode _ := rfl
  encode_ne_null _ := nofun

def u32 : Codec F UInt32 where
  encode n := .natural n.toUInt64
  decode
    | .natural n => if n.toNat < 2 ^ 32 then some n.toUInt32 else none
    | _ => none
  decode_encode n := by
    have hlt : n.toUInt64.toNat < 2 ^ 32 := n.toNat_lt
    simp only [if_pos hlt, UInt32.toUInt32_toUInt64]
  encode_ne_null _ := nofun

/-- An integer is read as a float, too. -/
def float [IntCast F] : Codec F F where
  encode := .float
  decode
    | .float x => some x
    | .natural n => some (n.toNat : Int)
    | .negative n => some n
    | _ => none
  decode_encode _ := rfl
  encode_ne_null _ := nofun

def list (c : Codec F α) : Codec F (List α) where
  encode as := .array (as.map c.encode)
  decode
    | .array values => values.mapM c.decode
    | _ => none
  decode_encode as := by
    induction as with
    | nil => rfl
    | cons a as ih =>
      simp only [List.map_cons, List.mapM_cons, decode_encode, ih]
      rfl
  encode_ne_null _ := nofun

/-- An enumeration without data, by the names of its variants. A variant is read
from its name, or from an object with the name alone and no content. -/
def unitVariant (variants : List (String × α)) (name : α → String)
    (names : ∀ a, variants.lookup (name a) = some a) : Codec F α where
  encode a := .string (name a)
  decode
    | .string s | .object [(s, .null)] => variants.lookup s
    | _ => none
  decode_encode := names
  encode_ne_null _ := nofun

end Codec

/-- `null` for nothing. -/
def encodeOption (c : Codec F α) : Option α → Json F
  | none => .null
  | some a => c.encode a

def decodeOption (decode : Json F → Option α) : Json F → Option (Option α)
  | .null => some none
  | j => (decode j).map some

@[simp] theorem decodeOption_encodeOption (c : Codec F α) (o : Option α) :
    decodeOption c.decode (encodeOption c o) = some o := by
  cases o with
  | none => rfl
  | some a =>
    have hnull := c.encode_ne_null a
    rw [encodeOption, decodeOption, c.decode_encode, Option.map_some]
    exact hnull

/-! ## Records -/

/-- What there is for a field: a value, nothing in an object, or nothing in an
array that is too short. -/
inductive Slot (F : Type) where
  | given (value : Json F)
  | missing
  | short

namespace Slot

variable (decode : Json F → Option α)

def required : Slot F → Option α
  | .given value => decode value
  | _ => none

def defaulted (default : α) : Slot F → Option α
  | .given value => decode value
  | _ => some default

/-- A field that may be `null`, or left out of an object. -/
def optional : Slot F → Option (Option α)
  | .given value => decodeOption decode value
  | .missing => some none
  | .short => none

@[simp] theorem required_given (j : Json F) : required decode (.given j) = decode j := rfl

@[simp] theorem required_missing : required decode (.missing : Slot F) = none := rfl

@[simp] theorem defaulted_given (default : α) (j : Json F) :
    defaulted decode default (.given j) = decode j := rfl

@[simp] theorem defaulted_missing (default : α) :
    defaulted decode default (.missing : Slot F) = some default := rfl

@[simp] theorem optional_given (j : Json F) : optional decode (.given j) = decodeOption decode j := rfl

end Slot

/-- The entry of an object that a field has. -/
def entry (entries : List (String × Json F)) (name : String) : Slot F :=
  match entries.lookup name with
  | some value => .given value
  | none => .missing

def keys (entries : List (String × Json F)) : List String := entries.map (·.1)

/-- The slots of the fields of a record. -/
def record (names : List String) (denyUnknown : Bool) : Json F → Option (String → Slot F)
  | .object entries =>
    if ((keys entries).filter (· ∈ names)).Nodup ∧
        (denyUnknown = true → ∀ key ∈ keys entries, key ∈ names) then
      some (entry entries)
    else none
  | .array values =>
    if values.length ≤ names.length then
      some fun name =>
        match values[names.idxOf name]? with
        | some value => .given value
        | none => .short
    else none
  | _ => none

variable {entries : List (String × Json F)}

/-- A lenient record takes any object that repeats no key. -/
theorem record_lenient {names : List String} (h : (keys entries).Nodup) :
    record names false (.object entries) = some (entry entries) :=
  if_pos ⟨h.filter _, nofun⟩

theorem record_strict {names : List String} (hkeys : keys entries = names) (h : names.Nodup) :
    record names true (.object entries) = some (entry entries) := by
  subst hkeys
  exact if_pos ⟨h.filter _, fun _ _ hkey => hkey⟩

@[simp] theorem entry_cons (key name : String) (value : Json F) (entries : List (String × Json F)) :
    entry ((key, value) :: entries) name = if name = key then .given value else entry entries name := by
  unfold entry
  rw [List.lookup_cons]
  by_cases h : name = key
  · simp [h]
  · rw [beq_false_of_ne h, if_neg h]

@[simp] theorem entry_nil (name : String) : entry ([] : List (String × Json F)) name = .missing := rfl

theorem bind_optional_entry {α β : Type} {name : String} {c : Codec F α} {o : Option α}
    {rest : Option α → Option β} (h : entry entries name = .given (encodeOption c o)) :
    ((entry entries name).optional c.decode).bind rest = rest o := by
  rw [h, Slot.optional_given, decodeOption_encodeOption, Option.bind_some]

/-! ## Texts -/

section Render

def escape (c : Char) : List Char :=
  if c = '"' then ['\\', '"']
  else if c = '\\' then ['\\', '\\']
  else if c = '\n' then ['\\', 'n']
  else if c = '\r' then ['\\', 'r']
  else if c = '\t' then ['\\', 't']
  else [c]

def quote (s : String) : List Char := '"' :: s.toList.flatMap escape ++ ['"']

variable (number : F → List Char)

mutual

/-- A value as the compact formatter writes it. Its texts have no control
characters but those that are escaped here. -/
def render : Json F → List Char
  | .null => "null".toList
  | .bool b => (if b then "true" else "false").toList
  | .natural n => (toString n.toNat).toList
  | .negative n => (toString n).toList
  | .float x => number x
  | .string s => quote s
  | .array values => '[' :: renderValues values ++ [']']
  | .object entries => '\x7b' :: renderEntries entries ++ ['\x7d']

def renderValues : List (Json F) → List Char
  | [] => []
  | [value] => render value
  | value :: values => render value ++ ',' :: renderValues values

def renderEntries : List (String × Json F) → List Char
  | [] => []
  | [(key, value)] => quote key ++ ':' :: render value
  | (key, value) :: entries => quote key ++ ':' :: render value ++ ',' :: renderEntries entries

end

end Render

end Json
