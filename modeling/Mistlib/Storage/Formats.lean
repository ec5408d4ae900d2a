import Mathlib.Logic.Encodable.Basic
import Mathlib.Logic.Equiv.List
import Mistlib.Storage.Engine

/-!
# Formats known by some of their texts

The digest function and the two serialization formats belong to libraries, and a run on given
inputs uses each at a few values only. Here they are built from those values and any extension
that obeys the law.
-/

namespace Mistlib.Storage

open Async

variable {α : Type} {known : List (α × Bytes)}

theorem find_of_mem (h : (known.map Prod.snd).Nodup) {p : α × Bytes} (hp : p ∈ known) :
    known.find? (fun q => decide (q.2 = p.2)) = some p := by
  induction known with
  | nil => cases hp
  | cons q rest ih =>
    obtain ⟨hq, hrest⟩ := List.nodup_cons.mp h
    rcases List.mem_cons.mp hp with rfl | hp
    · simp
    · have hne : q.2 ≠ p.2 := by
        intro heq
        exact hq (heq ▸ List.mem_map_of_mem hp)
      rw [List.find?_cons_of_neg (by simpa using hne)]
      exact ih hrest hp

theorem mem_of_lookup [BEq α] [LawfulBEq α] {a : α} {text : Bytes} (h : known.lookup a = some text) :
    (a, text) ∈ known := by
  induction known with
  | nil => cases h
  | cons q rest ih =>
    obtain ⟨b, text'⟩ := q
    by_cases hb : a = b
    · subst hb
      rw [List.lookup_cons_self] at h
      cases h
      exact List.mem_cons_self
    · rw [List.lookup_cons, beq_false_of_ne hb] at h
      exact List.mem_cons_of_mem _ (ih h)

/-- A digest function with some of its values given. -/
def digestOf (known : List (Bytes × Bytes)) (data : Bytes) : Bytes :=
  match known.lookup data with
  | some digest => digest
  | none => List.replicate 33 0 ++ data

theorem digestOf_known {known : List (Bytes × Bytes)} {data digest : Bytes}
    (h : known.lookup data = some digest) : digestOf known data = digest := by
  unfold digestOf
  rw [h]

/-- A table of digests gives different texts different digests. -/
theorem digestOf_injective {known : List (Bytes × Bytes)} (hnodup : (known.map Prod.snd).Nodup)
    (hlength : ∀ p ∈ known, p.2.length = 32) : Function.Injective (digestOf known) := by
  intro data data' h
  unfold digestOf at h
  split at h
  · rename_i digest hdigest
    have hmem := mem_of_lookup hdigest
    split at h
    · rename_i digest' hdigest'
      subst h
      have hfound := find_of_mem hnodup hmem
      rw [find_of_mem hnodup (mem_of_lookup hdigest')] at hfound
      cases hfound
      rfl
    · have hlen := hlength _ hmem
      simp [h] at hlen
  · split at h
    · rename_i digest' hdigest'
      have hlen := hlength _ (mem_of_lookup hdigest')
      simp [← h] at hlen
    · exact List.append_cancel_left h

/-- A manifest format with some of its texts given. -/
def ManifestText.ofTexts (known : List (FileManifest × Bytes))
    (hnodup : (known.map Prod.snd).Nodup) : ManifestText where
  toVec manifest := match known.lookup manifest with
    | some text => .ok text
    | none => .error "no text is given for this manifest"
  fromSlice text := match known.find? fun q => decide (q.2 = text) with
    | some (manifest, _) => .ok manifest
    | none => .error "no manifest is given for this text"
  roundTrip := by
    intro manifest text h
    split at h
    · rename_i text' hlookup
      cases h
      simp only [find_of_mem hnodup (mem_of_lookup hlookup)]
    · cases h

def codes (text : String) : List Nat := text.toList.map Char.toNat

def ofCodes (numbers : List Nat) : String := String.ofList (numbers.map Char.ofNat)

theorem ofCodes_codes (text : String) : ofCodes (codes text) = text := by
  have hchar : Char.ofNat ∘ Char.toNat = id := funext Char.ofNat_toNat
  rw [ofCodes, codes, List.map_map, hchar, List.map_id, String.ofList_toList]

theorem map_ofCodes_codes (texts : List String) : (texts.map codes).map ofCodes = texts := by
  have hid : ofCodes ∘ codes = id := funext ofCodes_codes
  rw [List.map_map, hid, List.map_id]

instance (entries : List (Σ _ : Cid, List Cid)) : Decidable entries.NodupKeys :=
  inferInstanceAs (Decidable entries.keys.Nodup)

/-- The table with given entries, if they have one a key. -/
def tableOf (entries : List (Σ _ : Cid, List Cid)) : Option (Table Cid (List Cid)) :=
  if h : entries.NodupKeys then some ⟨entries, h⟩ else none

theorem tableOf_entries (t : Table Cid (List Cid)) : tableOf t.entries = some t := by
  have h : t.entries.NodupKeys := t.nodupKeys
  rw [tableOf, dif_pos h]
  rfl

/-- What determines a registry, as numbers. -/
def PinRegistry.key (r : PinRegistry) : Nat × List (List Nat × List (List Nat)) :=
  (r.v, r.roots.entries.map fun e => (codes e.1, e.2.map codes))

/-- The registry with a given key, if there is one. -/
def PinRegistry.ofKey (key : Nat × List (List Nat × List (List Nat))) : Option PinRegistry :=
  (tableOf (key.2.map fun e => ⟨ofCodes e.1, e.2.map ofCodes⟩)).map fun roots =>
    { v := key.1, roots }

theorem PinRegistry.ofKey_key (r : PinRegistry) : PinRegistry.ofKey r.key = some r := by
  have hentries : (r.roots.entries.map fun e => (codes e.1, e.2.map codes)).map
      (fun e => (⟨ofCodes e.1, e.2.map ofCodes⟩ : Σ _ : Cid, List Cid)) = r.roots.entries := by
    rw [List.map_map]
    refine (List.map_congr_left fun e _ => ?_).trans (List.map_id _)
    show (⟨ofCodes (codes e.1), (e.2.map codes).map ofCodes⟩ : Σ _ : Cid, List Cid) = e
    rw [ofCodes_codes, map_ofCodes_codes]
  rw [ofKey, key, hentries, tableOf_entries]
  rfl

/-- A registry format with some of its texts given. -/
def RegistryText.ofTexts (known : List (PinRegistry × Bytes))
    (hnodup : (known.map Prod.snd).Nodup) (hhead : ∀ p ∈ known, p.2.head? ≠ some 0) :
    RegistryText where
  print r := match known.lookup r with
    | some text => text
    | none => 0 :: List.replicate (Encodable.encode r.key) 0
  parse text := match known.find? fun q => decide (q.2 = text) with
    | some (r, _) => .ok r
    | none =>
      match (Encodable.decode (text.length - 1)).bind PinRegistry.ofKey with
      | some r => .ok r
      | none => .error "no registry is given for this text"
  roundTrip := by
    intro r
    refine ⟨r, ?_, .refl r⟩
    cases hlookup : known.lookup r with
    | some text => simp only [find_of_mem hnodup (mem_of_lookup hlookup)]
    | none =>
      have hnone : (known.find? fun q =>
          decide (q.2 = 0 :: List.replicate (Encodable.encode r.key) 0)) = none := by
        rw [List.find?_eq_none]
        intro q hq heq
        exact hhead q hq (by rw [of_decide_eq_true heq]; rfl)
      simp only [hnone, List.length_cons, List.length_replicate, Nat.add_sub_cancel,
        Encodable.encodek, Option.bind_some, PinRegistry.ofKey_key]

/-! ## Two small files -/

namespace Sample

def ascii (text : String) : Bytes := text.toList.map fun c => UInt8.ofNat c.toNat

/-- The content id of the chunk `[7]`. -/
def chunk : Cid := "bafkreigkgwdvr5wspzwpiutssn4xpj2i7wedshnwphhnu7ohx4pqaxxipe"

/-- The manifest of the file `f` with the one byte 7, and its root. -/
def file : FileManifest := { name := "f", size := 1, chunks := [chunk] }

def fileRoot : Cid := "bafyreibogkt4xe6muufmlvdjmawk7k6zj5yi2fhftcfpfk5mvadyeea26y"

/-- The manifest of an empty file without a name, and its root. -/
def bare : FileManifest := { name := "", size := 0, chunks := [] }

def bareRoot : Cid := "bafyreihrzw6kpzr56ram7vgaa4gp6wl6g6t6rz2k2mddj52ztr34xo2kka"

def fileText : Bytes :=
  [0xa3, 0x64] ++ ascii "name" ++ [0x61] ++ ascii "f" ++ [0x64] ++ ascii "size" ++ [0x01, 0x66] ++
    ascii "chunks" ++ [0x81, 0x78, 0x3b] ++ ascii chunk

def bareText : Bytes :=
  [0xa3, 0x64] ++ ascii "name" ++ [0x60, 0x64] ++ ascii "size" ++ [0x00, 0x66] ++
    ascii "chunks" ++ [0x80]

/-- The SHA-256 digests of the three blocks. -/
def digests : List (Bytes × Bytes) := [
  ([7], [0xca, 0x35, 0x87, 0x58, 0xf6, 0xd2, 0x7e, 0x6c, 0xf4, 0x52, 0x72, 0x93, 0x79, 0x77, 0xa7, 0x48,
    0xfd, 0x88, 0x39, 0x1d, 0xb6, 0x79, 0xce, 0xda, 0x7d, 0xc7, 0xbf, 0x1f, 0x00, 0x5e, 0xe8, 0x79]),
  (fileText, [0x2e, 0x32, 0xa7, 0xcb, 0x93, 0xcc, 0xa5, 0x0a, 0xc5, 0xd4, 0x69, 0x60, 0x2c, 0xaf, 0xab, 0xd9,
    0x4f, 0x70, 0x8d, 0x14, 0xe5, 0x98, 0x8a, 0xf2, 0xab, 0xac, 0xa8, 0x07, 0x82, 0x10, 0x1a, 0xf6]),
  (bareText, [0xf1, 0xcd, 0xbc, 0xa7, 0xe6, 0x3d, 0xf4, 0x40, 0xcf, 0xd4, 0xc0, 0x07, 0x0c, 0xff, 0x59, 0x7e,
    0x37, 0xa7, 0xe8, 0xe7, 0x4a, 0xd3, 0x06, 0x34, 0xf7, 0x59, 0x9c, 0x77, 0xcb, 0xbb, 0x4a, 0x50])]

/-- A registry in JSON. Content ids need no escapes. -/
def registryText (entries : List (Cid × List Cid)) : Bytes :=
  let quoted (text : Cid) : Bytes := ascii "\"" ++ ascii text ++ ascii "\""
  let entry (e : Cid × List Cid) : Bytes :=
    quoted e.1 ++ ascii ":[" ++ (ascii ",").intercalate (e.2.map quoted) ++ ascii "]"
  ascii "\x7b\"v\":1,\"roots\":\x7b" ++ (ascii ",").intercalate (entries.map entry) ++
    ascii "\x7d\x7d"

def registryOf (entries : List (Cid × List Cid)) : PinRegistry :=
  entries.foldr (fun e r => r.pin e.1 e.2) .new

/-- What a registry of the two files lists. -/
def registries : List (List (Cid × List Cid)) :=
  [[], [(fileRoot, [chunk, fileRoot])], [(bareRoot, [bareRoot])],
    [(fileRoot, [chunk, fileRoot]), (bareRoot, [bareRoot])],
    [(bareRoot, [bareRoot]), (fileRoot, [chunk, fileRoot])]]

/-- An engine that meets no blocks but those of the two files. -/
def setting (metaStore : Bool) : Setting where
  sha256 := digestOf digests
  manifests := .ofTexts [(file, fileText), (bare, bareText)] (by decide +kernel)
  registries := .ofTexts (registries.map fun entries => (registryOf entries, registryText entries))
    (by decide +kernel) (by decide +kernel)
  getConcurrency := 4
  metaStore
  positionSource := false

theorem sha256_injective (metaStore : Bool) : Function.Injective (setting metaStore).sha256 :=
  digestOf_injective (by decide +kernel) (by decide +kernel)

/-- Backends that do as they are told. The resolver finds the bare file. -/
def working : Circumstance where
  succeeds := true
  applied := true
  error := .internal ""
  resolved := some bareText
  positions := []
  scores := { first := fun _ _ => true, target := id, decays := fun _ _ _ => false }
  capacity := 1

def run (t : Tid) (n : Nat) (fresh : Tid) : List (Choice engineSig Circumstance) :=
  Choice.run t n working fresh

def serve (t : Tid) (n : Nat) (fresh : Tid) : List (Choice engineSig Circumstance) :=
  Choice.serve t n working fresh

end Sample

end Mistlib.Storage
