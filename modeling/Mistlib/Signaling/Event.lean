import Mistlib.Types

/-!
# Nostr events

Signaling over Nostr relays travels in signed events: a kind, a time, a list of tags and a
content. The id of an event is the digest of its canonical JSON text, and the scopes, ranks and
proofs in the tags are digests too. The digest function and the JSON encoder come in through
`Library`; what is taken from them is that a digest has 32 bytes.

Times are seconds since the epoch, with the saturating addition of the source.
-/

namespace Mistlib.Signaling

def U64_MAX : Nat := 2 ^ 64 - 1

def saturatingAdd (a b : Nat) : Nat := min (a + b) U64_MAX

/-! ## Texts of numbers -/

/-- `str::parse::<u64>`: digits with an optional plus sign, within 64 bits. -/
def parseU64 (text : String) : Option Nat :=
  let digits := match text.toList with
    | '+' :: rest => rest
    | chars => chars
  if digits.isEmpty || !digits.all Char.isDigit then none
  else
    let value := Nat.ofDigitChars 10 digits 0
    if value ≤ U64_MAX then some value else none

theorem parseU64_toString {n : Nat} (h : n ≤ U64_MAX) : parseU64 (toString n) = some n := by
  have hchars : (toString n).toList = Nat.toDigits 10 n := by
    rw [Nat.toString_eq_repr, Nat.repr, String.toList_ofList]
  have hdigits : ∀ c ∈ Nat.toDigits 10 n, c.isDigit = true := fun c hc =>
    Nat.isDigit_of_mem_toDigits (by decide) (by decide) hc
  have hsign : (match Nat.toDigits 10 n with
      | '+' :: rest => rest
      | chars => chars) = Nat.toDigits 10 n := by
    split
    · next rest heq =>
      have hplus := hdigits '+' (by rw [heq]; exact List.mem_cons_self)
      exact absurd hplus (by decide)
    · rfl
  have hne : (Nat.toDigits 10 n).isEmpty = false := by
    rw [List.isEmpty_eq_false_iff]
    exact Nat.toDigits_ne_nil
  have hall : (Nat.toDigits 10 n).all Char.isDigit = true := List.all_eq_true.mpr hdigits
  simp only [parseU64, hchars, hsign, hne, hall]
  rw [Nat.ofDigitChars_ten_toDigits, if_pos h]
  rfl

theorem toString_length {n : Nat} (h : n ≤ U64_MAX) : (toString n).toList.length ≤ 20 := by
  rw [Nat.toString_eq_repr, Nat.repr, String.toList_ofList,
    Nat.length_toDigits_le_iff (by decide) (by decide)]
  exact Nat.lt_of_le_of_lt h (by decide)

/-! ## Hexadecimal texts -/

def HEX : List Char := "0123456789abcdef".toList

def hexEncode (data : Bytes) : String :=
  String.ofList (data.flatMap fun byte =>
    [HEX.getD (byte.toNat / 16) '0', HEX.getD (byte.toNat % 16) '0'])

def isAsciiHexdigit (c : Char) : Bool :=
  c.isDigit || ('a' ≤ c && c ≤ 'f') || ('A' ≤ c && c ≤ 'F')

def isHexLen (value : String) (len : Nat) : Bool :=
  decide ((utf8 value).length = len) && value.toList.all isAsciiHexdigit

theorem hexDigit_spec {n : Nat} (h : n < 16) :
    isAsciiHexdigit (HEX.getD n '0') = true ∧ (HEX.getD n '0').utf8Size = 1 := by
  revert n
  decide

theorem utf8_ofList_length (chars : List Char) :
    (utf8 (String.ofList chars)).length = (chars.map Char.utf8Size).sum := by
  rw [utf8, String.toUTF8_eq_toByteArray, String.toByteArray_ofList, List.utf8Encode]
  induction chars with
  | nil => rfl
  | cons c chars ih => simp_all

theorem isHexLen_hexEncode (data : Bytes) : isHexLen (hexEncode data) (2 * data.length) = true := by
  have hbyte : ∀ byte : UInt8, byte.toNat / 16 < 16 := fun byte => by
    have := byte.toNat_lt
    omega
  have hlow : ∀ byte : UInt8, byte.toNat % 16 < 16 := fun byte => Nat.mod_lt _ (by decide)
  rw [isHexLen, hexEncode, utf8_ofList_length, String.toList_ofList, Bool.and_eq_true,
    decide_eq_true_iff]
  induction data with
  | nil => exact ⟨rfl, rfl⟩
  | cons byte data ih =>
    simp only [List.flatMap_cons, List.map_append, List.sum_append, List.all_append, ih.1, ih.2,
      List.map_cons, List.map_nil, List.sum_cons, List.sum_nil, List.all_cons, List.all_nil,
      (hexDigit_spec (hbyte byte)).1, (hexDigit_spec (hbyte byte)).2,
      (hexDigit_spec (hlow byte)).1, (hexDigit_spec (hlow byte)).2, List.length_cons]
    exact ⟨by omega, rfl⟩

theorem utf8_hexEncode_length (data : Bytes) : (utf8 (hexEncode data)).length = 2 * data.length := by
  have h := isHexLen_hexEncode data
  rw [isHexLen, Bool.and_eq_true, decide_eq_true_iff] at h
  exact h.1

/-! ## Events -/

structure NostrEvent where
  id : String
  pubkey : String
  createdAt : Nat
  kind : Nat
  tags : List (List String)
  content : String
  sig : String
deriving DecidableEq, Repr

/-- The libraries under the events: SHA-256, and the JSON text of an event's
key, time, kind, tags and content. -/
structure Library where
  sha256 : Bytes → Bytes
  sha256_length : ∀ data, (sha256 data).length = 32
  canonical : String → Nat → Nat → List (List String) → String → Bytes

/-- The sixteen bytes a random id is made of. -/
abbrev RandomBytes := { bytes : Bytes // bytes.length = 16 }

/-- `random_subscription_id`, with the bytes drawn. -/
def randomSubscriptionId (bytes : RandomBytes) : String := hexEncode bytes.1

namespace Library

variable (lib : Library)

def sha256Hex (data : Bytes) : String := hexEncode (lib.sha256 data)

theorem isHexLen_sha256Hex (data : Bytes) : isHexLen (lib.sha256Hex data) 64 = true := by
  have h := isHexLen_hexEncode (lib.sha256 data)
  rwa [lib.sha256_length] at h

theorem utf8_sha256Hex_length (data : Bytes) : (utf8 (lib.sha256Hex data)).length = 64 := by
  rw [sha256Hex, utf8_hexEncode_length, lib.sha256_length]

end Library

namespace NostrEvent

def refreshId (lib : Library) (event : NostrEvent) : NostrEvent :=
  { event with
    id := lib.sha256Hex
      (lib.canonical event.pubkey event.createdAt event.kind event.tags event.content) }

/-- A fresh event without a signature, made at time `now`. -/
def unsigned (lib : Library) (now : Nat) (pubkey : String) (kind : Nat)
    (tags : List (List String)) (content : String) : NostrEvent :=
  refreshId lib { id := "", pubkey, createdAt := now, kind, tags, content, sig := "" }

theorem isHexLen_unsigned_id {lib : Library} {now kind : Nat} {pubkey content : String}
    {tags : List (List String)} :
    isHexLen (unsigned lib now pubkey kind tags content).id 64 = true :=
  lib.isHexLen_sha256Hex _

def tagValue (event : NostrEvent) (name : String) : Option String :=
  event.tags.findSome? fun tag =>
    match tag with
    | first :: value :: _ => if first = name then some value else none
    | _ => none

def hasTagValue (event : NostrEvent) (name value : String) : Bool :=
  event.tags.any fun tag =>
    match tag with
    | first :: second :: _ => decide (first = name ∧ second = value)
    | _ => false

end NostrEvent

/-! ## The shape of an event -/

def MAX_NOSTR_SIGNALING_PLAINTEXT_BYTES : Nat := 64 * 1024
def MAX_NOSTR_EVENT_CONTENT_CHARS : Nat := 140 * 1024
def MAX_NOSTR_EVENT_TAGS : Nat := 32
def MAX_NOSTR_EVENT_TAG_FIELDS : Nat := 8
def MAX_NOSTR_EVENT_TAG_FIELD_CHARS : Nat := 2 * 1024

def validateTags : List (List String) → Except MistError Unit
  | [] => .ok ()
  | tag :: tags =>
    if tag.length > MAX_NOSTR_EVENT_TAG_FIELDS then .error (.signaling "too many Nostr tag fields")
    else if tag.any fun field => decide ((utf8 field).length > MAX_NOSTR_EVENT_TAG_FIELD_CHARS) then
      .error (.signaling "Nostr tag field is too large")
    else validateTags tags

def validateEventShape (event : NostrEvent) : Except MistError Unit :=
  if !isHexLen event.id 64 then .error (.signaling "invalid Nostr event id")
  else if !isHexLen event.pubkey 64 then .error (.signaling "invalid Nostr pubkey")
  else if !isHexLen event.sig 128 then .error (.signaling "invalid Nostr signature")
  else if (utf8 event.content).length > MAX_NOSTR_EVENT_CONTENT_CHARS then
    .error (.signaling "Nostr event content is too large")
  else if event.tags.length > MAX_NOSTR_EVENT_TAGS then .error (.signaling "too many Nostr tags")
  else validateTags event.tags

/-- A tag that passes `validateTags`. -/
def SmallTag (tag : List String) : Prop :=
  tag.length ≤ MAX_NOSTR_EVENT_TAG_FIELDS ∧
    ∀ field ∈ tag, (utf8 field).length ≤ MAX_NOSTR_EVENT_TAG_FIELD_CHARS

theorem validateTags_ok {tags : List (List String)} (h : ∀ tag ∈ tags, SmallTag tag) :
    validateTags tags = .ok () := by
  induction tags with
  | nil => rfl
  | cons tag tags ih =>
    obtain ⟨hfields, hchars⟩ := h tag List.mem_cons_self
    have hany : (tag.any fun field =>
        decide ((utf8 field).length > MAX_NOSTR_EVENT_TAG_FIELD_CHARS)) = false := by
      rw [List.any_eq_false]
      intro field hfield
      have := hchars field hfield
      simp only [decide_eq_true_eq]
      omega
    rw [validateTags, if_neg (by omega), hany, if_neg Bool.false_ne_true]
    exact ih fun tag htag => h tag (List.mem_cons_of_mem _ htag)

theorem validateEventShape_ok {event : NostrEvent} (hid : isHexLen event.id 64 = true)
    (hpubkey : isHexLen event.pubkey 64 = true) (hsig : isHexLen event.sig 128 = true)
    (hcontent : (utf8 event.content).length ≤ MAX_NOSTR_EVENT_CONTENT_CHARS)
    (hlength : event.tags.length ≤ MAX_NOSTR_EVENT_TAGS)
    (hsmall : ∀ tag ∈ event.tags, SmallTag tag) : validateEventShape event = .ok () := by
  rw [validateEventShape, hid, hpubkey, hsig, if_neg (by decide), if_neg (by decide),
    if_neg (by decide), if_neg (Nat.not_lt.mpr hcontent), if_neg (Nat.not_lt.mpr hlength)]
  exact validateTags_ok hsmall

end Mistlib.Signaling
