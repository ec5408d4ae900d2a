import Mistlib.Data.ByteBits
import Mistlib.Storage.Formats

/-!
# Reading content ids

`cid_codec` reads the codec out of a content id and rejects every text that `compute_cid` would
not have written for some digest. What such a text is, is said here without the code: `base32`
cuts the bits of the envelope into words of five, and `MinimalVarint` is the shortest form of a
number. The encoder is shown to compute just that, and the parser to accept nothing else.

What the two rely on of the varint library is that it writes the minimal varint of a `u64`, and
takes that and no other bytes.
-/

namespace Mistlib.Storage

open BitString

/-! ## The grammar -/

/-- The shortest varint of a number: seven bits a byte, the lowest first, a
high bit on all bytes but the last, and no last byte that adds nothing. -/
inductive MinimalVarint : Nat → Bytes → Prop where
  | last {n : Nat} (h : n < 128) : MinimalVarint n [UInt8.ofNat n]
  | more {low n : Nat} {bytes : Bytes} (hlow : low < 128) (hpos : 0 < n)
      (h : MinimalVarint n bytes) :
      MinimalVarint (low + 128 * n) (UInt8.ofNat (low + 128) :: bytes)

def letter (word : List Bool) : Char := ALPHABET.getD (valueOf word) 'a'

/-- Lower-case base 32 without padding. -/
def base32 (data : Bytes) : String :=
  String.ofList ((groups 5 (padded 5 (byteBits data))).map letter)

/-- The envelope of a content id: version 1, the codec, and a SHA-256 digest
of 32 bytes. -/
def envelope (varint digest : Bytes) : Bytes := 0x01 :: (varint ++ 0x12 :: 0x20 :: digest)

/-- A text is the content id of this codec and this digest. -/
def Spells (cid : Cid) (codec : Nat) (digest : Bytes) : Prop :=
  codec < 2 ^ 64 ∧ digest.length = 32 ∧
    ∃ varint, MinimalVarint codec varint ∧ cid = "b" ++ base32 (envelope varint digest)

/-! ## The parser -/

/-- The library of unsigned varints. It writes a number of 64 bits in the shortest form, and reads
one, and the bytes after it, in that form only. -/
structure UnsignedVarint where
  encode : Nat → Bytes
  encode_minimal : ∀ value < 2 ^ 64, MinimalVarint value (encode value)
  decode : Bytes → Option (Nat × Bytes)
  decode_iff : ∀ bytes value rest, decode bytes = some (value, rest) ↔
    value < 2 ^ 64 ∧ ∃ varint, MinimalVarint value varint ∧ bytes = varint ++ rest

def symbolValue (byte : UInt8) : Option Nat :=
  if 97 ≤ byte ∧ byte ≤ 122 then some (byte.toNat - 97)
  else if 50 ≤ byte ∧ byte ≤ 55 then some (byte.toNat - 50 + 26)
  else none

/-- The decoder's loop over the symbols. The buffer is a `u32` whose high
bits fall off. -/
def decodeLoop (buffer bits : Nat) : Bytes → Option Bytes
  | [] => some []
  | byte :: rest => do
    let value ← symbolValue byte
    let buffer := ((buffer <<< 5) ||| value) % 2 ^ 32
    let bits := bits + 5
    if bits ≥ 8 then
      let decoded ← decodeLoop buffer (bits - 8) rest
      some (UInt8.ofNat (buffer >>> (bits - 8)) :: decoded)
    else decodeLoop buffer bits rest

namespace UnsignedVarint

variable (v : UnsignedVarint)

/-- `compute_cid`, over the library's encoder. -/
def computeCid (sha256 : Bytes → Bytes) (data : Bytes) (codec : Nat) : Cid :=
  "b" ++ base32lowerEncode (v.encode CID_VERSION ++ v.encode codec ++ v.encode MULTIHASH_SHA2_256 ++
    [MULTIHASH_SHA2_256_LEN] ++ sha256 data)

/-- The codec and the digest of an envelope. -/
def openEnvelope (decoded : Bytes) : Option (Nat × Bytes) := do
  let (version, rest) ← v.decode decoded
  let (codec, rest) ← v.decode rest
  let (hash, rest) ← v.decode rest
  let (length, digest) ← v.decode rest
  if version = CID_VERSION ∧ hash = MULTIHASH_SHA2_256 ∧
      length = MULTIHASH_SHA2_256_LEN.toNat ∧ digest.length = MULTIHASH_SHA2_256_LEN.toNat then
    some (codec, digest)
  else none

/-- What `cid_codec` reads of a content id. -/
def cidParts (cid : Cid) : Option (Nat × Bytes) :=
  if isValidCid cid then do
    let decoded ← decodeLoop 0 0 ((utf8 cid).drop 1)
    -- Canonical encoding also rejects nonzero padding and extra trailing symbols.
    if utf8 (base32lowerEncode decoded) ≠ (utf8 cid).drop 1 then none
    else v.openEnvelope decoded
  else none

def cidCodec (cid : Cid) : Option Nat := (v.cidParts cid).map Prod.fst

end UnsignedVarint

/-! ## Varints -/

variable {n : Nat} {bytes : Bytes}

theorem MinimalVarint.small (h : MinimalVarint n bytes) (hn : n < 128) : bytes = [UInt8.ofNat n] := by
  cases h with
  | last _ => rfl
  | more hlow hpos _ => omega

theorem MinimalVarint.unique {bytes' : Bytes} (h : MinimalVarint n bytes) (h' : MinimalVarint n bytes') :
    bytes = bytes' := by
  induction h generalizing bytes' with
  | last hn => exact (h'.small hn).symm
  | @more low n bytes hlow hpos h ih =>
    generalize hm : low + 128 * n = m at h'
    cases h' with
    | last hsmall => omega
    | @more low' n' bytes' hlow' _ h' =>
      obtain rfl : low = low' := by omega
      obtain rfl : n = n' := by omega
      rw [ih h']

theorem MinimalVarint.length_le (h : MinimalVarint n bytes) (hn : n < 2 ^ 64) : bytes.length ≤ 10 := by
  obtain ⟨k, hlength, hk⟩ : ∃ k, bytes.length = k + 1 ∧ (k = 0 ∨ 128 ^ k ≤ n) := by
    clear hn
    induction h with
    | last _ => exact ⟨0, rfl, .inl rfl⟩
    | @more low n bytes _ hpos _ ih =>
      obtain ⟨k, hlength, hk⟩ := ih
      refine ⟨k + 1, by rw [List.length_cons, hlength], .inr ?_⟩
      rcases hk with rfl | hk
      · rw [Nat.pow_one]
        omega
      · rw [Nat.pow_succ, Nat.mul_comm]
        exact Nat.le_trans (Nat.mul_le_mul_left _ hk) (Nat.le_add_left _ _)
  rcases hk with rfl | hk
  · omega
  · by_contra hlong
    have hpow : 128 ^ 10 ≤ 128 ^ k := Nat.pow_le_pow_right (by decide) (by omega)
    have hconst : 2 ^ 64 ≤ 128 ^ 10 := by decide
    omega

theorem varintBytes_minimal {room value : Nat} (h : value < 128 ^ room) (hroom : 0 < room) :
    MinimalVarint value (varintBytes room value) := by
  fun_induction varintBytes room value with
  | case1 value => omega
  | case2 room value hsmall => exact .last hsmall
  | case3 room value hbig ih =>
    have hroom' : 0 < room := by
      by_contra hzero
      obtain rfl : room = 0 := by omega
      have hone : value < 128 ^ 1 := h
      rw [Nat.pow_one] at hone
      omega
    have hrest := ih (by rw [Nat.pow_succ] at h; omega) hroom'
    have hsplit : value = value % 128 + 128 * (value / 128) := by omega
    conv => left; rw [hsplit]
    exact .more (Nat.mod_lt _ (by decide)) (by omega) hrest

theorem encodeVarint_minimal {value : Nat} (h : value < 2 ^ 64) :
    MinimalVarint value (encodeVarint value) :=
  varintBytes_minimal (Nat.lt_of_lt_of_le h (by decide)) (by decide)

/-! ## The encoder computes base 32 -/

theorem letter_bitsOf (n : Nat) : letter (bitsOf 5 n) = symbol n := by
  rw [letter, symbol, valueOf_bitsOf]
  exact congrArg (ALPHABET.getD · 'a') (Nat.and_two_pow_sub_one_eq_mod n 5).symm

theorem emit_words (buffer n : Nat) (rest : List Bool) :
    (emit buffer n).1 ++ (groups 5 (padded 5 (bitsOf (n % 5) buffer ++ rest))).map letter =
      (groups 5 (padded 5 (bitsOf n buffer ++ rest))).map letter := by
  fun_induction emit buffer n with
  | case1 n out left heq ih =>
    rw [heq] at ih
    have hword : (bitsOf 5 (buffer >>> n)).length = 5 := length_bitsOf _ _
    change symbol (buffer >>> n) :: out ++
        (groups 5 (padded 5 (bitsOf ((n + 5) % 5) buffer ++ rest))).map letter =
      (groups 5 (padded 5 (bitsOf (n + 5) buffer ++ rest))).map letter
    rw [Nat.add_comm n 5, bitsOf_add, List.append_assoc, padded_append hword,
      groups_append (by decide) hword, List.map_cons, letter_bitsOf, Nat.add_mod_left,
      List.cons_append, ← ih]
  | case2 n hsmall =>
    have hlt : n < 5 := by
      by_contra hge
      exact hsmall (n - 5) (by omega)
    rw [Nat.mod_eq_of_lt hlt, List.nil_append]

variable (data : Bytes)

theorem base32Loop_words {buffer left : Nat} (hleft : left < 5) : base32Loop buffer left data =
      (groups 5 (padded 5 (bitsOf left buffer ++ byteBits data))).map letter := by
  induction data generalizing buffer left with
  | nil =>
    rw [base32Loop, byteBits, List.flatMap_nil, List.append_nil]
    by_cases hpos : left > 0
    · have hpad : padded 5 (bitsOf left buffer) = bitsOf 5 (buffer <<< (5 - left)) ++ [] := by
        have hwidth : left + (5 - left) = 5 := by omega
        rw [padded, length_bitsOf, Nat.mod_eq_of_lt hleft, Nat.mod_eq_of_lt (by omega),
          ← bitsOf_shiftLeft, hwidth, List.append_nil]
      rw [if_pos hpos, hpad, groups_append (by decide) (length_bitsOf _ _),
        groups_short (by decide), List.map_cons, List.map_nil, letter_bitsOf]
    · obtain rfl : left = 0 := by omega
      have hnone : padded 5 (bitsOf 0 buffer) = [] := by simp [bitsOf, padded]
      rw [if_neg hpos, hnone, groups_short (by decide), List.map_nil]
  | cons byte rest ih =>
    have hbits : bitsOf (left + 8) (((buffer <<< 8) ||| byte.toNat) % 2 ^ 64) =
        bitsOf left buffer ++ bitsOf 8 byte.toNat := by
      rw [bitsOf_mod (by omega), bitsOf_push _ byte.toNat_lt]
    have hwords := emit_words (((buffer <<< 8) ||| byte.toNat) % 2 ^ 64) (left + 8) (byteBits rest)
    rw [hbits, List.append_assoc] at hwords
    rw [base32Loop]
    simp only
    rw [emit_left, ih (Nat.mod_lt _ (by decide)), hwords]
    rfl

theorem base32lowerEncode_eq : base32lowerEncode data = base32 data := by
  rw [base32lowerEncode, base32Loop_words data (by decide)]
  rfl

/-! ## The letters -/

theorem letter_code (x : Nat) (h : x < 32) :
    ∃ code, String.utf8EncodeChar (ALPHABET.getD x 'a') = [code] ∧ symbolValue code = some x ∧
      ((97 ≤ code && code ≤ 122) || (50 ≤ code && code ≤ 55)) = true := by
  have hall : ∀ x < 32, String.utf8EncodeChar (ALPHABET.getD x 'a') =
        [(ALPHABET.getD x 'a').val.toUInt8] ∧
      symbolValue (ALPHABET.getD x 'a').val.toUInt8 = some x ∧
      ((97 ≤ (ALPHABET.getD x 'a').val.toUInt8 && (ALPHABET.getD x 'a').val.toUInt8 ≤ 122) ||
        (50 ≤ (ALPHABET.getD x 'a').val.toUInt8 && (ALPHABET.getD x 'a').val.toUInt8 ≤ 55)) =
        true := by decide +kernel
  exact ⟨_, hall x h⟩

theorem word_code {word : List Bool} (hword : word.length = 5) :
    ∃ code, String.utf8EncodeChar (letter word) = [code] ∧ symbolValue code = some (valueOf word) ∧
      ((97 ≤ code && code ≤ 122) || (50 ≤ code && code ≤ 55)) = true := by
  have hlt := valueOf_lt word
  rw [hword] at hlt
  exact letter_code _ hlt

theorem utf8_multibase :
    utf8 ("b" ++ base32 data) = 98 :: (groups 5 (padded 5 (byteBits data))).flatMap
      fun word => String.utf8EncodeChar (letter word) := by
  have hb : utf8 "b" = [98] := by decide +kernel
  rw [utf8_append, hb, base32, utf8_ofList, List.flatMap_map]
  rfl

/-! ## Decoding gives the bytes back -/

/-- The decoder's loop cuts the bits of the buffer and of the symbols into bytes. -/
theorem decodeLoop_words (words : List (List Bool)) (hwords : ∀ word ∈ words, word.length = 5)
    {buffer bits : Nat} (hbits : bits < 8) :
    decodeLoop buffer bits (words.flatMap fun word => String.utf8EncodeChar (letter word)) =
      some ((groups 8 (bitsOf bits buffer ++ words.flatten)).map fun word =>
        UInt8.ofNat (valueOf word)) := by
  induction words generalizing buffer bits with
  | nil =>
    rw [List.flatMap_nil, decodeLoop, List.flatten_nil, List.append_nil,
      groups_short (by rwa [length_bitsOf]), List.map_nil]
  | cons word words ih =>
    have hword := hwords word List.mem_cons_self
    have hrest := fun w hw => hwords w (List.mem_cons_of_mem _ hw)
    obtain ⟨code, hcode, hvalue, _⟩ := word_code hword
    have hlt : valueOf word < 2 ^ 5 := hword ▸ valueOf_lt word
    have hpushed : bitsOf (bits + 5) (((buffer <<< 5) ||| valueOf word) % 2 ^ 32) =
        bitsOf bits buffer ++ word := by
      rw [bitsOf_mod (by omega), bitsOf_push _ hlt, ← hword, bitsOf_valueOf]
    rw [List.flatMap_cons, hcode, List.cons_append, List.nil_append, decodeLoop, hvalue,
      List.flatten_cons, ← List.append_assoc, ← hpushed]
    simp only [bind, Option.bind_some]
    generalize ((buffer <<< 5) ||| valueOf word) % 2 ^ 32 = pushed
    split
    · next hfull =>
      have hwidth : bits + 5 = 8 + (bits + 5 - 8) := by omega
      have hbyte : UInt8.ofNat (valueOf (bitsOf 8 (pushed >>> (bits + 5 - 8)))) =
          UInt8.ofNat (pushed >>> (bits + 5 - 8)) := by
        rw [valueOf_bitsOf]
        apply UInt8.toNat_inj.mp
        rw [UInt8.toNat_ofNat', UInt8.toNat_ofNat', Nat.mod_mod]
      rw [ih hrest (by omega), Option.bind_some]
      conv => rhs; rw [hwidth, bitsOf_add, List.append_assoc]
      rw [groups_append (by decide) (length_bitsOf _ _), List.map_cons, hbyte]
    · next hshort => exact ih hrest (by omega)

theorem groups_padded :
    groups 8 (padded 5 (byteBits data)) = data.map fun byte => bitsOf 8 byte.toNat := by
  refine groups_flatMap (by decide) (fun byte => length_bitsOf _ _) data ?_
  rw [List.length_replicate]
  exact Nat.lt_of_lt_of_le (Nat.mod_lt _ (by decide)) (by decide)

theorem decodeLoop_base32 : decodeLoop 0 0 ((utf8 ("b" ++ base32 data)).drop 1) = some data := by
  have hdvd : 5 ∣ (padded 5 (byteBits data)).length := by
    rw [length_padded (by decide)]
    exact Nat.dvd_mul_left _ _
  rw [utf8_multibase, List.drop_one, List.tail_cons,
    decodeLoop_words _ (fun word hword => length_of_mem_groups hword) (by decide),
    flatten_groups hdvd]
  have hbyte : (fun word => UInt8.ofNat (valueOf word)) ∘ (fun byte : UInt8 => bitsOf 8 byte.toNat) =
      id := by
    funext byte
    rw [Function.comp_apply, valueOf_bitsOf, Nat.mod_eq_of_lt byte.toNat_lt, UInt8.ofNat_toNat]
    rfl
  rw [bitsOf, List.nil_append, groups_padded, List.map_map, hbyte, List.map_id]

/-! ## What passes the validity check -/

theorem isValidCid_multibase {data : Bytes} (hpos : 0 < data.length) (hlen : data.length ≤ 79) :
    isValidCid ("b" ++ base32 data) = true := by
  have hwords : ∀ words : List (List Bool), (∀ word ∈ words, word.length = 5) →
      (words.flatMap fun word => String.utf8EncodeChar (letter word)).length = words.length ∧
      (words.flatMap fun word => String.utf8EncodeChar (letter word)).all
        (fun code => (97 ≤ code && code ≤ 122) || (50 ≤ code && code ≤ 55)) = true := by
    intro words
    induction words with
    | nil => exact fun _ => ⟨rfl, rfl⟩
    | cons word words ih =>
      intro hall
      obtain ⟨code, hcode, _, hrange⟩ := word_code (hall word List.mem_cons_self)
      obtain ⟨hlength, hrest⟩ := ih fun w hw => hall w (List.mem_cons_of_mem _ hw)
      rw [List.flatMap_cons, hcode, List.cons_append, List.nil_append]
      exact ⟨by rw [List.length_cons, hlength, List.length_cons], by rw [List.all_cons, hrange, hrest]; rfl⟩
  obtain ⟨hlength, hall⟩ :=
    hwords (groups 5 (padded 5 (byteBits data))) fun word hword => length_of_mem_groups hword
  rw [length_groups, length_padded (by decide), byteBits_length,
    Nat.mul_div_cancel _ (by decide)] at hlength
  have hconst : MAX_CID_LEN = 128 := rfl
  simp only [isValidCid, utf8_multibase, hlength]
  rw [if_neg (by simp only [Bool.or_eq_true, decide_eq_true_eq]; omega), if_neg (by decide)]
  exact hall

/-! ## The parser accepts the grammar -/

namespace UnsignedVarint

variable (v : UnsignedVarint)

theorem encode_eq {value : Nat} (h : value < 2 ^ 64) : v.encode value = encodeVarint value :=
  (v.encode_minimal value h).unique (encodeVarint_minimal h)

/-- The content ids of the storage layer are those of any encoder that the library may be. -/
theorem computeCid_eq (sha256 : Bytes → Bytes) (data : Bytes) {codec : Nat} (hcodec : codec < 2 ^ 64) :
    v.computeCid sha256 data codec = Storage.computeCid sha256 data codec := by
  rw [computeCid, Storage.computeCid, v.encode_eq hcodec, v.encode_eq (by decide), v.encode_eq (by decide)]

theorem decode_small {bytes rest : Bytes} {n : Nat} (hn : n < 128) :
    v.decode bytes = some (n, rest) ↔ bytes = UInt8.ofNat n :: rest := by
  rw [v.decode_iff]
  constructor
  · rintro ⟨_, varint, hvarint, rfl⟩
    rw [hvarint.small hn]
    rfl
  · rintro rfl
    exact ⟨Nat.lt_trans hn (by decide), [UInt8.ofNat n], .last hn, rfl⟩

theorem openEnvelope_iff {decoded : Bytes} {codec : Nat} {digest : Bytes} :
    v.openEnvelope decoded = some (codec, digest) ↔
      codec < 2 ^ 64 ∧ digest.length = 32 ∧
        ∃ varint, MinimalVarint codec varint ∧ decoded = envelope varint digest := by
  simp only [openEnvelope, Option.bind_eq_bind, Option.bind_eq_some_iff, Prod.exists,
    Option.ite_none_right_eq_some, Option.some.injEq, Prod.mk.injEq]
  constructor
  · rintro ⟨version, rest₁, hversion, codec', rest₂, hcodec, hash, rest₃, hhash, length, digest',
      hlength, ⟨rfl, rfl, rfl, hdigest⟩, rfl, rfl⟩
    obtain ⟨hlt, varint, hvarint, rfl⟩ := (v.decode_iff _ _ _).mp hcodec
    refine ⟨hlt, hdigest, varint, hvarint, ?_⟩
    rw [(v.decode_small (by decide)).mp hversion, (v.decode_small (by decide)).mp hhash,
      (v.decode_small (by decide)).mp hlength]
    rfl
  · rintro ⟨hlt, hdigest, varint, hvarint, rfl⟩
    have hversion : v.decode (envelope varint digest) =
        some (CID_VERSION, varint ++ 0x12 :: 0x20 :: digest) :=
      (v.decode_small (by decide)).mpr rfl
    have hcodec : v.decode (varint ++ 0x12 :: 0x20 :: digest) =
        some (codec, 0x12 :: 0x20 :: digest) :=
      (v.decode_iff _ _ _).mpr ⟨hlt, varint, hvarint, rfl⟩
    have hhash : v.decode (0x12 :: 0x20 :: digest) = some (MULTIHASH_SHA2_256, 0x20 :: digest) :=
      (v.decode_small (by decide)).mpr rfl
    have hlength : v.decode (0x20 :: digest) = some (MULTIHASH_SHA2_256_LEN.toNat, digest) :=
      (v.decode_small (by decide)).mpr rfl
    exact ⟨_, _, hversion, _, _, hcodec, _, _, hhash, _, _, hlength, ⟨rfl, rfl, rfl, hdigest⟩, rfl,
      rfl⟩

/-- The parser reads a codec and a digest off a text exactly when the text
spells them. -/
theorem cidParts_iff {cid : Cid} {codec : Nat} {digest : Bytes} :
    v.cidParts cid = some (codec, digest) ↔ Spells cid codec digest := by
  unfold cidParts
  constructor
  · intro h
    split at h
    · next hvalid =>
      obtain ⟨decoded, _, h⟩ := Option.bind_eq_some_iff.mp h
      split at h
      · cases h
      · next hcanonical =>
        obtain ⟨hlt, hdigest, varint, hvarint, rfl⟩ := v.openEnvelope_iff.mp h
        refine ⟨hlt, hdigest, varint, hvarint, utf8_injective ?_⟩
        have hhead : utf8 cid = 98 :: (utf8 cid).drop 1 := by
          unfold isValidCid at hvalid
          split at hvalid
          · cases hvalid
          · next first rest hutf =>
            rw [hutf]
            split_ifs at hvalid with _ hfirst
            have hfirst' : first = 98 := by simpa using hfirst
            rw [hfirst', List.drop_one, List.tail_cons]
        rw [hhead, ← not_ne_iff.mp hcanonical, base32lowerEncode_eq, utf8_append]
        rfl
    · cases h
  · rintro ⟨hlt, hdigest, varint, hvarint, rfl⟩
    have hlength : (envelope varint digest).length = varint.length + 35 := by
      simp only [envelope, List.length_cons, List.length_append, hdigest]
    have hshort := hvarint.length_le hlt
    rw [if_pos (isValidCid_multibase (by omega) (by omega)), decodeLoop_base32]
    simp only [bind, Option.bind_some]
    rw [if_neg, v.openEnvelope_iff.mpr ⟨hlt, hdigest, varint, hvarint, rfl⟩]
    rw [base32lowerEncode_eq, utf8_append]
    exact fun hne => hne rfl

end UnsignedVarint

variable {codec : Nat}

theorem computeCid_spells {sha256 : Bytes → Bytes} (hsha : ∀ data, (sha256 data).length = 32)
    (data : Bytes) (hcodec : codec < 2 ^ 64) :
    Spells (computeCid sha256 data codec) codec (sha256 data) := by
  refine ⟨hcodec, hsha data, encodeVarint codec, encodeVarint_minimal hcodec, ?_⟩
  rw [computeCid, base32lowerEncode_eq]
  have hbytes : encodeVarint CID_VERSION ++ encodeVarint codec ++ encodeVarint MULTIHASH_SHA2_256 ++
      [MULTIHASH_SHA2_256_LEN] ++ sha256 data = envelope (encodeVarint codec) (sha256 data) := by
    simp only [envelope, List.append_assoc]
    rfl
  rw [hbytes]

theorem Spells.valid {cid : Cid} {digest : Bytes} (h : Spells cid codec digest) :
    isValidCid cid = true := by
  obtain ⟨hlt, hdigest, varint, hvarint, rfl⟩ := h
  have hlength : (envelope varint digest).length = varint.length + 35 := by
    simp only [envelope, List.length_cons, List.length_append, hdigest]
  have hshort := hvarint.length_le hlt
  exact isValidCid_multibase (by omega) (by omega)

theorem Spells.unique {cid cid' : Cid} {digest : Bytes} (h : Spells cid codec digest)
    (h' : Spells cid' codec digest) : cid = cid' := by
  obtain ⟨_, _, varint, hvarint, rfl⟩ := h
  obtain ⟨_, _, varint', hvarint', rfl⟩ := h'
  rw [hvarint.unique hvarint']

/-- The parser accepts exactly its grammar: `cid_codec` answers a codec for the texts that spell
it with some digest, and for no others. What `compute_cid` writes is among them, and no codec and
digest have two texts. -/
theorem cidCodec_acceptsGrammar (v : UnsignedVarint) :
    (∀ cid codec, v.cidCodec cid = some codec ↔ ∃ digest, Spells cid codec digest) ∧
    (∀ sha256 : Bytes → Bytes, (∀ data, (sha256 data).length = 32) →
      ∀ data codec, codec < 2 ^ 64 →
        v.computeCid sha256 data codec = computeCid sha256 data codec ∧
          v.cidCodec (computeCid sha256 data codec) = some codec ∧
          isValidCid (computeCid sha256 data codec) = true) ∧
    ∀ cid cid' codec digest, v.cidParts cid = some (codec, digest) →
      v.cidParts cid' = some (codec, digest) → cid = cid' := by
  have hcodec : ∀ cid codec, v.cidCodec cid = some codec ↔ ∃ digest, Spells cid codec digest := by
    intro cid codec
    simp only [UnsignedVarint.cidCodec, Option.map_eq_some_iff, Prod.exists, exists_and_right,
      exists_eq_right, v.cidParts_iff]
  refine ⟨hcodec, ?_, ?_⟩
  · intro sha256 hsha data codec hlt
    have hspells := computeCid_spells hsha data hlt
    exact ⟨v.computeCid_eq sha256 data hlt, (hcodec _ _).mpr ⟨_, hspells⟩, hspells.valid⟩
  · intro cid cid' codec digest h h'
    exact (v.cidParts_iff.mp h).unique (v.cidParts_iff.mp h')

namespace Sample

/-- A decoder of varints of any length. -/
def decodeVarint : Bytes → Option (Nat × Bytes)
  | [] => none
  | byte :: rest =>
    if byte.toNat < 128 then some (byte.toNat, rest)
    else
      match decodeVarint rest with
      | some (n + 1, rest) => some (byte.toNat - 128 + 128 * (n + 1), rest)
      | _ => none

theorem decodeVarint_iff (bytes : Bytes) (value : Nat) (rest : Bytes) :
    decodeVarint bytes = some (value, rest) ↔
      ∃ varint, MinimalVarint value varint ∧ bytes = varint ++ rest := by
  constructor
  · intro h
    fun_induction decodeVarint bytes generalizing value rest with
    | case1 | case4 byte tail hbig hnone ih => cases h
    | case2 byte tail hsmall =>
      cases h
      exact ⟨[UInt8.ofNat byte.toNat], .last hsmall, by rw [UInt8.ofNat_toNat]; rfl⟩
    | case3 byte tail hbig n tail' htail ih =>
      cases h
      obtain ⟨varint, hvarint, rfl⟩ := ih _ _ htail
      have hbyte := byte.toNat_lt
      have hhead : UInt8.ofNat (byte.toNat - 128 + 128) = byte := by
        rw [Nat.sub_add_cancel (by omega), UInt8.ofNat_toNat]
      refine ⟨_, .more (show byte.toNat - 128 < 128 by omega) (Nat.succ_pos n) hvarint, ?_⟩
      rw [hhead]
      rfl
  · rintro ⟨varint, hvarint, rfl⟩
    induction hvarint with
    | @last n hn =>
      have hbyte : (UInt8.ofNat n).toNat = n := by
        rw [UInt8.toNat_ofNat']
        omega
      rw [List.cons_append, List.nil_append, decodeVarint, hbyte, if_pos hn]
    | @more low n tail hlow hpos _ ih =>
      obtain ⟨n, rfl⟩ := Nat.exists_eq_add_one_of_ne_zero hpos.ne'
      have hbyte : (UInt8.ofNat (low + 128)).toNat = low + 128 := by
        rw [UInt8.toNat_ofNat']
        omega
      rw [List.cons_append, decodeVarint, hbyte, if_neg (by omega), ih]
      simp

def varints : UnsignedVarint where
  encode := encodeVarint
  encode_minimal _ h := encodeVarint_minimal h
  decode bytes := (decodeVarint bytes).filter fun found => decide (found.1 < 2 ^ 64)
  decode_iff bytes value rest := by
    rw [Option.filter_eq_some_iff, decodeVarint_iff, decide_eq_true_iff, and_comm]

def sha256 (data : Bytes) : Bytes := (digests.lookup data).getD (List.replicate 32 0)

end Sample

open Sample in
/-- The content id of the chunk `[7]` is read back. -/
theorem cidCodec_acceptsGrammar_chunk :
    varints.computeCid Sample.sha256 [7] MULTICODEC_RAW = chunk ∧
      varints.cidCodec chunk = some MULTICODEC_RAW ∧ isValidCid chunk = true := by
  have hlength : ∀ data, (Sample.sha256 data).length = 32 := by
    intro data
    unfold Sample.sha256
    cases hdigest : digests.lookup data with
    | none => rfl
    | some digest =>
      have hall : ∀ p ∈ digests, p.2.length = 32 := by decide +kernel
      exact hall _ (mem_of_lookup hdigest)
  have hchunk : computeCid Sample.sha256 [7] MULTICODEC_RAW = chunk := by decide +kernel
  have hread := (cidCodec_acceptsGrammar varints).2.1 Sample.sha256 hlength [7] MULTICODEC_RAW
    (by decide)
  rwa [hchunk] at hread

end Mistlib.Storage
