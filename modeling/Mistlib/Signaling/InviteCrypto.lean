import Mathlib.Data.String.Basic
import Mistlib.Signaling.Armor
import Mistlib.Signaling.Codec

/-!
# Encrypted payloads

A signaling payload is padded to one of a few lengths, encrypted with a key that the two nodes
derive from their key pairs and the invite, and armored as text. Older nodes wrote hexadecimal
texts with a version byte, and the receiver tries that reading first.

Curve, key derivation and cipher come in through `InviteCiphers`, and what an encryption draws
at random is its argument `Draw`. `encrypt_decrypt` is the round trip: the text fits an event,
and the receiver reads the payload out of it unless it passes for one of the older kind.
-/

namespace Mistlib.Signaling

/-! ## Hexadecimal texts are read -/

def hexNibble (byte : UInt8) : Except MistError Nat :=
  if 48 ≤ byte ∧ byte ≤ 57 then .ok (byte.toNat - 48)
  else if 97 ≤ byte ∧ byte ≤ 102 then .ok (byte.toNat - 97 + 10)
  else if 65 ≤ byte ∧ byte ≤ 70 then .ok (byte.toNat - 65 + 10)
  else .error (.signaling "invalid hex character")

def hexPairs : Bytes → Except MistError Bytes
  | high :: low :: rest => do
    let high ← hexNibble high
    let low ← hexNibble low
    let out ← hexPairs rest
    return UInt8.ofNat ((high <<< 4) ||| low) :: out
  | _ => .ok []

def hexDecode (value : String) : Except MistError Bytes :=
  if (utf8 value).length % 2 ≠ 0 then .error (.signaling "hex string has odd length")
  else hexPairs (utf8 value)

theorem hexNibble_digit {n : Nat} (h : n < 16) : ∃ code,
    String.utf8EncodeChar (HEX.getD n '0') = [code] ∧ hexNibble code = .ok n := by
  have hall : ∀ n < 16, String.utf8EncodeChar (HEX.getD n '0') = [(HEX.getD n '0').val.toUInt8] ∧
      hexNibble (HEX.getD n '0').val.toUInt8 = .ok n := by decide +kernel
  exact ⟨_, hall n h⟩

theorem hexDecode_hexEncode (data : Bytes) : hexDecode (hexEncode data) = .ok data := by
  have heven : ¬ (utf8 (hexEncode data)).length % 2 ≠ 0 := by
    rw [utf8_hexEncode_length]
    omega
  rw [hexDecode, if_neg heven, hexEncode, utf8_ofList]
  induction data with
  | nil => rfl
  | cons byte data ih =>
    have hbyte := byte.toNat_lt
    obtain ⟨high, hhigh, hhighValue⟩ := hexNibble_digit (n := byte.toNat / 16) (by omega)
    obtain ⟨low, hlow, hlowValue⟩ := hexNibble_digit (n := byte.toNat % 16) (by omega)
    have hjoin : UInt8.ofNat (((byte.toNat / 16) <<< 4) ||| (byte.toNat % 16)) = byte := by
      rw [← Nat.shiftLeft_add_eq_or_of_lt (i := 4) (by omega), Nat.shiftLeft_eq,
        show byte.toNat / 16 * 2 ^ 4 + byte.toNat % 16 = byte.toNat by omega, UInt8.ofNat_toNat]
    have hrest := ih (by rw [utf8_hexEncode_length]; omega)
    simp only [List.flatMap_cons, hhigh, hlow, List.cons_append, List.nil_append, hexPairs, hhighValue, hlowValue,
      hrest, hjoin, bind, Except.bind, pure, Except.pure]

/-! ## Padding -/

/-- What one encryption draws: a nonce, a cover byte, a choice among the padded lengths
and the bytes that fill the padding. -/
structure Draw where
  nonce : Bytes
  cover : Bytes
  choice : Nat
  filling : Nat → Bytes
  nonce_length : nonce.length = 12
  cover_length : cover.length = 1
  choice_le : choice < 2 ^ 32
  filling_length : ∀ n, (filling n).length = n

def PADDED_PLAINTEXT_LEN_BYTES : Nat := 4
def RANDOM_PADDING_TARGET_BYTES : List Nat := [1024, 2048, 4096, 8192]
def OVERFLOW_PADDING_BLOCK_BYTES : Nat := 1024

/-- `usize::next_multiple_of`. -/
def nextMultipleOf (n block : Nat) : Nat := if n % block = 0 then n else n + (block - n % block)

def randomPaddedLen (choice bodyLen : Nat) : Nat :=
  let candidates := RANDOM_PADDING_TARGET_BYTES.filter fun target => bodyLen ≤ target
  if candidates.length = 0 then nextMultipleOf bodyLen OVERFLOW_PADDING_BLOCK_BYTES
  else candidates.getD (choice % candidates.length) 0

def u32ToBeBytes (n : Nat) : Bytes :=
  [UInt8.ofNat (n / 2 ^ 24), UInt8.ofNat (n / 2 ^ 16), UInt8.ofNat (n / 2 ^ 8), UInt8.ofNat n]

def u32FromBeBytes (bytes : Bytes) : Nat := bytes.foldl (fun n byte => n * 2 ^ 8 + byte.toNat) 0

def padPlaintext (draw : Draw) (plaintext : Bytes) : Except MistError Bytes :=
  if plaintext.length > MAX_NOSTR_SIGNALING_PLAINTEXT_BYTES then
    .error (.signaling "Nostr signaling payload is too large")
  else if plaintext.length ≥ 2 ^ 32 then .error (.signaling "Nostr payload is too large to pad")
  else
    let bodyLen := PADDED_PLAINTEXT_LEN_BYTES + plaintext.length
    let paddedLen := randomPaddedLen draw.choice bodyLen
    .ok (u32ToBeBytes plaintext.length ++ plaintext ++ draw.filling (paddedLen - bodyLen))

def unpadPlaintext (padded : Bytes) : Except MistError Bytes :=
  if padded.length < PADDED_PLAINTEXT_LEN_BYTES then .error (.signaling "invalid padded Nostr payload")
  else
    let plaintextLen := u32FromBeBytes (padded.take PADDED_PLAINTEXT_LEN_BYTES)
    if plaintextLen > MAX_NOSTR_SIGNALING_PLAINTEXT_BYTES then
      .error (.signaling "Nostr signaling payload is too large")
    else
      let last := PADDED_PLAINTEXT_LEN_BYTES + plaintextLen
      if last > padded.length then .error (.signaling "invalid padded Nostr payload")
      else .ok ((padded.take last).drop PADDED_PLAINTEXT_LEN_BYTES)

/-- A padded length holds the body, and is no more than a block longer or one of the targets. -/
theorem randomPaddedLen_le (choice bodyLen : Nat) :
    bodyLen ≤ randomPaddedLen choice bodyLen ∧
      (randomPaddedLen choice bodyLen ≤ 8192 ∨ randomPaddedLen choice bodyLen < bodyLen + 1024) := by
  rw [randomPaddedLen]
  split
  · have hblock : OVERFLOW_PADDING_BLOCK_BYTES = 1024 := rfl
    rw [nextMultipleOf, hblock]
    split
    · omega
    · omega
  · next hany =>
    have hindex : choice % (RANDOM_PADDING_TARGET_BYTES.filter fun target => bodyLen ≤ target).length <
        (RANDOM_PADDING_TARGET_BYTES.filter fun target => bodyLen ≤ target).length :=
      Nat.mod_lt _ (Nat.pos_of_ne_zero hany)
    have hmem := List.getElem_mem hindex
    rw [List.getD_eq_getElem _ _ hindex]
    obtain ⟨htarget, hfits⟩ := List.mem_filter.mp hmem
    have hlargest : ∀ target ∈ RANDOM_PADDING_TARGET_BYTES, target ≤ 8192 := by decide
    exact ⟨of_decide_eq_true hfits, .inl (hlargest _ htarget)⟩

theorem u32FromBeBytes_u32ToBeBytes {n : Nat} (h : n < 2 ^ 32) : u32FromBeBytes (u32ToBeBytes n) = n := by
  simp only [u32FromBeBytes, u32ToBeBytes, List.foldl_cons, List.foldl_nil, UInt8.toNat_ofNat']
  omega

theorem padPlaintext_eq {draw : Draw} {plaintext padded : Bytes} (h : padPlaintext draw plaintext = .ok padded) :
    plaintext.length ≤ MAX_NOSTR_SIGNALING_PLAINTEXT_BYTES ∧
      padded.length = randomPaddedLen draw.choice (4 + plaintext.length) ∧
      unpadPlaintext padded = .ok plaintext := by
  have hfour : PADDED_PLAINTEXT_LEN_BYTES = 4 := rfl
  rw [padPlaintext] at h
  split at h
  · cases h
  · next hsize =>
    split at h
    · cases h
    · next hwide =>
      obtain rfl := Except.ok.inj h
      obtain ⟨hbody, -⟩ := randomPaddedLen_le draw.choice (4 + plaintext.length)
      have hlength : (u32ToBeBytes plaintext.length).length = 4 := rfl
      have hpadded : (u32ToBeBytes plaintext.length ++ plaintext ++ draw.filling
          (randomPaddedLen draw.choice (PADDED_PLAINTEXT_LEN_BYTES + plaintext.length) -
            (PADDED_PLAINTEXT_LEN_BYTES + plaintext.length))).length =
          randomPaddedLen draw.choice (4 + plaintext.length) := by
        rw [List.length_append, List.length_append, draw.filling_length, hlength, hfour]
        omega
      refine ⟨Nat.le_of_not_lt hsize, hpadded, ?_⟩
      have hprefixed : u32FromBeBytes ((u32ToBeBytes plaintext.length ++ plaintext ++ draw.filling
          (randomPaddedLen draw.choice (PADDED_PLAINTEXT_LEN_BYTES + plaintext.length) -
            (PADDED_PLAINTEXT_LEN_BYTES + plaintext.length))).take PADDED_PLAINTEXT_LEN_BYTES) =
          plaintext.length := by
        rw [List.append_assoc, hfour, ← hlength, List.take_left, u32FromBeBytes_u32ToBeBytes (by omega)]
      have hbody' : (u32ToBeBytes plaintext.length ++ plaintext).length =
          PADDED_PLAINTEXT_LEN_BYTES + plaintext.length := by
        rw [List.length_append, hlength, hfour]
      simp only [unpadPlaintext, hprefixed, hpadded]
      rw [if_neg (by omega), if_neg hsize, if_neg (by omega), ← hbody', List.take_left, hfour, ← hlength,
        List.drop_left]

/-! ## Keys and ciphers -/

def NONCE_LEN : Nat := 12
def GCM_TAG_LEN : Nat := 16
def EVEN_Y_COMPRESSED_PREFIX : UInt8 := 0x02

/-- The libraries under the encryption: secp256k1 keys, HKDF and AES-GCM. The point with
an even ordinate that a key pair's public half names is on the curve, and what two pairs
agree on does not depend on the side; HKDF gives up to 255 blocks and AES-GCM takes up to
2^36 bytes; a ciphertext is its message and a tag, and decrypts to that message. -/
structure InviteCiphers where
  SigningKey : Type
  PublicKey : Type
  signingKey : Bytes → Option SigningKey
  verifyingKey : SigningKey → Bytes
  publicKey : Bytes → Option PublicKey
  diffieHellman : SigningKey → PublicKey → Bytes
  hkdfExpand : Bytes → Bytes → Bytes → Nat → Option Bytes
  aesEncrypt : Bytes → Bytes → Bytes → Bytes → Option Bytes
  aesDecrypt : Bytes → Bytes → Bytes → Bytes → Option Bytes
  verifyingKey_length : ∀ secret, (verifyingKey secret).length = 32
  publicKey_verifyingKey : ∀ secret, (publicKey (EVEN_Y_COMPRESSED_PREFIX :: verifyingKey secret)).isSome = true
  diffieHellman_comm : ∀ secret secret' point point',
    publicKey (EVEN_Y_COMPRESSED_PREFIX :: verifyingKey secret) = some point →
      publicKey (EVEN_Y_COMPRESSED_PREFIX :: verifyingKey secret') = some point' →
        diffieHellman secret point' = diffieHellman secret' point
  hkdfExpand_some : ∀ salt secret info len, len ≤ 255 * 32 → (hkdfExpand salt secret info len).isSome = true
  aesEncrypt_some : ∀ key nonce aad msg, nonce.length = NONCE_LEN → aad.length ≤ 2 ^ 36 → msg.length ≤ 2 ^ 36 →
    (aesEncrypt key nonce aad msg).isSome = true
  aesEncrypt_length : ∀ key nonce aad msg encrypted, aesEncrypt key nonce aad msg = some encrypted →
    encrypted.length = msg.length + GCM_TAG_LEN
  aesDecrypt_aesEncrypt : ∀ key nonce aad msg encrypted, aesEncrypt key nonce aad msg = some encrypted →
    aesDecrypt key nonce aad encrypted = some msg

def LEGACY_UNPADDED_HEX_PAYLOAD_VERSION : UInt8 := 2
def LEGACY_PADDED_HEX_PAYLOAD_VERSION : UInt8 := 3
def ARMORED_COVER_LEN : Nat := 1

def pairContext (a b : String) : Bytes :=
  utf8 "nostr-signaling-ecdh-aesgcm:v2\x00" ++
    (if a ≤ b then utf8 a ++ [0] ++ utf8 b else utf8 b ++ [0] ++ utf8 a)

def messageAad (senderPubkey receiverPubkey : String) : Bytes :=
  utf8 "nostr-signaling-message:v2\x00" ++ utf8 senderPubkey ++ [0] ++ utf8 receiverPubkey

theorem pairContext_comm (a b : String) : pairContext a b = pairContext b a := by
  rcases lt_trichotomy a b with h | rfl | h
  · rw [pairContext, pairContext, if_pos h.le, if_neg h.not_ge]
  · rfl
  · rw [pairContext, pairContext, if_neg h.not_ge, if_pos h.le]

namespace InviteCiphers

variable (ciphers : InviteCiphers)

def xonlyPublicKeyHex (secretKey : Bytes) : Except MistError String :=
  match ciphers.signingKey secretKey with
  | none => .error (.signaling "invalid Nostr secret key")
  | some secret => .ok (hexEncode (ciphers.verifyingKey secret))

def publicKeyFromXonly (pubkey : String) : Except MistError ciphers.PublicKey :=
  match hexDecode pubkey with
  | .error _ => .error (.signaling "invalid Nostr pubkey")
  | .ok x =>
    if x.length ≠ 32 then .error (.signaling "invalid Nostr pubkey")
    else
      match ciphers.publicKey (EVEN_Y_COMPRESSED_PREFIX :: x) with
      | none => .error (.signaling "invalid Nostr pubkey")
      | some point => .ok point

def decryptPayload (key nonce aad encrypted : Bytes) : Except MistError Bytes :=
  match ciphers.aesDecrypt key nonce aad encrypted with
  | none => .error (.signaling "invalid encrypted Nostr payload")
  | some decrypted => .ok decrypted

end InviteCiphers

/-- An identity whose public key was computed from its secret key, as
`TemporarySignalingIdentity::from_secret_key` does. -/
structure DerivedIdentity (ciphers : InviteCiphers) extends TemporarySignalingIdentity where
  derived : ciphers.xonlyPublicKeyHex secretKey = .ok publicKey

/-- The key is the digest of an invite. -/
structure InvitePskCrypto where
  key : Bytes

namespace InvitePskCrypto

variable (crypto : InvitePskCrypto) (ciphers : InviteCiphers)

def pairKey (self : TemporarySignalingIdentity) (remotePubkey : String) : Except MistError Bytes :=
  match ciphers.signingKey self.secretKey with
  | none => .error (.signaling "invalid Nostr secret key")
  | some localSecret => do
    let remotePublic ← ciphers.publicKeyFromXonly remotePubkey
    let shared := ciphers.diffieHellman localSecret remotePublic
    match ciphers.hkdfExpand crypto.key shared (pairContext self.publicKey remotePubkey) 32 with
    | none => .error (.signaling "failed to derive Nostr message key")
    | some output => .ok output

def encrypt (draw : Draw) (sender : TemporarySignalingIdentity) (receiverPubkey : String) (plaintext : Bytes) :
    Except MistError String := do
  let key ← crypto.pairKey ciphers sender receiverPubkey
  let aad := messageAad sender.publicKey receiverPubkey
  let padded ← padPlaintext draw plaintext
  match ciphers.aesEncrypt key draw.nonce aad padded with
  | none => .error (.signaling "failed to encrypt Nostr payload")
  | some ciphertext => .ok (encodeBase64urlNoPad (draw.cover ++ draw.nonce ++ ciphertext))

def decryptLegacyHex (receiver : TemporarySignalingIdentity) (senderPubkey ciphertext : String) :
    Except MistError (Option Bytes) :=
  match hexDecode ciphertext with
  | .error _ => .ok none
  | .ok payload =>
    if payload.length < 1 + NONCE_LEN + GCM_TAG_LEN then .ok none
    else
      let version := payload.getD 0 0
      if version ≠ LEGACY_PADDED_HEX_PAYLOAD_VERSION ∧ version ≠ LEGACY_UNPADDED_HEX_PAYLOAD_VERSION then .ok none
      else do
        let nonce := (payload.take (1 + NONCE_LEN)).drop 1
        let encrypted := payload.drop (1 + NONCE_LEN)
        let key ← crypto.pairKey ciphers receiver senderPubkey
        let aad := messageAad senderPubkey receiver.publicKey
        let decrypted ← ciphers.decryptPayload key nonce aad encrypted
        if version = LEGACY_PADDED_HEX_PAYLOAD_VERSION then (unpadPlaintext decrypted).map some
        else .ok (some decrypted)

def decrypt (receiver : TemporarySignalingIdentity) (senderPubkey ciphertext : String) : Except MistError Bytes :=
  if (utf8 ciphertext).length > MAX_NOSTR_EVENT_CONTENT_CHARS then
    .error (.signaling "Nostr event content is too large")
  else do
    match ← crypto.decryptLegacyHex ciphers receiver senderPubkey ciphertext with
    | some plaintext => .ok plaintext
    | none =>
      let payload ← decodeBase64urlNoPad ciphertext
      if payload.length < ARMORED_COVER_LEN + NONCE_LEN + GCM_TAG_LEN then
        .error (.signaling "unsupported encrypted Nostr payload")
      else
        let encryptedStart := ARMORED_COVER_LEN + NONCE_LEN
        let nonce := (payload.take encryptedStart).drop ARMORED_COVER_LEN
        let encrypted := payload.drop encryptedStart
        let key ← crypto.pairKey ciphers receiver senderPubkey
        let aad := messageAad senderPubkey receiver.publicKey
        let decrypted ← ciphers.decryptPayload key nonce aad encrypted
        unpadPlaintext decrypted

end InvitePskCrypto

/-- A text that passes for one of an older node: valid hexadecimal, with the version of
one of the older kinds as its first byte. -/
def PassesForLegacy (ciphertext : String) : Prop :=
  ∃ version rest, hexDecode ciphertext = .ok (version :: rest) ∧
    (version = LEGACY_PADDED_HEX_PAYLOAD_VERSION ∨ version = LEGACY_UNPADDED_HEX_PAYLOAD_VERSION)

namespace InvitePskCrypto

variable {crypto : InvitePskCrypto} {ciphers : InviteCiphers}

/-! ## Both sides derive the same key -/

theorem publicKeyFromXonly_hexEncode (secret : ciphers.SigningKey) : ∃ point,
    ciphers.publicKey (EVEN_Y_COMPRESSED_PREFIX :: ciphers.verifyingKey secret) = some point ∧
      ciphers.publicKeyFromXonly (hexEncode (ciphers.verifyingKey secret)) = .ok point := by
  obtain ⟨point, hpoint⟩ := Option.isSome_iff_exists.mp (ciphers.publicKey_verifyingKey secret)
  refine ⟨point, hpoint, ?_⟩
  simp only [InviteCiphers.publicKeyFromXonly, hexDecode_hexEncode, hpoint]
  rw [if_neg (not_not.mpr (ciphers.verifyingKey_length secret))]

theorem secret_of_derived (identity : DerivedIdentity ciphers) : ∃ secret,
    ciphers.signingKey identity.secretKey = some secret ∧
      identity.publicKey = hexEncode (ciphers.verifyingKey secret) := by
  have h := identity.derived
  rw [InviteCiphers.xonlyPublicKeyHex] at h
  split at h
  · cases h
  · next secret hsecret => exact ⟨secret, hsecret, (Except.ok.inj h).symm⟩

theorem pairKey_agree (crypto : InvitePskCrypto) (sender receiver : DerivedIdentity ciphers) : ∃ key,
    crypto.pairKey ciphers sender.toTemporarySignalingIdentity receiver.publicKey = .ok key ∧
      crypto.pairKey ciphers receiver.toTemporarySignalingIdentity sender.publicKey = .ok key := by
  obtain ⟨secret, hsecret, hpublic⟩ := secret_of_derived sender
  obtain ⟨secret', hsecret', hpublic'⟩ := secret_of_derived receiver
  obtain ⟨point, hpoint, hread⟩ := publicKeyFromXonly_hexEncode secret
  obtain ⟨point', hpoint', hread'⟩ := publicKeyFromXonly_hexEncode secret'
  have hshared := ciphers.diffieHellman_comm secret secret' point point' hpoint hpoint'
  obtain ⟨key, hkey⟩ := Option.isSome_iff_exists.mp (ciphers.hkdfExpand_some crypto.key
    (ciphers.diffieHellman secret point') (pairContext sender.publicKey receiver.publicKey) 32 (by decide))
  refine ⟨key, ?_, ?_⟩
  · rw [← hpublic'] at hread'
    simp only [pairKey, hsecret, hread', bind, Except.bind, hkey]
  · rw [← hpublic] at hread
    simp only [pairKey, hsecret', hread, bind, Except.bind, ← hshared, pairContext_comm receiver.publicKey, hkey]

/-! ## What is encrypted is decrypted -/

variable {draw : Draw} {sender : TemporarySignalingIdentity} {receiverPubkey content : String}
  {plaintext : Bytes}

section

variable (h : crypto.encrypt ciphers draw sender receiverPubkey plaintext = .ok content)
include h

theorem encrypt_eq :
    ∃ key padded encrypted, crypto.pairKey ciphers sender receiverPubkey = .ok key ∧
      padPlaintext draw plaintext = .ok padded ∧
      ciphers.aesEncrypt key draw.nonce (messageAad sender.publicKey receiverPubkey) padded = some encrypted ∧
      content = encodeBase64urlNoPad (draw.cover ++ draw.nonce ++ encrypted) := by
  rw [encrypt] at h
  cases hkey : crypto.pairKey ciphers sender receiverPubkey with
  | error e => rw [hkey] at h; cases h
  | ok key =>
    cases hpadded : padPlaintext draw plaintext with
    | error e => rw [hkey, hpadded] at h; cases h
    | ok padded =>
      simp only [hkey, hpadded, bind, Except.bind] at h
      split at h
      · cases h
      · next encrypted hencrypted =>
        exact ⟨key, padded, encrypted, rfl, rfl, hencrypted, (Except.ok.inj h).symm⟩

/-- A cover byte, a nonce, the padded payload and its tag, four symbols for three bytes. -/
theorem encrypt_length :
    (utf8 content).length = (8 * (29 + randomPaddedLen draw.choice (4 + plaintext.length)) + 5) / 6 := by
  obtain ⟨key, padded, encrypted, -, hpadded, hencrypted, rfl⟩ := encrypt_eq h
  have htag : GCM_TAG_LEN = 16 := rfl
  rw [utf8_encodeBase64urlNoPad_length, List.length_append, List.length_append, draw.cover_length,
    draw.nonce_length, ciphers.aesEncrypt_length _ _ _ _ _ hencrypted, (padPlaintext_eq hpadded).2.1, htag]
  congr 3
  omega

theorem encrypt_fits : (utf8 content).length ≤ MAX_NOSTR_EVENT_CONTENT_CHARS := by
  obtain ⟨key, padded, encrypted, -, hpadded, -, -⟩ := encrypt_eq h
  have hsize := (padPlaintext_eq hpadded).1
  obtain ⟨-, hpad⟩ := randomPaddedLen_le draw.choice (4 + plaintext.length)
  have hplain : MAX_NOSTR_SIGNALING_PLAINTEXT_BYTES = 65536 := rfl
  have hchars : MAX_NOSTR_EVENT_CONTENT_CHARS = 143360 := rfl
  rw [encrypt_length h]
  omega

end

theorem padPlaintext_ok (draw : Draw) (h : plaintext.length ≤ MAX_NOSTR_SIGNALING_PLAINTEXT_BYTES) :
    ∃ padded, padPlaintext draw plaintext = .ok padded := by
  have hplain : MAX_NOSTR_SIGNALING_PLAINTEXT_BYTES = 65536 := rfl
  rw [padPlaintext, if_neg (by omega), if_neg (by omega)]
  exact ⟨_, rfl⟩

theorem messageAad_length (sender receiver : TemporarySignalingIdentity) :
    (messageAad sender.publicKey receiver.publicKey).length ≤ 2 ^ 36 := by
  have hkey : ∀ identity : TemporarySignalingIdentity, (utf8 identity.publicKey).length = 64 := by
    intro identity
    have h := identity.isKey
    rw [isHexLen, Bool.and_eq_true, decide_eq_true_iff] at h
    exact h.1
  have hlabel : (utf8 "nostr-signaling-message:v2\x00").length = 27 := by decide +kernel
  rw [messageAad, List.length_append, List.length_append, List.length_append, hkey, hkey, hlabel]
  decide

theorem encrypt_ok (crypto : InvitePskCrypto) (draw : Draw) (sender receiver : DerivedIdentity ciphers)
    (h : plaintext.length ≤ MAX_NOSTR_SIGNALING_PLAINTEXT_BYTES) :
    ∃ content, crypto.encrypt ciphers draw sender.toTemporarySignalingIdentity receiver.publicKey plaintext =
      .ok content := by
  obtain ⟨key, hkey, -⟩ := pairKey_agree crypto sender receiver
  obtain ⟨padded, hpadded⟩ := padPlaintext_ok draw h
  have hpad := (randomPaddedLen_le draw.choice (4 + plaintext.length)).2
  have hplain : MAX_NOSTR_SIGNALING_PLAINTEXT_BYTES = 65536 := rfl
  obtain ⟨encrypted, hencrypted⟩ := Option.isSome_iff_exists.mp (ciphers.aesEncrypt_some key draw.nonce
    (messageAad sender.publicKey receiver.publicKey) padded draw.nonce_length (messageAad_length _ _)
    (by rw [(padPlaintext_eq hpadded).2.1]; omega))
  refine ⟨encodeBase64urlNoPad (draw.cover ++ draw.nonce ++ encrypted), ?_⟩
  simp only [encrypt, hkey, hpadded, hencrypted, bind, Except.bind]

theorem decryptLegacyHex_none {receiver : TemporarySignalingIdentity} {senderPubkey : String}
    (h : ¬ PassesForLegacy content) :
    crypto.decryptLegacyHex ciphers receiver senderPubkey content = .ok none := by
  rw [decryptLegacyHex]
  split
  · rfl
  · next payload hpayload =>
    cases payload with
    | nil => rfl
    | cons version rest =>
      have hversion : version ≠ LEGACY_PADDED_HEX_PAYLOAD_VERSION ∧
          version ≠ LEGACY_UNPADDED_HEX_PAYLOAD_VERSION :=
        ⟨fun heq => h ⟨version, rest, hpayload, .inl heq⟩, fun heq => h ⟨version, rest, hpayload, .inr heq⟩⟩
      split
      · rfl
      · exact if_pos hversion

/-- What was encrypted for the receiver is decrypted by it. -/
theorem decrypt_of_encrypt {sender receiver : DerivedIdentity ciphers}
    (h : crypto.encrypt ciphers draw sender.toTemporarySignalingIdentity receiver.publicKey plaintext = .ok content)
    (hlegacy : ¬ PassesForLegacy content) :
    crypto.decrypt ciphers receiver.toTemporarySignalingIdentity sender.publicKey content = .ok plaintext := by
  have hfits := encrypt_fits h
  obtain ⟨key, padded, encrypted, hkey, hpadded, hencrypted, rfl⟩ := encrypt_eq h
  obtain ⟨key', hkey', hagreed⟩ := pairKey_agree crypto sender receiver
  obtain rfl := Except.ok.inj (hkey.symm.trans hkey')
  have hcover : ARMORED_COVER_LEN = draw.cover.length := draw.cover_length.symm
  have hstart : ARMORED_COVER_LEN + NONCE_LEN = (draw.cover ++ draw.nonce).length := by
    rw [List.length_append, draw.cover_length, draw.nonce_length]
    rfl
  have hlong : ¬ (draw.cover ++ draw.nonce ++ encrypted).length < ARMORED_COVER_LEN + NONCE_LEN + GCM_TAG_LEN := by
    rw [List.length_append, ← hstart, ciphers.aesEncrypt_length _ _ _ _ _ hencrypted]
    omega
  have hnonce : ((draw.cover ++ draw.nonce ++ encrypted).take (ARMORED_COVER_LEN + NONCE_LEN)).drop
      ARMORED_COVER_LEN = draw.nonce := by
    rw [hstart, List.take_left, hcover, List.drop_left]
  have hrest : (draw.cover ++ draw.nonce ++ encrypted).drop (ARMORED_COVER_LEN + NONCE_LEN) = encrypted := by
    rw [hstart, List.drop_left]
  rw [decrypt, if_neg (Nat.not_lt.mpr hfits)]
  simp only [decryptLegacyHex_none hlegacy, decode_encodeBase64urlNoPad, hagreed, bind, Except.bind]
  rw [if_neg hlong]
  simp only [hnonce, hrest, InviteCiphers.decryptPayload, ciphers.aesDecrypt_aesEncrypt _ _ _ _ _ hencrypted,
    (padPlaintext_eq hpadded).2.2]

/-- A payload of up to the size limit is encrypted for any receiver to a text that fits an event,
and the receiver reads that payload out of it unless the text passes for one of an older node. -/
theorem encrypt_decrypt (crypto : InvitePskCrypto) (draw : Draw) (sender receiver : DerivedIdentity ciphers)
    (plaintext : Bytes) (h : plaintext.length ≤ MAX_NOSTR_SIGNALING_PLAINTEXT_BYTES) :
    (∃ content, crypto.encrypt ciphers draw sender.toTemporarySignalingIdentity receiver.publicKey plaintext =
        .ok content ∧ (utf8 content).length ≤ MAX_NOSTR_EVENT_CONTENT_CHARS ∧ (¬ PassesForLegacy content →
        crypto.decrypt ciphers receiver.toTemporarySignalingIdentity sender.publicKey content = .ok plaintext)) ∧
      (∀ (self : TemporarySignalingIdentity) (receiverPubkey content : String),
        crypto.encrypt ciphers draw self receiverPubkey plaintext = .ok content →
          (utf8 content).length ≤ MAX_NOSTR_EVENT_CONTENT_CHARS) ∧
      (∀ data, decodeBase64urlNoPad (encodeBase64urlNoPad data) = .ok data) ∧
      ∀ value data, decodeBase64urlNoPad value = .ok data → encodeBase64urlNoPad data = value := by
  refine ⟨?_, fun self receiverPubkey content => encrypt_fits, decode_encodeBase64urlNoPad,
    fun value data => encodeBase64urlNoPad_of_decode⟩
  obtain ⟨content, hcontent⟩ := encrypt_ok crypto draw sender receiver h
  exact ⟨content, hcontent, encrypt_fits hcontent, decrypt_of_encrypt hcontent⟩

end InvitePskCrypto

/-- Ciphers for an example: keys that are their own points, agreed on by addition, and a
cipher that shows its message and tags it. -/
def plainCiphers : InviteCiphers where
  SigningKey := { secret : Bytes // secret.length = 32 }
  PublicKey := Bytes
  signingKey secret := if h : secret.length = 32 then some ⟨secret, h⟩ else none
  verifyingKey secret := secret.1
  publicKey bytes := some (bytes.drop 1)
  diffieHellman secret point := List.zipWith (· + ·) secret.1 point
  hkdfExpand salt secret info len :=
    if len ≤ 255 * 32 then some ((salt ++ secret ++ info ++ List.replicate len 0).take len) else none
  aesEncrypt key nonce aad msg := some (msg ++ (key ++ nonce ++ aad ++ List.replicate GCM_TAG_LEN 0).take GCM_TAG_LEN)
  aesDecrypt key nonce aad encrypted :=
    let msg := encrypted.take (encrypted.length - GCM_TAG_LEN)
    if encrypted = msg ++ (key ++ nonce ++ aad ++ List.replicate GCM_TAG_LEN 0).take GCM_TAG_LEN then some msg
    else none
  verifyingKey_length secret := secret.2
  publicKey_verifyingKey _ := rfl
  diffieHellman_comm secret secret' point point' h h' := by
    cases h
    obtain rfl := Option.some.inj h'
    exact List.zipWith_comm_of_comm fun a b => UInt8.add_comm a b
  hkdfExpand_some salt secret info len h := by rw [if_pos h]; rfl
  aesEncrypt_some _ _ _ _ _ _ _ := rfl
  aesEncrypt_length key nonce aad msg encrypted h := by
    cases h
    rw [List.length_append, List.length_take_of_le]
    rw [List.length_append, List.length_replicate]
    exact Nat.le_add_left _ _
  aesDecrypt_aesEncrypt key nonce aad msg encrypted h := by
    cases h
    have htag : ((key ++ nonce ++ aad ++ List.replicate GCM_TAG_LEN 0).take GCM_TAG_LEN).length = GCM_TAG_LEN := by
      rw [List.length_take_of_le]
      rw [List.length_append, List.length_replicate]
      exact Nat.le_add_left _ _
    simp only [List.length_append, htag, Nat.add_sub_cancel, List.take_left, if_true]

def plainIdentity (byte : UInt8) : DerivedIdentity plainCiphers where
  publicKey := hexEncode (List.replicate 32 byte)
  secretKey := List.replicate 32 byte
  isKey := isHexLen_hexEncode (List.replicate 32 byte)
  derived := rfl

def plainDraw : Draw where
  nonce := List.replicate 12 7
  cover := [9]
  choice := 5
  filling n := List.replicate n 1
  nonce_length := rfl
  cover_length := rfl
  choice_le := by decide
  filling_length _ := List.length_replicate

/-- A payload above the largest of the targets. -/
theorem encrypt_decrypt_large : ∃ content,
    InvitePskCrypto.encrypt ⟨[1]⟩ plainCiphers plainDraw (plainIdentity 3).toTemporarySignalingIdentity
      (plainIdentity 4).publicKey (List.replicate 9000 2) = .ok content ∧
    InvitePskCrypto.decrypt ⟨[1]⟩ plainCiphers (plainIdentity 4).toTemporarySignalingIdentity
      (plainIdentity 3).publicKey content = .ok (List.replicate 9000 2) := by
  obtain ⟨⟨content, hcontent, -, hdecrypt⟩, -⟩ := InvitePskCrypto.encrypt_decrypt ⟨[1]⟩ plainDraw (plainIdentity 3)
    (plainIdentity 4) (List.replicate 9000 2) (by rw [List.length_replicate]; decide)
  refine ⟨content, hcontent, hdecrypt ?_⟩
  -- The text has an odd number of symbols.
  rintro ⟨version, rest, hhex, -⟩
  have hlength := InvitePskCrypto.encrypt_length hcontent
  rw [List.length_replicate] at hlength
  have hodd : (utf8 content).length % 2 ≠ 0 := by
    rw [hlength]
    decide
  rw [hexDecode, if_pos hodd] at hhex
  cases hhex

end Mistlib.Signaling
