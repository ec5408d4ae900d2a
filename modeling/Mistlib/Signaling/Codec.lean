import Mistlib.Signaling.Event

/-!
# The event codec

Discovery and message events are built by one node and validated by another. Each carries a room
scope that rotates with the sender's clock, an expiration and, for a discovery, a proof; a
message is encrypted and addressed to one key or to the room's broadcast sentinel.

Encryption and signatures are the interface `NostrCrypto`, the JSON texts of message envelopes
are `EnvelopeText`. `now` is what `now_unix_seconds` answers throughout one call.
-/

namespace Mistlib.Signaling

/-! ## Keys, ciphers and envelopes -/

/-- A node's key pair. The public key is the text of 32 bytes. -/
structure TemporarySignalingIdentity where
  publicKey : String
  secretKey : Bytes
  isKey : isHexLen publicKey 64 = true

/-- Ciphers and signatures. What is decrypted is what was encrypted, a
ciphertext of a payload that may travel fits an event, and a signature is of
the right form and verifies on the event it was made for. -/
structure NostrCrypto (lib : Library) where
  encrypt : TemporarySignalingIdentity → String → Bytes → Except MistError String
  decrypt : TemporarySignalingIdentity → String → String → Except MistError Bytes
  signEvent : TemporarySignalingIdentity → NostrEvent → Except MistError String
  verifyEvent : NostrEvent → Except MistError Unit
  decrypt_encrypt : ∀ sender receiver plaintext content,
    encrypt sender receiver.publicKey plaintext = .ok content →
      decrypt receiver sender.publicKey content = .ok plaintext
  encrypt_length : ∀ sender receiver plaintext content,
    plaintext.length ≤ MAX_NOSTR_SIGNALING_PLAINTEXT_BYTES →
      encrypt sender receiver plaintext = .ok content →
        (utf8 content).length ≤ MAX_NOSTR_EVENT_CONTENT_CHARS
  verify_sign : ∀ identity event sig, event.pubkey = identity.publicKey →
    event.refreshId lib = event → signEvent identity event = .ok sig →
      isHexLen sig 128 = true ∧ verifyEvent { event with sig } = .ok ()

structure NostrMessageEnvelope where
  version : Nat
  messageId : String
  sequence : Nat
  senderJoinedAt : Option Nat
  data : SignalingData
deriving DecidableEq, Repr

/-- What a JSON text turns out to be: one with a key of an envelope is read as
an envelope, any other as bare signaling data. -/
inductive EnvelopeValue where
  | envelope (read : Except String NostrMessageEnvelope)
  | bare (read : Except String SignalingData)

structure EnvelopeText where
  toVec : NostrMessageEnvelope → Except String Bytes
  fromSlice : Bytes → Except String EnvelopeValue
  roundTrip : ∀ {envelope text}, toVec envelope = .ok text →
    fromSlice text = .ok (.envelope (.ok envelope))

structure DecodedMessageEnvelope where
  data : SignalingData
  messageId : Option String
  sequence : Option Nat
  senderJoinedAt : Option Nat
deriving DecidableEq, Repr

namespace EnvelopeText

variable (json : EnvelopeText)

def encodeMessageEnvelopeWithJoinedAt (messageId : RandomBytes) (data : SignalingData)
    (sequence : Nat) (senderJoinedAt : Option Nat) : Except MistError Bytes :=
  if sequence = 0 then .error (.signaling "Nostr message sequence must be positive")
  else
    let envelope : NostrMessageEnvelope :=
      { version := 1, messageId := randomSubscriptionId messageId, sequence, senderJoinedAt, data }
    match json.toVec envelope with
    | .error e => .error (.serialization e)
    | .ok encoded =>
      if encoded.length > MAX_NOSTR_SIGNALING_PLAINTEXT_BYTES then
        .error (.signaling "Nostr signaling payload is too large")
      else .ok encoded

def decodeMessageEnvelope (plaintext : Bytes) : Except MistError DecodedMessageEnvelope :=
  if plaintext.length > MAX_NOSTR_SIGNALING_PLAINTEXT_BYTES then
    .error (.signaling "Nostr signaling payload is too large")
  else
    match json.fromSlice plaintext with
    | .error e | .ok (.bare (.error e)) => .error (.serialization e)
    | .ok (.bare (.ok data)) =>
      .ok { data, messageId := none, sequence := none, senderJoinedAt := none }
    | .ok (.envelope (.error e)) => .error (.serialization e)
    | .ok (.envelope (.ok envelope)) =>
      if envelope.version ≠ 1 then .error (.signaling "unsupported Nostr message envelope")
      else if envelope.sequence = 0 then .error (.signaling "invalid Nostr message sequence")
      else if !isHexLen envelope.messageId 32 then .error (.signaling "invalid Nostr message id")
      else
        .ok
          { data := envelope.data
            messageId := some envelope.messageId
            sequence := some envelope.sequence
            senderJoinedAt := envelope.senderJoinedAt }

end EnvelopeText

/-! ## The configuration and what is derived from it -/

def TAG_INVITE_SCOPE : String := "d"
def TAG_EXPIRATION : String := "expiration"
def TAG_NONCE : String := "nonce"
def TAG_DISCOVERY_PROOF : String := "proof"
def TAG_JOINED_AT : String := "joined_at"
def TAG_P : String := "p"
def MIN_ROOM_SCOPE_ROTATION_SECONDS : Nat := 30
def MAX_ROOM_SCOPE_ROTATION_SECONDS : Nat := 3600

namespace Library

variable (lib : Library)

def deriveRoomScope (secret : Bytes) (roomId : String) (rotationBucket : Nat) : String :=
  lib.sha256Hex (utf8 "mistlib-nostr-room-scope:v1\x00" ++ secret ++ [0] ++
    toLeBytes rotationBucket ++ [0] ++ utf8 roomId)

def deriveBroadcastSentinel (secret : Bytes) (roomId : String) (rotationBucket : Nat) : String :=
  lib.sha256Hex (utf8 "mistlib-nostr-broadcast-p:v1\x00" ++ secret ++ [0] ++
    toLeBytes rotationBucket ++ [0] ++ utf8 roomId)

def deriveTopologyRank (secret : Bytes) (roomId pubkey : String) : String :=
  lib.sha256Hex (utf8 "mistlib-nostr-topology-rank:v1\x00" ++ secret ++ [0] ++
    utf8 roomId ++ [0] ++ utf8 pubkey)

def deriveDiscoveryProof (secret : Bytes) (roomId pubkey : String) (expiresAt : Nat)
    (nonce : String) : String :=
  lib.sha256Hex (utf8 "mistlib-nostr-discovery-proof:v1\x00" ++ secret ++ [0] ++
    utf8 roomId ++ [0] ++ utf8 pubkey ++ [0] ++ toLeBytes expiresAt ++ [0] ++ utf8 nonce)

end Library

structure NostrCodecConfig where
  discoveryKind : Nat
  messageKind : Nat
  ttlSeconds : Nat
  maxClockSkewSeconds : Nat
  roomScopeSecret : Bytes
deriving DecidableEq, Repr

def currentRotationBucket (now rotationSeconds : Nat) : Nat := now / max rotationSeconds 1

namespace NostrCodecConfig

variable (lib : Library) (config : NostrCodecConfig)

def expiresAt (now : Nat) : Nat := saturatingAdd now config.ttlSeconds

def roomScopeRotationSeconds : Nat :=
  max MIN_ROOM_SCOPE_ROTATION_SECONDS (min config.ttlSeconds MAX_ROOM_SCOPE_ROTATION_SECONDS)

def bucket (now : Nat) : Nat := currentRotationBucket now config.roomScopeRotationSeconds

/-- The rotations accepted at a time: the current one and its neighbours. -/
def acceptedBuckets (now : Nat) : List Nat :=
  if config.bucket now > 0 then
    [config.bucket now - 1, config.bucket now, config.bucket now + 1]
  else [config.bucket now, config.bucket now + 1]

def roomScope (roomId : String) (rotationBucket : Nat) : String :=
  lib.deriveRoomScope config.roomScopeSecret roomId rotationBucket

def currentRoomScope (now : Nat) (roomId : String) : String :=
  config.roomScope lib roomId (config.bucket now)

def topologyRank (roomId pubkey : String) : String :=
  lib.deriveTopologyRank config.roomScopeSecret roomId pubkey

def discoveryProof (roomId pubkey : String) (expiresAt : Nat) (nonce : String) : String :=
  lib.deriveDiscoveryProof config.roomScopeSecret roomId pubkey expiresAt nonce

def acceptedRoomScopes (now : Nat) (roomId : String) : List String :=
  (config.acceptedBuckets now).map (config.roomScope lib roomId)

def broadcastSentinel (roomId : String) (rotationBucket : Nat) : String :=
  lib.deriveBroadcastSentinel config.roomScopeSecret roomId rotationBucket

def currentBroadcastSentinel (now : Nat) (roomId : String) : String :=
  config.broadcastSentinel lib roomId (config.bucket now)

def acceptedBroadcastSentinels (now : Nat) (roomId : String) : List String :=
  (config.acceptedBuckets now).map (config.broadcastSentinel lib roomId)

/-- Whether the event carries a room scope accepted at this time. -/
def scopeAccepted (now : Nat) (roomId : String) (event : NostrEvent) : Bool :=
  (config.acceptedRoomScopes lib now roomId).any fun scope =>
    event.hasTagValue TAG_INVITE_SCOPE scope

end NostrCodecConfig

structure DecodedDiscovery where
  signalingPubkey : String
  expiresAt : Nat
  topologyRank : String
  joinedAt : Option Nat
deriving DecidableEq, Repr

structure DecodedMessage where
  senderPubkey : String
  data : SignalingData
  expiresAt : Nat
  messageId : Option String
  sequence : Option Nat
  senderJoinedAt : Option Nat
deriving DecidableEq, Repr

/-! ## Validation -/

def eventExpiration (event : NostrEvent) : Except MistError Nat :=
  match event.tagValue TAG_EXPIRATION with
  | none => .error (.signaling "missing Nostr expiration tag")
  | some value =>
    match parseU64 value with
    | none => .error (.signaling "invalid Nostr expiration tag")
    | some expiresAt => .ok expiresAt

namespace NostrCodecConfig

variable (lib : Library) (config : NostrCodecConfig)

/-- The kind and the time windows of an event, against the receiver's clock. -/
def validateEventBasics (now expectedKind : Nat) (event : NostrEvent) : Except MistError Unit := do
  validateEventShape event
  if event.kind ≠ expectedKind then throw (.signaling "unexpected Nostr event kind")
  if event.createdAt > saturatingAdd now config.maxClockSkewSeconds then
    throw (.signaling "Nostr event timestamp is too far in the future")
  if saturatingAdd (saturatingAdd event.createdAt config.ttlSeconds) config.maxClockSkewSeconds <
      now then
    throw (.signaling "Nostr event timestamp is too old")
  let expiresAt ← eventExpiration event
  if expiresAt ≤ now then throw (.signaling "expired Nostr event")
  if expiresAt ≤ event.createdAt then
    throw (.signaling "Nostr expiration must be after event timestamp")
  if expiresAt > saturatingAdd (saturatingAdd now config.ttlSeconds)
      config.maxClockSkewSeconds then
    throw (.signaling "Nostr expiration is too far in the future")

def validateDiscoveryEvent (now : Nat) (event : NostrEvent) (roomId : String) :
    Except MistError Unit := do
  config.validateEventBasics now config.discoveryKind event
  if !config.scopeAccepted lib now roomId event then
    throw (.signaling "Nostr invite scope mismatch")
  let some nonce := event.tagValue TAG_NONCE
    | throw (.signaling "missing Nostr discovery nonce")
  let some proof := event.tagValue TAG_DISCOVERY_PROOF
    | throw (.signaling "missing Nostr discovery proof")
  let expiresAt ← eventExpiration event
  if proof ≠ config.discoveryProof lib roomId event.pubkey expiresAt nonce then
    throw (.signaling "invalid Nostr discovery proof")

def isRoomMailboxMessage (now : Nat) (event : NostrEvent) (roomId : String) : Bool :=
  decide (event.kind = config.messageKind) && (event.tagValue TAG_P).isNone &&
    config.scopeAccepted lib now roomId event

end NostrCodecConfig

/-! ## Building and decoding -/

def tag (name value : String) : List String := [name, value]

namespace NostrCodecConfig

variable {lib : Library} (config : NostrCodecConfig) (crypto : NostrCrypto lib)

/-- A discovery event made at time `now`; `nonce` is the random id drawn for it. -/
def buildDiscoveryEventWithJoinedAt (identity : TemporarySignalingIdentity) (now : Nat)
    (nonce : RandomBytes) (roomId : String) (joinedAt : Option Nat) :
    Except MistError NostrEvent := do
  let expiresAt := config.expiresAt now
  let roomScope := config.currentRoomScope lib now roomId
  let nonce := randomSubscriptionId nonce
  let proof := config.discoveryProof lib roomId identity.publicKey expiresAt nonce
  let tags :=
    [tag TAG_INVITE_SCOPE roomScope, tag TAG_NONCE nonce,
      tag TAG_EXPIRATION (toString expiresAt), tag TAG_DISCOVERY_PROOF proof] ++
    joinedAt.toList.map fun joinedAt => tag TAG_JOINED_AT (toString joinedAt)
  let event := NostrEvent.unsigned lib now identity.publicKey config.discoveryKind tags ""
  let sig ← crypto.signEvent identity event
  return { event with sig }

def decodeDiscoveryEvent (now : Nat) (event : NostrEvent) (roomId : String) :
    Except MistError DecodedDiscovery := do
  validateEventShape event
  crypto.verifyEvent event
  config.validateDiscoveryEvent lib now event roomId
  let expiresAt ← eventExpiration event
  return {
    signalingPubkey := event.pubkey
    expiresAt
    topologyRank := config.topologyRank lib roomId event.pubkey
    joinedAt := (event.tagValue TAG_JOINED_AT).bind parseU64 }

variable (json : EnvelopeText)

/-- A message event made at time `now`; `messageId` and `nonce` are the
random ids drawn for it. -/
def buildMessageEventWithSequenceAndJoinedAt (identity : TemporarySignalingIdentity) (now : Nat)
    (messageId nonce : RandomBytes) (receiverPubkey : String) (data : SignalingData)
    (sequence : Nat) (senderJoinedAt : Option Nat) : Except MistError NostrEvent := do
  let plaintext ←
    json.encodeMessageEnvelopeWithJoinedAt messageId data sequence senderJoinedAt
  let content ← crypto.encrypt identity receiverPubkey plaintext
  let expiresAt := config.expiresAt now
  let messageScope := config.currentRoomScope lib now data.roomId
  -- A receiver that is not known yet is addressed by the room's sentinel.
  let pTagValue :=
    if data.receiverId.isBroadcast then config.currentBroadcastSentinel lib now data.roomId
    else receiverPubkey
  let tags :=
    [tag TAG_INVITE_SCOPE messageScope, tag TAG_P pTagValue,
      tag TAG_NONCE (randomSubscriptionId nonce), tag TAG_EXPIRATION (toString expiresAt)]
  let event := NostrEvent.unsigned lib now identity.publicKey config.messageKind tags content
  let sig ← crypto.signEvent identity event
  return { event with sig }

variable (lib) in
/-- Whether the receiver's key, or a sentinel accepted now, is the one addressed. -/
def addressAccepted (now : Nat) (identity : TemporarySignalingIdentity) (roomId pubkey : String) :
    Bool :=
  decide (pubkey = identity.publicKey) ||
    (config.acceptedBroadcastSentinels lib now roomId).contains pubkey

def decodeMessageEvent (identity : TemporarySignalingIdentity) (localNodeId : NodeId) (now : Nat)
    (event : NostrEvent) (roomId : String) : Except MistError DecodedMessage := do
  validateEventShape event
  crypto.verifyEvent event
  config.validateEventBasics now config.messageKind event
  match event.tagValue TAG_P with
  | some pubkey =>
    if config.addressAccepted lib now identity roomId pubkey then
      if !config.scopeAccepted lib now roomId event then
        throw (.signaling "Nostr message room scope mismatch")
    else throw (.signaling "Nostr message receiver pubkey mismatch")
  | none =>
    if !config.isRoomMailboxMessage lib now event roomId then
      throw (.signaling "Nostr message room scope mismatch")
  let plaintext ← crypto.decrypt identity event.pubkey event.content
  let decoded ← json.decodeMessageEnvelope plaintext
  if decoded.data.roomId ≠ roomId then
    throw (.signaling "decrypted Nostr message room mismatch")
  if decoded.data.receiverId ≠ localNodeId ∧ !decoded.data.receiverId.isBroadcast then
    throw (.signaling "decrypted Nostr message receiver mismatch")
  return {
    senderPubkey := event.pubkey
    data := decoded.data
    expiresAt := ((event.tagValue TAG_EXPIRATION).bind parseU64).getD
      (saturatingAdd now config.ttlSeconds)
    messageId := decoded.messageId
    sequence := decoded.sequence
    senderJoinedAt := decoded.senderJoinedAt }

end NostrCodecConfig

/-! ## Two keys in a room -/

namespace Sample

/-- The big-endian bytes of a 256-bit number. -/
def bytes32 (n : Nat) : Bytes := (List.range 32).map fun i => UInt8.ofNat (n / 256 ^ (31 - i))

def secret : Bytes := bytes32 0x3b5cee8f771b4a6c4126d5dc07fd4ac161430816847bd5ae438c165dd52e9709

def config : NostrCodecConfig where
  discoveryKind := 25049
  messageKind := 25050
  ttlSeconds := 60
  maxClockSkewSeconds := 300
  roomScopeSecret := secret

def sender : TemporarySignalingIdentity where
  publicKey := "79be667ef9dcbbac55a06295ce870b07029bfcdb2dce28d959f2815b16f81798"
  secretKey := bytes32 1
  isKey := by decide +kernel

def receiver : TemporarySignalingIdentity where
  publicKey := "c6047f9441ed7d6d3045406e95c07cd85c778e4b8cef3ca7abac09b95c709ee5"
  secretKey := bytes32 2
  isKey := by decide +kernel

def nonce : RandomBytes := ⟨List.replicate 15 0 ++ [7], by decide⟩

def sent : Nat := 1700000040

def request : SignalingData where
  senderId := ⟨"a"⟩
  receiverId := ⟨"b"⟩
  roomId := "lobby"
  data := ""
  signalingType := .request

def envelope : NostrMessageEnvelope where
  version := 1
  messageId := randomSubscriptionId nonce
  sequence := 1
  senderJoinedAt := none
  data := request

def envelopeText : Bytes :=
  utf8 ("\x7b\"Version\":1,\"MessageId\":\"00000000000000000000000000000007\",\"Sequence\":1," ++
    "\"Data\":\x7b\"SenderId\":\"a\",\"ReceiverId\":\"b\",\"RoomId\":\"lobby\",\"Data\":\"\"," ++
    "\"Type\":\"Request\"\x7d\x7d")

def json : EnvelopeText where
  toVec e := if e = envelope then .ok envelopeText else .error "unknown"
  fromSlice text :=
    if text = envelopeText then .ok (.envelope (.ok envelope)) else .error "unknown"
  roundTrip := by
    intro e text h
    split at h
    · next he =>
      cases h
      rw [if_pos rfl, he]
    · cases h

/-- The JSON text of an event in which nothing needs an escape. -/
def canonical (pubkey : String) (createdAt kind : Nat) (tags : List (List String))
    (content : String) : Bytes :=
  let quoted (text : String) : Bytes := utf8 "\"" ++ utf8 text ++ utf8 "\""
  let array (parts : List Bytes) : Bytes :=
    utf8 "[" ++ (utf8 ",").intercalate parts ++ utf8 "]"
  array [utf8 "0", quoted pubkey, utf8 (toString createdAt), utf8 (toString kind),
    array (tags.map fun tag => array (tag.map quoted)), quoted content]

def scopeText (bucket : Nat) : Bytes :=
  utf8 "mistlib-nostr-room-scope:v1\x00" ++ secret ++ [0] ++ toLeBytes bucket ++ [0] ++ utf8 "lobby"

def scope : String := "41c99f15e78ccba7230f603f847721cc8065609a7fdebe12d13858cab642092c"

def proof : String := "e9c826dd02d51748ae6cba19e414952449f40a680e6cb5c66b37682b53b155e3"

/-- SHA-256 digests: room scopes, a proof, the ranks of the two keys, and the ids
of a discovery and of a message. -/
def digests : List (Bytes × Bytes) := [
  (scopeText 28333328,
    bytes32 0x18485990343c6a3ae6022df0fe3bc9909a7857eb6b0b34d7ea5a651fe80133a2),
  (scopeText 28333329,
    bytes32 0x0636a57aadc6165f7af843eca4a46e8119453159dcdae63a589b1abc5231a52f),
  (scopeText 28333330,
    bytes32 0x70949aacc22e7df6bcc9ec62b56cb7289fdb9ee03b33dc872d051652e61fe776),
  (scopeText 28333332,
    bytes32 0x1b5b49ca9d8ca177052dc591d3bf9a7fa33a55cb173edc3c1acf255a990a1f6a),
  (scopeText 28333333,
    bytes32 0x0312a6d46b0912291c46e44f83b5d92c81ea0acb0ac47376679b28a81e97f17c),
  (scopeText 28333334,
    bytes32 0x41c99f15e78ccba7230f603f847721cc8065609a7fdebe12d13858cab642092c),
  (utf8 "mistlib-nostr-discovery-proof:v1\x00" ++ secret ++ [0] ++ utf8 "lobby" ++ [0] ++
      utf8 sender.publicKey ++ [0] ++ toLeBytes 1700000100 ++ [0] ++
      utf8 "00000000000000000000000000000007",
    bytes32 0xe9c826dd02d51748ae6cba19e414952449f40a680e6cb5c66b37682b53b155e3),
  (utf8 "mistlib-nostr-topology-rank:v1\x00" ++ secret ++ [0] ++ utf8 "lobby" ++ [0] ++
      utf8 sender.publicKey,
    bytes32 0xb61b7c2a45b71bcd0ddfe164b316b3a8e26f3b35af7d331003b2b53770701ab0),
  (utf8 "mistlib-nostr-topology-rank:v1\x00" ++ secret ++ [0] ++ utf8 "lobby" ++ [0] ++
      utf8 receiver.publicKey,
    bytes32 0xf4348f2587b70859444aed6dd707b19b28a29316d972ae839bfd1466571f5e79),
  (canonical sender.publicKey sent 25049
      [["d", scope], ["nonce", "00000000000000000000000000000007"],
        ["expiration", "1700000100"], ["proof", proof], ["joined_at", "1700000000"]] "",
    bytes32 0x1d9d268bef978b0b02567f8cb867d6203c3034dac1ab0dcff3199bfe4f2f90db),
  (canonical sender.publicKey sent 25050
      [["d", scope], ["p", receiver.publicKey], ["nonce", "00000000000000000000000000000007"],
        ["expiration", "1700000100"]] "ciphertext",
    bytes32 0x38d43dc57fd44fdc16cc5dbe3148e2b22d3cc20d24175d282cbd2481873fe1ea)]

def lib : Library where
  sha256 data :=
    match digests.find? fun p => decide (p.1 = data) with
    | some p => p.2
    | none => List.replicate 32 0
  sha256_length := by
    intro data
    have hall : ∀ p ∈ digests, p.2.length = 32 := by decide +kernel
    split
    · next p hp => exact hall _ (List.mem_of_find?_eq_some hp)
    · rfl
  canonical

def signature : String := hexEncode (List.replicate 64 0)

/-- A cipher for the one text, and signatures that stand for the id they are on. -/
def crypto : NostrCrypto lib where
  encrypt _ _ plaintext :=
    if plaintext = envelopeText then .ok "ciphertext" else .error (.signaling "unknown")
  decrypt _ _ content :=
    if content = "ciphertext" then .ok envelopeText else .error (.signaling "unknown")
  signEvent _ _ := .ok signature
  verifyEvent event :=
    if event.refreshId lib = event then .ok () else .error (.signaling "invalid Nostr event id")
  decrypt_encrypt := by
    intro _ _ plaintext content h
    split at h
    · next heq =>
      cases h
      rw [if_pos rfl, heq]
    · cases h
  encrypt_length := by
    intro _ _ plaintext content _ h
    split at h
    · cases h
      decide +kernel
    · cases h
  verify_sign := by
    intro identity event sig _ hid h
    rw [← Except.ok.inj h]
    refine ⟨isHexLen_hexEncode _, if_pos ?_⟩
    rw [NostrEvent.mk.injEq] at hid
    simp only [NostrEvent.refreshId, NostrEvent.mk.injEq, and_self, and_true]
    exact hid.1

end Sample

end Mistlib.Signaling
