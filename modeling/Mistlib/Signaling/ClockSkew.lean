import Mistlib.Signaling.Codec

/-!
# What clock skew the codec tolerates

An event is built by the sender's clock and validated by the receiver's. Four windows meet
there: how far the sender may be ahead, how old an event may be, how far its expiration may lie,
and the rotation of the room scope, of which the receiver takes the current one and its two
neighbours.

The first three follow the configured skew and lifetime; the last does not. As long as the two
clocks are in neighbouring rotations every event within the skew and the lifetime is accepted. A
sender further ahead is refused whatever skew is configured, and so is an event that is still
alive but more than one rotation old.
-/

namespace Mistlib.Signaling

namespace NostrCodecConfig

variable {lib : Library} (config : NostrCodecConfig)

/-- The two clocks are in the same or in neighbouring rotations, and neither
is at the end of time. -/
structure Tolerated (ts tr : Nat) : Prop where
  ahead : config.bucket ts ≤ config.bucket tr + 1
  behind : config.bucket tr ≤ config.bucket ts + 1
  sender : ts < U64_MAX
  receiver : tr < U64_MAX

/-- No rotation accepted at `tr` shares its room scope with another one of the sender. -/
def ScopesApart (lib : Library) (roomId : String) (ts tr : Nat) : Prop :=
  ∀ b ∈ config.acceptedBuckets tr,
    config.roomScope lib roomId b = config.roomScope lib roomId (config.bucket ts) →
      b = config.bucket ts

variable {config}

theorem mem_acceptedBuckets {b now : Nat} :
    b ∈ config.acceptedBuckets now ↔ b ≤ config.bucket now + 1 ∧ config.bucket now ≤ b + 1 := by
  unfold acceptedBuckets
  split
  all_goals
    simp only [List.mem_cons, List.not_mem_nil, or_false]
    omega

theorem expiresAt_le (now : Nat) : config.expiresAt now ≤ U64_MAX := Nat.min_le_right _ _

/-! ## The time windows -/

variable {roomId : String} {event : NostrEvent} {identity : TemporarySignalingIdentity}

/-- Within the skew and the lifetime, the time windows close only at the end
of time. -/
theorem validateEventBasics_iff (tr kind : Nat) (hshape : validateEventShape event = .ok ())
    (hkind : event.kind = kind)
    (hexpires : eventExpiration event = .ok (config.expiresAt event.createdAt))
    (httl : 1 ≤ config.ttlSeconds) (hskew : event.createdAt ≤ tr + config.maxClockSkewSeconds)
    (hfresh : tr < event.createdAt + config.ttlSeconds) :
    config.validateEventBasics tr kind event = .ok () ↔
      event.createdAt < U64_MAX ∧ tr < U64_MAX := by
  simp only [validateEventBasics, hshape, hkind, hexpires, bind, Except.bind, throw, throwThe,
    MonadExceptOf.throw, pure, Except.pure, ne_eq, not_true_eq_false, if_false]
  unfold expiresAt saturatingAdd
  generalize event.createdAt = ts at *
  generalize config.ttlSeconds = ttl at *
  generalize config.maxClockSkewSeconds = skew at *
  generalize U64_MAX = last at *
  constructor
  · intro h
    split at h
    · cases h
    · split at h
      · cases h
      · split at h
        · cases h
        · split at h
          · cases h
          · omega
  · rintro ⟨hts, htr⟩
    rw [if_neg (by omega), if_neg (by omega), if_neg (by omega), if_neg (by omega),
      if_neg (by omega)]

/-! ## What is in a built event -/

theorem smallTag_tag {name value : String} (hname : (utf8 name).length ≤ 64)
    (hvalue : (utf8 value).length ≤ 64) : SmallTag (tag name value) := by
  have hfields : 2 ≤ MAX_NOSTR_EVENT_TAG_FIELDS := by decide
  have hconst : 64 ≤ MAX_NOSTR_EVENT_TAG_FIELD_CHARS := by decide
  refine ⟨hfields, fun field hfield => ?_⟩
  rcases List.mem_cons.mp hfield with rfl | hfield
  · omega
  · obtain rfl := List.mem_singleton.mp hfield
    omega

theorem utf8_toString_length {n : Nat} (h : n ≤ U64_MAX) : (utf8 (toString n)).length ≤ 64 := by
  have hdigits : ∀ c ∈ (toString n).toList, c.utf8Size = 1 := by
    intro c hc
    rw [Nat.toString_eq_repr, Nat.repr, String.toList_ofList] at hc
    have hdigit := Nat.isDigit_of_mem_toDigits (by decide) (by decide) hc
    rw [Char.utf8Size_eq_one_iff]
    rw [Char.isDigit, Bool.and_eq_true, decide_eq_true_iff, decide_eq_true_iff] at hdigit
    have := hdigit.2
    simp only [UInt32.le_iff_toNat_le] at this ⊢
    simp at this
    simp
    omega
  have hlength := toString_length h
  have hsum : ((toString n).toList.map Char.utf8Size).sum = (toString n).toList.length := by
    rw [List.map_congr_left hdigits, List.map_const', List.sum_replicate_nat, Nat.mul_one]
  rw [← String.ofList_toList (s := toString n), utf8_ofList_length, hsum]
  omega

theorem signed_ok {crypto : NostrCrypto lib} {now kind : Nat} {tags : List (List String)}
    {content sig : String}
    (hsig : crypto.signEvent identity (NostrEvent.unsigned lib now identity.publicKey kind tags content) = .ok sig)
    (hlength : tags.length ≤ MAX_NOSTR_EVENT_TAGS) (hsmall : ∀ tag ∈ tags, SmallTag tag)
    (hcontent : (utf8 content).length ≤ MAX_NOSTR_EVENT_CONTENT_CHARS) :
    let event := { NostrEvent.unsigned lib now identity.publicKey kind tags content with sig }
    validateEventShape event = .ok () ∧ crypto.verifyEvent event = .ok () := by
  obtain ⟨hform, hverify⟩ := crypto.verify_sign identity _ sig rfl rfl hsig
  exact ⟨validateEventShape_ok NostrEvent.isHexLen_unsigned_id identity.isKey hform hcontent
    hlength hsmall, hverify⟩

def discoveryTags (lib : Library) (config : NostrCodecConfig)
    (identity : TemporarySignalingIdentity) (now : Nat) (nonce : RandomBytes) (roomId : String)
    (joinedAt : Option Nat) : List (List String) :=
  [tag TAG_INVITE_SCOPE (config.currentRoomScope lib now roomId),
    tag TAG_NONCE (randomSubscriptionId nonce),
    tag TAG_EXPIRATION (toString (config.expiresAt now)),
    tag TAG_DISCOVERY_PROOF (config.discoveryProof lib roomId identity.publicKey
      (config.expiresAt now) (randomSubscriptionId nonce))] ++
  joinedAt.toList.map fun joinedAt => tag TAG_JOINED_AT (toString joinedAt)

theorem buildDiscoveryEvent_ok {crypto : NostrCrypto lib} {now : Nat} {nonce : RandomBytes}
    {joinedAt : Option Nat}
    (h : config.buildDiscoveryEventWithJoinedAt crypto identity now nonce roomId joinedAt = .ok event) :
    ∃ sig, crypto.signEvent identity (NostrEvent.unsigned lib now identity.publicKey
        config.discoveryKind (discoveryTags lib config identity now nonce roomId joinedAt) "") =
          .ok sig ∧
      event = { NostrEvent.unsigned lib now identity.publicKey config.discoveryKind
        (discoveryTags lib config identity now nonce roomId joinedAt) "" with sig } := by
  unfold buildDiscoveryEventWithJoinedAt at h
  simp only [bind, Except.bind, pure, Except.pure] at h
  split at h
  · cases h
  · next sig hsig => exact ⟨sig, hsig, by cases h; rfl⟩

theorem smallTag_of_mem_discoveryTags {now : Nat} {nonce : RandomBytes} {joinedAt : Option Nat}
    (hjoined : ∀ since ∈ joinedAt, since ≤ U64_MAX) {t : List String}
    (ht : t ∈ discoveryTags lib config identity now nonce roomId joinedAt) : SmallTag t := by
  rw [discoveryTags, List.mem_append, List.mem_map] at ht
  rcases ht with ht | ⟨since, hsince, rfl⟩
  · simp only [List.mem_cons, List.not_mem_nil, or_false] at ht
    rcases ht with rfl | rfl | rfl | rfl
    · exact smallTag_tag (by decide) (Nat.le_of_eq (lib.utf8_sha256Hex_length _))
    · refine smallTag_tag (by decide) ?_
      rw [randomSubscriptionId, utf8_hexEncode_length, nonce.2]
      decide
    · exact smallTag_tag (by decide) (utf8_toString_length (expiresAt_le _))
    · exact smallTag_tag (by decide) (Nat.le_of_eq (lib.utf8_sha256Hex_length _))
  · exact smallTag_tag (by decide) (utf8_toString_length (hjoined _ (by simpa using hsince)))

theorem scopeAccepted_iff {ts tr : Nat}
    (hscope : ∀ scope, event.hasTagValue TAG_INVITE_SCOPE scope = true ↔
      scope = config.currentRoomScope lib ts roomId)
    (hapart : config.ScopesApart lib roomId ts tr) :
    config.scopeAccepted lib tr roomId event = true ↔
      config.bucket ts ∈ config.acceptedBuckets tr := by
  rw [scopeAccepted, List.any_eq_true]
  constructor
  · rintro ⟨scope, hmem, hvalue⟩
    obtain ⟨b, hb, rfl⟩ := List.mem_map.mp hmem
    rw [hscope] at hvalue
    rwa [← hapart b hb hvalue]
  · intro hmem
    exact ⟨_, List.mem_map.mpr ⟨_, hmem, rfl⟩, (hscope _).mpr rfl⟩

theorem tolerated_iff {ts tr : Nat} :
    config.Tolerated ts tr ↔
      config.bucket ts ∈ config.acceptedBuckets tr ∧ ts < U64_MAX ∧ tr < U64_MAX := by
  rw [mem_acceptedBuckets]
  constructor
  · rintro ⟨hahead, hbehind, hsender, hreceiver⟩
    exact ⟨⟨hahead, hbehind⟩, hsender, hreceiver⟩
  · rintro ⟨⟨hahead, hbehind⟩, hsender, hreceiver⟩
    exact ⟨hahead, hbehind, hsender, hreceiver⟩

/-! ## Discovery -/

section Discovery

variable {crypto : NostrCrypto lib} {identity : TemporarySignalingIdentity} {ts tr : Nat}
  {nonce : RandomBytes} {roomId : String} {joinedAt : Option Nat} {event : NostrEvent}

theorem discoveryTags_read (hevent : event.tags =
      discoveryTags lib config identity ts nonce roomId joinedAt) :
    event.tagValue TAG_NONCE = some (randomSubscriptionId nonce) ∧
    event.tagValue TAG_EXPIRATION = some (toString (config.expiresAt ts)) ∧
    event.tagValue TAG_DISCOVERY_PROOF = some (config.discoveryProof lib roomId identity.publicKey
      (config.expiresAt ts) (randomSubscriptionId nonce)) ∧
    event.tagValue TAG_JOINED_AT = joinedAt.map toString ∧
    ∀ scope, event.hasTagValue TAG_INVITE_SCOPE scope = true ↔
      scope = config.currentRoomScope lib ts roomId := by
  simp only [NostrEvent.tagValue, NostrEvent.hasTagValue, hevent, discoveryTags, tag,
    TAG_INVITE_SCOPE, TAG_NONCE, TAG_EXPIRATION, TAG_DISCOVERY_PROOF, TAG_JOINED_AT]
  cases joinedAt <;> simp [eq_comm]

/-- A discovery event decodes exactly if its time is tolerated. -/
theorem decodeDiscoveryEvent_ok
    (hbuild : config.buildDiscoveryEventWithJoinedAt crypto identity ts nonce roomId joinedAt =
      .ok event)
    (httl : 1 ≤ config.ttlSeconds) (hskew : ts ≤ tr + config.maxClockSkewSeconds)
    (hfresh : tr < ts + config.ttlSeconds) (hjoined : ∀ since ∈ joinedAt, since ≤ U64_MAX)
    (hapart : config.ScopesApart lib roomId ts tr) :
    (∀ decoded, config.decodeDiscoveryEvent crypto tr event roomId = .ok decoded →
      config.Tolerated ts tr) ∧
    (config.Tolerated ts tr → config.decodeDiscoveryEvent crypto tr event roomId =
      .ok { signalingPubkey := identity.publicKey
            expiresAt := config.expiresAt ts
            topologyRank := config.topologyRank lib roomId identity.publicKey
            joinedAt }) := by
  obtain ⟨sig, hsig, hevent⟩ := buildDiscoveryEvent_ok hbuild
  have hlength : (discoveryTags lib config identity ts nonce roomId joinedAt).length ≤
      MAX_NOSTR_EVENT_TAGS := by
    cases joinedAt <;> simp [discoveryTags, MAX_NOSTR_EVENT_TAGS]
  obtain ⟨hshape, hverify⟩ := signed_ok hsig hlength
    (fun t ht => smallTag_of_mem_discoveryTags hjoined ht) (by decide)
  rw [← hevent] at hshape hverify
  have hcreated : event.createdAt = ts := by rw [hevent]; rfl
  have hpubkey : event.pubkey = identity.publicKey := by rw [hevent]; rfl
  have htags : event.tags = discoveryTags lib config identity ts nonce roomId joinedAt := by
    rw [hevent]
    rfl
  obtain ⟨hnonce, hexpiration, hproof, hjoinedAt, hscope⟩ := discoveryTags_read htags
  have hexpires : eventExpiration event = .ok (config.expiresAt ts) := by
    simp only [eventExpiration, hexpiration, parseU64_toString (expiresAt_le ts)]
  have hbasics := validateEventBasics_iff tr config.discoveryKind hshape
    (by rw [hevent]; rfl) (by rw [hcreated]; exact hexpires) httl (by rw [hcreated]; exact hskew)
    (by rw [hcreated]; exact hfresh)
  rw [hcreated] at hbasics
  have hread : (event.tagValue TAG_JOINED_AT).bind parseU64 = joinedAt := by
    rw [hjoinedAt]
    cases joinedAt with
    | none => rfl
    | some since => exact parseU64_toString (hjoined since rfl)
  rw [tolerated_iff, ← scopeAccepted_iff hscope hapart, ← hbasics]
  simp only [decodeDiscoveryEvent, validateDiscoveryEvent, hshape, hverify, hnonce, hproof,
    hexpires, hpubkey, hread, bind, Except.bind, pure, Except.pure, throw, throwThe,
    MonadExceptOf.throw]
  constructor
  · intro decoded h
    split at h
    · cases h
    · next hvalid =>
      split at hvalid
      · cases hvalid
      · next hok =>
        split at hvalid
        · cases hvalid
        · next haccepted =>
          exact ⟨by simpa using haccepted, hok⟩
  · rintro ⟨haccepted, hok⟩
    rw [hok, haccepted]
    simp

end Discovery

/-! ## Messages -/

section Message

variable {crypto : NostrCrypto lib} {json : EnvelopeText}
  {sender receiver : TemporarySignalingIdentity} {localNodeId : NodeId} {ts tr : Nat}
  {messageId nonce : RandomBytes} {receiverPubkey roomId : String} {data : SignalingData}
  {sequence : Nat} {senderJoinedAt : Option Nat} {event : NostrEvent}

/-- The key or sentinel a message is addressed by. -/
def messageAddress (lib : Library) (config : NostrCodecConfig) (now : Nat)
    (receiverPubkey : String) (data : SignalingData) : String :=
  if data.receiverId.isBroadcast then config.currentBroadcastSentinel lib now data.roomId
  else receiverPubkey

def messageTags (lib : Library) (config : NostrCodecConfig) (now : Nat) (nonce : RandomBytes)
    (receiverPubkey : String) (data : SignalingData) : List (List String) :=
  [tag TAG_INVITE_SCOPE (config.currentRoomScope lib now data.roomId),
    tag TAG_P (config.messageAddress lib now receiverPubkey data),
    tag TAG_NONCE (randomSubscriptionId nonce),
    tag TAG_EXPIRATION (toString (config.expiresAt now))]

theorem buildMessageEvent_ok
    (h : config.buildMessageEventWithSequenceAndJoinedAt crypto json sender ts messageId nonce
      receiverPubkey data sequence senderJoinedAt = .ok event) :
    ∃ plaintext content sig,
      json.encodeMessageEnvelopeWithJoinedAt messageId data sequence senderJoinedAt =
        .ok plaintext ∧
      crypto.encrypt sender receiverPubkey plaintext = .ok content ∧
      crypto.signEvent sender (NostrEvent.unsigned lib ts sender.publicKey config.messageKind
        (messageTags lib config ts nonce receiverPubkey data) content) = .ok sig ∧
      event = { NostrEvent.unsigned lib ts sender.publicKey config.messageKind
        (messageTags lib config ts nonce receiverPubkey data) content with sig } := by
  unfold buildMessageEventWithSequenceAndJoinedAt at h
  simp only [bind, Except.bind, pure, Except.pure] at h
  split at h
  · cases h
  · next plaintext hplain =>
    split at h
    · cases h
    · next content hcontent =>
      split at h
      · cases h
      · next sig hsig =>
        exact ⟨plaintext, content, sig, hplain, hcontent, hsig, by cases h; rfl⟩

theorem decodeMessageEnvelope_encode {plaintext : Bytes}
    (h : json.encodeMessageEnvelopeWithJoinedAt messageId data sequence senderJoinedAt =
      .ok plaintext) :
    plaintext.length ≤ MAX_NOSTR_SIGNALING_PLAINTEXT_BYTES ∧
      json.decodeMessageEnvelope plaintext =
        .ok { data, messageId := some (randomSubscriptionId messageId), sequence := some sequence,
              senderJoinedAt } := by
  unfold EnvelopeText.encodeMessageEnvelopeWithJoinedAt at h
  split at h
  · cases h
  · next hsequence =>
    dsimp only at h
    split at h
    · cases h
    · next encoded hencoded =>
      split at h
      · cases h
      · next hlength =>
        cases h
        have hid : isHexLen (randomSubscriptionId messageId) 32 = true := by
          have := isHexLen_hexEncode messageId.1
          rwa [messageId.2] at this
        refine ⟨Nat.le_of_not_lt hlength, ?_⟩
        simp only [EnvelopeText.decodeMessageEnvelope, if_neg hlength, json.roundTrip hencoded,
          hid, if_neg hsequence]
        rfl

theorem smallTag_of_mem_messageTags (hkey : isHexLen receiverPubkey 64 = true) {t : List String}
    (ht : t ∈ messageTags lib config ts nonce receiverPubkey data) : SmallTag t := by
  simp only [messageTags, List.mem_cons, List.not_mem_nil, or_false] at ht
  rcases ht with rfl | rfl | rfl | rfl
  · exact smallTag_tag (by decide) (Nat.le_of_eq (lib.utf8_sha256Hex_length _))
  · refine smallTag_tag (by decide) ?_
    rw [messageAddress]
    split
    · exact Nat.le_of_eq (lib.utf8_sha256Hex_length _)
    · rw [isHexLen, Bool.and_eq_true, decide_eq_true_iff] at hkey
      exact Nat.le_of_eq hkey.1
  · refine smallTag_tag (by decide) ?_
    rw [randomSubscriptionId, utf8_hexEncode_length, nonce.2]
    decide
  · exact smallTag_tag (by decide) (utf8_toString_length (expiresAt_le _))

theorem messageTags_read
    (hevent : event.tags = messageTags lib config ts nonce receiverPubkey data) :
    event.tagValue TAG_P = some (config.messageAddress lib ts receiverPubkey data) ∧
    event.tagValue TAG_EXPIRATION = some (toString (config.expiresAt ts)) ∧
    ∀ scope, event.hasTagValue TAG_INVITE_SCOPE scope = true ↔
      scope = config.currentRoomScope lib ts data.roomId := by
  simp only [NostrEvent.tagValue, NostrEvent.hasTagValue, hevent, messageTags, tag,
    TAG_INVITE_SCOPE, TAG_NONCE, TAG_EXPIRATION, TAG_P]
  simp [eq_comm]

theorem addressAccepted_messageAddress
    (hbucket : config.bucket ts ∈ config.acceptedBuckets tr) :
    config.addressAccepted lib tr receiver data.roomId
      (config.messageAddress lib ts receiver.publicKey data) = true := by
  rw [addressAccepted, messageAddress, Bool.or_eq_true, decide_eq_true_iff]
  split
  · exact .inr (List.contains_iff_mem.mpr (List.mem_map.mpr ⟨_, hbucket, rfl⟩))
  · exact .inl rfl

/-- A message event decodes exactly if its time is tolerated. -/
theorem decodeMessageEvent_ok
    (hbuild : config.buildMessageEventWithSequenceAndJoinedAt crypto json sender ts messageId nonce
      receiver.publicKey data sequence senderJoinedAt = .ok event)
    (hreceiver : data.receiverId = localNodeId ∨ data.receiverId.isBroadcast = true)
    (httl : 1 ≤ config.ttlSeconds) (hskew : ts ≤ tr + config.maxClockSkewSeconds)
    (hfresh : tr < ts + config.ttlSeconds)
    (hapart : config.ScopesApart lib data.roomId ts tr) :
    (∀ decoded, config.decodeMessageEvent crypto json receiver localNodeId tr event data.roomId =
      .ok decoded → config.Tolerated ts tr) ∧
    (config.Tolerated ts tr →
      config.decodeMessageEvent crypto json receiver localNodeId tr event data.roomId =
        .ok { senderPubkey := sender.publicKey
              data
              expiresAt := config.expiresAt ts
              messageId := some (randomSubscriptionId messageId)
              sequence := some sequence
              senderJoinedAt }) := by
  obtain ⟨plaintext, content, sig, hplain, hcontent, hsig, hevent⟩ := buildMessageEvent_ok hbuild
  obtain ⟨hsize, hdecode⟩ := decodeMessageEnvelope_encode hplain
  obtain ⟨hshape, hverify⟩ := signed_ok hsig (by simp [messageTags, MAX_NOSTR_EVENT_TAGS])
    (fun t ht => smallTag_of_mem_messageTags receiver.isKey ht)
    (crypto.encrypt_length _ _ _ _ hsize hcontent)
  rw [← hevent] at hshape hverify
  have hcreated : event.createdAt = ts := by rw [hevent]; rfl
  have hpubkey : event.pubkey = sender.publicKey := by rw [hevent]; rfl
  have hdecrypt : crypto.decrypt receiver sender.publicKey event.content = .ok plaintext := by
    rw [hevent]
    exact crypto.decrypt_encrypt _ _ _ _ hcontent
  have htags : event.tags = messageTags lib config ts nonce receiver.publicKey data := by
    rw [hevent]
    rfl
  obtain ⟨hp, hexpiration, hscope⟩ := messageTags_read htags
  have hparse : parseU64 (toString (config.expiresAt ts)) = some (config.expiresAt ts) :=
    parseU64_toString (expiresAt_le ts)
  have hexpires : eventExpiration event = .ok (config.expiresAt ts) := by
    simp only [eventExpiration, hexpiration, hparse]
  have hbasics := validateEventBasics_iff tr config.messageKind hshape
    (by rw [hevent]; rfl) (by rw [hcreated]; exact hexpires) httl (by rw [hcreated]; exact hskew)
    (by rw [hcreated]; exact hfresh)
  rw [hcreated] at hbasics
  rw [tolerated_iff, ← hbasics]
  simp only [decodeMessageEvent, hshape, hverify, hp, bind, Except.bind, pure, Except.pure, throw,
    throwThe, MonadExceptOf.throw]
  constructor
  · intro decoded h
    split at h
    · cases h
    · next hok =>
      split at h
      · next haddress =>
        split at h
        · cases h
        · next haccepted =>
          exact ⟨(scopeAccepted_iff hscope hapart).mp (by simpa using haccepted), hok⟩
      · cases h
  · rintro ⟨hbucket, hok⟩
    rw [hok, addressAccepted_messageAddress hbucket, (scopeAccepted_iff hscope hapart).mpr hbucket]
    have hnot : ¬ (¬ data.receiverId = localNodeId ∧ data.receiverId.isBroadcast = false) := by
      rintro ⟨hne, hbroadcast⟩
      rcases hreceiver with h | h
      · exact hne h
      · rw [h] at hbroadcast
        cases hbroadcast
    have hread : (event.tagValue TAG_EXPIRATION).bind parseU64 = some (config.expiresAt ts) := by
      rw [hexpiration]
      exact hparse
    simp [hpubkey, hdecrypt, hdecode, hread, hnot]

end Message

end NostrCodecConfig

/-- Of the events within the configured skew and their lifetime, a receiver
accepts those whose sender's rotation is its own or a neighbouring one, and
takes from them what went in. -/
theorem clockSkew_exact {lib : Library} {config : NostrCodecConfig} (crypto : NostrCrypto lib)
    (json : EnvelopeText) {ts tr : Nat} (httl : 1 ≤ config.ttlSeconds)
    (hskew : ts ≤ tr + config.maxClockSkewSeconds) (hfresh : tr < ts + config.ttlSeconds) :
    (∀ (identity : TemporarySignalingIdentity) (nonce : RandomBytes) (roomId : String)
        (joinedAt : Option Nat) (event : NostrEvent),
      (∀ since ∈ joinedAt, since ≤ U64_MAX) → config.ScopesApart lib roomId ts tr →
      config.buildDiscoveryEventWithJoinedAt crypto identity ts nonce roomId joinedAt =
        .ok event →
      ((∃ decoded, config.decodeDiscoveryEvent crypto tr event roomId = .ok decoded ∧
          decoded.signalingPubkey = identity.publicKey ∧ decoded.joinedAt = joinedAt) ↔
        config.Tolerated ts tr)) ∧
    (∀ (sender receiver : TemporarySignalingIdentity) (localNodeId : NodeId)
        (messageId nonce : RandomBytes) (data : SignalingData) (sequence : Nat)
        (senderJoinedAt : Option Nat) (event : NostrEvent),
      (data.receiverId = localNodeId ∨ data.receiverId.isBroadcast = true) →
      config.ScopesApart lib data.roomId ts tr →
      config.buildMessageEventWithSequenceAndJoinedAt crypto json sender ts messageId nonce
        receiver.publicKey data sequence senderJoinedAt = .ok event →
      ((∃ decoded,
          config.decodeMessageEvent crypto json receiver localNodeId tr event data.roomId =
            .ok decoded ∧
          decoded.senderPubkey = sender.publicKey ∧ decoded.data = data ∧
          decoded.sequence = some sequence ∧ decoded.senderJoinedAt = senderJoinedAt) ↔
        config.Tolerated ts tr)) := by
  refine ⟨?_, ?_⟩
  · intro identity nonce roomId joinedAt event hjoined hapart hbuild
    obtain ⟨htolerated, hdecode⟩ :=
      NostrCodecConfig.decodeDiscoveryEvent_ok hbuild httl hskew hfresh hjoined hapart
    constructor
    · rintro ⟨decoded, hok, -⟩
      exact htolerated decoded hok
    · intro h
      exact ⟨_, hdecode h, rfl, rfl⟩
  · intro sender receiver localNodeId messageId nonce data sequence senderJoinedAt event hreceiver
      hapart hbuild
    obtain ⟨htolerated, hdecode⟩ :=
      NostrCodecConfig.decodeMessageEvent_ok hbuild hreceiver httl hskew hfresh hapart
    constructor
    · rintro ⟨decoded, hok, -⟩
      exact htolerated decoded hok
    · intro h
      exact ⟨_, hdecode h, rfl, rfl, rfl, rfl⟩

/-! ## A minute and five minutes -/

open NostrCodecConfig Sample

/-- The events of the sample, a minute ahead of the receiver. -/
theorem clockSkew_exact_minute :
    (∃ event decoded, config.buildDiscoveryEventWithJoinedAt crypto sender sent nonce "lobby"
        (some 1700000000) = .ok event ∧
      config.decodeDiscoveryEvent crypto (sent - 60) event "lobby" = .ok decoded ∧
      decoded.signalingPubkey = sender.publicKey ∧ decoded.joinedAt = some 1700000000) ∧
    (∃ event decoded, config.buildMessageEventWithSequenceAndJoinedAt crypto json sender sent nonce
        nonce receiver.publicKey request 1 none = .ok event ∧
      config.decodeMessageEvent crypto json receiver ⟨"b"⟩ (sent - 60) event "lobby" =
        .ok decoded ∧
      decoded.senderPubkey = sender.publicKey ∧ decoded.data = request ∧
      decoded.sequence = some 1 ∧ decoded.senderJoinedAt = none) := by
  have hapart : config.ScopesApart lib "lobby" sent (sent - 60) := by
    unfold ScopesApart
    decide +kernel
  have htolerated : config.Tolerated sent (sent - 60) := by
    constructor <;> decide +kernel
  have httl : 1 ≤ config.ttlSeconds := by decide
  have hskew : sent ≤ sent - 60 + config.maxClockSkewSeconds := by decide
  have hfresh : sent - 60 < sent + config.ttlSeconds := by decide
  obtain ⟨hdiscovery, hmessage⟩ := clockSkew_exact crypto json httl hskew hfresh
  refine ⟨?_, ?_⟩
  · have hbuild := hdiscovery sender nonce "lobby" (some 1700000000) _
      (by rintro _ ⟨⟩; decide) hapart rfl
    obtain ⟨decoded, hdecoded⟩ := hbuild.mpr htolerated
    exact ⟨_, decoded, rfl, hdecoded⟩
  · have hplain : json.encodeMessageEnvelopeWithJoinedAt nonce request 1 none =
        .ok envelopeText := by
      decide +kernel
    have hcontent : crypto.encrypt sender receiver.publicKey envelopeText = .ok "ciphertext" := by
      decide +kernel
    obtain ⟨event, hevent⟩ : ∃ event, config.buildMessageEventWithSequenceAndJoinedAt crypto json
        sender sent nonce nonce receiver.publicKey request 1 none = .ok event := by
      simp only [buildMessageEventWithSequenceAndJoinedAt, hplain, hcontent, bind, Except.bind]
      exact ⟨_, rfl⟩
    obtain ⟨decoded, hdecoded⟩ := (hmessage sender receiver ⟨"b"⟩ nonce nonce request 1 none event
      (.inl rfl) hapart hevent).mpr htolerated
    exact ⟨event, decoded, hevent, hdecoded⟩

/-- Five minutes ahead, as the configured skew allows, the same discovery is refused. -/
theorem clockSkew_refused :
    ∃ event, config.buildDiscoveryEventWithJoinedAt crypto sender sent nonce "lobby"
        (some 1700000000) = .ok event ∧
      1 ≤ config.ttlSeconds ∧ sent ≤ (sent - 300) + config.maxClockSkewSeconds ∧
      sent - 300 < sent + config.ttlSeconds ∧ config.ScopesApart lib "lobby" sent (sent - 300) ∧
      config.decodeDiscoveryEvent crypto (sent - 300) event "lobby" =
        .error (.signaling "Nostr invite scope mismatch") := by
  refine ⟨_, rfl, by decide, by decide, by decide, ?_, ?_⟩
  · unfold ScopesApart
    decide +kernel
  · decide +kernel

end Mistlib.Signaling
