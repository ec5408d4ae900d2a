import Mistlib.Config.Settings
import Mistlib.Async.Reactive

/-!
# Reading a configuration back

`update_from_json` takes a whole configuration or a flat one, and `to_json_string` writes the flat
one. The flat form is copied from and to the settings by hand.
-/

open Json Reactive

namespace Mistlib

open Overlay (DensityEncoding SpatialPartitionType)
open MistEngine (ConnectionMode NodeListExchangeMode)

/-! ## The flat form -/

structure FlatConfig (F : Type) where
  signalingUrl : Option String
  signaling : Option SignalingConfig
  iceServers : Option (List IceServer)
  webrtcConnectionTimeoutMs : Option UInt32
  webrtcDeferConnectionWatchdogUntilNegotiated : Option Bool
  webrtcBufferEarlyIceCandidates : Option Bool
  maxConnectionCount : Option UInt32
  connectionBalancerIntervalSeconds : Option F
  expireSeconds : Option F
  aoiRange : Option F
  hopCount : Option UInt32
  forceDisconnectCount : Option UInt32
  maxMessageBytes : Option UInt32
  storageMaxCapacityMb : Option UInt64
  storageSpatialRetentionRadius : Option F
  storageSpatialDecayEnabled : Option Bool
  storageSpatialDecayIntervalSecs : Option UInt64
  storageSpatialDecayMaxProbability : Option F
  storageTransfer : Option StorageTransferConfig
  heartbeatIntervalSeconds : Option F
  nodeListIntervalSeconds : Option F
  pingIntervalSeconds : Option F
  pingTimeoutCount : Option UInt32
  spatialDistanceLayers : Option UInt32
  spatialDensityResolution : Option UInt32
  spatialDensityEncoding : Option String
  spatialPartitionType : Option String
  directionThreshold : Option F
  connectionMode : Option String
  nodeListExchangeMode : Option String
deriving DecidableEq, Repr

namespace FlatConfig

variable {F : Type} [IntCast F]

def names : List String :=
  ["signalingUrl", "signaling", "iceServers", "webrtcConnectionTimeoutMs",
    "webrtcDeferConnectionWatchdogUntilNegotiated", "webrtcBufferEarlyIceCandidates",
    "maxConnectionCount", "connectionBalancerIntervalSeconds", "expireSeconds", "aoiRange",
    "hopCount", "forceDisconnectCount", "maxMessageBytes", "storageMaxCapacityMb",
    "storageSpatialRetentionRadius", "storageSpatialDecayEnabled",
    "storageSpatialDecayIntervalSecs", "storageSpatialDecayMaxProbability", "storageTransfer",
    "heartbeatIntervalSeconds", "nodeListIntervalSeconds", "pingIntervalSeconds",
    "pingTimeoutCount", "spatialDistanceLayers", "spatialDensityResolution",
    "spatialDensityEncoding", "spatialPartitionType", "directionThreshold", "connectionMode",
    "nodeListExchangeMode"]

def encode (flat : FlatConfig F) : List (String × Json F) :=
  [("signalingUrl", encodeOption .string flat.signalingUrl),
    ("signaling", encodeOption SignalingConfig.codec flat.signaling),
    ("iceServers", encodeOption (.list IceServer.codec) flat.iceServers),
    ("webrtcConnectionTimeoutMs", encodeOption .u32 flat.webrtcConnectionTimeoutMs),
    ("webrtcDeferConnectionWatchdogUntilNegotiated",
      encodeOption .bool flat.webrtcDeferConnectionWatchdogUntilNegotiated),
    ("webrtcBufferEarlyIceCandidates", encodeOption .bool flat.webrtcBufferEarlyIceCandidates),
    ("maxConnectionCount", encodeOption .u32 flat.maxConnectionCount),
    ("connectionBalancerIntervalSeconds", encodeOption .float flat.connectionBalancerIntervalSeconds),
    ("expireSeconds", encodeOption .float flat.expireSeconds),
    ("aoiRange", encodeOption .float flat.aoiRange),
    ("hopCount", encodeOption .u32 flat.hopCount),
    ("forceDisconnectCount", encodeOption .u32 flat.forceDisconnectCount),
    ("maxMessageBytes", encodeOption .u32 flat.maxMessageBytes),
    ("storageMaxCapacityMb", encodeOption .u64 flat.storageMaxCapacityMb),
    ("storageSpatialRetentionRadius", encodeOption .float flat.storageSpatialRetentionRadius),
    ("storageSpatialDecayEnabled", encodeOption .bool flat.storageSpatialDecayEnabled),
    ("storageSpatialDecayIntervalSecs", encodeOption .u64 flat.storageSpatialDecayIntervalSecs),
    ("storageSpatialDecayMaxProbability", encodeOption .float flat.storageSpatialDecayMaxProbability),
    ("storageTransfer", encodeOption StorageTransferConfig.codec flat.storageTransfer),
    ("heartbeatIntervalSeconds", encodeOption .float flat.heartbeatIntervalSeconds),
    ("nodeListIntervalSeconds", encodeOption .float flat.nodeListIntervalSeconds),
    ("pingIntervalSeconds", encodeOption .float flat.pingIntervalSeconds),
    ("pingTimeoutCount", encodeOption .u32 flat.pingTimeoutCount),
    ("spatialDistanceLayers", encodeOption .u32 flat.spatialDistanceLayers),
    ("spatialDensityResolution", encodeOption .u32 flat.spatialDensityResolution),
    ("spatialDensityEncoding", encodeOption .string flat.spatialDensityEncoding),
    ("spatialPartitionType", encodeOption .string flat.spatialPartitionType),
    ("directionThreshold", encodeOption .float flat.directionThreshold),
    ("connectionMode", encodeOption .string flat.connectionMode),
    ("nodeListExchangeMode", encodeOption .string flat.nodeListExchangeMode)]

def decode (j : Json F) : Option (FlatConfig F) := do
  let field ← record names true j
  let signalingUrl ← (field "signalingUrl").optional Codec.string.decode
  let signaling ← (field "signaling").optional SignalingConfig.codec.decode
  let iceServers ← (field "iceServers").optional (Codec.list IceServer.codec).decode
  let webrtcConnectionTimeoutMs ← (field "webrtcConnectionTimeoutMs").optional Codec.u32.decode
  let webrtcDeferConnectionWatchdogUntilNegotiated ←
    (field "webrtcDeferConnectionWatchdogUntilNegotiated").optional Codec.bool.decode
  let webrtcBufferEarlyIceCandidates ←
    (field "webrtcBufferEarlyIceCandidates").optional Codec.bool.decode
  let maxConnectionCount ← (field "maxConnectionCount").optional Codec.u32.decode
  let connectionBalancerIntervalSeconds ←
    (field "connectionBalancerIntervalSeconds").optional Codec.float.decode
  let expireSeconds ← (field "expireSeconds").optional Codec.float.decode
  let aoiRange ← (field "aoiRange").optional Codec.float.decode
  let hopCount ← (field "hopCount").optional Codec.u32.decode
  let forceDisconnectCount ← (field "forceDisconnectCount").optional Codec.u32.decode
  let maxMessageBytes ← (field "maxMessageBytes").optional Codec.u32.decode
  let storageMaxCapacityMb ← (field "storageMaxCapacityMb").optional Codec.u64.decode
  let storageSpatialRetentionRadius ←
    (field "storageSpatialRetentionRadius").optional Codec.float.decode
  let storageSpatialDecayEnabled ← (field "storageSpatialDecayEnabled").optional Codec.bool.decode
  let storageSpatialDecayIntervalSecs ←
    (field "storageSpatialDecayIntervalSecs").optional Codec.u64.decode
  let storageSpatialDecayMaxProbability ←
    (field "storageSpatialDecayMaxProbability").optional Codec.float.decode
  let storageTransfer ← (field "storageTransfer").optional StorageTransferConfig.codec.decode
  let heartbeatIntervalSeconds ← (field "heartbeatIntervalSeconds").optional Codec.float.decode
  let nodeListIntervalSeconds ← (field "nodeListIntervalSeconds").optional Codec.float.decode
  let pingIntervalSeconds ← (field "pingIntervalSeconds").optional Codec.float.decode
  let pingTimeoutCount ← (field "pingTimeoutCount").optional Codec.u32.decode
  let spatialDistanceLayers ← (field "spatialDistanceLayers").optional Codec.u32.decode
  let spatialDensityResolution ← (field "spatialDensityResolution").optional Codec.u32.decode
  let spatialDensityEncoding ← (field "spatialDensityEncoding").optional Codec.string.decode
  let spatialPartitionType ← (field "spatialPartitionType").optional Codec.string.decode
  let directionThreshold ← (field "directionThreshold").optional Codec.float.decode
  let connectionMode ← (field "connectionMode").optional Codec.string.decode
  let nodeListExchangeMode ← (field "nodeListExchangeMode").optional Codec.string.decode
  some
    { signalingUrl, signaling, iceServers, webrtcConnectionTimeoutMs,
      webrtcDeferConnectionWatchdogUntilNegotiated, webrtcBufferEarlyIceCandidates,
      maxConnectionCount, connectionBalancerIntervalSeconds, expireSeconds, aoiRange, hopCount,
      forceDisconnectCount, maxMessageBytes, storageMaxCapacityMb, storageSpatialRetentionRadius,
      storageSpatialDecayEnabled, storageSpatialDecayIntervalSecs,
      storageSpatialDecayMaxProbability, storageTransfer, heartbeatIntervalSeconds,
      nodeListIntervalSeconds, pingIntervalSeconds, pingTimeoutCount, spatialDistanceLayers,
      spatialDensityResolution, spatialDensityEncoding, spatialPartitionType, directionThreshold,
      connectionMode, nodeListExchangeMode }

theorem names_nodup : names.Nodup := by decide

theorem decode_encode (flat : FlatConfig F) : decode (.object flat.encode) = some flat := by
  have hkeys : keys flat.encode = names := rfl
  rw [decode, record_strict hkeys names_nodup]
  rw [Option.bind_eq_bind, Option.bind_some]
  repeat rw [Option.bind_eq_bind]
  -- Each field has the entry of its name.
  iterate 30
    rw [bind_optional_entry (h := ?found)]
    case found => rfl

omit [IntCast F]

def fromConfig (c : Config F) : FlatConfig F where
  signalingUrl := some c.signalingUrl
  signaling := some c.signaling
  iceServers := some c.webrtc.iceServers
  webrtcConnectionTimeoutMs := some c.webrtc.connectionTimeoutMs
  webrtcDeferConnectionWatchdogUntilNegotiated := some c.webrtc.deferConnectionWatchdogUntilNegotiated
  webrtcBufferEarlyIceCandidates := some c.webrtc.bufferEarlyIceCandidates
  maxConnectionCount := some c.limits.maxConnectionCount
  connectionBalancerIntervalSeconds := some c.intervals.connectionBalancer
  expireSeconds := some c.limits.expireNodeSeconds
  aoiRange := some c.dnve.aoiRange
  hopCount := some c.limits.hopCount
  forceDisconnectCount := some c.limits.forceDisconnectCount
  maxMessageBytes := some c.limits.maxMessageBytes
  storageMaxCapacityMb := some c.storage.maxCapacityMb
  storageSpatialRetentionRadius := some c.storage.spatialRetentionRadius
  storageSpatialDecayEnabled := some c.storage.spatialDecayEnabled
  storageSpatialDecayIntervalSecs := some c.storage.spatialDecayIntervalSecs
  storageSpatialDecayMaxProbability := some c.storage.spatialDecayMaxProbability
  storageTransfer := some c.storage.transfer
  heartbeatIntervalSeconds := some c.intervals.heartbeat
  nodeListIntervalSeconds := some c.intervals.nodeList
  pingIntervalSeconds := some c.intervals.ping
  pingTimeoutCount := some c.limits.pingTimeoutCount
  spatialDistanceLayers := some c.dnve.distanceLayers
  spatialDensityResolution := some c.dnve.densityResolution
  spatialDensityEncoding := some c.dnve.densityEncoding.asStr
  spatialPartitionType := some c.dnve.spatialPartitionType.asStr
  directionThreshold := some c.dnve.directionThreshold
  connectionMode := some c.dnve.connectionMode.asStr
  nodeListExchangeMode := some c.dnve.nodeListExchangeMode.asStr

end FlatConfig

/-! ## Updates -/

/-- A function that may fail and that works on the settings in place. -/
abbrev Update (F : Type) := ExceptT MistError (StateM (Config F))

namespace Update

variable {F α : Type}

def on (u : Update F Unit) (c : Config F) : Except MistError Unit × Config F := u.run.run c

def assign (value : Option α) (set : α → Config F → Config F) : Update F Unit :=
  match value with
  | some v => modify (set v)
  | none => pure ()

def assignPositive (setting : String) (value : Option UInt32)
    (set : UInt32 → Config F → Config F) : Update F Unit :=
  match value with
  | none => pure ()
  | some v =>
    if v = 0 then throw (.config (setting ++ " must be greater than zero"))
    else modify (set v)

/-- `debug` is how a text is quoted in an error. -/
def assignVariant (debug : String → String) (setting : String) (variants : List (String × α))
    (parse : String → Option α) (value : Option String) (set : α → Config F → Config F) :
    Update F Unit :=
  match value with
  | none => pure ()
  | some v =>
    match parse v with
    | some variant => modify (set variant)
    | none =>
      throw (.config ("invalid " ++ setting ++ " " ++ debug v ++ "; expected one of: " ++
        ", ".intercalate (variants.map (·.1))))

end Update

open Update in
def FlatConfig.applyTo {F : Type} (debug : String → String) (flat : FlatConfig F) : Update F Unit := do
  assign flat.signalingUrl fun v c => { c with signalingUrl := v }
  assign flat.signaling fun v c => { c with signaling := v }
  assign flat.iceServers fun v c => { c with webrtc.iceServers := v }
  assignPositive "webrtcConnectionTimeoutMs" flat.webrtcConnectionTimeoutMs
    fun v c => { c with webrtc.connectionTimeoutMs := v }
  assign flat.webrtcDeferConnectionWatchdogUntilNegotiated fun v c =>
    { c with webrtc.deferConnectionWatchdogUntilNegotiated := v }
  assign flat.webrtcBufferEarlyIceCandidates fun v c => { c with webrtc.bufferEarlyIceCandidates := v }
  assign flat.maxConnectionCount fun v c => { c with limits.maxConnectionCount := v }
  assign flat.connectionBalancerIntervalSeconds fun v c => { c with intervals.connectionBalancer := v }
  assign flat.expireSeconds fun v c => { c with limits.expireNodeSeconds := v }
  assign flat.aoiRange fun v c => { c with dnve.aoiRange := v }
  assign flat.hopCount fun v c => { c with limits.hopCount := v }
  assign flat.forceDisconnectCount fun v c => { c with limits.forceDisconnectCount := v }
  assign flat.maxMessageBytes fun v c => { c with limits.maxMessageBytes := v }
  assign flat.storageMaxCapacityMb fun v c => { c with storage.maxCapacityMb := v }
  assign flat.storageSpatialRetentionRadius fun v c => { c with storage.spatialRetentionRadius := v }
  assign flat.storageSpatialDecayEnabled fun v c => { c with storage.spatialDecayEnabled := v }
  assign flat.storageSpatialDecayIntervalSecs fun v c =>
    { c with storage.spatialDecayIntervalSecs := v }
  assign flat.storageSpatialDecayMaxProbability fun v c =>
    { c with storage.spatialDecayMaxProbability := v }
  assign flat.storageTransfer fun v c => { c with storage.transfer := v }
  assign flat.heartbeatIntervalSeconds fun v c => { c with intervals.heartbeat := v }
  assign flat.nodeListIntervalSeconds fun v c => { c with intervals.nodeList := v }
  assign flat.pingIntervalSeconds fun v c => { c with intervals.ping := v }
  assign flat.pingTimeoutCount fun v c => { c with limits.pingTimeoutCount := v }
  assign flat.spatialDistanceLayers fun v c => { c with dnve.distanceLayers := v }
  assign flat.spatialDensityResolution fun v c => { c with dnve.densityResolution := v }
  assignVariant debug "spatialDensityEncoding" DensityEncoding.variants DensityEncoding.parse
    flat.spatialDensityEncoding fun v c => { c with dnve.densityEncoding := v }
  assignVariant debug "spatialPartitionType" SpatialPartitionType.variants SpatialPartitionType.parse
    flat.spatialPartitionType fun v c => { c with dnve.spatialPartitionType := v }
  assign flat.directionThreshold fun v c => { c with dnve.directionThreshold := v }
  assignVariant debug "connectionMode" ConnectionMode.variants ConnectionMode.parse
    flat.connectionMode fun v c => { c with dnve.connectionMode := v }
  assignVariant debug "nodeListExchangeMode" NodeListExchangeMode.variants NodeListExchangeMode.parse
    flat.nodeListExchangeMode fun v c => { c with dnve.nodeListExchangeMode := v }
  modify Config.normalizeLegacySignaling

/-- What the library does with texts: the text of a flat configuration, and what
a text says, if it is JSON at all. The text of a flat configuration says what it
was written from. The rest is what it answers about texts in errors. -/
structure JsonText (F : Type) [IntCast F] where
  toString : FlatConfig F → Except String String
  value : String → Option (Json F)
  value_toString : ∀ {flat s}, toString flat = .ok s → value s = some (.object flat.encode)
  configError : String → String
  flatError : String → String
  debug : String → String

namespace Config

variable {F : Type} [OfScientific F] [IntCast F] (text : JsonText F)

def toJsonString (c : Config F) : String :=
  match text.toString (.fromConfig c) with
  | .ok json => json
  | .error _ => "\x7b\x7d"

omit [OfScientific F] [IntCast F] in
/-- New settings are taken over if their signaling is valid. -/
def commit (new : Config F) : Update F Unit :=
  if new.validateSignaling then set new
  else throw (.config "invalid signaling configuration")

def updateFromJson (json : String) : Update F Unit :=
  match (text.value json).bind decode with
  | some new => commit new.normalizeLegacySignaling
  | none =>
    match (text.value json).bind FlatConfig.decode with
    | some flat => do
      let next ← get
      match (flat.applyTo text.debug).on next with
      | (.ok _, next) => commit next
      | (.error e, _) => throw e
    | none =>
      throw (.config ("failed to parse as full Config (" ++ text.configError json ++
        ") or as flat config (" ++ text.flatError json ++ ")"))

end Config

/-! ## The flat form of a configuration is applied -/

/-- The settings that the flat form leaves as they are come from another configuration. -/
def Config.onto {F : Type} (c base : Config F) : Config F :=
  { c with
    limits.reservedConnectionCount := base.limits.reservedConnectionCount
    dnve.densityMaxRange := base.dnve.densityMaxRange }

namespace FlatConfig

variable {F : Type} (debug : String → String) (c base : Config F)

theorem applyTo_fromConfig (h : c.webrtc.connectionTimeoutMs ≠ 0) :
    ((fromConfig c).applyTo debug).on base = (.ok (), (c.onto base).normalizeLegacySignaling) := by
  simp only [applyTo, fromConfig, Update.assign, Update.assignPositive, Update.assignVariant, if_neg h,
    DensityEncoding.parse_asStr, SpatialPartitionType.parse_asStr, ConnectionMode.parse_asStr,
    NodeListExchangeMode.parse_asStr]
  rfl

theorem applyTo_zeroTimeout (h : c.webrtc.connectionTimeoutMs = 0) :
    ((fromConfig c).applyTo debug).on base =
      (.error (.config ("webrtcConnectionTimeoutMs" ++ " must be greater than zero")),
        { base with
          signalingUrl := c.signalingUrl
          signaling := c.signaling
          webrtc.iceServers := c.webrtc.iceServers }) := by
  simp only [applyTo, fromConfig, h]
  rfl

end FlatConfig

/-! ## What an update leaves -/

namespace Update

variable {F α : Type} {P : Config F → Prop}

/-- What an update that succeeds leaves. -/
def Leaves (u : Update F Unit) (P : Config F → Prop) : Prop :=
  ∀ c c' : Config F, u.on c = (.ok (), c') → P c'

theorem Leaves.bind {u : Update F α} {rest : α → Update F Unit} (h : ∀ a, (rest a).Leaves P) :
    (u >>= rest).Leaves P := by
  intro c c' hrun
  have hbind : (u >>= rest).on c =
      match u.run.run c with
      | (.ok a, next) => (rest a).on next
      | (.error e, next) => (.error e, next) := by
    change (ExceptT.bindCont rest (u.run.run c).1).run (u.run.run c).2 = _
    obtain ⟨outcome, next⟩ := u.run.run c
    cases outcome <;> rfl
  rw [hbind] at hrun
  split at hrun
  · next a next _ => exact h a next c' hrun
  · cases hrun

theorem Leaves.modify {f : Config F → Config F} (h : ∀ c, P (f c)) :
    (modify f : Update F Unit).Leaves P := by
  intro c c' hrun
  cases hrun
  exact h c

end Update

namespace Config

variable {F : Type} {c : Config F}

theorem normalizeLegacySignaling_idem (c : Config F) :
    c.normalizeLegacySignaling.normalizeLegacySignaling = c.normalizeLegacySignaling := by
  unfold normalizeLegacySignaling
  by_cases h : c.signaling.mode = .webSocket
  · simp only [if_pos h]
  · simp only [if_neg h]

end Config

theorem FlatConfig.applyTo_normal {F : Type} (debug : String → String) (flat : FlatConfig F) :
    (flat.applyTo debug).Leaves fun c => c.normalizeLegacySignaling = c := by
  unfold FlatConfig.applyTo
  repeat refine Update.Leaves.bind fun _ => ?_
  exact Update.Leaves.modify Config.normalizeLegacySignaling_idem

namespace Config

variable {F : Type} [OfScientific F] [IntCast F] {text : JsonText F} {c c' : Config F}

/-- Settings as the updates leave them. -/
structure Settled (c : Config F) : Prop where
  valid : c.validateSignaling = true
  normal : c.normalizeLegacySignaling = c

omit [IntCast F] in
theorem settled_newDefault : (newDefault : Config F).Settled := ⟨validateSignaling_newDefault, rfl⟩

omit [OfScientific F] [IntCast F] in
theorem on_commit (new c : Config F) :
    (commit new).on c =
      if new.validateSignaling then (.ok (), new)
      else (.error (.config "invalid signaling configuration"), c) := by
  unfold commit
  by_cases h : new.validateSignaling = true
  · rw [if_pos h, if_pos h]
    rfl
  · rw [if_neg h, if_neg h]
    rfl

omit [OfScientific F] [IntCast F] in
theorem commit_cases {new : Config F} (hnormal : new.normalizeLegacySignaling = new) (c : Config F) :
    ((commit new).on c = (.ok (), new) ∧ new.Settled) ∨ ∃ e, (commit new).on c = (.error e, c) := by
  rw [on_commit]
  by_cases h : new.validateSignaling = true
  · exact .inl ⟨if_pos h, h, hnormal⟩
  · exact .inr ⟨_, if_neg h⟩

/-- An update that succeeds leaves settled settings, and one that fails the
settings as they were. -/
theorem updateFromJson_cases (text : JsonText F) (json : String) (c : Config F) :
    (∃ new, (updateFromJson text json).on c = (.ok (), new) ∧ new.Settled) ∨
      ∃ e, (updateFromJson text json).on c = (.error e, c) := by
  unfold updateFromJson
  split
  · next new _ =>
    exact (commit_cases new.normalizeLegacySignaling_idem c).imp_left fun h => ⟨_, h⟩
  · split
    · next flat _ =>
      -- What is applied is applied to a copy of the settings.
      change (∃ new, (match (flat.applyTo text.debug).on c with
          | (.ok _, next) => commit next
          | (.error e, _) => throw e : Update F Unit).on c = (.ok (), new) ∧ new.Settled) ∨
        ∃ e, (match (flat.applyTo text.debug).on c with
          | (.ok _, next) => commit next
          | (.error e, _) => throw e : Update F Unit).on c = (.error e, c)
      split
      · next next heq =>
        exact (commit_cases (flat.applyTo_normal text.debug c next heq) c).imp_left fun h => ⟨_, h⟩
      · next e _ _ => exact .inr ⟨e, rfl⟩
    · exact .inr ⟨_, rfl⟩

/-! ## Read-back -/

theorem decode_flat (flat : FlatConfig F) : (decode (.object flat.encode) : Option (Config F)) = none := by
  have hnodup : (keys flat.encode).Nodup := FlatConfig.names_nodup
  have hlimits : entry flat.encode "limits" = .missing := rfl
  rw [decode, record_lenient hnodup, Option.bind_eq_bind, Option.bind_some, hlimits]
  cases (entry flat.encode "signalingUrl").required Codec.string.decode with
  | none => rfl
  | some url =>
    cases (entry flat.encode "signaling").defaulted SignalingConfig.codec.decode .default with
    | none | some signaling => rfl

omit [OfScientific F] [IntCast F] in
theorem Settled.onto (h : c.Settled) (base : Config F) :
    (c.onto base).Settled ∧ (c.onto base).normalizeLegacySignaling = c.onto base := by
  have hnormal : (c.onto base).normalizeLegacySignaling = c.onto base := by
    have hsignaling : c.normalizeLegacySignaling.signaling = c.signaling := by rw [h.normal]
    unfold normalizeLegacySignaling at hsignaling ⊢
    by_cases hmode : c.signaling.mode = .webSocket
    · rw [if_pos hmode] at hsignaling
      have hmode' : (c.onto base).signaling.mode = .webSocket := hmode
      have hsame : { (c.onto base).signaling with nostr := none } = (c.onto base).signaling := hsignaling
      rw [if_pos hmode', hsame]
    · exact if_neg hmode
  exact ⟨⟨h.valid, hnormal⟩, hnormal⟩

theorem readBack (hsettled : c.Settled) {json : String}
    (hprint : text.toString (.fromConfig c) = .ok json) (htimeout : c.webrtc.connectionTimeoutMs ≠ 0)
    (base : Config F) : (updateFromJson text (c.toJsonString text)).on base = (.ok (), c.onto base) := by
  have hjson : c.toJsonString text = json := by rw [toJsonString, hprint]
  have hvalue := text.value_toString hprint
  obtain ⟨honto, hnormal⟩ := hsettled.onto base
  rw [hjson, updateFromJson, hvalue, Option.bind_some, Option.bind_some, decode_flat,
    FlatConfig.decode_encode]
  change (match ((FlatConfig.fromConfig c).applyTo text.debug).on base with
    | (.ok _, next) => commit next
    | (.error e, _) => throw e : Update F Unit).on base = _
  rw [FlatConfig.applyTo_fromConfig text.debug c base htimeout, hnormal]
  exact (on_commit (c.onto base) base).trans (if_pos honto.valid)

theorem readBack_zeroTimeout {json : String} (hprint : text.toString (.fromConfig c) = .ok json)
    (htimeout : c.webrtc.connectionTimeoutMs = 0) (base : Config F) :
    ∃ e, (updateFromJson text (c.toJsonString text)).on base = (.error e, base) := by
  have hjson : c.toJsonString text = json := by rw [toJsonString, hprint]
  have hvalue := text.value_toString hprint
  rw [hjson, updateFromJson, hvalue, Option.bind_some, Option.bind_some, decode_flat,
    FlatConfig.decode_encode]
  refine ⟨.config ("webrtcConnectionTimeoutMs" ++ " must be greater than zero"), ?_⟩
  change (match ((FlatConfig.fromConfig c).applyTo text.debug).on base with
    | (.ok _, next) => commit next
    | (.error e, _) => throw e : Update F Unit).on base = _
  rw [FlatConfig.applyTo_zeroTimeout text.debug c base htimeout]
  rfl

def step (text : JsonText F) (c : Config F) (json : String) : Option (Config F) :=
  some ((updateFromJson text json).on c).2

/-- After every run of updates the configuration is settled. -/
theorem settled_of_run {moves : List (Move (Config F) String)} (run : Run (step text) newDefault moves c) :
    c.Settled := by
  refine run.keeps (P := fun _ c => c.Settled) settled_newDefault
    fun _ before json after hbefore hstep => ?_
  cases hstep
  rcases updateFromJson_cases text json before with ⟨new, hrun, hnew⟩ | ⟨e, hrun⟩
  · rw [hrun]
    exact hnew
  · rw [hrun]
    exact hbefore

/-- What is read from a configuration may be written to it and to a fresh one,
and an update that fails leaves it as it was. -/
structure Survives (text : JsonText F) (c : Config F) : Prop where
  itself : (updateFromJson text (c.toJsonString text)).on c = (.ok (), c)
  fresh : (updateFromJson text (c.toJsonString text)).on newDefault = (.ok (), c)
  failed : ∀ json e after, (updateFromJson text json).on c = (.error e, after) → after = c

/-- A configuration that updates have made survives exactly if its timeout is
positive and the two settings that the flat form lacks have their defaults. -/
theorem survives_iff {moves : List (Move (Config F) String)} (run : Run (step text) newDefault moves c)
    {json : String} (hprint : text.toString (.fromConfig c) = .ok json) :
    c.Survives text ↔ c.webrtc.connectionTimeoutMs ≠ 0 ∧ c.limits.reservedConnectionCount = 1 ∧
      c.dnve.densityMaxRange = 64.0 := by
  have hsettled := settled_of_run run
  constructor
  · intro h
    have htimeout : c.webrtc.connectionTimeoutMs ≠ 0 := by
      intro hzero
      obtain ⟨e, hrefused⟩ := readBack_zeroTimeout hprint hzero c
      cases hrefused.symm.trans h.itself
    have hfresh : c.onto newDefault = c :=
      congrArg Prod.snd ((readBack hsettled hprint htimeout newDefault).symm.trans h.fresh)
    refine ⟨htimeout, ?_, ?_⟩
    · rw [← hfresh]
      rfl
    · rw [← hfresh]
      rfl
  · rintro ⟨htimeout, hreserved, hrange⟩
    have hfresh : c.onto newDefault = c := by
      unfold onto
      have hlimits : { c.limits with reservedConnectionCount := 1 } = c.limits := by rw [← hreserved]
      have hdnve : { c.dnve with densityMaxRange := 64.0 } = c.dnve := by rw [← hrange]
      exact congrArg₂ (fun limits dnve => { c with limits := limits, dnve := dnve }) hlimits hdnve
    refine ⟨readBack hsettled hprint htimeout c, ?_, fun text' e after herror => ?_⟩
    · rw [readBack hsettled hprint htimeout newDefault, hfresh]
    · rcases updateFromJson_cases text text' c with ⟨new, hrun, -⟩ | ⟨e', hrun⟩
      · cases hrun.symm.trans herror
      · cases hrun.symm.trans herror
        rfl

end Config

/-! ## Three configurations -/

section Runs

def tenths (x : Rat) : List Char :=
  (toString x.floor).toList ++ '.' :: (toString ((x * 10).floor % 10)).toList

def written (value : Json Rat) : String := String.ofList (render tenths value)

/-- The library on two texts: one that sets something, and that of the flat
configuration that is read back. -/
def twoTexts (setting : Json Rat) (flat : FlatConfig Rat) : JsonText Rat where
  toString other :=
    if other = flat then .ok (written (.object flat.encode)) else .error "not one of the two"
  value json :=
    if json = written (.object flat.encode) then some (.object flat.encode)
    else if json = written setting then some setting
    else none
  value_toString := by
    intro other json h
    split at h
    · next heq =>
      cases h
      rw [if_pos rfl, heq]
    · cases h
  configError _ := "missing field"
  flatError _ := "unknown field"
  debug s := String.ofList (quote s)

theorem value_setting (setting : Json Rat) (flat : FlatConfig Rat)
    (h : (render tenths setting)[2]? ≠ (render tenths (.object flat.encode))[2]?) :
    (twoTexts setting flat).value (written setting) = some setting := by
  have hne : written setting ≠ written (.object flat.encode) := fun heq =>
    h (congrArg (·[2]?) (String.ofList_injective heq))
  exact (if_neg hne).trans (if_pos rfl)

def widerRange : Json Rat := .object [("aoiRange", .float 20)]

def widened : Config Rat := { (Config.newDefault : Config Rat) with dnve.aoiRange := 20 }

theorem widened_survives : widened.Survives (twoTexts widerRange (.fromConfig widened)) := by
  have hvalue := value_setting widerRange (.fromConfig widened) (by decide +kernel)
  have hstep : Config.step (twoTexts widerRange (.fromConfig widened)) .newDefault (written widerRange) =
      some widened := by
    rw [Config.step, Config.updateFromJson, hvalue]
    decide +kernel
  exact (Config.survives_iff (Run.nil.snoc hstep) (if_pos rfl)).mpr (by decide +kernel)

/-- A whole configuration, with what has no default and little else. -/
def whole (connectionTimeoutMs reservedConnectionCount : UInt32) : Json Rat :=
  .object [("limits", .object [("max_connection_count", .natural 30), ("expire_node_seconds", .float 10),
      ("hop_count", .natural 2), ("reserved_connection_count", Codec.u32.encode reservedConnectionCount),
      ("force_disconnect_count", .natural 0)]),
    ("dnve", .object [("density_max_range", .float 64), ("distance_layers", .natural 1),
      ("density_resolution", .natural 6), ("direction_threshold", .float 0), ("aoi_range", .float 10)]),
    ("intervals", .object [("connection_balancer", .float 2), ("heartbeat", .float 1),
      ("node_list", .float 2)]),
    ("webrtc", .object [("iceServers", .array []),
      ("connectionTimeoutMs", Codec.u32.encode connectionTimeoutMs)]),
    ("signalingUrl", .string "wss://rtc.example/signaling")]

def hosted (connectionTimeoutMs reservedConnectionCount : UInt32) : Config Rat :=
  { (Config.newDefault : Config Rat) with
    signalingUrl := "wss://rtc.example/signaling"
    limits.reservedConnectionCount := reservedConnectionCount
    webrtc.iceServers := []
    webrtc.connectionTimeoutMs := connectionTimeoutMs }

def wholeTexts (connectionTimeoutMs reservedConnectionCount : UInt32) : JsonText Rat :=
  twoTexts (whole connectionTimeoutMs reservedConnectionCount)
    (.fromConfig (hosted connectionTimeoutMs reservedConnectionCount))

/-- The flat form refuses a timeout that the whole form takes, so what is read
from the configuration cannot be written to it. -/
theorem zeroTimeout_refused : ∃ text moves c json, Run (Config.step text) .newDefault moves c ∧
    text.toString (.fromConfig c) = .ok json ∧
      (∃ e, (Config.updateFromJson text json).on c = (.error e, c)) ∧ ¬ (c : Config Rat).Survives text := by
  have hvalue := value_setting (whole 0 1) (.fromConfig (hosted 0 1)) (by decide +kernel)
  have hstep : Config.step (wholeTexts 0 1) .newDefault (written (whole 0 1)) = some (hosted 0 1) := by
    rw [Config.step, Config.updateFromJson, wholeTexts, hvalue]
    decide +kernel
  have hprint : (wholeTexts 0 1).toString (.fromConfig (hosted 0 1)) = .ok _ := if_pos rfl
  obtain ⟨e, hrefused⟩ := Config.readBack_zeroTimeout hprint rfl (hosted 0 1)
  refine ⟨_, _, hosted 0 1, _, Run.nil.snoc hstep, hprint, ⟨e, ?_⟩, fun h => ?_⟩
  · rw [← hrefused, Config.toJsonString, hprint]
  · cases hrefused.symm.trans h.itself

end Runs

end Mistlib
