import Mistlib.Data.Json
import Mistlib.Data.Text
import Mistlib.Engine.LockOrder
import Mistlib.Overlay.Exchanger

/-!
# The configuration

What a host can set, its defaults, which settings are valid, and how each part is written to and
read from JSON. Floats are of any type that has the literals of the defaults.
-/

open Json

namespace Mistlib

open Overlay (DensityEncoding SpatialPartitionType)
open MistEngine (ConnectionMode NodeListExchangeMode)

/-! ## Enumerations -/

def parseVariant {α : Type} (variants : List (String × α)) (value : String) : Option α :=
  variants.lookup (String.ofList (Text.toAsciiLowercase value.toList))

namespace Overlay.DensityEncoding

def asStr : DensityEncoding → String
  | .float => "float"
  | .byte => "byte"

def variants : List (String × DensityEncoding) := [("float", .float), ("byte", .byte)]

def parse (value : String) : Option DensityEncoding := parseVariant variants value

def codec {F : Type} : Codec F DensityEncoding :=
  .unitVariant variants asStr fun
    | .float | .byte => by decide

@[simp] theorem parse_asStr (encoding : DensityEncoding) : parse encoding.asStr = some encoding := by
  cases encoding <;> decide

end Overlay.DensityEncoding

namespace Overlay.SpatialPartitionType

def asStr : SpatialPartitionType → String
  | .fibonacci => "fibonacci"
  | .tetrahedron => "tetrahedron"
  | .cube => "cube"
  | .octahedron => "octahedron"
  | .dodecahedron => "dodecahedron"
  | .icosahedron => "icosahedron"

def variants : List (String × SpatialPartitionType) :=
  [("fibonacci", .fibonacci), ("tetrahedron", .tetrahedron), ("cube", .cube),
    ("octahedron", .octahedron), ("dodecahedron", .dodecahedron), ("icosahedron", .icosahedron)]

def parse (value : String) : Option SpatialPartitionType := parseVariant variants value

def codec {F : Type} : Codec F SpatialPartitionType :=
  .unitVariant variants asStr fun type => by cases type <;> decide

@[simp] theorem parse_asStr (type : SpatialPartitionType) : parse type.asStr = some type := by
  cases type <;> decide

end Overlay.SpatialPartitionType

namespace MistEngine.ConnectionMode

def asStr : ConnectionMode → String
  | .directionDensity => "direction_density"
  | .directionDensityLight => "direction_density_light"
  | .nodeListDirectional => "node_list_directional"
  | .nodeListAoiGuard => "node_list_aoi_guard"
  | .nodeListAoiProximity => "node_list_aoi_proximity"
  | .nodeListAoiDensity => "node_list_aoi_density"
  | .nodeListProximity => "node_list_proximity"
  | .pSense => "p_sense"

def variants : List (String × ConnectionMode) :=
  [("direction_density", .directionDensity), ("direction_density_light", .directionDensityLight),
    ("node_list_directional", .nodeListDirectional), ("node_list_aoi_guard", .nodeListAoiGuard),
    ("node_list_aoi_proximity", .nodeListAoiProximity), ("node_list_aoi_density", .nodeListAoiDensity),
    ("node_list_proximity", .nodeListProximity), ("p_sense", .pSense)]

/-- The last mode has a second name here. -/
def parse (value : String) : Option ConnectionMode :=
  parseVariant (variants ++ [("psense", .pSense)]) value

def codec {F : Type} : Codec F ConnectionMode :=
  .unitVariant variants asStr fun mode => by cases mode <;> decide

@[simp] theorem parse_asStr (mode : ConnectionMode) : parse mode.asStr = some mode := by
  cases mode <;> decide

end MistEngine.ConnectionMode

namespace MistEngine.NodeListExchangeMode

def asStr : NodeListExchangeMode → String
  | .pull => "pull"
  | .push => "push"

def variants : List (String × NodeListExchangeMode) := [("pull", .pull), ("push", .push)]

def parse (value : String) : Option NodeListExchangeMode := parseVariant variants value

def codec {F : Type} : Codec F NodeListExchangeMode :=
  .unitVariant variants asStr fun
    | .pull | .push => by decide

@[simp] theorem parse_asStr (mode : NodeListExchangeMode) : parse mode.asStr = some mode := by
  cases mode <;> decide

end MistEngine.NodeListExchangeMode

/-! ## Signaling -/

inductive SignalingMode where
  | webSocket
  | nostr
deriving DecidableEq, Repr

def SignalingMode.asStr : SignalingMode → String
  | .webSocket => "websocket"
  | .nostr => "nostr"

def SignalingMode.codec {F : Type} : Codec F SignalingMode :=
  .unitVariant [("websocket", .webSocket), ("nostr", .nostr)] asStr fun
    | .webSocket | .nostr => by decide

structure NostrSignalingConfig where
  relays : List String
  relayListUrl : Option String
  discoveryKind : UInt32
  messageKind : UInt32
  ttlSeconds : UInt64
  maxClockSkewSeconds : UInt64
  inviteSalt : String
  inviteCode : String
deriving DecidableEq, Repr

structure SignalingConfig where
  mode : SignalingMode
  nostr : Option NostrSignalingConfig
deriving DecidableEq, Repr

def DEFAULT_NOSTR_INVITE_SALT : String := "nostr-sig-test-local-salt"
def DEFAULT_NOSTR_INVITE_CODE : String := "dev-invite-001"
def DEFAULT_NOSTR_DISCOVERY_KIND : UInt32 := 25049
def DEFAULT_NOSTR_MESSAGE_KIND : UInt32 := 25050
def DEFAULT_NOSTR_TTL_SECONDS : UInt64 := 600
def DEFAULT_NOSTR_MAX_CLOCK_SKEW_SECONDS : UInt64 := 300

def NostrSignalingConfig.default : NostrSignalingConfig where
  relays := []
  relayListUrl := none
  discoveryKind := DEFAULT_NOSTR_DISCOVERY_KIND
  messageKind := DEFAULT_NOSTR_MESSAGE_KIND
  ttlSeconds := DEFAULT_NOSTR_TTL_SECONDS
  maxClockSkewSeconds := DEFAULT_NOSTR_MAX_CLOCK_SKEW_SECONDS
  inviteSalt := DEFAULT_NOSTR_INVITE_SALT
  inviteCode := DEFAULT_NOSTR_INVITE_CODE

namespace SignalingConfig

def websocket : SignalingConfig := ⟨.webSocket, none⟩

def nostrDefault : SignalingConfig := ⟨.nostr, some .default⟩

def default : SignalingConfig := nostrDefault

end SignalingConfig

section Url

open Text

def hostFromAuthority (authority : List Char) : Option (List Char) :=
  let authority := afterLast '@' authority
  let host :=
    match stripPrefix ['['] authority with
    | some rest => before ']' rest
    | none => before ':' authority
  if host = [] then none else some host

def hostFromHttpUrl (url : List Char) : Option (List Char) :=
  ((stripPrefix "https://".toList url).orElse fun _ => stripPrefix "http://".toList url).bind
    fun rest => hostFromAuthority (before '/' rest)

def isLocalHost (host : List Char) : Bool :=
  host == "localhost".toList || (parseIpAddr host).any (·.isLoopback)

def isLocalHttpUrl (url : List Char) : Bool :=
  (hostFromHttpUrl (toAsciiLowercase (trim url))).any isLocalHost

def isSupportedHttpUrl (url : List Char) : Bool :=
  let url := toAsciiLowercase (trim url)
  if "https://".toList.isPrefixOf url then (hostFromHttpUrl url).isSome
  else "http://".toList.isPrefixOf url && isLocalHttpUrl url

def isLocalRelay (relay : List Char) : Bool :=
  let relay := toAsciiLowercase (trim relay)
  match (stripPrefix "ws://".toList relay).orElse fun _ => stripPrefix "wss://".toList relay with
  | some rest => (hostFromAuthority (before '/' rest)).any isLocalHost
  | none => false

end Url

namespace NostrSignalingConfig

variable (c : NostrSignalingConfig)

def hasSupportedRelayListUrl : Bool := c.relayListUrl.any fun url => isSupportedHttpUrl url.toList

def usesImplicitDefaultRelayListUrl : Bool := c.relays.isEmpty && c.relayListUrl.isNone

def hasRelaySource : Bool :=
  !c.relays.isEmpty || c.hasSupportedRelayListUrl || c.usesImplicitDefaultRelayListUrl

def explicitRelayListUrlIsValid : Bool := c.relayListUrl.all fun url => isSupportedHttpUrl url.toList

def usesExplicitPublicRelaySources : Bool :=
  c.relays.any (fun relay => !isLocalRelay relay.toList) ||
    c.relayListUrl.any fun url => !isLocalHttpUrl url.toList

def usesDefaultInvite : Bool :=
  c.inviteSalt == DEFAULT_NOSTR_INVITE_SALT && c.inviteCode == DEFAULT_NOSTR_INVITE_CODE

def validate : Bool :=
  c.hasRelaySource && c.relays.all (fun relay => !(Text.trim relay.toList).isEmpty) &&
    c.explicitRelayListUrlIsValid && c.discoveryKind != c.messageKind && decide (c.ttlSeconds > 0) &&
    !c.inviteSalt.isEmpty && !c.inviteCode.isEmpty &&
    (!c.usesDefaultInvite || !c.usesExplicitPublicRelaySources)

end NostrSignalingConfig

/-! ## The settings and their defaults -/

structure LimitsConfig (F : Type) where
  maxConnectionCount : UInt32
  expireNodeSeconds : F
  hopCount : UInt32
  reservedConnectionCount : UInt32
  forceDisconnectCount : UInt32
  pingTimeoutCount : UInt32
  maxMessageBytes : UInt32
deriving DecidableEq, Repr

structure DnveConfig (F : Type) where
  densityMaxRange : F
  distanceLayers : UInt32
  densityResolution : UInt32
  densityEncoding : DensityEncoding
  spatialPartitionType : SpatialPartitionType
  directionThreshold : F
  aoiRange : F
  connectionMode : ConnectionMode
  nodeListExchangeMode : NodeListExchangeMode
deriving DecidableEq, Repr

structure IntervalsConfig (F : Type) where
  connectionBalancer : F
  heartbeat : F
  nodeList : F
  ping : F
deriving DecidableEq, Repr

structure IceServer where
  urls : List String
  username : Option String
  credential : Option String
deriving DecidableEq, Repr

structure WebRtcConfig where
  iceServers : List IceServer
  connectionTimeoutMs : UInt32
  deferConnectionWatchdogUntilNegotiated : Bool
  bufferEarlyIceCandidates : Bool
deriving DecidableEq, Repr

structure StorageTransferConfig where
  unsequencedBulk : Bool
  controlPriority : Bool
  bulkQueueBytes : UInt32
  bulkTargetDelayMs : UInt32
  bulkChannel : Bool
  getConcurrency : UInt32
  maxFetchesPerProvider : UInt32
  coalesceFetches : Bool
  nativeSctpReceiveBufferBytes : UInt32
deriving DecidableEq, Repr

structure StorageConfig (F : Type) where
  maxCapacityMb : UInt64
  spatialRetentionRadius : F
  spatialDecayEnabled : Bool
  spatialDecayIntervalSecs : UInt64
  spatialDecayMaxProbability : F
  transfer : StorageTransferConfig
deriving DecidableEq, Repr

structure Config (F : Type) where
  signalingUrl : String
  signaling : SignalingConfig
  limits : LimitsConfig F
  dnve : DnveConfig F
  intervals : IntervalsConfig F
  webrtc : WebRtcConfig
  storage : StorageConfig F
deriving DecidableEq, Repr

section Defaults

variable {F : Type} [OfScientific F]

def defaultPingTimeoutCount : UInt32 := 5
def defaultMaxMessageBytes : UInt32 := 65536
def defaultPingInterval : F := 1.0
def defaultWebrtcConnectionTimeoutMs : UInt32 := 15000
def defaultDeferConnectionWatchdogUntilNegotiated : Bool := true
def defaultBufferEarlyIceCandidates : Bool := true
def defaultSpatialRetentionRadius : F := 100.0
def defaultSpatialDecayEnabled : Bool := false
def defaultSpatialDecayIntervalSecs : UInt64 := 60
def defaultSpatialDecayMaxProbability : F := 0.2

def StorageTransferConfig.default : StorageTransferConfig where
  unsequencedBulk := true
  controlPriority := true
  bulkQueueBytes := 1024 * 1024
  bulkTargetDelayMs := 50
  bulkChannel := true
  getConcurrency := 4
  maxFetchesPerProvider := 0
  coalesceFetches := false
  nativeSctpReceiveBufferBytes := 0

def StorageConfig.default : StorageConfig F where
  maxCapacityMb := 8 * 1024
  spatialRetentionRadius := defaultSpatialRetentionRadius
  spatialDecayEnabled := defaultSpatialDecayEnabled
  spatialDecayIntervalSecs := defaultSpatialDecayIntervalSecs
  spatialDecayMaxProbability := defaultSpatialDecayMaxProbability
  transfer := .default

def DEFAULT_STUN_URLS : List String :=
  ["stun:stun.l.google.com:19302", "stun:stun.cloudflare.com:3478", "stun:stun.miwifi.com:3478"]

def defaultIceServers : List IceServer := [⟨DEFAULT_STUN_URLS, none, none⟩]

def Config.newDefault : Config F where
  signalingUrl := "wss://rtc.tik-choco.com/signaling"
  signaling := .default
  limits :=
    { maxConnectionCount := 30
      expireNodeSeconds := 10.0
      hopCount := 2
      reservedConnectionCount := 1
      forceDisconnectCount := 0
      pingTimeoutCount := defaultPingTimeoutCount
      maxMessageBytes := defaultMaxMessageBytes }
  dnve :=
    { densityMaxRange := 64.0
      distanceLayers := 1
      densityResolution := 6
      densityEncoding := .byte
      spatialPartitionType := .dodecahedron
      directionThreshold := 0.0
      aoiRange := 10.0
      connectionMode := .nodeListAoiGuard
      nodeListExchangeMode := .pull }
  intervals :=
    { connectionBalancer := 2.0
      heartbeat := 1.0
      nodeList := 2.0
      ping := defaultPingInterval }
  webrtc :=
    { iceServers := defaultIceServers
      connectionTimeoutMs := defaultWebrtcConnectionTimeoutMs
      deferConnectionWatchdogUntilNegotiated := defaultDeferConnectionWatchdogUntilNegotiated
      bufferEarlyIceCandidates := defaultBufferEarlyIceCandidates }
  storage := .default

end Defaults

namespace Config

variable {F : Type} (c : Config F)

def validateSignaling : Bool :=
  match c.signaling.mode with
  | .webSocket => true
  | .nostr => c.signaling.nostr.any (·.validate)

/-- WebSocket signaling has no Nostr settings. -/
def normalizeLegacySignaling : Config F :=
  if c.signaling.mode = .webSocket then { c with signaling := { c.signaling with nostr := none } } else c

theorem validateSignaling_newDefault [OfScientific F] :
    (newDefault : Config F).validateSignaling = true := by
  change NostrSignalingConfig.default.validate = true
  decide

end Config

/-! ## Records of JSON -/

section Records

variable {F : Type}

def NostrSignalingConfig.encode (c : NostrSignalingConfig) : List (String × Json F) :=
  [("relays", (Codec.list .string).encode c.relays)] ++
    (c.relayListUrl.map fun url => ("relayListUrl", Codec.string.encode url)).toList ++
    [("discoveryKind", Codec.u32.encode c.discoveryKind), ("messageKind", Codec.u32.encode c.messageKind),
      ("ttlSeconds", Codec.u64.encode c.ttlSeconds),
      ("maxClockSkewSeconds", Codec.u64.encode c.maxClockSkewSeconds),
      ("inviteSalt", Codec.string.encode c.inviteSalt), ("inviteCode", Codec.string.encode c.inviteCode)]

def NostrSignalingConfig.decode (j : Json F) : Option NostrSignalingConfig := do
  let field ← record ["relays", "relayListUrl", "discoveryKind", "messageKind", "ttlSeconds",
    "maxClockSkewSeconds", "inviteSalt", "inviteCode"] false j
  let relays ← (field "relays").defaulted (Codec.list .string).decode []
  let relayListUrl ← (field "relayListUrl").defaulted (decodeOption Codec.string.decode) none
  let discoveryKind ← (field "discoveryKind").defaulted Codec.u32.decode DEFAULT_NOSTR_DISCOVERY_KIND
  let messageKind ← (field "messageKind").defaulted Codec.u32.decode DEFAULT_NOSTR_MESSAGE_KIND
  let ttlSeconds ← (field "ttlSeconds").defaulted Codec.u64.decode DEFAULT_NOSTR_TTL_SECONDS
  let maxClockSkewSeconds ←
    (field "maxClockSkewSeconds").defaulted Codec.u64.decode DEFAULT_NOSTR_MAX_CLOCK_SKEW_SECONDS
  let inviteSalt ← (field "inviteSalt").defaulted Codec.string.decode DEFAULT_NOSTR_INVITE_SALT
  let inviteCode ← (field "inviteCode").defaulted Codec.string.decode DEFAULT_NOSTR_INVITE_CODE
  some
    { relays, relayListUrl, discoveryKind, messageKind, ttlSeconds, maxClockSkewSeconds, inviteSalt,
      inviteCode }

def NostrSignalingConfig.codec : Codec F NostrSignalingConfig where
  encode c := .object c.encode
  decode := decode
  decode_encode c := by
    obtain ⟨relays, url, discoveryKind, messageKind, ttl, skew, salt, code⟩ := c
    cases url with
    | none =>
      rw [decode, record_lenient]
      · simp [encode]
      · simp [keys, encode]
    | some url =>
      rw [decode, record_lenient]
      · simp [encode, decodeOption, Codec.string]
      · simp [keys, encode]
  encode_ne_null _ := nofun

def SignalingConfig.codec : Codec F SignalingConfig where
  encode c := .object [("mode", SignalingMode.codec.encode c.mode),
    ("nostr", encodeOption NostrSignalingConfig.codec c.nostr)]
  decode j := do
    let field ← record ["mode", "nostr"] false j
    let mode ← (field "mode").defaulted SignalingMode.codec.decode .nostr
    let nostr ← (field "nostr").defaulted (decodeOption NostrSignalingConfig.codec.decode) none
    some { mode, nostr }
  decode_encode c := by
    rw [record_lenient]
    · simp
    · simp [keys]
  encode_ne_null _ := nofun

def IceServer.codec : Codec F IceServer where
  encode s := .object [("urls", (Codec.list .string).encode s.urls),
    ("username", encodeOption .string s.username), ("credential", encodeOption .string s.credential)]
  decode j := do
    let field ← record ["urls", "username", "credential"] false j
    let urls ← (field "urls").required (Codec.list .string).decode
    let username ← (field "username").optional Codec.string.decode
    let credential ← (field "credential").optional Codec.string.decode
    some { urls, username, credential }
  decode_encode s := by
    rw [record_lenient]
    · simp
    · simp [keys]
  encode_ne_null _ := nofun

def StorageTransferConfig.encode (c : StorageTransferConfig) : List (String × Json F) :=
  [("unsequencedBulk", Codec.bool.encode c.unsequencedBulk),
    ("controlPriority", Codec.bool.encode c.controlPriority),
    ("bulkQueueBytes", Codec.u32.encode c.bulkQueueBytes),
    ("bulkTargetDelayMs", Codec.u32.encode c.bulkTargetDelayMs),
    ("bulkChannel", Codec.bool.encode c.bulkChannel),
    ("getConcurrency", Codec.u32.encode c.getConcurrency),
    ("maxFetchesPerProvider", Codec.u32.encode c.maxFetchesPerProvider),
    ("coalesceFetches", Codec.bool.encode c.coalesceFetches),
    ("nativeSctpReceiveBufferBytes", Codec.u32.encode c.nativeSctpReceiveBufferBytes)]

/-- Each field that is left out has the default of the whole. -/
def StorageTransferConfig.decode (j : Json F) : Option StorageTransferConfig := do
  let field ← record ["unsequencedBulk", "controlPriority", "bulkQueueBytes", "bulkTargetDelayMs",
    "bulkChannel", "getConcurrency", "maxFetchesPerProvider", "coalesceFetches",
    "nativeSctpReceiveBufferBytes"] false j
  let unsequencedBulk ← (field "unsequencedBulk").defaulted Codec.bool.decode default.unsequencedBulk
  let controlPriority ← (field "controlPriority").defaulted Codec.bool.decode default.controlPriority
  let bulkQueueBytes ← (field "bulkQueueBytes").defaulted Codec.u32.decode default.bulkQueueBytes
  let bulkTargetDelayMs ←
    (field "bulkTargetDelayMs").defaulted Codec.u32.decode default.bulkTargetDelayMs
  let bulkChannel ← (field "bulkChannel").defaulted Codec.bool.decode default.bulkChannel
  let getConcurrency ← (field "getConcurrency").defaulted Codec.u32.decode default.getConcurrency
  let maxFetchesPerProvider ←
    (field "maxFetchesPerProvider").defaulted Codec.u32.decode default.maxFetchesPerProvider
  let coalesceFetches ← (field "coalesceFetches").defaulted Codec.bool.decode default.coalesceFetches
  let nativeSctpReceiveBufferBytes ← (field "nativeSctpReceiveBufferBytes").defaulted Codec.u32.decode
    default.nativeSctpReceiveBufferBytes
  some
    { unsequencedBulk, controlPriority, bulkQueueBytes, bulkTargetDelayMs, bulkChannel,
      getConcurrency, maxFetchesPerProvider, coalesceFetches, nativeSctpReceiveBufferBytes }

def StorageTransferConfig.codec : Codec F StorageTransferConfig where
  encode c := .object c.encode
  decode := decode
  decode_encode c := by
    rw [decode, record_lenient]
    · simp [encode]
    · simp [keys, encode]
  encode_ne_null _ := nofun

def WebRtcConfig.decode (j : Json F) : Option WebRtcConfig := do
  let field ← record ["iceServers", "connectionTimeoutMs", "deferConnectionWatchdogUntilNegotiated",
    "bufferEarlyIceCandidates"] false j
  let iceServers ← (field "iceServers").required (Codec.list IceServer.codec).decode
  let connectionTimeoutMs ←
    (field "connectionTimeoutMs").defaulted Codec.u32.decode defaultWebrtcConnectionTimeoutMs
  let deferConnectionWatchdogUntilNegotiated ←
    (field "deferConnectionWatchdogUntilNegotiated").defaulted Codec.bool.decode
      defaultDeferConnectionWatchdogUntilNegotiated
  let bufferEarlyIceCandidates ←
    (field "bufferEarlyIceCandidates").defaulted Codec.bool.decode defaultBufferEarlyIceCandidates
  some
    { iceServers, connectionTimeoutMs, deferConnectionWatchdogUntilNegotiated,
      bufferEarlyIceCandidates }

variable [OfScientific F] [IntCast F]

def LimitsConfig.decode (j : Json F) : Option (LimitsConfig F) := do
  let field ← record ["max_connection_count", "expire_node_seconds", "hop_count",
    "reserved_connection_count", "force_disconnect_count", "ping_timeout_count",
    "max_message_bytes"] false j
  let maxConnectionCount ← (field "max_connection_count").required Codec.u32.decode
  let expireNodeSeconds ← (field "expire_node_seconds").required Codec.float.decode
  let hopCount ← (field "hop_count").required Codec.u32.decode
  let reservedConnectionCount ← (field "reserved_connection_count").required Codec.u32.decode
  let forceDisconnectCount ← (field "force_disconnect_count").required Codec.u32.decode
  let pingTimeoutCount ←
    (field "ping_timeout_count").defaulted Codec.u32.decode defaultPingTimeoutCount
  let maxMessageBytes ← (field "max_message_bytes").defaulted Codec.u32.decode defaultMaxMessageBytes
  some
    { maxConnectionCount, expireNodeSeconds, hopCount, reservedConnectionCount, forceDisconnectCount,
      pingTimeoutCount, maxMessageBytes }

def DnveConfig.decode (j : Json F) : Option (DnveConfig F) := do
  let field ← record ["density_max_range", "distance_layers", "density_resolution",
    "density_encoding", "spatial_partition_type", "direction_threshold", "aoi_range",
    "connection_mode", "node_list_exchange_mode"] false j
  let densityMaxRange ← (field "density_max_range").required Codec.float.decode
  let distanceLayers ← (field "distance_layers").required Codec.u32.decode
  let densityResolution ← (field "density_resolution").required Codec.u32.decode
  let densityEncoding ← (field "density_encoding").defaulted DensityEncoding.codec.decode .byte
  let spatialPartitionType ←
    (field "spatial_partition_type").defaulted SpatialPartitionType.codec.decode .dodecahedron
  let directionThreshold ← (field "direction_threshold").required Codec.float.decode
  let aoiRange ← (field "aoi_range").required Codec.float.decode
  let connectionMode ←
    (field "connection_mode").defaulted ConnectionMode.codec.decode .nodeListAoiGuard
  let nodeListExchangeMode ←
    (field "node_list_exchange_mode").defaulted NodeListExchangeMode.codec.decode .pull
  some
    { densityMaxRange, distanceLayers, densityResolution, densityEncoding, spatialPartitionType,
      directionThreshold, aoiRange, connectionMode, nodeListExchangeMode }

def IntervalsConfig.decode (j : Json F) : Option (IntervalsConfig F) := do
  let field ← record ["connection_balancer", "heartbeat", "node_list", "ping"] false j
  let connectionBalancer ← (field "connection_balancer").required Codec.float.decode
  let heartbeat ← (field "heartbeat").required Codec.float.decode
  let nodeList ← (field "node_list").required Codec.float.decode
  let ping ← (field "ping").defaulted Codec.float.decode defaultPingInterval
  some { connectionBalancer, heartbeat, nodeList, ping }

def StorageConfig.decode (j : Json F) : Option (StorageConfig F) := do
  let field ← record ["maxCapacityMb", "spatialRetentionRadius", "spatialDecayEnabled",
    "spatialDecayIntervalSecs", "spatialDecayMaxProbability", "transfer"] false j
  let maxCapacityMb ← (field "maxCapacityMb").required Codec.u64.decode
  let spatialRetentionRadius ←
    (field "spatialRetentionRadius").defaulted Codec.float.decode defaultSpatialRetentionRadius
  let spatialDecayEnabled ←
    (field "spatialDecayEnabled").defaulted Codec.bool.decode defaultSpatialDecayEnabled
  let spatialDecayIntervalSecs ←
    (field "spatialDecayIntervalSecs").defaulted Codec.u64.decode defaultSpatialDecayIntervalSecs
  let spatialDecayMaxProbability ←
    (field "spatialDecayMaxProbability").defaulted Codec.float.decode defaultSpatialDecayMaxProbability
  let transfer ← (field "transfer").defaulted StorageTransferConfig.codec.decode .default
  some
    { maxCapacityMb, spatialRetentionRadius, spatialDecayEnabled, spatialDecayIntervalSecs,
      spatialDecayMaxProbability, transfer }

def Config.decode (j : Json F) : Option (Config F) := do
  let field ← record ["signalingUrl", "signaling", "limits", "dnve", "intervals", "webrtc",
    "storage"] false j
  let signalingUrl ← (field "signalingUrl").required Codec.string.decode
  let signaling ← (field "signaling").defaulted SignalingConfig.codec.decode .default
  let limits ← (field "limits").required LimitsConfig.decode
  let dnve ← (field "dnve").required DnveConfig.decode
  let intervals ← (field "intervals").required IntervalsConfig.decode
  let webrtc ← (field "webrtc").required WebRtcConfig.decode
  let storage ← (field "storage").defaulted StorageConfig.decode .default
  some { signalingUrl, signaling, limits, dnve, intervals, webrtc, storage }

end Records

end Mistlib
