import Mistlib.Overlay.SpatialDensity
import Mistlib.Overlay.Strategy
import Mathlib.Data.Finset.Insert

/-!
# The density exchange

Nodes tell each other in heartbeats how many nodes are around them. The next heartbeat of a node
merges everything it has stored into a map of its own shape, with the store locked. A density
whose shape does not fit panics there, on a later tick, and leaves the lock poisoned and every
later heartbeat in a panic.

`heartbeat_inBounds` says which densities fit. A run is a list of events, the latest first.
-/

namespace Mistlib.Overlay

def OVERLAY_MSG_HEARTBEAT : Nat := 0

inductive DensityEncoding where
  | float
  | byte
deriving DecidableEq, Repr

inductive HeartbeatDensityPayload where
  | float (data : SpatialDensityData)
  | byte (data : SpatialDensityDataByte)

/-- The binary encodings of the serialization library: a heartbeat payload,
and the bare density older nodes send. Nothing is assumed of them. -/
structure Bincode where
  serialize : HeartbeatDensityPayload → Bytes
  payload : Bytes → Option HeartbeatDensityPayload
  density : Bytes → Option SpatialDensityData

/-- What the exchange reads of the configuration; `expire` and `refresh` are
`expire_node_seconds` and a third of it, as durations. -/
structure ExchangeConfig where
  densityResolution : Nat
  spatialPartitionType : SpatialPartitionType
  distanceLayers : Nat
  densityMaxRange : Float32
  densityEncoding : DensityEncoding
  expire : Duration
  refresh : Duration

/-! ## The stores -/

structure DensityPeerInfo where
  data : SpatialDensityData
  lastMessageTime : Instant

structure DNVE3DataStore where
  selfDensity : Option SpatialDensityData
  mergedDensityMap : Option (List Float32)
  densityPeers : Table NodeId DensityPeerInfo
  lastSentHeartbeat : Option SpatialDensityData
  lastSentHeartbeatAt : Option Instant
  lastSentHeartbeatTargets : Finset NodeId

namespace DNVE3DataStore

def new : DNVE3DataStore := ⟨none, none, ∅, none, none, ∅⟩

variable (store : DNVE3DataStore)

def addOrUpdateNeighbor (id : NodeId) (data : SpatialDensityData) (now : Instant) :
    DNVE3DataStore :=
  { store with densityPeers := store.densityPeers.insert id ⟨data, now⟩ }

def updateLastMessageTime (id : NodeId) (now : Instant) : DNVE3DataStore :=
  { store with densityPeers := store.densityPeers.modify id ({ · with lastMessageTime := now }) }

/-- Whether a heartbeat is worth sending: it says something new, says it to
someone new, or has not been said for a while. -/
def shouldSendHeartbeat (candidate : SpatialDensityData) (connectedNodes : List NodeId)
    (minRefresh : Duration) (now : Instant) : Bool × DNVE3DataStore :=
  let connected := connectedNodes.toFinset
  let unchanged := store.lastSentHeartbeat.any (· == candidate)
  let freshEnough := store.lastSentHeartbeatAt.any fun sent => decide (now - sent < minRefresh)
  let sameTargets := decide (store.lastSentHeartbeatTargets = connected)
  if unchanged && freshEnough && sameTargets then (false, store)
  else
    (true, { store with
      lastSentHeartbeat := some candidate
      lastSentHeartbeatAt := some now
      lastSentHeartbeatTargets := connected })

end DNVE3DataStore

structure NodeStore where
  nodes : Table NodeId Position
  lastUpdated : Table NodeId Instant

namespace NodeStore

def new : NodeStore := ⟨∅, ∅⟩

variable (store : NodeStore)

def updateNodePosition (id : NodeId) (position : Position) (now : Instant) : NodeStore where
  nodes := store.nodes.insert id position
  lastUpdated := store.lastUpdated.insert id now

/-- Forget the nodes not updated lately; one without an update stays. -/
def retainRecent (duration : Duration) (now : Instant) : NodeStore where
  nodes := store.nodes.retain fun id _ =>
    (store.lastUpdated.get id).all fun last => decide (now - last < duration)
  lastUpdated := store.lastUpdated.retain fun _ last => decide (now - last < duration)

/-- `apply_node_list`: where the nodes of a list are, but for the own one. -/
def applyNodeList (self : NodeId) (nodes : List (NodeId × Position)) (now : Instant) : NodeStore :=
  (nodes.take MAX_NODE_LIST_NODES).foldl
    (fun store node =>
      if node.1 = self ∨ node.1.isBroadcast then store
      else store.updateNodePosition node.1 node.2 now) store

end NodeStore

/-- What the tasks share: each store behind a lock of its own. Of the node
store's nothing panics while it is held. -/
structure Shared where
  dataStore : DNVE3DataStore
  poisoned : Bool
  nodeStore : NodeStore

def Shared.new : Shared := ⟨.new, false, .new⟩

/-! ## The exchanger -/

structure DNVE3Exchanger where
  localNodeId : NodeId
  spatialUtils : SpatialDensityUtils
  hopCount : Nat

namespace DNVE3Exchanger

def new (localNodeId : NodeId) (config : ExchangeConfig) (hopCount : Nat) : DNVE3Exchanger where
  localNodeId
  spatialUtils :=
    SpatialDensityUtils.newWithPartition config.densityResolution config.spatialPartitionType
  hopCount

variable (w : Wire) (bincode : Bincode) (x : DNVE3Exchanger)

def encodeHeartbeatPayload (data : SpatialDensityData) (config : ExchangeConfig) : Bytes :=
  bincode.serialize
    (match config.densityEncoding with
    | .float => .float data
    | .byte => .byte data.toByteEncoded)

def decodeHeartbeatPayload (payload : Bytes) : Option SpatialDensityData :=
  match bincode.payload payload with
  | some (.float data) => some data
  | some (.byte data) => some (SpatialDensityData.fromByteEncoded data)
  | none => bincode.density payload

def selfPosition (nodeStore : NodeStore) : Position :=
  (nodeStore.nodes.get x.localNodeId).getD Position.zero

def connectedPeerPositions (nodeStore : NodeStore) (connectedNodes : List NodeId) :
    List Position :=
  (nodeStore.nodes.entries.filter fun node =>
    node.1 ≠ x.localNodeId ∧ node.1 ∈ connectedNodes).map (·.2)

/-- Add one stored density to the merged map. -/
def mergePeer (selfPos : Position) (mergedDensity : List Float32) (info : DensityPeerInfo) :
    Checked (List Float32) := do
  let projected ← x.spatialUtils.projectSpatialDensity info.data selfPos
  projected.densityMap.zipIdx.foldlM (fun mergedDensity value =>
    Checked.addAt mergedDensity value.2 value.1) mergedDensity

def mergedDensityMap (store : DNVE3DataStore) (selfPos : Position)
    (selfDensity : SpatialDensityData) : Checked (List Float32) :=
  store.densityPeers.values.foldlM (x.mergePeer selfPos) selfDensity.densityMap

def heartbeatAction (msgId : NodeId → Nat) (payload : Bytes) (target : NodeId) :
    Option OverlayAction :=
  match w.serialize (OverlayEnvelope.new x.localNodeId target (msgId target) x.hopCount
    (.overlay { messageType := OVERLAY_MSG_HEARTBEAT, payload })) with
  | .ok data => some (.sendMessage target data .unreliable .control)
  | .error _ => none

/-- One tick. The store is locked while the densities are merged, so a panic
there poisons it; a tick that finds it poisoned panics too. -/
def updateAndSendHeartbeat (config : ExchangeConfig) (now : Instant) (connectedNodes : List NodeId)
    (msgId : NodeId → Nat) (s : Shared) : Checked (List OverlayAction) × Shared :=
  let selfPos := x.selfPosition s.nodeStore
  match x.spatialUtils.createSpatialDensity selfPos
    (x.connectedPeerPositions s.nodeStore connectedNodes) config.distanceLayers
    config.densityMaxRange with
  | .error panic => (.error panic, s)
  | .ok selfDensity =>
    if s.poisoned then (.error .poisoned, s)
    else
      match x.mergedDensityMap s.dataStore selfPos selfDensity with
      | .error panic => (.error panic, { s with poisoned := true })
      | .ok mergedDensity =>
        let store := { s.dataStore with
          selfDensity := some selfDensity, mergedDensityMap := some mergedDensity }
        let (shouldSend, store) :=
          store.shouldSendHeartbeat selfDensity connectedNodes config.refresh now
        let s := { s with dataStore := store }
        if shouldSend then
          let payload := encodeHeartbeatPayload bincode selfDensity config
          (.ok (connectedNodes.filterMap (x.heartbeatAction w msgId payload)), s)
        else (.ok [], s)

def applyHeartbeatDensity (source : NodeId) (data : SpatialDensityData) (now : Instant)
    (s : Shared) : Checked (List OverlayAction) × Shared :=
  if s.poisoned then (.error .poisoned, s)
  else
    (.ok [], { s with
      dataStore := s.dataStore.addOrUpdateNeighbor source data now
      nodeStore := s.nodeStore.updateNodePosition source data.position now })

def handleHeartbeat (source : NodeId) (payload : Bytes) (now : Instant) (s : Shared) :
    Checked (List OverlayAction) × Shared :=
  match decodeHeartbeatPayload bincode payload with
  | some data => applyHeartbeatDensity source data now s
  | none => (.ok [], s)

/-- A listed node has been heard of, so what is stored of it lives on. -/
def applyNodeList (nodes : List (NodeId × Position)) (now : Instant) (s : Shared) : Shared :=
  { s with
    dataStore := (nodes.take MAX_NODE_LIST_NODES).foldl
      (fun store node =>
        if node.1 = x.localNodeId ∨ node.1.isBroadcast then store
        else store.updateLastMessageTime node.1 now) s.dataStore
    nodeStore := s.nodeStore.applyNodeList x.localNodeId nodes now }

def deleteOldData (config : ExchangeConfig) (now : Instant) (s : Shared) :
    Checked (List OverlayAction) × Shared :=
  if s.poisoned then (.error .poisoned, s)
  else
    (.ok [], { s with
      dataStore := { s.dataStore with
        densityPeers := s.dataStore.densityPeers.retain fun _ info =>
          decide (now - info.lastMessageTime ≤ config.expire) }
      nodeStore := s.nodeStore.retainRecent config.expire now })

end DNVE3Exchanger

/-! ## Runs -/

/-- What a message of the overlay does to the stores. -/
inductive PeerMessage where
  /-- In a mode that exchanges densities. -/
  | heartbeat (payload : Bytes)
  /-- Where its source is: a position, or a request for a node list. -/
  | position (position : Position)
  | nodeList (nodes : List (NodeId × Position))
  | other

/-- What happens to the shared stores: a message of any peer, whatever else writes the node store
(the own position, arriving frames, the area of interest), the expiry and the heartbeat of a
tick. -/
inductive ExchangeEvent where
  | message (source : NodeId) (message : PeerMessage) (now : Instant)
  | nodeStore (nodeStore : NodeStore)
  | expiry (config : ExchangeConfig) (now : Instant)
  | tick (config : ExchangeConfig) (now : Instant) (connectedNodes : List NodeId)
    (msgId : NodeId → Nat)

namespace DNVE3Exchanger

variable (w : Wire) (bincode : Bincode) (x : DNVE3Exchanger)

/-- Every message first says that its source is there (`mark_peer_seen`). The answers to requests
and pings are left out. -/
def handleMessage (source : NodeId) (message : PeerMessage) (now : Instant) (s : Shared) :
    Checked (List OverlayAction) × Shared :=
  if s.poisoned then (.error .poisoned, s)
  else
    let s := { s with dataStore := s.dataStore.updateLastMessageTime source now }
    match message with
    | .heartbeat payload => handleHeartbeat bincode source payload now s
    | .position position =>
      (.ok [], { s with nodeStore := s.nodeStore.updateNodePosition source position now })
    | .nodeList nodes => (.ok [], x.applyNodeList nodes now s)
    | .other => (.ok [], s)

def step (s : Shared) : ExchangeEvent → Checked (List OverlayAction) × Shared
  | .message source message now => x.handleMessage bincode source message now s
  | .nodeStore nodeStore => (.ok [], { s with nodeStore })
  | .expiry config now => deleteOldData config now s
  | .tick config now connectedNodes msgId =>
    x.updateAndSendHeartbeat w bincode config now connectedNodes msgId s

def after : List ExchangeEvent → Shared
  | [] => .new
  | e :: past => (x.step w bincode (after past) e).2

/-! ## The merge -/

variable {w : Wire} {bincode : Bincode} {x : DNVE3Exchanger}

theorem length_of_mergePeer {selfPos : Position} {mergedDensity mergedDensity' : List Float32}
    {info : DensityPeerInfo} (h : x.mergePeer selfPos mergedDensity info = .ok mergedDensity') :
    mergedDensity'.length = mergedDensity.length := by
  obtain ⟨projected, -, hadded⟩ := Checked.bind_eq_ok.mp h
  exact Checked.foldlM_keeps (P := fun map => map.length = mergedDensity.length)
    (fun _ _ _ hmap hstep => (Checked.length_of_addAt hstep).trans hmap) rfl hadded

/-- The density of a peer fits the own map, seen from the own position. -/
def FitsAt (utils : SpatialDensityUtils) (layerCount : Nat) (selfPos : Position)
    (data : SpatialDensityData) : Prop :=
  (SpatialDensityUtils.near data selfPos ∨ SpatialDensityUtils.RowsWithin utils data) ∧
    data.densityMap.length ≤ utils.directions.length * SpatialDensityUtils.clampLayers layerCount

theorem mergePeer_completes (selfPos : Position) (layerCount : Nat) {mergedDensity : List Float32}
    (hlength : mergedDensity.length =
      x.spatialUtils.directions.length * SpatialDensityUtils.clampLayers layerCount)
    (info : DensityPeerInfo) :
    (x.mergePeer selfPos mergedDensity info).Completes ↔
      FitsAt x.spatialUtils layerCount selfPos info.data := by
  have hloop : ∀ {projected : SpatialDensityData},
      x.spatialUtils.projectSpatialDensity info.data selfPos = .ok projected →
      ((projected.densityMap.zipIdx.foldlM (fun mergedDensity value =>
        Checked.addAt mergedDensity value.2 value.1) mergedDensity).Completes ↔
      info.data.densityMap.length ≤ mergedDensity.length) := by
    intro projected hprojected
    rw [← SpatialDensityUtils.length_of_projectSpatialDensity hprojected,
      ← SpatialDensityUtils.places_iff]
    refine Checked.foldlM_completes (P := fun map => map.length = mergedDensity.length)
      (fun _ _ _ hmap hstep => (Checked.length_of_addAt hstep).trans hmap)
      (fun map value hmap => ?_) _ rfl
    rw [Checked.addAt_completes, hmap]
  rw [mergePeer, Checked.completes_bind, FitsAt, ← hlength,
    ← SpatialDensityUtils.projectSpatialDensity_completes]
  constructor
  · rintro ⟨projected, hprojected, hadded⟩
    exact ⟨⟨projected, hprojected⟩, (hloop hprojected).mp hadded⟩
  · rintro ⟨⟨projected, hprojected⟩, hfits⟩
    exact ⟨projected, hprojected, (hloop hprojected).mpr hfits⟩

theorem mergedDensityMap_completes {store : DNVE3DataStore} {selfPos : Position}
    {selfDensity : SpatialDensityData} {layerCount : Nat}
    (hshape : SpatialDensityUtils.OwnShape x.spatialUtils layerCount selfDensity) :
    (x.mergedDensityMap store selfPos selfDensity).Completes ↔
      ∀ info ∈ store.densityPeers.values, FitsAt x.spatialUtils layerCount selfPos info.data := by
  have hkeeps : ∀ (map : List Float32) (info : DensityPeerInfo) (map' : List Float32),
      map.length = x.spatialUtils.directions.length * SpatialDensityUtils.clampLayers layerCount →
      x.mergePeer selfPos map info = .ok map' →
      map'.length = x.spatialUtils.directions.length * SpatialDensityUtils.clampLayers layerCount :=
    fun _ _ _ hmap hstep => (length_of_mergePeer hstep).trans hmap
  have hround : ∀ (map : List Float32) (info : DensityPeerInfo),
      map.length = x.spatialUtils.directions.length * SpatialDensityUtils.clampLayers layerCount →
      ((x.mergePeer selfPos map info).Completes ↔
        FitsAt x.spatialUtils layerCount selfPos info.data) :=
    fun _ info hmap => mergePeer_completes selfPos layerCount hmap info
  exact Checked.foldlM_completes hkeeps hround _ hshape.length

/-! ## What a run leaves behind -/

variable {s : Shared}

theorem held_eq (hfree : s.poisoned = false) (r : Checked (List OverlayAction) × Shared) :
    (if s.poisoned then (.error .poisoned, s) else r) = r := by
  rw [hfree]
  rfl

/-- An event that did not panic, and left the lock whole. -/
def Sound (r : Checked (List OverlayAction) × Shared) : Prop :=
  r.1.Completes ∧ r.2.poisoned = false

theorem handleHeartbeat_sound (hfree : s.poisoned = false) (source : NodeId) (payload : Bytes)
    (now : Instant) : Sound (handleHeartbeat bincode source payload now s) := by
  unfold handleHeartbeat
  split
  · rw [applyHeartbeatDensity, held_eq hfree]
    exact ⟨Checked.completes_ok _, hfree⟩
  · exact ⟨Checked.completes_ok _, hfree⟩

theorem handleMessage_sound (hfree : s.poisoned = false) (source : NodeId) (message : PeerMessage)
    (now : Instant) : Sound (x.handleMessage bincode source message now s) := by
  rw [handleMessage, held_eq hfree]
  cases message with
  | heartbeat payload =>
    apply handleHeartbeat_sound
    exact hfree
  | position _ | nodeList _ | other => exact ⟨Checked.completes_ok _, hfree⟩

theorem deleteOldData_sound (hfree : s.poisoned = false) (config : ExchangeConfig) (now : Instant) :
    Sound (deleteOldData config now s) := by
  rw [deleteOldData, held_eq hfree]
  exact ⟨Checked.completes_ok _, hfree⟩

/-- The stored densities fit the own map of a tick. -/
def StoreFits (x : DNVE3Exchanger) (config : ExchangeConfig) (s : Shared) : Prop :=
  ∀ info ∈ s.dataStore.densityPeers.values,
    FitsAt x.spatialUtils config.distanceLayers (x.selfPosition s.nodeStore) info.data

/-- A heartbeat comes through exactly if the stored densities fit. -/
theorem updateAndSendHeartbeat_sound (hfree : s.poisoned = false) (config : ExchangeConfig)
    (now : Instant) (connectedNodes : List NodeId) (msgId : NodeId → Nat) :
    Sound (x.updateAndSendHeartbeat w bincode config now connectedNodes msgId s) ↔
      StoreFits x config s := by
  obtain ⟨selfDensity, hself, -, hshape⟩ := SpatialDensityUtils.createSpatialDensity_ok
    x.spatialUtils (x.selfPosition s.nodeStore)
    (x.connectedPeerPositions s.nodeStore connectedNodes) config.distanceLayers
    config.densityMaxRange
  rw [StoreFits, ← mergedDensityMap_completes hshape, updateAndSendHeartbeat]
  simp only [hself, held_eq hfree]
  cases hmerged : x.mergedDensityMap s.dataStore (x.selfPosition s.nodeStore) selfDensity with
  | error panic =>
    exact iff_of_false (fun h => Checked.not_completes_error _ h.1) (Checked.not_completes_error _)
  | ok mergedDensity =>
    refine iff_of_true ?_ (Checked.completes_ok _)
    dsimp only
    split
    · exact ⟨Checked.completes_ok _, hfree⟩
    · exact ⟨Checked.completes_ok _, hfree⟩

/-- What an event asks of the densities stored when it comes: a tick, that they fit. -/
def Fits (x : DNVE3Exchanger) (s : Shared) : ExchangeEvent → Prop
  | .tick config _ _ _ => StoreFits x config s
  | _ => True

/-- An event is handled without a panic exactly if it fits. -/
theorem step_sound (hfree : s.poisoned = false) (e : ExchangeEvent) :
    Sound (x.step w bincode s e) ↔ Fits x s e := by
  cases e with
  | message source message now =>
    exact iff_of_true (handleMessage_sound hfree source message now) trivial
  | nodeStore nodeStore => exact iff_of_true ⟨Checked.completes_ok _, hfree⟩ trivial
  | expiry config now => exact iff_of_true (deleteOldData_sound hfree config now) trivial
  | tick config now connectedNodes msgId =>
    exact updateAndSendHeartbeat_sound hfree config now connectedNodes msgId

theorem after_free {run : List ExchangeEvent}
    (hfits : ∀ e past, e :: past <:+ run → Fits x (x.after w bincode past) e) :
    (x.after w bincode run).poisoned = false := by
  induction run with
  | nil => rfl
  | cons e past ih =>
    have hfree := ih fun e' past' h => hfits e' past' (h.trans (List.suffix_cons _ _))
    exact ((step_sound hfree e).mpr (hfits e past (List.suffix_refl _))).2

/-- For every run of messages, expiries and ticks: no event panics and the
lock of the data store stays whole exactly when every tick finds densities
that fit. A merge of two densities asks the same of the one merged in, and
that it is no shorter. -/
theorem heartbeat_inBounds (w : Wire) (bincode : Bincode) (x : DNVE3Exchanger)
    (run : List ExchangeEvent) :
    ((∀ e past, e :: past <:+ run → Sound (x.step w bincode (x.after w bincode past) e)) ↔
      ∀ e past, e :: past <:+ run → Fits x (x.after w bincode past) e) ∧
    ∀ self data, (x.spatialUtils.mergeSpatialDensity self data).Completes ↔
      (SpatialDensityUtils.near data self.position ∨
        SpatialDensityUtils.RowsWithin x.spatialUtils data) ∧
      self.densityMap.length ≤ data.densityMap.length := by
  refine ⟨⟨fun hsound => ?_, fun hfits e past hsuffix => ?_⟩,
    fun self data => SpatialDensityUtils.mergeSpatialDensity_completes⟩
  · intro e past hsuffix
    refine (step_sound ?_ e).mp (hsound e past hsuffix)
    cases past with
    | nil => rfl
    | cons e' past' => exact (hsound e' past' ((List.suffix_cons _ _).trans hsuffix)).2
  · refine (step_sound (after_free fun e' past' h => ?_) e).mpr (hfits e past hsuffix)
    exact hfits e' past' (h.trans ((List.suffix_cons _ _).trans hsuffix))

end DNVE3Exchanger

/-! ## A peer with more directions -/

namespace Mixed

def self : NodeId := ⟨"self"⟩
def peer : NodeId := ⟨"peer"⟩

def config : ExchangeConfig where
  densityResolution := 6
  spatialPartitionType := .cube
  distanceLayers := 1
  densityMaxRange := 0.0
  densityEncoding := .float
  expire := .fromSecs 10
  refresh := .fromSecs 3

/-- The density of a node with nobody around that divides space into twenty directions. -/
def density : SpatialDensityData where
  densityMap := List.replicate 20 0.0
  position := Position.zero
  dirCount := 20
  layerCount := 1

def leFloat (x : Float32) : Bytes :=
  (List.range 4).map fun i => UInt8.ofNat (x.toBits.toNat / 256 ^ i)

def lePosition (p : Position) : Bytes := leFloat p.x ++ leFloat p.y ++ leFloat p.z

/-- Fields in order, lengths as eight bytes, variants as four. -/
def serialize : HeartbeatDensityPayload → Bytes
  | .float data =>
    [0, 0, 0, 0] ++ toLeBytes data.densityMap.length ++ data.densityMap.flatMap leFloat ++
      lePosition data.position ++ [data.dirCount, data.layerCount]
  | .byte data =>
    [1, 0, 0, 0] ++ lePosition data.position ++ leFloat data.maxValue ++
      toLeBytes data.byteDensities.length ++ data.byteDensities ++ [data.dirCount, data.layerCount]

/-- The encodings, reading the one payload that arrives. -/
def bincode : Bincode where
  serialize := serialize
  payload bytes := if bytes = serialize (.float density) then some (.float density) else none
  density _ := none

def exchanger : DNVE3Exchanger := .new self config 3

def arrival : ExchangeEvent := .message peer (.heartbeat (serialize (.float density))) 1

def tick : ExchangeEvent := .tick config 2 [peer] fun _ => 1

def wire : Wire := .ofFrames [] List.nodup_nil

/-- The tick after the heartbeat panics: the peer's map has twenty places and
the own one six. -/
theorem tick_panics :
    ¬ ∀ e past, e :: past <:+ [tick, arrival] →
      DNVE3Exchanger.Sound (exchanger.step wire bincode (exchanger.after wire bincode past) e) := by
  intro hsound
  have htick := hsound tick [arrival] (List.suffix_refl _)
  have hfits := (DNVE3Exchanger.step_sound rfl tick).mp htick ⟨density, 1⟩ List.mem_cons_self
  exact absurd hfits.2 (by decide)

end Mixed

end Mistlib.Overlay
