import Mistlib.Overlay.Reorder
import Mistlib.Overlay.RoutingTable
import Mistlib.Storage.Frame

/-!
# The overlay router

The router numbers and wraps what the node sends (`dispatchDataVia`), decides what to do with what
arrives (`handleEnvelope`), and learns through which neighbour a source can be reached
(`learnRoute`).

Callbacks of the source are functions here: `validate` and `commit` of a dispatch, and the
strategies, which may change the routing table they share with the router.
-/

namespace Mistlib.Overlay

open Storage (StorageFrame classifyStorageFrame)

inductive SendLane where
  | general
  | control
  | bulk
deriving DecidableEq, Repr

def SendLane.classify (content : MessageContent) (broadcast : Bool) : SendLane :=
  match content with
  | .raw data =>
    match classifyStorageFrame data with
    | some (.haveChunk ..) => if broadcast then .general else .bulk
    | none => .general
    | some _ => .control
  | .overlay _ | .data _ => .control

/-- Storage chunks without a sequence number may take the unordered channel. -/
def storageDelivery (method : DeliveryMethod) (lane : SendLane) (seq : Nat) (bulkChannel : Bool) :
    DeliveryMethod :=
  if bulkChannel ∧ method = .reliableOrdered ∧ lane = .bulk ∧ seq = 0 then .reliableUnordered
  else method

inductive OverlayAction where
  | sendMessage (dest : NodeId) (data : Bytes) (method : DeliveryMethod) (lane : SendLane)
  | connect (dest : NodeId)
  | disconnect (dest : NodeId)
  | suspectDisconnected (dest : NodeId)
  | clearSuspect (dest : NodeId)
  | sendSignaling (dest : NodeId) (envelope : OverlayEnvelope)
deriving DecidableEq, Repr

/-- A topology strategy as the router sees it. -/
structure TopologyStrategy where
  handleMessage : RoutingTable → NodeId → Nat → Bytes → List OverlayAction × RoutingTable

structure SeqCounter where
  value : Nat
  lastUsed : Instant
deriving DecidableEq, Repr

structure PingHealth where
  awaiting : Bool
  consecutiveMisses : Nat
  suspect : Bool
deriving DecidableEq, Repr

/-- The two switches of the transfer configuration the router reads. -/
structure StorageTransferConfig where
  unsequencedBulk : Bool
  bulkChannel : Bool
deriving DecidableEq, Repr

def SEQ_COUNTER_MAX_DESTINATIONS : Nat := 1024

/-- The router of one node. `pingHealth` is the part of the process-wide
statistics an arriving envelope touches. -/
structure OverlayRouter where
  localNodeId : NodeId
  hopCount : Nat
  transfer : StorageTransferConfig
  strategies : List TopologyStrategy
  routingTable : RoutingTable
  seenEnvelopes : OverlaySeenCache
  seqCounters : Table NodeId SeqCounter
  reorderBuffer : ReorderBuffer MessageContent
  pingHealth : Table NodeId PingHealth

structure HandleEnvelopeResult where
  actions : List OverlayAction
  shouldDeliver : Bool

inductive ForwardTargets where
  | broadcast (neighbors : List NodeId)
  | unicast (nextHop : NodeId)
  | none
deriving DecidableEq, Repr

def ForwardTargets.hasTargets : ForwardTargets → Bool
  | .none => false
  | _ => true

namespace OverlayRouter

def new (localNodeId : NodeId) (hopCount : Nat) (transfer : StorageTransferConfig)
    (strategies : List TopologyStrategy) : OverlayRouter where
  localNodeId := localNodeId
  hopCount := hopCount
  transfer := transfer
  strategies := strategies
  routingTable := .new
  seenEnvelopes := TtlCache.new OVERLAY_SEEN_TTL OVERLAY_SEEN_MAX_ENTRIES
  seqCounters := ∅
  reorderBuffer := .default
  pingHealth := ∅

/-! ## Sending -/

/-- Drop the least recently used counter when the table is full and the
destination has none. -/
def evictSeqCounter (counters : Table NodeId SeqCounter) (dest : NodeId) :
    Table NodeId SeqCounter :=
  if counters.size ≥ SEQ_COUNTER_MAX_DESTINATIONS ∧ ¬ counters.contains dest then
    match Table.minByKey SeqCounter.lastUsed counters.entries with
    | some oldest => counters.erase oldest.1
    | none => counters
  else counters

def nextSeq (counters : Table NodeId SeqCounter) (dest : NodeId) : Nat :=
  match counters.get dest with
  | some counter => counter.value + 1
  | none => 1

/-- Build and commit a frame, and consume its number only on success. -/
def withNextSeq {τ : Type} (r : OverlayRouter) (dest : NodeId) (now : Instant)
    (build : OverlayRouter → Nat → Except MistError (τ × OverlayRouter)) :
    Except MistError (τ × OverlayRouter) := do
  let seq := nextSeq r.seqCounters dest
  let (result, r) ← build r seq
  let counters := evictSeqCounter r.seqCounters dest
  return (result, { r with seqCounters := counters.insert dest ⟨seq, now⟩ })

def createSendAction (r : OverlayRouter) (node : NodeId) (data : Bytes) (method : DeliveryMethod)
    (lane : SendLane) : OverlayAction :=
  .sendMessage ((r.routingTable.getNextHop node).getD node) data method lane

def rememberOutgoing (r : OverlayRouter) (envelope : OverlayEnvelope) (now : Instant) :
    OverlayRouter :=
  { r with
    seenEnvelopes :=
      (OverlaySeenCache.checkAndInsert r.seenEnvelopes envelope.source envelope.msgId now).2 }

/-- One dispatch: what is sent where and how, the random id and the instants
it meets, and the two callbacks. -/
structure Dispatch (τ : Type) where
  dest : NodeId
  nextHop : Option NodeId
  data : Bytes
  method : DeliveryMethod
  msgId : Nat
  now : Instant
  rememberedAt : Instant
  validate : Nat → Except MistError Unit
  commit : OverlayAction → Except MistError τ

def Dispatch.lane {τ : Type} (d : Dispatch τ) : SendLane :=
  SendLane.classify (.raw d.data) d.dest.isBroadcast

/-- Whether the frame takes a number of its destination. -/
def Dispatch.takesSeq {τ : Type} (d : Dispatch τ) (transfer : StorageTransferConfig) : Bool :=
  d.method = .reliableOrdered ∧ ¬ d.dest.isBroadcast ∧
    ¬ (transfer.unsequencedBulk ∧ d.lane = .bulk)

/-- Broadcasts, frames that need not arrive or not in order, and bulk that goes without numbers. -/
def Dispatch.Unsequenced {τ : Type} (d : Dispatch τ) (transfer : StorageTransferConfig) : Prop :=
  d.dest.isBroadcast = true ∨ (d.method = .unreliable ∨ d.method = .unreliableOrdered) ∨
    d.method = .reliableUnordered ∨ (transfer.unsequencedBulk = true ∧ d.lane = .bulk)

/-- These four kinds, and no others, take no number. -/
theorem Dispatch.takesSeq_eq_false_iff {τ : Type} {d : Dispatch τ} {transfer : StorageTransferConfig} :
    d.takesSeq transfer = false ↔ d.Unsequenced transfer := by
  rw [takesSeq, decide_eq_false_iff_not, Unsequenced]
  cases d.method with
  | reliableOrdered => simp only [reduceCtorEq, false_or]; tauto
  | unreliable | unreliableOrdered | reliableUnordered => simp

/-- The `build` closure of `dispatch_data_via`. -/
def buildFrame {τ : Type} (w : Wire) (d : Dispatch τ) (r : OverlayRouter) (seq : Nat) :
    Except MistError (τ × OverlayRouter) := do
  let method := storageDelivery d.method d.lane seq r.transfer.bulkChannel
  let envelope := (OverlayEnvelope.new r.localNodeId d.dest d.msgId r.hopCount (.raw d.data)).withSeq seq
  let encoded ← (w.serialize envelope).mapError .internal
  d.validate encoded.length
  let action := match d.nextHop with
    | some nextHop => .sendMessage nextHop encoded method d.lane
    | none => r.createSendAction d.dest encoded method d.lane
  let result ← d.commit action
  return (result, r.rememberOutgoing envelope d.rememberedAt)

/-- Encode, validate and hand off a frame before its number is consumed. -/
def dispatchDataVia {τ : Type} (w : Wire) (r : OverlayRouter) (d : Dispatch τ) :
    Except MistError (τ × OverlayRouter) :=
  if d.takesSeq r.transfer then r.withNextSeq d.dest d.now (buildFrame w d)
  else buildFrame w d r 0

/-! ## Receiving -/

/-- Any traffic over a link clears the suspicion against its peer. -/
def noteInboundActivity (r : OverlayRouter) (link : NodeId) : Bool × OverlayRouter :=
  match r.pingHealth.get link with
  | none => (false, r)
  | some entry =>
    (entry.suspect,
      { r with
        pingHealth := r.pingHealth.insert link
          { awaiting := false, consecutiveMisses := 0, suspect := false } })

def markSeen (r : OverlayRouter) (envelope : OverlayEnvelope) (now : Instant) :
    Bool × OverlayRouter :=
  if envelope.source = r.localNodeId then (false, r)
  else
    let checked :=
      OverlaySeenCache.checkAndInsert r.seenEnvelopes envelope.source envelope.msgId now
    (checked.1, { r with seenEnvelopes := checked.2 })

def shouldLearnRoute (r : OverlayRouter) (source link : NodeId) : Bool :=
  source ≠ r.localNodeId ∧ source ≠ link

def learnRoute (r : OverlayRouter) (source link : NodeId) : OverlayRouter :=
  if r.shouldLearnRoute source link then
    { r with routingTable := r.routingTable.addRoute source link }
  else r

def canForward (envelope : OverlayEnvelope) : Bool := envelope.hopCount > 0

def forwardTargets (r : OverlayRouter) (envelope : OverlayEnvelope) (link : NodeId) :
    ForwardTargets :=
  if envelope.dest.isBroadcast then
    .broadcast (r.routingTable.connectedNodes.filter fun id => id ≠ link ∧ id ≠ r.localNodeId)
  else if envelope.dest = r.localNodeId then .none
  else .unicast ((r.routingTable.getNextHop envelope.dest).getD envelope.dest)

/-- Every strategy sees the message, each over the table the one before left. -/
def handleOverlayMessage (source : NodeId) (messageType : Nat) (payload : Bytes) :
    List TopologyStrategy → RoutingTable → List OverlayAction × RoutingTable
  | [], rt => ([], rt)
  | s :: rest, rt =>
    let handled := s.handleMessage rt source messageType payload
    let others := handleOverlayMessage source messageType payload rest handled.2
    (handled.1 ++ others.1, others.2)

def deliverToStrategies (r : OverlayRouter) (envelope : OverlayEnvelope) :
    List OverlayAction × OverlayRouter :=
  if envelope.dest.isBroadcast ∨ envelope.dest = r.localNodeId then
    match envelope.content with
    | .overlay message =>
      let handled := handleOverlayMessage envelope.source message.messageType message.payload
        r.strategies r.routingTable
      (handled.1, { r with routingTable := handled.2 })
    | _ => ([], r)
  else ([], r)

def relayed (envelope : OverlayEnvelope) : OverlayEnvelope :=
  { envelope with hopCount := envelope.hopCount - 1 }

def forwardActions (w : Wire) (r : OverlayRouter) (envelope : OverlayEnvelope)
    (targets : ForwardTargets) : List OverlayAction :=
  if targets.hasTargets then
    let lane := SendLane.classify envelope.content envelope.dest.isBroadcast
    let method := storageDelivery .reliableOrdered lane envelope.seq r.transfer.bulkChannel
    match w.serialize (relayed envelope) with
    | .error _ => []
    | .ok data =>
      match targets with
      | .broadcast neighbors => neighbors.map fun dest => .sendMessage dest data method lane
      | .unicast nextHop => [.sendMessage nextHop data method lane]
      | .none => []
  else []

def handleEnvelope (w : Wire) (r : OverlayRouter) (envelope : OverlayEnvelope) (link : NodeId)
    (now : Instant) : HandleEnvelopeResult × OverlayRouter :=
  let noted := r.noteInboundActivity link
  let cleared := if noted.1 then [OverlayAction.clearSuspect link] else []
  let seen := noted.2.markSeen envelope now
  if ¬ seen.1 then ({ actions := cleared, shouldDeliver := false }, seen.2)
  else
    let delivered := seen.2.deliverToStrategies envelope
    let forwarded :=
      if canForward envelope then
        forwardActions w delivered.2 envelope (delivered.2.forwardTargets envelope link)
      else []
    ({ actions := cleared ++ delivered.1 ++ forwarded, shouldDeliver := true }, delivered.2)

/-- The router's part of `process_network_event`: learn the route to the
source, then handle the envelope. A frame that is no envelope changes nothing. -/
def processNetworkEvent (w : Wire) (r : OverlayRouter) (link : NodeId) (data : Bytes)
    (now : Instant) : Option HandleEnvelopeResult × OverlayRouter :=
  match w.deserialize data with
  | none => (none, r)
  | some envelope =>
    let handled := (r.learnRoute envelope.source link).handleEnvelope w envelope link now
    (some handled.1, handled.2)

def syncConnectedNodes (r : OverlayRouter) (connected : List NodeId) : OverlayRouter :=
  { r with routingTable := r.routingTable.syncConnectedNodes connected }

/-- Only nodes in state `connected` count. -/
def syncConnectionStates (r : OverlayRouter) (states : List (NodeId × ConnectionState)) :
    OverlayRouter :=
  r.syncConnectedNodes ((states.filter fun e => e.2 = .connected).map Prod.fst)

end OverlayRouter

end Mistlib.Overlay
