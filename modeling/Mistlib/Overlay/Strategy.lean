import Mistlib.Overlay.Router

/-!
# The DNVE3 strategy, as far as routes and messages go

Of the topology strategy the router sees two things: the messages it answers
with, each in the name of its own node, and the routes it takes from node
lists. What the strategy makes of positions and densities stays a parameter.
-/

namespace Mistlib.Overlay

def MAX_NODE_LIST_NODES : Nat := 128
def OVERLAY_MSG_NODE_LIST : Nat := 2

namespace DNVE3

/-- The routes a node list adds: every node listed is reached through the
sender of the list, except for the local node and the broadcast id. -/
def applyNodeList (localNodeId : NodeId) (rt : RoutingTable) (source : NodeId)
    (nodes : List NodeId) : RoutingTable :=
  (nodes.take MAX_NODE_LIST_NODES).foldl
    (fun rt node =>
      if node = localNodeId ∨ node.isBroadcast then rt else rt.addRoute node source) rt

/-- What a message is answered with: an overlay message back to its source
(a node list or a pong), or the end of a suspicion. -/
inductive Answer where
  | reply (msgId : Nat) (message : OverlayMessage) (method : DeliveryMethod)
  | clearSuspect

/-- The parts of the strategy that depend on positions and statistics: the
ids read out of a node list, and the answers to the other kinds of message. -/
structure Behaviour where
  decodeNodes : Bytes → Option (List NodeId)
  respond : NodeId → Nat → Bytes → List Answer

def Answer.actions (w : Wire) (localNodeId : NodeId) (hopCount : Nat) (source : NodeId) :
    Answer → List OverlayAction
  | .reply msgId message method =>
    match w.serialize (OverlayEnvelope.new localNodeId source msgId hopCount (.overlay message)) with
    | .ok data => [.sendMessage source data method .control]
    | .error _ => []
  | .clearSuspect => [.clearSuspect source]

def strategy (w : Wire) (localNodeId : NodeId) (hopCount : Nat) (b : Behaviour) :
    TopologyStrategy where
  handleMessage rt source messageType payload :=
    if messageType = OVERLAY_MSG_NODE_LIST then
      match b.decodeNodes payload with
      | some nodes => ([], applyNodeList localNodeId rt source nodes)
      | none => ([], rt)
    else
      ((b.respond source messageType payload).flatMap
        (Answer.actions w localNodeId hopCount source), rt)

end DNVE3

def DNVE3Only (w : Wire) (localNodeId : NodeId) (strategies : List TopologyStrategy) : Prop :=
  ∀ s ∈ strategies, ∃ hopCount b, s = DNVE3.strategy w localNodeId hopCount b

namespace DNVE3

theorem Answer.source_of_mem {w : Wire} {localNodeId source : NodeId} {hopCount : Nat}
    {answer : Answer} {dest : NodeId} {data : Bytes} {method : DeliveryMethod} {lane : SendLane}
    (h : OverlayAction.sendMessage dest data method lane ∈
      answer.actions w localNodeId hopCount source)
    {envelope : OverlayEnvelope} (hdecoded : w.deserialize data = some envelope) :
    envelope.source = localNodeId := by
  cases answer with
  | clearSuspect => simp [Answer.actions] at h
  | reply msgId message method' =>
    simp only [Answer.actions] at h
    split at h
    · next data' hserialized =>
      simp only [List.mem_singleton, OverlayAction.sendMessage.injEq] at h
      obtain ⟨_, rfl, _⟩ := h
      rw [w.roundTrip hserialized] at hdecoded
      cases hdecoded
      rfl
    · cases h

theorem applyNodeList_connectedNodes (localNodeId : NodeId) (rt : RoutingTable) (source : NodeId)
    (nodes : List NodeId) :
    (applyNodeList localNodeId rt source nodes).connectedNodes = rt.connectedNodes := by
  unfold applyNodeList
  induction nodes.take MAX_NODE_LIST_NODES generalizing rt with
  | nil => rfl
  | cons node rest ih =>
    rw [List.foldl_cons, ih]
    split
    · rfl
    · unfold RoutingTable.addRoute
      split <;> rfl

end DNVE3

namespace OverlayRouter

/-- An overlay message keeps the connected nodes; what it makes the node send is its own. -/
theorem handleOverlayMessage_dnve3 {w : Wire} {localNodeId : NodeId}
    {strategies : List TopologyStrategy} (hs : DNVE3Only w localNodeId strategies)
    (rt : RoutingTable) (source : NodeId) (messageType : Nat) (payload : Bytes) :
    (handleOverlayMessage source messageType payload strategies rt).2.connectedNodes =
        rt.connectedNodes ∧
      ∀ dest data method lane envelope,
        .sendMessage dest data method lane ∈
          (handleOverlayMessage source messageType payload strategies rt).1 →
        w.deserialize data = some envelope → envelope.source = localNodeId := by
  induction strategies generalizing rt with
  | nil =>
    refine ⟨rfl, ?_⟩
    nofun
  | cons s rest ih =>
    obtain ⟨hopCount, b, rfl⟩ := hs s List.mem_cons_self
    obtain ⟨hconn, hsent⟩ := ih (fun s' hs' => hs s' (List.mem_cons_of_mem _ hs'))
      ((DNVE3.strategy w localNodeId hopCount b).handleMessage rt source messageType payload).2
    constructor
    · refine hconn.trans ?_
      simp only [DNVE3.strategy]
      split
      · split
        · exact DNVE3.applyNodeList_connectedNodes _ _ _ _
        · rfl
      · rfl
    · intro dest data method lane envelope hmem hdecoded
      rcases List.mem_append.mp hmem with hown | hother
      · simp only [DNVE3.strategy] at hown
        split at hown
        · split at hown <;> cases hown
        · obtain ⟨answer, _, hanswer⟩ := List.mem_flatMap.mp hown
          exact DNVE3.Answer.source_of_mem hanswer hdecoded
      · exact hsent dest data method lane envelope hother hdecoded

end OverlayRouter

end Mistlib.Overlay
