import Mistlib.Overlay.Strategy

/-!
# Routes to the broadcast id

The broadcast id is an ordinary key of the routing table, and a frame for everybody reaches
everybody only while the table has no next hop for that id. This module follows that invariant
(`RoutingTable.SparesBroadcast`) through every event that can touch the table: frames of the
network with what the strategies make of them, snapshots of the transport, and notifications.
-/

namespace Mistlib.Overlay

/-- What can touch the routing table of a router. -/
inductive RouterEvent where
  | network (link : NodeId) (data : Bytes) (now : Instant)
  | sync (states : List (NodeId × ConnectionState))
  | connected (node : NodeId)
  | disconnected (node : NodeId)

namespace OverlayRouter

def react (w : Wire) (r : OverlayRouter) : RouterEvent → OverlayRouter
  | .network link data now => (r.processNetworkEvent w link data now).2
  | .sync states => r.syncConnectionStates states
  | .connected node => { r with routingTable := r.routingTable.onConnected node }
  | .disconnected node => { r with routingTable := r.routingTable.onDisconnected node }

def reactAll (w : Wire) (r : OverlayRouter) (events : List RouterEvent) : OverlayRouter :=
  events.foldl (react w) r

end OverlayRouter

/-- An event that neither teaches the router a route to the broadcast id nor
reports that id as a connected node. -/
def RouterEvent.SparesBroadcast (w : Wire) (localNodeId : NodeId) : RouterEvent → Prop
  | .network link data _ => ∀ envelope, w.deserialize data = some envelope →
      envelope.source = .broadcast → link = .broadcast ∨ localNodeId = .broadcast
  | .sync states => (.broadcast, .connected) ∉ states
  | .connected node => node ≠ .broadcast
  | .disconnected _ => True

/-- The table neither counts the broadcast id as connected nor has a route to it. -/
structure RoutingTable.SparesBroadcast (rt : RoutingTable) : Prop where
  notConnected : NodeId.broadcast ∉ rt.connectedNodes
  noRoute : rt.routes.get .broadcast = none

namespace RoutingTable.SparesBroadcast

variable {rt : RoutingTable}

theorem getNextHop (h : rt.SparesBroadcast) : rt.getNextHop .broadcast = none := by
  unfold RoutingTable.getNextHop
  rw [if_neg h.notConnected, h.noRoute]
  rfl

theorem new : RoutingTable.new.SparesBroadcast where
  notConnected := List.not_mem_nil
  noRoute := Table.get_empty _

theorem onConnected (h : rt.SparesBroadcast) {node : NodeId} (hnode : node ≠ .broadcast) :
    (rt.onConnected node).SparesBroadcast where
  notConnected := by
    intro hmem
    rcases List.mem_insert_iff.mp hmem with heq | hold
    · exact hnode heq.symm
    · exact h.notConnected hold
  noRoute := h.noRoute

theorem onDisconnected (h : rt.SparesBroadcast) (node : NodeId) :
    (rt.onDisconnected node).SparesBroadcast where
  notConnected := fun hmem => h.notConnected (List.mem_filter.mp hmem).1
  noRoute := by
    simp only [RoutingTable.onDisconnected, Table.get_retain, h.noRoute, Option.filter_none]

theorem addRoute (h : rt.SparesBroadcast) {target : NodeId} (htarget : target ≠ .broadcast)
    (nextHop : NodeId) : (rt.addRoute target nextHop).SparesBroadcast := by
  unfold RoutingTable.addRoute
  split
  · exact h
  · refine ⟨h.notConnected, ?_⟩
    rw [Table.get_insert, if_neg htarget.symm]
    exact h.noRoute

theorem connectAll {connected : List NodeId} (hconn : NodeId.broadcast ∉ connected)
    (h : rt.SparesBroadcast) :
    (connected.foldl RoutingTable.onConnected rt).SparesBroadcast := by
  induction connected generalizing rt with
  | nil => exact h
  | cons node rest ih =>
    simp only [List.mem_cons, not_or] at hconn
    obtain ⟨hnode, hrest⟩ := hconn
    exact ih hrest (h.onConnected fun heq => hnode heq.symm)

theorem disconnectAll (connected previous : List NodeId) (h : rt.SparesBroadcast) :
    (previous.foldl (fun rt id => if id ∈ connected then rt else rt.onDisconnected id)
      rt).SparesBroadcast := by
  induction previous generalizing rt with
  | nil => exact h
  | cons node rest ih =>
    apply ih
    show (if node ∈ connected then rt else rt.onDisconnected node).SparesBroadcast
    split
    · exact h
    · exact h.onDisconnected node

theorem syncConnectedNodes (h : rt.SparesBroadcast) {connected : List NodeId}
    (hconn : NodeId.broadcast ∉ connected) : (rt.syncConnectedNodes connected).SparesBroadcast :=
  (h.connectAll hconn).disconnectAll connected rt.connectedNodes

theorem applyNodeList (h : rt.SparesBroadcast) (localNodeId source : NodeId)
    (nodes : List NodeId) :
    (DNVE3.applyNodeList localNodeId rt source nodes).SparesBroadcast := by
  unfold DNVE3.applyNodeList
  induction nodes.take MAX_NODE_LIST_NODES generalizing rt with
  | nil => exact h
  | cons node rest ih =>
    apply ih
    show (if node = localNodeId ∨ node.isBroadcast = true then rt
      else rt.addRoute node source).SparesBroadcast
    split
    · exact h
    · next hskip =>
      have hnode : node ≠ .broadcast := by
        intro heq
        exact hskip (Or.inr (NodeId.isBroadcast_iff.mpr heq))
      exact h.addRoute hnode source

end RoutingTable.SparesBroadcast

/-! ## The events -/

theorem handleOverlayMessage_sparesBroadcast {w : Wire} {localNodeId : NodeId}
    {strategies : List TopologyStrategy} (hs : DNVE3Only w localNodeId strategies)
    {rt : RoutingTable} (h : rt.SparesBroadcast) (source : NodeId) (messageType : Nat) (payload : Bytes) :
    (OverlayRouter.handleOverlayMessage source messageType payload strategies
      rt).2.SparesBroadcast := by
  induction strategies generalizing rt with
  | nil => exact h
  | cons s rest ih =>
    apply ih (fun s' hs' => hs s' (List.mem_cons_of_mem _ hs'))
    obtain ⟨hopCount, b, rfl⟩ := hs s List.mem_cons_self
    simp only [DNVE3.strategy]
    split
    · split
      · exact h.applyNodeList _ _ _
      · exact h
    · exact h

/-- The invariant of a router, with what it takes to keep it. -/
structure OverlayRouter.SparesBroadcast (w : Wire) (localNodeId : NodeId) (r : OverlayRouter) : Prop where
  localId : r.localNodeId = localNodeId
  strategies : DNVE3Only w localNodeId r.strategies
  table : r.routingTable.SparesBroadcast

namespace OverlayRouter

/-- The router a new copy is shown to the strategies of, or the router a
copy seen before leaves behind. -/
theorem handleEnvelope_router (w : Wire) (r : OverlayRouter) (envelope : OverlayEnvelope)
    (link : NodeId) (now : Instant) :
    (r.handleEnvelope w envelope link now).2 =
      if ((r.noteInboundActivity link).2.markSeen envelope now).1 then
        (((r.noteInboundActivity link).2.markSeen envelope now).2.deliverToStrategies envelope).2
      else ((r.noteInboundActivity link).2.markSeen envelope now).2 := by
  cases hs : ((r.noteInboundActivity link).2.markSeen envelope now).1 <;>
    simp [handleEnvelope, hs]

variable {w : Wire} {localNodeId : NodeId} {r : OverlayRouter}

section

variable (h : r.SparesBroadcast w localNodeId)
include h

theorem SparesBroadcast.noteInboundActivity (link : NodeId) :
    (r.noteInboundActivity link).2.SparesBroadcast w localNodeId := by
  unfold OverlayRouter.noteInboundActivity
  split
  · exact h
  · exact { h with }

variable (envelope : OverlayEnvelope)

theorem SparesBroadcast.markSeen (now : Instant) :
    (r.markSeen envelope now).2.SparesBroadcast w localNodeId := by
  unfold OverlayRouter.markSeen
  split
  · exact h
  · exact { h with }

theorem SparesBroadcast.deliverToStrategies :
    (r.deliverToStrategies envelope).2.SparesBroadcast w localNodeId := by
  unfold OverlayRouter.deliverToStrategies
  split
  · cases envelope.content with
    | overlay message =>
      exact ⟨h.localId, h.strategies,
        handleOverlayMessage_sparesBroadcast h.strategies h.table _ _ _⟩
    | data d | raw b => exact h
  · exact h

theorem SparesBroadcast.handleEnvelope (link : NodeId) (now : Instant) :
    (r.handleEnvelope w envelope link now).2.SparesBroadcast w localNodeId := by
  have hseen := (h.noteInboundActivity link).markSeen envelope now
  rw [handleEnvelope_router]
  split
  · exact hseen.deliverToStrategies envelope
  · exact hseen

theorem SparesBroadcast.learnRoute {source link : NodeId}
    (hsource : source = .broadcast → link = .broadcast ∨ localNodeId = .broadcast) :
    (r.learnRoute source link).SparesBroadcast w localNodeId := by
  unfold OverlayRouter.learnRoute
  split
  · next hlearn =>
    simp only [shouldLearnRoute, decide_eq_true_eq] at hlearn
    refine ⟨h.localId, h.strategies, h.table.addRoute ?_ link⟩
    intro heq
    rcases hsource heq with hlink | hlocal
    · exact hlearn.2 (heq.trans hlink.symm)
    · exact hlearn.1 (heq.trans (hlocal.symm.trans h.localId.symm))
  · exact h

theorem SparesBroadcast.react {event : RouterEvent} (hevent : event.SparesBroadcast w localNodeId) :
    (r.react w event).SparesBroadcast w localNodeId := by
  cases event with
  | network link data now =>
    simp only [OverlayRouter.react, processNetworkEvent]
    cases hd : w.deserialize data with
    | none => exact h
    | some envelope => exact (h.learnRoute (hevent envelope hd)).handleEnvelope envelope link now
  | sync states =>
    refine ⟨h.localId, h.strategies, h.table.syncConnectedNodes ?_⟩
    intro hmem
    obtain ⟨⟨node, state⟩, hin, rfl⟩ := List.mem_map.mp hmem
    obtain ⟨hstates, hstate⟩ := List.mem_filter.mp hin
    have hconn : state = .connected := by simpa using hstate
    exact hevent (hconn ▸ hstates)
  | connected node => exact ⟨h.localId, h.strategies, h.table.onConnected hevent⟩
  | disconnected node => exact ⟨h.localId, h.strategies, h.table.onDisconnected node⟩

theorem SparesBroadcast.reactAll {events : List RouterEvent}
    (hevents : ∀ event ∈ events, event.SparesBroadcast w localNodeId) :
    (r.reactAll w events).SparesBroadcast w localNodeId := by
  induction events generalizing r with
  | nil => exact h
  | cons event rest ih =>
    exact ih (h.react (hevents event List.mem_cons_self))
      (fun e he => hevents e (List.mem_cons_of_mem _ he))

end

end OverlayRouter

/-! ## Frames for everybody -/

/-- Every frame dispatched to `dest` without a next hop of its own is handed
to the transport with `hop` as its address. -/
def AddressedTo (w : Wire) (r : OverlayRouter) (dest hop : NodeId) : Prop :=
  ∀ (d : OverlayRouter.Dispatch OverlayAction), d.dest = dest → d.nextHop = none →
    (∀ action, d.commit action = .ok action) →
    ∀ action r', r.dispatchDataVia w d = .ok (action, r') →
      ∃ data method lane, action = .sendMessage hop data method lane

/-- A frame for a destination is handed to its next hop. -/
theorem addressedTo_nextHop (w : Wire) (r : OverlayRouter) (dest : NodeId) :
    AddressedTo w r dest ((r.routingTable.getNextHop dest).getD dest) := by
  rintro d rfl hhop hcommit action r' hdispatch
  have hframe : ∀ seq r'', OverlayRouter.buildFrame w d r seq = .ok (action, r'') →
      ∃ data method lane, action =
        .sendMessage ((r.routingTable.getNextHop d.dest).getD d.dest) data method lane := by
    intro seq r'' hbuild
    unfold OverlayRouter.buildFrame at hbuild
    simp only [bind, Except.bind, hhop, hcommit, pure, Except.pure] at hbuild
    split at hbuild
    · cases hbuild
    · split at hbuild
      · cases hbuild
      · simp only [Except.ok.injEq, Prod.mk.injEq] at hbuild
        exact ⟨_, _, _, hbuild.1.symm⟩
  unfold OverlayRouter.dispatchDataVia at hdispatch
  split at hdispatch
  · unfold OverlayRouter.withNextSeq at hdispatch
    simp only [bind, Except.bind, pure, Except.pure] at hdispatch
    split at hdispatch
    · cases hdispatch
    · next built hbuilt =>
      cases hdispatch
      exact hframe _ _ hbuilt
  · exact hframe 0 r' hdispatch

/-- As long as no envelope with the broadcast id as its source comes over
another link, and that id is never reported as connected, broadcasts are
addressed to everybody in every state the router reaches. -/
theorem broadcast_notCaptured (w : Wire) (localNodeId : NodeId) (hopCount : Nat)
    (transfer : StorageTransferConfig) {strategies : List TopologyStrategy}
    (hstrategies : DNVE3Only w localNodeId strategies) {events : List RouterEvent}
    (hevents : ∀ event ∈ events, event.SparesBroadcast w localNodeId) :
    ((OverlayRouter.new localNodeId hopCount transfer strategies).reactAll w
        events).routingTable.getNextHop .broadcast = none ∧
      AddressedTo w ((OverlayRouter.new localNodeId hopCount transfer strategies).reactAll w
        events) .broadcast .broadcast := by
  have hstart : (OverlayRouter.new localNodeId hopCount transfer strategies).SparesBroadcast w
      localNodeId := ⟨rfl, hstrategies, .new⟩
  have hnone := (hstart.reactAll hevents).table.getNextHop
  have haddressed := addressedTo_nextHop w
    ((OverlayRouter.new localNodeId hopCount transfer strategies).reactAll w events) .broadcast
  rw [hnone] at haddressed
  exact ⟨hnone, haddressed⟩

/-! ### Two envelopes from one neighbour -/

namespace Capture

def self : NodeId := ⟨"a"⟩
def neighbour : NodeId := ⟨"b"⟩
def remote : NodeId := ⟨"c"⟩

/-- A message relayed by the neighbour, with the given source. -/
def relayedFrom (source : NodeId) : OverlayEnvelope :=
  OverlayEnvelope.new source self 9 1 (.raw [1])

def wire : Wire :=
  .ofFrames [(relayedFrom .broadcast, [0]), (relayedFrom remote, [1])] (by decide)

def router : OverlayRouter :=
  .new self 1 ⟨false, false⟩ [DNVE3.strategy wire self 1 ⟨fun _ => none, fun _ _ _ => []⟩]

def events (frame : UInt8) : List RouterEvent :=
  [.sync [(neighbour, .connected), (.broadcast, .connecting)], .network neighbour [frame] 5]

end Capture

open Capture in
/-- An envelope that gives the broadcast id as its source makes the neighbour
it came from the next hop of every broadcast. -/
theorem broadcast_captured :
    (router.reactAll wire (events 0)).routingTable.getNextHop .broadcast = some neighbour ∧
      AddressedTo wire (router.reactAll wire (events 0)) .broadcast neighbour := by
  have hhop : (router.reactAll wire (events 0)).routingTable.getNextHop .broadcast =
      some neighbour := by decide
  have haddressed := addressedTo_nextHop wire (router.reactAll wire (events 0)) .broadcast
  rw [hhop] at haddressed
  exact ⟨hhop, haddressed⟩

open Capture in
/-- The same neighbour relays a message of a third node: that node gets a
route, the broadcast id does not. -/
theorem broadcast_notCaptured_relayed :
    (router.reactAll wire (events 1)).routingTable.getNextHop remote = some neighbour ∧
      (router.reactAll wire (events 1)).routingTable.getNextHop .broadcast = none := by
  refine ⟨by decide, (broadcast_notCaptured wire self 1 ⟨false, false⟩ ?_ ?_).1⟩
  · intro s hs
    exact ⟨_, _, List.mem_singleton.mp hs⟩
  · intro event hevent
    have hcases : event = .sync [(neighbour, .connected), (.broadcast, .connecting)] ∨
        event = .network neighbour [1] 5 := by simpa [events] using hevent
    rcases hcases with rfl | rfl
    · show (NodeId.broadcast, ConnectionState.connected) ∉
        [(neighbour, ConnectionState.connected), (.broadcast, .connecting)]
      decide
    · intro envelope hdecoded hsource
      have hrelayed : wire.deserialize [1] = some (relayedFrom remote) := by decide
      rw [hrelayed] at hdecoded
      cases hdecoded
      exact absurd hsource (by decide)

end Mistlib.Overlay
