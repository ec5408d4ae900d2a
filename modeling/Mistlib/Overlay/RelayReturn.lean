import Mistlib.Overlay.BroadcastRoute
import Mistlib.Overlay.RouteFreshness

/-!
# Copies that go back

A relay sends an envelope for one node on to the next hop its table has, and the table may have
learned that hop from the very neighbour the envelope came from. A broadcast is never sent back.

What was taught to the table is kept in a log (`Traced`): the frames that came with another source
than the neighbour that brought them, the node lists, and the disconnections. The route of the
table is the one taught last (`InForce`), so every reception of a run is compared with what the
earlier ones taught.
-/

namespace Mistlib.Overlay

/-! ## The route in force -/

/-- The event says something else of the target, or takes the route away. -/
def TableEvent.Ends (target nextHop : NodeId) : TableEvent → Prop
  | .learned other _ => other = target
  | .disconnected id => id = target ∨ id = nextHop

/-- The last lesson about the target was the route through `nextHop`, and neither of them has been
disconnected since. -/
def InForce (log : List TableEvent) (target nextHop : NodeId) : Prop :=
  ∃ later earlier, log = later ++ .learned target nextHop :: earlier ∧
    ∀ event ∈ later, ¬ event.Ends target nextHop

section InForce

variable {log : List TableEvent} {target nextHop : NodeId}

theorem inForce_cons {event : TableEvent} : InForce (event :: log) target nextHop ↔
    event = .learned target nextHop ∨ ¬ event.Ends target nextHop ∧ InForce log target nextHop := by
  constructor
  · rintro ⟨later, earlier, hlog, hlater⟩
    cases later with
    | nil => exact .inl (List.cons_eq_cons.mp hlog).1
    | cons first later =>
      obtain ⟨rfl, rfl⟩ := List.cons_eq_cons.mp hlog
      obtain ⟨hfirst, hlater⟩ := List.forall_mem_cons.mp hlater
      exact .inr ⟨hfirst, later, earlier, rfl, hlater⟩
  · rintro (rfl | ⟨hfirst, later, earlier, rfl, hlater⟩)
    · exact ⟨[], log, rfl, List.forall_mem_nil _⟩
    · exact ⟨event :: later, earlier, rfl, List.forall_mem_cons.mpr ⟨hfirst, hlater⟩⟩

theorem inForce_disconnected {ids : List NodeId} :
    InForce (ids.map .disconnected ++ log) target nextHop ↔
      InForce log target nextHop ∧ ∀ id ∈ ids, target ≠ id ∧ nextHop ≠ id := by
  induction ids with
  | nil => simp
  | cons id rest ih =>
    rw [List.map_cons, List.cons_append, inForce_cons, ih, List.forall_mem_cons]
    simp only [TableEvent.Ends, reduceCtorEq, false_or, not_or, eq_comm (a := id)]
    exact and_left_comm

end InForce

/-- The log has no event for a route that is removed. -/
def TableOp.Teaches : TableOp → Prop
  | .removeRoute _ => False
  | _ => True

namespace Traced

theorem applyAll_table (m : Traced) (ops : List TableOp) :
    (m.applyAll ops).table = ops.foldl RoutingTable.apply m.table := by
  induction ops generalizing m with
  | nil => rfl
  | cons op rest ih => exact ih (m.apply op)

/-- The routes of the table are those in force. -/
def Exact (m : Traced) : Prop :=
  ∀ target nextHop, m.table.routes.get target = some nextHop ↔ InForce m.log target nextHop

theorem Exact.new : Exact .new := fun target nextHop => by
  refine iff_of_false (fun h => ?_) ?_
  · have hnone : Traced.new.table.routes.get target = none := Table.get_empty _
    rw [hnone] at h
    cases h
  · rintro ⟨later, earlier, hlog, -⟩
    exact List.append_ne_nil_of_right_ne_nil _ (List.cons_ne_nil _ _) hlog.symm

/-- An operation other than `removeRoute` keeps the routes and the log in step. -/
theorem Exact.apply {m : Traced} (h : m.Exact) {op : TableOp} (hop : op.Teaches) : (m.apply op).Exact := by
  intro target nextHop
  cases op with
  | onConnected id => exact h target nextHop
  | onDisconnected id =>
    refine RoutingTable.onDisconnected_route.trans ?_
    show _ ↔ InForce ([id].map .disconnected ++ m.log) target nextHop
    rw [inForce_disconnected, h target nextHop, List.forall_mem_singleton]
  | addRoute target' nextHop' =>
    show (m.table.addRoute target' nextHop').routes.get target = some nextHop ↔
      InForce ((if target' = nextHop' ∨ target' ∈ m.table.connectedNodes then []
        else [.learned target' nextHop']) ++ m.log) target nextHop
    unfold RoutingTable.addRoute
    split
    · exact h target nextHop
    · rw [List.singleton_append, inForce_cons, Table.get_insert, ← h target nextHop]
      simp only [TableEvent.Ends, TableEvent.learned.injEq]
      split
      · next heq => simp [heq]
      · next hne => simp [Ne.symm hne]
  | removeRoute target' => exact hop.elim
  | syncConnectedNodes connected =>
    refine RoutingTable.syncConnectedNodes_route.trans ?_
    show _ ↔ InForce ((m.table.connectedNodes.filter fun id => id ∉ connected).map .disconnected ++ m.log)
      target nextHop
    rw [inForce_disconnected, h target nextHop]
    simp only [List.mem_filter, decide_eq_true_eq, and_imp]

theorem Exact.applyAll {m : Traced} (h : m.Exact) {ops : List TableOp}
    (hops : ∀ op ∈ ops, op.Teaches) : (m.applyAll ops).Exact := by
  induction ops generalizing m with
  | nil => exact h
  | cons op rest ih =>
    obtain ⟨hop, hrest⟩ := List.forall_mem_cons.mp hops
    exact ih (h.apply hop) hrest

end Traced

/-! ## What an event teaches -/

/-- The routes that the node lists of a message add, through its source. -/
def DNVE3.listOps (self source : NodeId) (messageType : Nat) (payload : Bytes) (b : DNVE3.Behaviour) :
    List TableOp :=
  if messageType = OVERLAY_MSG_NODE_LIST then
    (((b.decodeNodes payload).getD []).take MAX_NODE_LIST_NODES).filterMap fun node =>
      if node = self ∨ node.isBroadcast then none else some (.addRoute node source)
  else []

namespace OverlayRouter

/-- What a frame teaches before it is handled: the neighbour that brought it leads to its source. -/
def learnOps (r : OverlayRouter) (source link : NodeId) : List TableOp :=
  if r.shouldLearnRoute source link then [.addRoute source link] else []

/-- What a frame teaches when it is handled: the node lists in it, if it is new and for this node. -/
def deliverOps (behaviours : List DNVE3.Behaviour) (r : OverlayRouter) (envelope : OverlayEnvelope)
    (now : Instant) : List TableOp :=
  if (r.markSeen envelope now).1 ∧ (envelope.dest.isBroadcast ∨ envelope.dest = r.localNodeId) then
    match envelope.content with
    | .overlay message => behaviours.flatMap
      (DNVE3.listOps r.localNodeId envelope.source message.messageType message.payload)
    | _ => []
  else []

def ops (w : Wire) (behaviours : List DNVE3.Behaviour) (r : OverlayRouter) : RouterEvent → List TableOp
  | .network link data now =>
    match w.deserialize data with
    | some envelope => r.learnOps envelope.source link ++ r.deliverOps behaviours envelope now
    | none => []
  | .sync states => [.syncConnectedNodes ((states.filter fun e => e.2 = .connected).map Prod.fst)]
  | .connected node => [.onConnected node]
  | .disconnected node => [.onDisconnected node]

/-- What a run teaches, the first lesson first. -/
def opsAll (w : Wire) (behaviours : List DNVE3.Behaviour) : OverlayRouter → List RouterEvent → List TableOp
  | _, [] => []
  | r, event :: rest => r.ops w behaviours event ++ opsAll w behaviours (r.react w event) rest

/-! ## Relaying -/

/-- The envelope is one to relay: it is for one other node, it has hops left, and
no copy of it was seen before. -/
structure Relays (r : OverlayRouter) (envelope : OverlayEnvelope) (now : Instant) : Prop where
  unicast : envelope.dest.isBroadcast = false
  elsewhere : envelope.dest ≠ r.localNodeId
  hops : canForward envelope = true
  foreign : envelope.source ≠ r.localNodeId
  unseen : (r.markSeen envelope now).1 = true

/-- No copy of an envelope that is relayed goes to the neighbour it came from, or
to the node itself. -/
def ReturnsNothing (w : Wire) (r : OverlayRouter) : RouterEvent → Prop
  | .network link data now => ∀ envelope, w.deserialize data = some envelope → r.Relays envelope now →
    ∀ result, (r.processNetworkEvent w link data now).1 = some result →
      ∀ dest bytes method lane, .sendMessage dest bytes method lane ∈ result.actions →
        dest ≠ link ∧ dest ≠ r.localNodeId
  | _ => True

/-- The destination is not the neighbour the frame came from, if it is connected. If it is not, no
route in force leads back through that neighbour, or to the node itself, and the neighbour is the
destination only where a route in force leads elsewhere. -/
def LedOn (connected : List NodeId) (log : List TableEvent) (self link dest : NodeId) : Prop :=
  if dest ∈ connected then dest ≠ link
  else (∀ hop ∈ connected, InForce log dest hop → hop ≠ link ∧ hop ≠ self) ∧
    (dest = link → ∃ hop ∈ connected, InForce log dest hop)

/-- Every envelope that is relayed is led on by what was taught before, and by the frame that
brings it. -/
def LeadsOn (w : Wire) (r : OverlayRouter) (taught : List TableOp) : RouterEvent → Prop
  | .network link data now => ∀ envelope, w.deserialize data = some envelope → r.Relays envelope now →
    ∀ copy, w.serialize (relayed envelope) = .ok copy →
      LedOn r.routingTable.connectedNodes
        (Traced.new.applyAll (taught ++ r.learnOps envelope.source link)).log r.localNodeId link envelope.dest
  | _ => True

/-- The next hop of the destination after the route to the source is learned. -/
def hopAfter (r : OverlayRouter) (envelope : OverlayEnvelope) (link : NodeId) : NodeId :=
  ((r.learnRoute envelope.source link).routingTable.getNextHop envelope.dest).getD envelope.dest

section Reception

variable {w : Wire} {r : OverlayRouter} {envelope : OverlayEnvelope} {link : NodeId} {now : Instant}

theorem learnRoute_connectedNodes (source : NodeId) :
    (r.learnRoute source link).routingTable.connectedNodes = r.routingTable.connectedNodes := by
  unfold learnRoute
  split
  · unfold RoutingTable.addRoute
    split
    · rfl
    · rfl
  · rfl

theorem learnRoute_table (source : NodeId) : (r.learnRoute source link).routingTable =
    (r.learnOps source link).foldl RoutingTable.apply r.routingTable := by
  unfold learnRoute learnOps
  split
  · rfl
  · rfl

/-- The next hop by the table is the next hop by the log. -/
theorem nextHop_ledOn {m : Traced} (hexact : m.Exact) (link : NodeId) {self dest : NodeId}
    (helsewhere : dest ≠ self) :
    ((m.table.getNextHop dest).getD dest ≠ link ∧ (m.table.getNextHop dest).getD dest ≠ self) ↔
      LedOn m.table.connectedNodes m.log self link dest := by
  unfold RoutingTable.getNextHop LedOn
  split
  · exact and_iff_left helsewhere
  · cases hroute : (m.table.routes.get dest).filter (· ∈ m.table.connectedNodes) with
    | some hop =>
      obtain ⟨hget, hconnected⟩ := Option.filter_eq_some_iff.mp hroute
      have hconnected := of_decide_eq_true hconnected
      have hforce := (hexact dest hop).mp hget
      refine ⟨fun hleads => ⟨fun other _ hother => ?_, fun _ => ⟨hop, hconnected, hforce⟩⟩,
        fun hled => hled.1 hop hconnected hforce⟩
      have hsame := (hexact dest other).mpr hother
      rw [hget] at hsame
      cases hsame
      exact hleads
    | none =>
      have hnone : ∀ hop ∈ m.table.connectedNodes, ¬ InForce m.log dest hop := by
        intro hop hconnected hforce
        rw [(hexact dest hop).mpr hforce, Option.filter_some, if_pos (decide_eq_true hconnected)] at hroute
        cases hroute
      constructor
      · rintro ⟨hback, -⟩
        exact ⟨fun hop hconnected hforce => absurd hforce (hnone hop hconnected),
          fun heq => absurd heq hback⟩
      · rintro ⟨-, hdirect⟩
        refine ⟨fun heq => ?_, helsewhere⟩
        obtain ⟨hop, hconnected, hforce⟩ := hdirect heq
        exact hnone hop hconnected hforce

theorem noteInboundActivity_router (r : OverlayRouter) (link : NodeId) :
    ∃ pingHealth, (r.noteInboundActivity link).2 = { r with pingHealth } := by
  unfold noteInboundActivity
  split
  · exact ⟨r.pingHealth, rfl⟩
  · exact ⟨_, rfl⟩

theorem markSeen_router (r : OverlayRouter) (envelope : OverlayEnvelope) (now : Instant) :
    ∃ seenEnvelopes, (r.markSeen envelope now).2 = { r with seenEnvelopes } := by
  unfold markSeen
  split
  · exact ⟨r.seenEnvelopes, rfl⟩
  · exact ⟨_, rfl⟩

theorem learnRoute_router (r : OverlayRouter) (source link : NodeId) :
    r.learnRoute source link = { r with routingTable := (r.learnRoute source link).routingTable } := by
  unfold learnRoute
  split
  · rfl
  · rfl

theorem relay_actions (link : NodeId) (hr : r.Relays envelope now) {data : Bytes}
    (hdata : w.deserialize data = some envelope) :
    ∃ cleared : List OverlayAction, (∀ action ∈ cleared, action = .clearSuspect link) ∧
      (r.processNetworkEvent w link data now).1.map HandleEnvelopeResult.actions =
        some (cleared ++
          match w.serialize (relayed envelope) with
          | .error _ => []
          | .ok copy =>
            let lane := SendLane.classify envelope.content false
            [.sendMessage (r.hopAfter envelope link) copy
              (storageDelivery .reliableOrdered lane envelope.seq r.transfer.bulkChannel) lane]) := by
  obtain ⟨routingTable, hlearned⟩ : ∃ rt, r.learnRoute envelope.source link = { r with routingTable := rt } :=
    ⟨_, learnRoute_router r envelope.source link⟩
  obtain ⟨pingHealth, hnoted⟩ := noteInboundActivity_router { r with routingTable } link
  obtain ⟨seenEnvelopes, hmarked⟩ := markSeen_router { r with routingTable, pingHealth } envelope now
  have hnew : ({ r with routingTable, pingHealth }.markSeen envelope now).1 = true := by
    have hunseen := hr.unseen
    unfold markSeen at hunseen ⊢
    rw [if_neg hr.foreign] at hunseen ⊢
    exact hunseen
  refine ⟨if ({ r with routingTable }.noteInboundActivity link).1 then [.clearSuspect link] else [], ?_, ?_⟩
  · intro action hmem
    split at hmem
    · exact List.mem_singleton.mp hmem
    · cases hmem
  · unfold processNetworkEvent hopAfter
    rw [hdata]
    simp only [handleEnvelope, hlearned, hnoted, hnew, not_true_eq_false, ↓reduceIte, deliverToStrategies,
      hr.unicast, Bool.false_eq_true, hmarked, hr.elsewhere, or_self, List.append_nil, hr.hops,
      forwardActions, ForwardTargets.hasTargets, forwardTargets, Option.map_some] <;> rfl

/-- A reception returns nothing exactly if its copy leads elsewhere. -/
theorem reception_returnsNothing (hr : r.Relays envelope now) {data : Bytes}
    (hdata : w.deserialize data = some envelope) :
    (∀ result, (r.processNetworkEvent w link data now).1 = some result →
      ∀ dest bytes method lane, .sendMessage dest bytes method lane ∈ result.actions →
        dest ≠ link ∧ dest ≠ r.localNodeId) ↔
      ∀ copy, w.serialize (relayed envelope) = .ok copy →
        r.hopAfter envelope link ≠ link ∧ r.hopAfter envelope link ≠ r.localNodeId := by
  obtain ⟨cleared, hcleared, hactions⟩ := relay_actions link hr hdata
  obtain ⟨result, hresult, hsent⟩ := Option.map_eq_some_iff.mp hactions
  constructor
  · intro hnothing copy hcopy
    have hmem : .sendMessage (r.hopAfter envelope link) copy
        (storageDelivery .reliableOrdered (SendLane.classify envelope.content false) envelope.seq
          r.transfer.bulkChannel) (SendLane.classify envelope.content false) ∈ result.actions := by
      rw [hsent, hcopy]
      exact List.mem_append_right _ List.mem_cons_self
    exact hnothing result hresult _ _ _ _ hmem
  · intro hleads result' hresult' dest bytes method lane hmem
    cases hresult.symm.trans hresult'
    rw [hsent] at hmem
    rcases List.mem_append.mp hmem with hclear | hcopy
    · cases hcleared _ hclear
    · cases hserialized : w.serialize (relayed envelope) with
      | error e =>
        rw [hserialized] at hcopy
        cases hcopy
      | ok copy =>
        rw [hserialized] at hcopy
        cases List.mem_singleton.mp hcopy
        exact hleads bytes hserialized

end Reception

/-! ## Runs -/

section Run

variable {w : Wire} {behaviours : List DNVE3.Behaviour} {hopCount : Nat} {self : NodeId} {r : OverlayRouter}

theorem listOps_handled (rt : RoutingTable) (source : NodeId) (messageType : Nat) (payload : Bytes)
    (b : DNVE3.Behaviour) :
    (DNVE3.listOps self source messageType payload b).foldl RoutingTable.apply rt =
      ((DNVE3.strategy w self hopCount b).handleMessage rt source messageType payload).2 := by
  unfold DNVE3.listOps DNVE3.strategy
  dsimp only
  split
  · cases b.decodeNodes payload with
    | none => rfl
    | some nodes =>
      dsimp only [Option.getD_some, DNVE3.applyNodeList]
      induction nodes.take MAX_NODE_LIST_NODES generalizing rt with
      | nil => rfl
      | cons node rest ih =>
        rw [List.foldl_cons, ← ih, List.filterMap_cons]
        split
        · next hskip =>
          rw [if_pos]
          by_contra hnot
          rw [if_neg hnot] at hskip
          cases hskip
        · next hskip =>
          split at hskip
          · cases hskip
          · next hnot =>
            cases hskip
            rw [if_neg hnot]
            rfl
  · rfl

theorem handleOverlayMessage_table (rt : RoutingTable) (source : NodeId) (messageType : Nat) (payload : Bytes) :
    (handleOverlayMessage source messageType payload (behaviours.map (DNVE3.strategy w self hopCount)) rt).2 =
      (behaviours.flatMap (DNVE3.listOps self source messageType payload)).foldl RoutingTable.apply rt := by
  induction behaviours generalizing rt with
  | nil => rfl
  | cons b rest ih =>
    rw [List.flatMap_cons, List.foldl_append, listOps_handled (w := w), ← ih]
    rfl

/-- A frame changes the table by what it teaches, and besides it only what the router remembers. -/
theorem processNetworkEvent_router (link : NodeId) (now : Instant) {envelope : OverlayEnvelope} {data : Bytes}
    (hstrategies : r.strategies = behaviours.map (DNVE3.strategy w r.localNodeId hopCount))
    (hdata : w.deserialize data = some envelope) :
    ∃ pingHealth seenEnvelopes, (r.processNetworkEvent w link data now).2 =
      { r with
        routingTable := (r.learnOps envelope.source link ++ r.deliverOps behaviours envelope now).foldl
          RoutingTable.apply r.routingTable
        pingHealth
        seenEnvelopes } := by
  obtain ⟨routingTable, hlearned⟩ : ∃ rt, r.learnRoute envelope.source link = { r with routingTable := rt } :=
    ⟨_, learnRoute_router r envelope.source link⟩
  obtain ⟨pingHealth, hnoted⟩ := noteInboundActivity_router { r with routingTable } link
  obtain ⟨seenEnvelopes, hmarked⟩ := markSeen_router { r with routingTable, pingHealth } envelope now
  have hnew : ({ r with routingTable, pingHealth }.markSeen envelope now).1 = (r.markSeen envelope now).1 := by
    unfold markSeen
    dsimp only
    split
    · rfl
    · rfl
  have htable : routingTable = (r.learnOps envelope.source link).foldl RoutingTable.apply r.routingTable := by
    rw [← learnRoute_table, hlearned]
  refine ⟨pingHealth, seenEnvelopes, ?_⟩
  unfold processNetworkEvent deliverOps
  rw [hdata]
  dsimp only
  rw [handleEnvelope_router, hlearned, hnoted, hmarked, hnew, List.foldl_append, ← htable]
  cases (r.markSeen envelope now).1 with
  | false => rfl
  | true =>
    unfold deliverToStrategies
    dsimp only
    rw [if_pos rfl]
    split
    · next hlocal =>
      rw [if_pos ⟨rfl, hlocal⟩]
      cases envelope.content with
      | overlay message =>
        dsimp only
        rw [hstrategies, handleOverlayMessage_table]
      | data d | raw bytes => rfl
    · next hlocal =>
      rw [if_neg fun h => hlocal h.2]
      rfl

/-- The router's table is what it was taught. -/
structure Taught (w : Wire) (behaviours : List DNVE3.Behaviour) (hopCount : Nat) (id : NodeId)
    (r : OverlayRouter) (taught : List TableOp) : Prop where
  localId : r.localNodeId = id
  strategies : r.strategies = behaviours.map (DNVE3.strategy w id hopCount)
  table : r.routingTable = (Traced.new.applyAll taught).table
  teaches : ∀ op ∈ taught, op.Teaches

theorem learnOps_teach (source link : NodeId) : ∀ op ∈ r.learnOps source link, op.Teaches := by
  unfold learnOps
  split
  · exact List.forall_mem_singleton.mpr trivial
  · exact List.forall_mem_nil _

theorem ops_teach (event : RouterEvent) : ∀ op ∈ r.ops w behaviours event, op.Teaches := by
  cases event with
  | network link data now =>
    unfold ops
    dsimp only
    split
    · next envelope _ =>
      refine List.forall_mem_append.mpr ⟨learnOps_teach _ _, fun op hop => ?_⟩
      unfold deliverOps at hop
      split at hop
      · split at hop
        · obtain ⟨b, -, hop⟩ := List.mem_flatMap.mp hop
          unfold DNVE3.listOps at hop
          split at hop
          · obtain ⟨node, -, hnode⟩ := List.mem_filterMap.mp hop
            obtain ⟨-, hnode⟩ := Option.ite_none_left_eq_some.mp hnode
            cases hnode
            trivial
          · cases hop
        · cases hop
      · cases hop
    · exact List.forall_mem_nil _
  | sync states | connected node | disconnected node => exact List.forall_mem_singleton.mpr trivial

section

variable {taught : List TableOp} (h : Taught w behaviours hopCount self r taught)
include h

theorem Taught.react (event : RouterEvent) :
    Taught w behaviours hopCount self (r.react w event) (taught ++ r.ops w behaviours event) := by
  obtain ⟨hlocal, hstrategies, htable, hteaches⟩ := h
  have hteach : ∀ op ∈ taught ++ r.ops w behaviours event, op.Teaches :=
    List.forall_mem_append.mpr ⟨hteaches, ops_teach event⟩
  have happend : (Traced.new.applyAll (taught ++ r.ops w behaviours event)).table =
      (r.ops w behaviours event).foldl RoutingTable.apply r.routingTable := by
    rw [Traced.applyAll_table, List.foldl_append, htable, Traced.applyAll_table]
  cases event with
  | network link data now =>
    cases hdata : w.deserialize data with
    | none =>
      have hsame : r.react w (.network link data now) = r := by
        show (r.processNetworkEvent w link data now).2 = r
        unfold processNetworkEvent
        rw [hdata]
      rw [hsame]
      refine ⟨hlocal, hstrategies, ?_, hteach⟩
      rw [happend, ops, hdata]
      rfl
    | some envelope =>
      obtain ⟨pingHealth, seenEnvelopes, hrouter⟩ :=
        processNetworkEvent_router link now (hlocal.symm ▸ hstrategies) hdata
      have hreact : r.react w (.network link data now) = _ := hrouter
      rw [hreact]
      refine ⟨hlocal, hstrategies, ?_, hteach⟩
      rw [happend, ops, hdata]
  | sync states | connected node | disconnected node =>
    exact ⟨hlocal, hstrategies, happend.symm, hteach⟩

theorem Taught.reactAll (events : List RouterEvent) :
    Taught w behaviours hopCount self (r.reactAll w events) (taught ++ opsAll w behaviours r events) := by
  induction events generalizing r taught with
  | nil =>
    rw [opsAll, List.append_nil]
    exact h
  | cons event rest ih =>
    rw [opsAll, ← List.append_assoc]
    exact ih (h.react event)

/-- An event returns nothing exactly if what was taught leads on what it brings. -/
theorem Taught.returnsNothing_iff (event : RouterEvent) :
    r.ReturnsNothing w event ↔ r.LeadsOn w taught event := by
  cases event with
  | network link data now =>
    refine forall_congr' fun envelope => forall_congr' fun hdata => forall_congr' fun hr => ?_
    refine (reception_returnsNothing hr hdata).trans (forall_congr' fun _ => forall_congr' fun _ => ?_)
    have hteaches : ∀ op ∈ taught ++ r.learnOps envelope.source link, op.Teaches :=
      List.forall_mem_append.mpr ⟨h.teaches, learnOps_teach envelope.source link⟩
    have hexact : (Traced.new.applyAll (taught ++ r.learnOps envelope.source link)).Exact :=
      Traced.Exact.new.applyAll hteaches
    have htable : (Traced.new.applyAll (taught ++ r.learnOps envelope.source link)).table =
        (r.learnRoute envelope.source link).routingTable := by
      rw [Traced.applyAll_table, List.foldl_append, learnRoute_table, h.table, Traced.applyAll_table]
    have hled := nextHop_ledOn hexact link hr.elsewhere
    rw [htable, learnRoute_connectedNodes] at hled
    exact hled
  | sync states | connected node | disconnected node => exact Iff.rfl

end

end Run

/-- Throughout a run of events of a new router no relayed copy goes back to the neighbour it came
from, or to the node itself, exactly if what the router was taught leads on every envelope that is
relayed, when it arrives. -/
theorem relays_never_return_iff (w : Wire) (self : NodeId) (hopCount : Nat) (transfer : StorageTransferConfig)
    (behaviours : List DNVE3.Behaviour) (events : List RouterEvent) :
    let start := new self hopCount transfer (behaviours.map (DNVE3.strategy w self hopCount))
    (∀ past event later, events = past ++ event :: later →
      (start.reactAll w past).ReturnsNothing w event) ↔
      ∀ past event later, events = past ++ event :: later →
        (start.reactAll w past).LeadsOn w (opsAll w behaviours start past) event := by
  intro start
  have hstart : Taught w behaviours hopCount self start [] := ⟨rfl, rfl, rfl, List.forall_mem_nil _⟩
  refine forall_congr' fun past => forall_congr' fun event => forall_congr' fun later => forall_congr' fun _ => ?_
  exact (hstart.reactAll past).returnsNothing_iff event

end OverlayRouter

/-! ### A neighbour that relays to the node it learned from -/

namespace Bounce

def self : NodeId := ⟨"a"⟩
def neighbour : NodeId := ⟨"b"⟩
def target : NodeId := ⟨"c"⟩
def source : NodeId := ⟨"d"⟩

/-- A message of the target that the neighbour has relayed, which teaches its route. -/
def greeting : OverlayEnvelope := OverlayEnvelope.new target self 9 1 (.raw [1])

def message : OverlayEnvelope := OverlayEnvelope.new source target 4 3 (.raw [2])

def wire : Wire :=
  .ofFrames [(greeting, [0]), (message, [1]), (OverlayRouter.relayed message, [2])] (by decide)

def router : OverlayRouter :=
  .new self 3 ⟨false, false⟩ [DNVE3.strategy wire self 3 ⟨fun _ => none, fun _ _ _ => []⟩]

def past : List RouterEvent := [.sync [(neighbour, .connected)], .network neighbour [0] 5]

end Bounce

open Bounce in
/-- The neighbour has lost its own link to the target and relays through this node,
which sends the copy back to it. -/
theorem unicast_returned :
    (router.reactAll wire past).Relays message 6 ∧
      ((router.reactAll wire past).processNetworkEvent wire neighbour [1] 6).1.map
        HandleEnvelopeResult.actions = some [.sendMessage neighbour [2] .reliableOrdered .general] ∧
      ¬ (router.reactAll wire past).ReturnsNothing wire (.network neighbour [1] 6) := by
  have hrelays : (router.reactAll wire past).Relays message 6 :=
    ⟨by decide, by decide, by decide, by decide, by decide⟩
  have hactions : ((router.reactAll wire past).processNetworkEvent wire neighbour [1] 6).1.map
      HandleEnvelopeResult.actions = some [.sendMessage neighbour [2] .reliableOrdered .general] := by
    decide
  refine ⟨hrelays, hactions, fun hnothing => ?_⟩
  obtain ⟨result, hresult, hsent⟩ := Option.map_eq_some_iff.mp hactions
  have hmem : .sendMessage neighbour [2] .reliableOrdered .general ∈ result.actions := by
    rw [hsent]
    exact List.mem_cons_self
  exact (hnothing message (by decide) hrelays result hresult _ _ _ _ hmem).1 rfl

end Mistlib.Overlay
