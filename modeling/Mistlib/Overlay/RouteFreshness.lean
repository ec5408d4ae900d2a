import Mistlib.Overlay.RoutingTable

/-!
# Routes are fresh

A route that was learned before its target or its hop was last disconnected must
not come back, also when the node connects again. The table alone does not tell
when a route was learned, so the operations are followed together with a log of
what they did; every route of the table is in it, with no disconnection of either
end after it (`Traced.Fresh`).
-/

namespace Mistlib.Overlay

/-- The operations on the routing table, with any snapshot and any learned pair. -/
inductive TableOp where
  | onConnected (id : NodeId)
  | onDisconnected (id : NodeId)
  | addRoute (target nextHop : NodeId)
  | removeRoute (target : NodeId)
  | syncConnectedNodes (connected : List NodeId)

/-- What an operation did, as far as it makes a route fresh or stale. -/
inductive TableEvent where
  | learned (target nextHop : NodeId)
  | disconnected (id : NodeId)
deriving DecidableEq, Repr

namespace RoutingTable

def apply (rt : RoutingTable) : TableOp → RoutingTable
  | .onConnected id => rt.onConnected id
  | .onDisconnected id => rt.onDisconnected id
  | .addRoute target nextHop => rt.addRoute target nextHop
  | .removeRoute target => rt.removeRoute target
  | .syncConnectedNodes connected => rt.syncConnectedNodes connected

/-- The events of an operation. A pair that `addRoute` turns away is not learned. -/
def events (rt : RoutingTable) : TableOp → List TableEvent
  | .onDisconnected id => [.disconnected id]
  | .addRoute target nextHop =>
    if target = nextHop ∨ target ∈ rt.connectedNodes then [] else [.learned target nextHop]
  | .syncConnectedNodes connected =>
    (rt.connectedNodes.filter fun id => id ∉ connected).map .disconnected
  | _ => []

end RoutingTable

/-- The table and what was done to it, the latest first. -/
structure Traced where
  table : RoutingTable
  log : List TableEvent

namespace Traced

def new : Traced := ⟨.new, []⟩

def apply (m : Traced) (op : TableOp) : Traced := ⟨m.table.apply op, m.table.events op ++ m.log⟩

def applyAll (m : Traced) (ops : List TableOp) : Traced := ops.foldl apply m

end Traced

/-- The route was learned after the last disconnection of its target and of its hop. -/
def LearnedSince (log : List TableEvent) (target nextHop : NodeId) : Prop :=
  ∃ later earlier, log = later ++ .learned target nextHop :: earlier ∧
    ∀ id, .disconnected id ∈ later → target ≠ id ∧ nextHop ≠ id

theorem LearnedSince.after {log : List TableEvent} {target nextHop : NodeId}
    (h : LearnedSince log target nextHop) {events : List TableEvent}
    (hevents : ∀ id, .disconnected id ∈ events → target ≠ id ∧ nextHop ≠ id) :
    LearnedSince (events ++ log) target nextHop := by
  obtain ⟨later, earlier, rfl, hlater⟩ := h
  refine ⟨events ++ later, earlier, (List.append_assoc ..).symm, fun id hid => ?_⟩
  rcases List.mem_append.mp hid with hid | hid
  · exact hevents id hid
  · exact hlater id hid

namespace RoutingTable

variable {rt : RoutingTable} {target nextHop : NodeId}

/-! ## What a snapshot does -/

theorem connectAll_routes (rt : RoutingTable) (connected : List NodeId) :
    (connected.foldl onConnected rt).routes = rt.routes := by
  induction connected generalizing rt with
  | nil => rfl
  | cons id rest ih => exact ih (rt.onConnected id)

theorem mem_connectAll (rt : RoutingTable) (connected : List NodeId) (id : NodeId) :
    id ∈ (connected.foldl onConnected rt).connectedNodes ↔ id ∈ connected ∨ id ∈ rt.connectedNodes := by
  induction connected generalizing rt with
  | nil => simp
  | cons first rest ih =>
    rw [List.foldl_cons, ih, onConnected, List.mem_insert_iff, List.mem_cons]
    exact or_left_comm.trans or_assoc.symm

/-- A node of the snapshot is spared, any other one is disconnected. -/
def spare (connected : List NodeId) (rt : RoutingTable) (id : NodeId) : RoutingTable :=
  if id ∈ connected then rt else rt.onDisconnected id

theorem mem_disconnectAll (rt : RoutingTable) (connected previous : List NodeId) (id : NodeId) :
    id ∈ (previous.foldl (spare connected) rt).connectedNodes ↔
      id ∈ rt.connectedNodes ∧ (id ∈ previous → id ∈ connected) := by
  induction previous generalizing rt with
  | nil => simp
  | cons first rest ih =>
    rw [List.foldl_cons, ih]
    unfold spare
    split
    · next hspared =>
      refine and_congr_right fun _ => ⟨fun hrest hmem => ?_, fun hall hmem => hall (List.mem_cons_of_mem _ hmem)⟩
      rcases List.mem_cons.mp hmem with rfl | hmem
      · exact hspared
      · exact hrest hmem
    · next hgone =>
      simp only [onDisconnected, List.mem_filter, decide_eq_true_eq]
      constructor
      · rintro ⟨⟨hmem, hne⟩, hrest⟩
        exact ⟨hmem, fun hin => hrest ((List.mem_cons.mp hin).resolve_left hne)⟩
      · rintro ⟨hmem, hall⟩
        refine ⟨⟨hmem, ?_⟩, fun hin => hall (List.mem_cons_of_mem _ hin)⟩
        rintro rfl
        exact hgone (hall List.mem_cons_self)

theorem mem_syncConnectedNodes (rt : RoutingTable) (connected : List NodeId) (id : NodeId) :
    id ∈ (rt.syncConnectedNodes connected).connectedNodes ↔ id ∈ connected := by
  show id ∈ (rt.connectedNodes.foldl (spare connected) (connected.foldl onConnected rt)).connectedNodes ↔ _
  rw [mem_disconnectAll, mem_connectAll]
  constructor
  · rintro ⟨hnew | hold, hspared⟩
    · exact hnew
    · exact hspared hold
  · exact fun hnew => ⟨.inl hnew, fun _ => hnew⟩

/-! ## The routes that stay -/

theorem onDisconnected_route {id : NodeId} : (rt.onDisconnected id).routes.get target = some nextHop ↔
    rt.routes.get target = some nextHop ∧ target ≠ id ∧ nextHop ≠ id := by
  rw [onDisconnected, Table.get_retain, Option.filter_eq_some_iff, decide_eq_true_eq]

theorem disconnectAll_route {connected previous : List NodeId} :
    (previous.foldl (spare connected) rt).routes.get target = some nextHop ↔
      rt.routes.get target = some nextHop ∧
        ∀ id ∈ previous, id ∉ connected → target ≠ id ∧ nextHop ≠ id := by
  induction previous generalizing rt with
  | nil => simp
  | cons first rest ih =>
    rw [List.foldl_cons, ih, List.forall_mem_cons]
    unfold spare
    split
    · next hspared => simp [hspared]
    · next hgone =>
      rw [onDisconnected_route, and_assoc]
      exact and_congr_right fun _ => and_congr_left fun _ => (imp_iff_right hgone).symm

theorem syncConnectedNodes_route {connected : List NodeId} :
    (rt.syncConnectedNodes connected).routes.get target = some nextHop ↔
      rt.routes.get target = some nextHop ∧
        ∀ id ∈ rt.connectedNodes, id ∉ connected → target ≠ id ∧ nextHop ≠ id := by
  refine disconnectAll_route.trans (and_congr_left fun _ => ?_)
  rw [connectAll_routes]

end RoutingTable

namespace Traced

/-- Every route of the table leads elsewhere and was learned since both of its ends
were last disconnected. -/
def Fresh (m : Traced) : Prop :=
  ∀ target nextHop, m.table.routes.get target = some nextHop →
    target ≠ nextHop ∧ LearnedSince m.log target nextHop

theorem Fresh.apply {m : Traced} (h : m.Fresh) (op : TableOp) : (m.apply op).Fresh := by
  intro target nextHop hget
  cases op with
  | onConnected id => exact h target nextHop hget
  | onDisconnected id =>
    obtain ⟨hget, hends⟩ := RoutingTable.onDisconnected_route.mp hget
    obtain ⟨hne, hlearned⟩ := h target nextHop hget
    refine ⟨hne, hlearned.after fun id' hid => ?_⟩
    cases List.mem_singleton.mp hid
    exact hends
  | addRoute target' nextHop' =>
    replace hget : (m.table.addRoute target' nextHop').routes.get target = some nextHop := hget
    show target ≠ nextHop ∧ LearnedSince ((if target' = nextHop' ∨ target' ∈ m.table.connectedNodes then []
      else [.learned target' nextHop']) ++ m.log) target nextHop
    unfold RoutingTable.addRoute at hget
    split at hget
    · next hignored =>
      rw [if_pos hignored]
      exact h target nextHop hget
    · next hlearned =>
      rw [if_neg hlearned]
      rw [Table.get_insert] at hget
      split at hget
      · next heq =>
        cases hget
        subst heq
        exact ⟨fun heq => hlearned (.inl heq), [], m.log, rfl, (by simp)⟩
      · obtain ⟨hne, hbefore⟩ := h target nextHop hget
        exact ⟨hne, hbefore.after (by simp)⟩
  | removeRoute target' =>
    replace hget : (m.table.routes.erase target').get target = some nextHop := hget
    rw [Table.get_erase] at hget
    split at hget
    · cases hget
    · exact h target nextHop hget
  | syncConnectedNodes connected =>
    obtain ⟨hget, hends⟩ := RoutingTable.syncConnectedNodes_route.mp hget
    obtain ⟨hne, hlearned⟩ := h target nextHop hget
    refine ⟨hne, hlearned.after fun id hid => ?_⟩
    obtain ⟨id', hid', heq⟩ := List.mem_map.mp hid
    cases heq
    obtain ⟨hmem, hgone⟩ := List.mem_filter.mp hid'
    exact hends id hmem (of_decide_eq_true hgone)

theorem Fresh.applyAll {m : Traced} (h : m.Fresh) (ops : List TableOp) : (m.applyAll ops).Fresh := by
  induction ops generalizing m with
  | nil => exact h
  | cons op rest ih => exact ih (h.apply op)

end Traced

/-- **Routes are fresh.** After any operations a next hop is connected, a connected
node is its own next hop, any other hop was learned since it and the node were last
disconnected, and a snapshot leaves exactly its nodes connected. -/
theorem getNextHop_fresh (ops : List TableOp) :
    let m := Traced.new.applyAll ops
    (∀ node hop, m.table.getNextHop node = some hop →
      hop ∈ m.table.connectedNodes ∧ (node ∈ m.table.connectedNodes → hop = node) ∧
        (hop ≠ node → LearnedSince m.log node hop)) ∧
      ∀ connected id, id ∈ (m.table.syncConnectedNodes connected).connectedNodes ↔ id ∈ connected := by
  intro m
  have hfresh : m.Fresh := Traced.Fresh.applyAll (by simp [Traced.Fresh, Traced.new, RoutingTable.new]) ops
  refine ⟨fun node hop hnext => ?_, m.table.mem_syncConnectedNodes⟩
  unfold RoutingTable.getNextHop at hnext
  split at hnext
  · next hconnected =>
    cases hnext
    exact ⟨hconnected, fun _ => rfl, fun hne => absurd rfl hne⟩
  · next hnot =>
    obtain ⟨hroute, hhop⟩ := Option.filter_eq_some_iff.mp hnext
    exact ⟨of_decide_eq_true hhop, fun hconnected => absurd hconnected hnot,
      fun _ => (hfresh node hop hroute).2⟩

end Mistlib.Overlay
