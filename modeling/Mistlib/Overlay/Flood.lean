import Mathlib.Algebra.BigOperators.Group.Finset.Basic
import Mathlib.Algebra.Order.BigOperators.Group.Finset
import Mistlib.Overlay.BroadcastRoute

/-!
# Flooding

Whoever delivers a broadcast envelope sends a copy with one hop less to its neighbours, and the
duplicate suppression drops what was seen before. Copies in flight are handled in any order.
Every router delivers at most once (`Flooding`), and since a router sends copies only when it
delivers, every run is bounded (`Network.potential`).

Duplicates are recognised by source and id alone. The first copy to arrive decides how far a
router relays, also when it came over a detour.
-/

namespace Mistlib.Overlay

/-- A copy on its way from `link` to `dest`. -/
structure Copy where
  link : NodeId
  dest : NodeId
  data : Bytes
deriving DecidableEq, Repr

/-- The routers, the copies in flight, and what has been reported so far:
every delivery with the envelope delivered, every copy sent on with the
envelope that triggered it. -/
structure Network where
  routers : NodeId → OverlayRouter
  flight : List Copy
  deliveries : List (NodeId × OverlayEnvelope)
  forwards : List (OverlayEnvelope × Copy)

/-- The copy of `env` an action of `sender` puts on the wire, if it does. -/
def OverlayAction.copyOf (w : Wire) (env : OverlayEnvelope) (sender : NodeId) :
    OverlayAction → Option Copy
  | .sendMessage dest data _ _ =>
    match w.deserialize data with
    | some e => if e.key = env.key then some ⟨sender, dest, data⟩ else none
    | none => none
  | _ => none

namespace Network

def inject (routers : NodeId → OverlayRouter) (env : OverlayEnvelope) (data : Bytes)
    (now : Instant) : Network where
  routers := Function.update routers env.source ((routers env.source).rememberOutgoing env now)
  flight := (routers env.source).routingTable.connectedNodes.map fun dest =>
    ⟨env.source, dest, data⟩
  deliveries := []
  forwards := []

def handle (w : Wire) (env : OverlayEnvelope) (net : Network) (c : Copy) (now : Instant) :
    Network :=
  let handled := (net.routers c.dest).processNetworkEvent w c.link c.data now
  let net := { net with
    routers := Function.update net.routers c.dest handled.2
    flight := net.flight.erase c }
  match w.deserialize c.data, handled.1 with
  | some received, some result =>
    let copies := result.actions.filterMap (OverlayAction.copyOf w env c.dest)
    { net with
      flight := net.flight ++ copies
      deliveries :=
        if result.shouldDeliver then (c.dest, received) :: net.deliveries else net.deliveries
      forwards := copies.map (fun copy => (received, copy)) ++ net.forwards }
  | _, _ => net

end Network

/-- The memory of `env` at its router has not expired at `now`. -/
def Unexpired (env : OverlayEnvelope) (r : OverlayRouter) (now : Instant) : Prop :=
  ∀ seenAt, r.seenEnvelopes.entries.get env.key = some seenAt →
    now - seenAt < r.seenEnvelopes.ttl

instance (env : OverlayEnvelope) (r : OverlayRouter) (now : Instant) :
    Decidable (Unexpired env r now) :=
  match h : r.seenEnvelopes.entries.get env.key with
  | none => .isTrue (by simp [Unexpired, h])
  | some seenAt => decidable_of_iff (now - seenAt < r.seenEnvelopes.ttl) (by simp [Unexpired, h])

/-- `n` copies have been handled, in any order and at any time. -/
inductive Floods (w : Wire) (env : OverlayEnvelope) : Nat → Network → Network → Prop
  | refl (net : Network) : Floods w env 0 net net
  | step {n : Nat} {net net' : Network} (run : Floods w env n net net') (c : Copy)
      (inFlight : c ∈ net'.flight) (now : Instant)
      (unexpired : Unexpired env (net'.routers c.dest) now) :
      Floods w env (n + 1) net (net'.handle w env c now)

/-- A symmetric graph on finitely many nodes; `links v` lists the neighbours of `v`. -/
structure Topology where
  nodes : Finset NodeId
  links : NodeId → List NodeId
  closed : ∀ v ∈ nodes, ∀ u ∈ links v, u ∈ nodes
  symm : ∀ v ∈ nodes, ∀ u ∈ links v, v ∈ links u

/-- A router in its place: its own id, DNVE3 strategies, its neighbours
connected, and a memory that lasts. -/
structure Wired (w : Wire) (v : NodeId) (neighbours : List NodeId) (r : OverlayRouter) : Prop where
  localId : r.localNodeId = v
  strategies : DNVE3Only w v r.strategies
  connected : r.routingTable.connectedNodes = neighbours
  lasting : 0 < r.seenEnvelopes.ttl

/-- The copies a router sends on when it delivers `e`. -/
def relayCopies (w : Wire) (e : OverlayEnvelope) (self link : NodeId) (neighbours : List NodeId) :
    List Copy :=
  if e.hopCount > 0 then
    match w.serialize (OverlayRouter.relayed e) with
    | .ok data =>
      (neighbours.filter fun id => id ≠ link ∧ id ≠ self).map fun dest => ⟨self, dest, data⟩
    | .error _ => []
  else []

/-! ## One router handles one copy -/

section Cache

variable {cache : OverlaySeenCache} {source : NodeId} {msgId : Nat}

/-- A pair that is remembered and has not expired is reported as seen and
stays remembered. -/
theorem checkAndInsert_seen (hid : msgId ≠ 0) {now seenAt : Instant}
    (hget : cache.entries.get (source, msgId) = some seenAt) (hfresh : now - seenAt < cache.ttl) :
    (OverlaySeenCache.checkAndInsert cache source msgId now).1 = false ∧
      (OverlaySeenCache.checkAndInsert cache source msgId now).2.entries.get (source, msgId) =
        some seenAt ∧
      (OverlaySeenCache.checkAndInsert cache source msgId now).2.ttl = cache.ttl := by
  have hswept : (TtlCache.sweep cache now).entries.get (source, msgId) = some seenAt := by
    simp only [TtlCache.sweep, Table.get_retain, hget, Option.filter_some]
    rw [if_pos]
    exact decide_eq_true hfresh
  have hcontains : (TtlCache.sweep cache now).entries.contains (source, msgId) = true :=
    Table.contains_iff.mpr ⟨_, hswept⟩
  unfold OverlaySeenCache.checkAndInsert
  rw [if_neg hid]
  simp only [hcontains, if_true]
  exact ⟨trivial, hswept, rfl⟩

theorem checkAndInsert_new (hid : msgId ≠ 0) (hget : cache.entries.get (source, msgId) = none)
    (now : Instant) :
    (OverlaySeenCache.checkAndInsert cache source msgId now).1 = true ∧
      (OverlaySeenCache.checkAndInsert cache source msgId now).2.entries.get (source, msgId) =
        some now ∧
      (OverlaySeenCache.checkAndInsert cache source msgId now).2.ttl = cache.ttl := by
  have hcontains : ¬ (TtlCache.sweep cache now).entries.contains (source, msgId) = true := by
    intro h
    obtain ⟨v, hv⟩ := Table.contains_iff.mp h
    simp [TtlCache.sweep, hget] at hv
  unfold OverlaySeenCache.checkAndInsert
  rw [if_neg hid]
  simp only [hcontains]
  exact ⟨rfl, Table.get_insert_self _ _ _, rfl⟩

end Cache

namespace Wired

variable {w : Wire} {v : NodeId} {neighbours : List NodeId} {r : OverlayRouter}

section

variable (h : Wired w v neighbours r)
include h

theorem learnRoute (source link : NodeId) : Wired w v neighbours (r.learnRoute source link) := by
  unfold OverlayRouter.learnRoute
  split
  · refine ⟨h.localId, h.strategies, ?_, h.lasting⟩
    unfold RoutingTable.addRoute
    split <;> exact h.connected
  · exact h

theorem noteInboundActivity (link : NodeId) :
    Wired w v neighbours (r.noteInboundActivity link).2 := by
  unfold OverlayRouter.noteInboundActivity
  split
  · exact h
  · exact { h with }

theorem deliverToStrategies (e : OverlayEnvelope) :
    Wired w v neighbours (r.deliverToStrategies e).2 := by
  unfold OverlayRouter.deliverToStrategies
  split
  · cases e.content with
    | overlay message =>
      refine ⟨h.localId, h.strategies, ?_, h.lasting⟩
      exact (OverlayRouter.handleOverlayMessage_dnve3 h.strategies _ _ _ _).1.trans h.connected
    | data d | raw b => exact h
  · exact h

theorem deliverToStrategies_copies {e env : OverlayEnvelope} (hsource : env.source ≠ v) :
    (r.deliverToStrategies e).1.filterMap (OverlayAction.copyOf w env v) = [] := by
  rw [List.filterMap_eq_nil_iff]
  intro action hmem
  unfold OverlayRouter.deliverToStrategies at hmem
  split at hmem
  · cases hc : e.content with
    | overlay message =>
      rw [hc] at hmem
      cases action with
      | sendMessage dest data method lane =>
        simp only [OverlayAction.copyOf]
        cases hd : w.deserialize data with
        | none => rfl
        | some e' =>
          have hown := (OverlayRouter.handleOverlayMessage_dnve3 h.strategies _ _ _ _).2
            dest data method lane e' hmem hd
          have hkey : e'.key ≠ env.key := by
            intro heq
            exact hsource ((congrArg Prod.fst heq).symm.trans hown)
          simp only [if_neg hkey]
      | _ => rfl
    | data d | raw b => rw [hc] at hmem; cases hmem
  · cases hmem

theorem forwardActions_copies {e env : OverlayEnvelope} (hdest : e.dest = .broadcast)
    (hkey : e.key = env.key) (link : NodeId) : (if OverlayRouter.canForward e then
        OverlayRouter.forwardActions w r e (r.forwardTargets e link) else []).filterMap
      (OverlayAction.copyOf w env v) = relayCopies w e v link neighbours := by
  have htargets : r.forwardTargets e link =
      .broadcast (neighbours.filter fun id => id ≠ link ∧ id ≠ v) := by
    unfold OverlayRouter.forwardTargets
    rw [if_pos (NodeId.isBroadcast_iff.mpr hdest), h.connected, h.localId]
  unfold relayCopies OverlayRouter.canForward
  by_cases hhops : e.hopCount > 0
  · simp only [hhops, decide_true, if_true, OverlayRouter.forwardActions, htargets,
      ForwardTargets.hasTargets]
    cases hs : w.serialize (OverlayRouter.relayed e) with
    | error text => rfl
    | ok data =>
      simp only [List.filterMap_map]
      rw [← List.filterMap_eq_map]
      congr 1
      funext dest
      have hkey' : (OverlayRouter.relayed e).key = env.key := hkey
      simp [OverlayAction.copyOf, w.roundTrip hs, hkey']
  · simp only [hhops, decide_false, if_false, Bool.false_eq_true, List.filterMap_nil]

end

end Wired

variable {e : OverlayEnvelope} {data : Bytes} {now : Instant}

theorem Wired.processNetworkEvent {w : Wire} {v : NodeId} {neighbours : List NodeId}
    {r : OverlayRouter} (h : Wired w v neighbours r) {env : OverlayEnvelope}
    (hdest : e.dest = .broadcast) (hkey : e.key = env.key) (hid : env.msgId ≠ 0)
    (hdata : w.deserialize data = some e) (link : NodeId) (hunexpired : Unexpired env r now) :
    ∃ result r', r.processNetworkEvent w link data now = (some result, r') ∧
      Wired w v neighbours r' ∧
      ((result.shouldDeliver = false ∧
          result.actions.filterMap (OverlayAction.copyOf w env v) = [] ∧
          (v = env.source ∨ r.seenEnvelopes.entries.contains env.key) ∧
          r'.seenEnvelopes.entries.contains env.key =
            r.seenEnvelopes.entries.contains env.key) ∨
        (result.shouldDeliver = true ∧
          result.actions.filterMap (OverlayAction.copyOf w env v) =
            relayCopies w e v link neighbours ∧
          v ≠ env.source ∧ r.seenEnvelopes.entries.contains env.key = false ∧
          r'.seenEnvelopes.entries.contains env.key)) := by
  obtain ⟨hsource, hmsg⟩ := Prod.mk.inj hkey
  have hwired := (h.learnRoute e.source link).noteInboundActivity link
  -- Before the check only the route and the liveness record have changed.
  have hcache : ((r.learnRoute e.source link).noteInboundActivity link).2.seenEnvelopes =
      r.seenEnvelopes := by
    have hlearn : (r.learnRoute e.source link).seenEnvelopes = r.seenEnvelopes := by
      unfold OverlayRouter.learnRoute
      split <;> rfl
    rw [← hlearn]
    unfold OverlayRouter.noteInboundActivity
    split <;> rfl
  have hcleared : (if ((r.learnRoute e.source link).noteInboundActivity link).1 = true then
      [OverlayAction.clearSuspect link] else []).filterMap (OverlayAction.copyOf w env v) = [] := by
    split <;> simp [OverlayAction.copyOf]
  simp only [OverlayRouter.processNetworkEvent, hdata, OverlayRouter.handleEnvelope]
  generalize ((r.learnRoute e.source link).noteInboundActivity link).1 = noted at hcleared ⊢
  generalize ((r.learnRoute e.source link).noteInboundActivity link).2 = r₁ at hwired hcache ⊢
  refine ⟨_, _, rfl, ?_⟩
  by_cases hself : v = env.source
  · have hmark : r₁.markSeen e now = (false, r₁) := by
      unfold OverlayRouter.markSeen
      rw [if_pos (hsource.trans (hself.symm.trans hwired.localId.symm))]
    simp only [hmark, Bool.false_eq_true, not_false_eq_true, if_true]
    exact ⟨hwired, Or.inl ⟨trivial, hcleared, Or.inl hself, by rw [hcache]⟩⟩
  · have hother : ¬ e.source = r₁.localNodeId := by
      intro heq
      exact hself (hwired.localId.symm.trans (heq.symm.trans hsource))
    have hmark : r₁.markSeen e now =
        ((OverlaySeenCache.checkAndInsert r.seenEnvelopes env.source env.msgId now).1,
          { r₁ with seenEnvelopes :=
              (OverlaySeenCache.checkAndInsert r.seenEnvelopes env.source env.msgId now).2 }) := by
      unfold OverlayRouter.markSeen
      rw [if_neg hother, hcache, hsource, hmsg]
    cases hget : r.seenEnvelopes.entries.get env.key with
    | some seenAt =>
      obtain ⟨hfirst, hkept, httl⟩ :=
        checkAndInsert_seen hid hget (hunexpired seenAt hget)
      have hin : r.seenEnvelopes.entries.contains env.key = true :=
        Table.contains_iff.mpr ⟨_, hget⟩
      simp only [hmark, hfirst, Bool.false_eq_true, not_false_eq_true, if_true]
      refine ⟨⟨hwired.localId, hwired.strategies, hwired.connected, ?_⟩,
        Or.inl ⟨trivial, hcleared, Or.inr hin, ?_⟩⟩
      · exact httl ▸ h.lasting
      · exact (Table.contains_iff.mpr ⟨_, hkept⟩).trans hin.symm
    | none =>
      obtain ⟨hfirst, hkept, httl⟩ := checkAndInsert_new hid hget now
      have hout : r.seenEnvelopes.entries.contains env.key = false := by
        simp [Table.contains, hget]
      simp only [hmark, hfirst, not_true_eq_false, if_false]
      have hwired₂ : Wired w v neighbours { r₁ with seenEnvelopes :=
          (OverlaySeenCache.checkAndInsert r.seenEnvelopes env.source env.msgId now).2 } :=
        ⟨hwired.localId, hwired.strategies, hwired.connected, httl ▸ h.lasting⟩
      generalize hr₂ : ({ r₁ with seenEnvelopes :=
          (OverlaySeenCache.checkAndInsert r.seenEnvelopes env.source env.msgId now).2 } :
            OverlayRouter) = r₂ at hwired₂ ⊢
      have hseen : (r₂.deliverToStrategies e).2.seenEnvelopes.entries.contains env.key = true := by
        have hsame : (r₂.deliverToStrategies e).2.seenEnvelopes = r₂.seenEnvelopes := by
          unfold OverlayRouter.deliverToStrategies
          split
          · cases e.content <;> rfl
          · rfl
        rw [hsame, ← hr₂]
        exact Table.contains_iff.mpr ⟨_, hkept⟩
      refine ⟨hwired₂.deliverToStrategies e, Or.inr ⟨trivial, ?_, hself, hout, hseen⟩⟩
      simp only [List.filterMap_append, hcleared, List.nil_append,
        hwired₂.deliverToStrategies_copies (Ne.symm hself)]
      exact (hwired₂.deliverToStrategies e).forwardActions_copies hdest hkey link

/-! ## The network -/

theorem relayCopies_length (w : Wire) (e : OverlayEnvelope) (self link : NodeId)
    (neighbours : List NodeId) :
    (relayCopies w e self link neighbours).length ≤ neighbours.length := by
  unfold relayCopies
  split
  · split
    · rw [List.length_map]
      exact List.length_filter_le _ _
    · exact Nat.zero_le _
  · exact Nat.zero_le _

theorem mem_relayCopies {w : Wire} {self link : NodeId} {neighbours : List NodeId} {c : Copy}
    (h : c ∈ relayCopies w e self link neighbours) :
    c.link = self ∧ c.dest ∈ neighbours ∧ 0 < e.hopCount ∧
      w.deserialize c.data = some (OverlayRouter.relayed e) := by
  unfold relayCopies at h
  split at h
  · next hhops =>
    split at h
    · next data hs =>
      obtain ⟨dest, hdest, rfl⟩ := List.mem_map.mp h
      exact ⟨rfl, (List.mem_filter.mp hdest).1, hhops, w.roundTrip hs⟩
    · cases h
  · cases h

def Network.delivered (net : Network) : List NodeId := net.deliveries.map Prod.fst

/-- What holds while `env` spreads over `t`. -/
structure Flooding (w : Wire) (t : Topology) (env : OverlayEnvelope) (net : Network) : Prop where
  wired : ∀ v ∈ t.nodes, Wired w v (t.links v) (net.routers v)
  copies : ∀ c ∈ net.flight, c.dest ∈ t.nodes ∧ (c.link = env.source ∨ c.link ∈ net.delivered) ∧
    ∃ k ≤ env.hopCount, w.deserialize c.data = some { env with hopCount := k }
  once : net.delivered.Nodup
  deliverer : ∀ v ∈ net.delivered, v ∈ t.nodes ∧ v ≠ env.source ∧
    (net.routers v).seenEnvelopes.entries.contains env.key
  forwarded : ∀ f ∈ net.forwards, f.2.link ≠ env.source ∧
    ∃ e, w.deserialize f.2.data = some e ∧ f.1.hopCount = e.hopCount + 1

section Runs

variable {t : Topology} {net : Network} {c : Copy} {w : Wire} {env : OverlayEnvelope}

/-- What handling a copy does to the network: nothing but the copy is gone,
or its router delivers and sends its own copies. -/
theorem Flooding.handle_cases (h : Flooding w t env net) (hdest : env.dest = .broadcast)
    (hid : env.msgId ≠ 0) (hc : c ∈ net.flight)
    (hunexpired : Unexpired env (net.routers c.dest) now) :
    ∃ r', Wired w c.dest (t.links c.dest) r' ∧
      ((net.handle w env c now =
            { net with
              routers := Function.update net.routers c.dest r'
              flight := net.flight.erase c } ∧
          (c.dest = env.source ∨ (net.routers c.dest).seenEnvelopes.entries.contains env.key) ∧
          r'.seenEnvelopes.entries.contains env.key =
            (net.routers c.dest).seenEnvelopes.entries.contains env.key) ∨
        ∃ e, ∃ k ≤ env.hopCount, e = { env with hopCount := k } ∧
          w.deserialize c.data = some e ∧
          net.handle w env c now =
            { routers := Function.update net.routers c.dest r'
              flight := net.flight.erase c ++ relayCopies w e c.dest c.link (t.links c.dest)
              deliveries := (c.dest, e) :: net.deliveries
              forwards := (relayCopies w e c.dest c.link (t.links c.dest)).map (fun copy => (e, copy))
                ++ net.forwards } ∧
          c.dest ≠ env.source ∧
          (net.routers c.dest).seenEnvelopes.entries.contains env.key = false ∧
          r'.seenEnvelopes.entries.contains env.key) := by
  obtain ⟨hnode, _, k, hk, hdata⟩ := h.copies c hc
  have hkey : ({ env with hopCount := k } : OverlayEnvelope).key = env.key := rfl
  obtain ⟨result, r', hprocess, hwired, hcases⟩ := (h.wired c.dest hnode).processNetworkEvent
    (e := { env with hopCount := k }) hdest hkey hid hdata c.link hunexpired
  refine ⟨r', hwired, ?_⟩
  unfold Network.handle
  simp only [hprocess, hdata]
  rcases hcases with ⟨hdeliver, hcopies, hwhy, hsame⟩ | ⟨hdeliver, hcopies, hne, hnew, hseen⟩
  · refine Or.inl ⟨?_, hwhy, hsame⟩
    simp only [hdeliver, hcopies, List.append_nil, List.map_nil, List.nil_append,
      Bool.false_eq_true, if_false]
  · refine Or.inr ⟨_, k, hk, rfl, rfl, ?_, hne, hnew, hseen⟩
    simp only [hdeliver, hcopies, if_true]

theorem wired_update {routers : NodeId → OverlayRouter}
    (h : ∀ v ∈ t.nodes, Wired w v (t.links v) (routers v)) {u : NodeId} {r' : OverlayRouter}
    (hr' : Wired w u (t.links u) r') :
    ∀ v ∈ t.nodes, Wired w v (t.links v) (Function.update routers u r' v) := by
  intro v hv
  by_cases heq : v = u
  · subst heq
    rw [Function.update_self]
    exact hr'
  · rw [Function.update_of_ne heq]
    exact h v hv

theorem Flooding.handle (h : Flooding w t env net) (hdest : env.dest = .broadcast)
    (hid : env.msgId ≠ 0) (hc : c ∈ net.flight)
    (hunexpired : Unexpired env (net.routers c.dest) now) :
    Flooding w t env (net.handle w env c now) := by
  obtain ⟨r', hwired, hcases⟩ := h.handle_cases hdest hid hc hunexpired
  obtain ⟨hnode, _, _⟩ := h.copies c hc
  rcases hcases with ⟨hnet, _, hsame⟩ | ⟨e, k, hk, he, _, hnet, hne, hnew, hseen⟩
  · rw [hnet]
    refine ⟨wired_update h.wired hwired, ?_, h.once, ?_, h.forwarded⟩
    · intro c' hc'
      exact h.copies c' (List.mem_of_mem_erase hc')
    · intro v hv
      obtain ⟨hin, hother, hcontains⟩ := h.deliverer v hv
      refine ⟨hin, hother, ?_⟩
      by_cases heq : v = c.dest
      · subst heq
        simp only [Function.update_self, hsame]
        exact hcontains
      · simp only [Function.update_of_ne heq]
        exact hcontains
  · have hfresh : c.dest ∉ net.delivered := by
      intro hmem
      have hcontains := (h.deliverer c.dest hmem).2.2
      rw [hnew] at hcontains
      cases hcontains
    rw [hnet]
    refine ⟨wired_update h.wired hwired, ?_, List.nodup_cons.mpr ⟨hfresh, h.once⟩, ?_, ?_⟩
    · intro c' hc'
      rcases List.mem_append.mp hc' with hold | hrelay
      · obtain ⟨hin, hlink, hdecoded⟩ := h.copies c' (List.mem_of_mem_erase hold)
        exact ⟨hin, hlink.imp_right (List.mem_cons_of_mem _), hdecoded⟩
      · obtain ⟨hlink, hmem, _, hdecoded⟩ := mem_relayCopies hrelay
        refine ⟨t.closed _ hnode _ hmem, Or.inr ?_, k - 1, by omega, ?_⟩
        · rw [hlink]
          exact List.mem_cons_self
        · rw [hdecoded, he]
          rfl
    · intro v hv
      rcases List.mem_cons.mp hv with heq | hold
      · have heq' : v = c.dest := heq
        subst heq'
        refine ⟨hnode, hne, ?_⟩
        simp only [Function.update_self]
        exact hseen
      · obtain ⟨hin, hother, hcontains⟩ := h.deliverer v hold
        have hne' : v ≠ c.dest := fun heq => hfresh (heq ▸ hold)
        refine ⟨hin, hother, ?_⟩
        simp only [Function.update_of_ne hne']
        exact hcontains
    · intro f hf
      rcases List.mem_append.mp hf with hrelay | hold
      · obtain ⟨copy, hcopy, rfl⟩ := List.mem_map.mp hrelay
        obtain ⟨hlink, _, hhops, hdecoded⟩ := mem_relayCopies hcopy
        refine ⟨fun heq => hne (hlink.symm.trans heq), _, hdecoded, ?_⟩
        simp only [OverlayRouter.relayed]
        omega
      · exact h.forwarded f hold

/-! ## Every run is bounded -/

/-- The links of the nodes that are neither the source nor done. -/
def Topology.remaining (t : Topology) (source : NodeId) (done : List NodeId) : Nat :=
  ∑ v ∈ t.nodes with v ≠ source ∧ v ∉ done, (t.links v).length

theorem Topology.remaining_cons (t : Topology) {source v : NodeId} {done : List NodeId}
    (hv : v ∈ t.nodes) (hsource : v ≠ source) (hdone : v ∉ done) :
    t.remaining source (v :: done) + (t.links v).length = t.remaining source done := by
  have hmem : v ∈ t.nodes.filter fun u => u ≠ source ∧ u ∉ done := by
    simp only [Finset.mem_filter]
    exact ⟨hv, hsource, hdone⟩
  unfold Topology.remaining
  rw [← Finset.sum_erase_add _ _ hmem]
  congr 1
  apply Finset.sum_congr _ (fun _ _ => rfl)
  ext u
  simp only [Finset.mem_filter, Finset.mem_erase, List.mem_cons, not_or]
  tauto

theorem Topology.remaining_nil (t : Topology) {source : NodeId} (hsource : source ∈ t.nodes) :
    (t.links source).length + t.remaining source [] = ∑ v ∈ t.nodes, (t.links v).length := by
  have hfilter : (t.nodes.filter fun v => v ≠ source ∧ v ∉ ([] : List NodeId)) =
      t.nodes.erase source := by
    ext v
    simp only [List.not_mem_nil, not_false_eq_true, and_true, Finset.mem_filter, Finset.mem_erase]
    tauto
  unfold Topology.remaining
  rw [hfilter, Finset.add_sum_erase _ (fun v => (t.links v).length) hsource]

/-- The copies in flight and those the routers that have not delivered yet
can still send. -/
def Network.potential (t : Topology) (env : OverlayEnvelope) (net : Network) : Nat :=
  net.flight.length + t.remaining env.source net.delivered

theorem Flooding.potential_handle (h : Flooding w t env net) (hdest : env.dest = .broadcast)
    (hid : env.msgId ≠ 0) (hc : c ∈ net.flight)
    (hunexpired : Unexpired env (net.routers c.dest) now) :
    (net.handle w env c now).potential t env + 1 ≤ net.potential t env := by
  have herase := List.length_erase_of_mem hc
  have hpos := List.length_pos_of_mem hc
  obtain ⟨r', _, hcases⟩ := h.handle_cases hdest hid hc hunexpired
  obtain ⟨hnode, _, _⟩ := h.copies c hc
  rcases hcases with ⟨hnet, _, _⟩ | ⟨e, k, _, _, _, hnet, hne, hnew, _⟩
  · have hpot : (net.handle w env c now).potential t env =
        (net.flight.erase c).length + t.remaining env.source net.delivered := by
      rw [hnet]
      rfl
    rw [hpot, Network.potential]
    omega
  · have hfresh : c.dest ∉ net.delivered := by
      intro hmem
      have hcontains := (h.deliverer c.dest hmem).2.2
      rw [hnew] at hcontains
      cases hcontains
    -- The router leaves the sum with its whole degree and sends at most that.
    have hsum := t.remaining_cons hnode hne hfresh
    have hrelay := relayCopies_length w e c.dest c.link (t.links c.dest)
    have hpot : (net.handle w env c now).potential t env =
        (net.flight.erase c ++ relayCopies w e c.dest c.link (t.links c.dest)).length +
          t.remaining env.source (c.dest :: net.delivered) := by
      rw [hnet]
      rfl
    rw [hpot, Network.potential, List.length_append]
    omega

variable {net' : Network} {n : Nat} {routers : NodeId → OverlayRouter}

/-- A flood uses up its potential, a copy at a time. -/
theorem Flooding.run (h : Flooding w t env net) (hdest : env.dest = .broadcast)
    (hid : env.msgId ≠ 0) (hrun : Floods w env n net net') :
    Flooding w t env net' ∧ n + net'.potential t env ≤ net.potential t env := by
  induction hrun with
  | refl => exact ⟨h, by omega⟩
  | step _ c hc now hunexpired ih =>
    obtain ⟨hflood, hpaid⟩ := ih h
    have hstep := hflood.potential_handle hdest hid hc hunexpired
    exact ⟨hflood.handle hdest hid hc hunexpired, by omega⟩

theorem Floods.trans {m : Nat} {net'' : Network} (h : Floods w env n net net')
    (h' : Floods w env m net' net'') : Floods w env (n + m) net net'' := by
  induction h' with
  | refl => exact h
  | step _ c hc now hunexpired ih => exact .step (ih h) c hc now hunexpired

/-- A flood can be run until nothing is on the way. -/
theorem Flooding.drains (h : Flooding w t env net) (hdest : env.dest = .broadcast)
    (hid : env.msgId ≠ 0) : ∃ m net', Floods w env m net net' ∧ net'.flight = [] := by
  generalize hp : net.potential t env = p
  induction p using Nat.strong_induction_on generalizing net with
  | _ p ih =>
    cases hf : net.flight with
    | nil => exact ⟨0, net, .refl net, hf⟩
    | cons c rest =>
      have hc : c ∈ net.flight := hf ▸ List.mem_cons_self
      obtain ⟨hnode, _, _⟩ := h.copies c hc
      -- At instant zero nothing has expired.
      have hunexpired : Unexpired env (net.routers c.dest) 0 := by
        intro seenAt _
        have hlasting := (h.wired c.dest hnode).lasting
        have hzero : (0 : Instant) - seenAt = 0 := Nat.zero_sub seenAt
        rw [hzero]
        exact hlasting
      have hless := h.potential_handle hdest hid hc hunexpired
      obtain ⟨m, net', hrun, hempty⟩ :=
        ih _ (by omega) (h.handle hdest hid hc hunexpired) rfl
      exact ⟨_, net', Floods.trans (.step (.refl net) c hc 0 hunexpired) hrun, hempty⟩

/-- Injecting an envelope begins a flood. -/
theorem Flooding.inject (hsource : env.source ∈ t.nodes)
    (hwired : ∀ v ∈ t.nodes, Wired w v (t.links v) (routers v)) (hdata : w.serialize env = .ok data)
    (now : Instant) : Flooding w t env (Network.inject routers env data now) := by
  have hown := hwired env.source hsource
  have hremember : Wired w env.source (t.links env.source)
      ((routers env.source).rememberOutgoing env now) := by
    refine ⟨hown.localId, hown.strategies, hown.connected, ?_⟩
    show 0 < (OverlaySeenCache.checkAndInsert _ _ _ _).2.ttl
    unfold OverlaySeenCache.checkAndInsert
    split
    · exact hown.lasting
    · simp only
      split <;> exact hown.lasting
  refine ⟨wired_update hwired hremember, ?_, List.nodup_nil, ?_, ?_⟩
  · intro c hc
    obtain ⟨dest, hmem, rfl⟩ := List.mem_map.mp hc
    rw [hown.connected] at hmem
    exact ⟨t.closed _ hsource _ hmem, Or.inl rfl, env.hopCount, le_rfl, w.roundTrip hdata⟩
  · nofun
  · nofun

theorem Network.potential_inject (hsource : env.source ∈ t.nodes)
    (hwired : ∀ v ∈ t.nodes, Wired w v (t.links v) (routers v)) (data : Bytes) (now : Instant) :
    (Network.inject routers env data now).potential t env = ∑ v ∈ t.nodes, (t.links v).length := by
  have hown : (Network.inject routers env data now).flight.length = (t.links env.source).length := by
    simp only [Network.inject, List.length_map, (hwired env.source hsource).connected]
  rw [Network.potential, hown]
  exact t.remaining_nil hsource

/-- Flooding is at-most-once and ends. However the copies are handled, every
router delivers at most once, the source neither delivers nor forwards, a
copy sent on has one hop less than the one that triggered it, no run is
longer than the number of links, and every run can be brought to its end. -/
theorem flood_atMostOnce_terminates (w : Wire) (t : Topology) {env : OverlayEnvelope}
    (hsource : env.source ∈ t.nodes) (hdest : env.dest = .broadcast) (hid : env.msgId ≠ 0)
    {routers : NodeId → OverlayRouter}
    (hwired : ∀ v ∈ t.nodes, Wired w v (t.links v) (routers v)) {data : Bytes}
    (hdata : w.serialize env = .ok data) (now : Instant) {n : Nat} {net : Network}
    (hrun : Floods w env n (Network.inject routers env data now) net) :
    net.delivered.Nodup ∧ env.source ∉ net.delivered ∧
      (∀ f ∈ net.forwards, f.2.link ≠ env.source ∧
        ∃ e, w.deserialize f.2.data = some e ∧ f.1.hopCount = e.hopCount + 1) ∧
      n ≤ ∑ v ∈ t.nodes, (t.links v).length ∧
      ∃ m net', Floods w env m net net' ∧ net'.flight = [] := by
  have hstart := Flooding.inject hsource hwired hdata now
  obtain ⟨hflood, hpaid⟩ := hstart.run hdest hid hrun
  rw [Network.potential_inject hsource hwired] at hpaid
  refine ⟨hflood.once, ?_, hflood.forwarded, by omega, hflood.drains hdest hid⟩
  intro hmem
  exact (hflood.deliverer _ hmem).2.1 rfl

/-! ## How far a flood reaches -/

/-- A path from `source` to `v` over as many links as `way` has nodes: those the path leaves on its
way, the latest first. -/
inductive Topology.Path (t : Topology) (source : NodeId) : List NodeId → NodeId → Prop
  | source : Path t source [] source
  | link {way : List NodeId} {v u : NodeId} (path : Path t source way v) (hlink : u ∈ t.links v) :
      Path t source (v :: way) u

/-- What holds on the way when the id is new everywhere: a router that
remembers the envelope has delivered it, and whoever sent it, or delivered it
with hops left, has reached or is about to reach all its neighbours. -/
structure Covering (t : Topology) (env : OverlayEnvelope) (net : Network) : Prop where
  seen : ∀ v ∈ t.nodes, v ≠ env.source →
    (net.routers v).seenEnvelopes.entries.contains env.key → v ∈ net.delivered
  pending : ∀ v, (v = env.source ∨ ∃ e, (v, e) ∈ net.deliveries ∧ 0 < e.hopCount) →
    ∀ u ∈ t.links v, u = env.source ∨ u ∈ net.delivered ∨ ∃ c ∈ net.flight, c.dest = u

theorem relayCopies_reaches {self link u : NodeId} {neighbours : List NodeId}
    (hserialize : w.serialize (OverlayRouter.relayed e) = .ok data) (hhops : 0 < e.hopCount)
    (hu : u ∈ neighbours) (hlink : u ≠ link) (hself : u ≠ self) :
    ∃ c ∈ relayCopies w e self link neighbours, c.dest = u := by
  have hcopies : relayCopies w e self link neighbours =
      (neighbours.filter fun id => id ≠ link ∧ id ≠ self).map fun dest => ⟨self, dest, data⟩ := by
    unfold relayCopies
    rw [if_pos hhops, hserialize]
  refine ⟨⟨self, u, data⟩, ?_, rfl⟩
  rw [hcopies]
  apply List.mem_map_of_mem
  rw [List.mem_filter]
  exact ⟨hu, decide_eq_true ⟨hlink, hself⟩⟩

section

variable (hcover : Covering t env net) (h : Flooding w t env net) (hdest : env.dest = .broadcast)
  (hid : env.msgId ≠ 0)
  (hencodes : ∀ k ≤ env.hopCount, ∃ data, w.serialize { env with hopCount := k } = .ok data)
include hcover h hdest hid hencodes

theorem Covering.handle {c : Copy} (hc : c ∈ net.flight)
    (hunexpired : Unexpired env (net.routers c.dest) now) :
    Covering t env (net.handle w env c now) := by
  obtain ⟨r', _, hcases⟩ := h.handle_cases hdest hid hc hunexpired
  obtain ⟨hnode, hlink, _⟩ := h.copies c hc
  -- A copy other than the one handled is still in flight.
  have hstill : ∀ {u : NodeId} (c' : Copy), c' ∈ net.flight → c'.dest = u →
      u = c.dest ∨ ∃ c'' ∈ net.flight.erase c, c''.dest = u := by
    intro u c' hc' hu
    by_cases heq : c' = c
    · exact Or.inl (hu.symm.trans (congrArg Copy.dest heq))
    · exact Or.inr ⟨c', (List.mem_erase_of_ne heq).mpr hc', hu⟩
  rcases hcases with ⟨hnet, hwhy, hsame⟩ | ⟨e, k, hk, he, _, hnet, _, _, _⟩
  · have hdone : c.dest = env.source ∨ c.dest ∈ net.delivered := by
      rcases hwhy with hown | hcontains
      · exact Or.inl hown
      · by_cases hown : c.dest = env.source
        · exact Or.inl hown
        · exact Or.inr (hcover.seen _ hnode hown hcontains)
    rw [hnet]
    refine ⟨?_, ?_⟩
    · intro v hv hother hcontains
      by_cases heq : v = c.dest
      · subst heq
        rcases hdone with hown | hmem
        · exact absurd hown hother
        · exact hmem
      · simp only [Function.update_of_ne heq] at hcontains
        exact hcover.seen v hv hother hcontains
    · intro v hv u hu
      rcases hcover.pending v hv u hu with hown | hmem | ⟨c', hc', hto⟩
      · exact Or.inl hown
      · exact Or.inr (Or.inl hmem)
      · rcases hstill c' hc' hto with hhere | hflight
        · subst hhere
          exact hdone.imp_right Or.inl
        · exact Or.inr (Or.inr hflight)
  · rw [hnet]
    refine ⟨?_, ?_⟩
    · intro v hv hother hcontains
      by_cases heq : v = c.dest
      · subst heq
        exact List.mem_cons_self
      · simp only [Function.update_of_ne heq] at hcontains
        exact List.mem_cons_of_mem _ (hcover.seen v hv hother hcontains)
    · intro v hv u hu
      -- Neighbours of the router that delivers now, and of those before it.
      have hcase : (v = c.dest ∧ 0 < e.hopCount) ∨
          (v = env.source ∨ ∃ e, (v, e) ∈ net.deliveries ∧ 0 < e.hopCount) := by
        rcases hv with hown | ⟨e', hmem, hhops⟩
        · exact Or.inr (Or.inl hown)
        · rcases List.mem_cons.mp hmem with heq | hold
          · cases heq
            exact Or.inl ⟨rfl, hhops⟩
          · exact Or.inr (Or.inr ⟨e', hold, hhops⟩)
      rcases hcase with ⟨rfl, hhops⟩ | hold
      · by_cases hself : u = c.dest
        · subst hself
          exact Or.inr (Or.inl List.mem_cons_self)
        · by_cases hback : u = c.link
          · subst hback
            exact hlink.imp_right fun hmem => Or.inl (List.mem_cons_of_mem _ hmem)
          · obtain ⟨data, hdata⟩ := hencodes (k - 1) (by omega)
            have hrelayed : w.serialize (OverlayRouter.relayed e) = .ok data := by
              rw [he]
              exact hdata
            obtain ⟨c', hc', hto⟩ := relayCopies_reaches hrelayed hhops hu hback hself
            exact Or.inr (Or.inr ⟨c', List.mem_append_right _ hc', hto⟩)
      · rcases hcover.pending v hold u hu with hown | hmem | ⟨c', hc', hto⟩
        · exact Or.inl hown
        · exact Or.inr (Or.inl (List.mem_cons_of_mem _ hmem))
        · rcases hstill c' hc' hto with hhere | ⟨c'', hc'', hto'⟩
          · subst hhere
            exact Or.inr (Or.inl List.mem_cons_self)
          · exact Or.inr (Or.inr ⟨c'', List.mem_append_left _ hc'', hto'⟩)

/-- Every run keeps what is on the way covered. -/
theorem Covering.run (hrun : Floods w env n net net') : Covering t env net' := by
  induction hrun with
  | refl => exact hcover
  | step hrun' c hc now hunexpired ih =>
    exact (ih hcover h).handle (h.run hdest hid hrun').1 hdest hid hencodes hc hunexpired

end

/-- At its injection everything is covered. -/
theorem Covering.inject (hsource : env.source ∈ t.nodes)
    (hwired : ∀ v ∈ t.nodes, Wired w v (t.links v) (routers v))
    (hnew : ∀ v ∈ t.nodes, (routers v).seenEnvelopes.entries.get env.key = none) (data : Bytes)
    (now : Instant) : Covering t env (Network.inject routers env data now) := by
  refine ⟨?_, ?_⟩
  · intro v hv hother hcontains
    simp only [Network.inject, Function.update_of_ne hother] at hcontains
    obtain ⟨seenAt, hseen⟩ := Table.contains_iff.mp hcontains
    rw [hnew v hv] at hseen
    cases hseen
  · intro v hv u hu
    rcases hv with hown | ⟨e, hmem, _⟩
    · subst hown
      refine Or.inr (Or.inr ⟨⟨env.source, u, data⟩, ?_, rfl⟩)
      apply List.mem_map_of_mem
      rw [(hwired env.source hsource).connected]
      exact hu
    · cases hmem

/-- Coverage. Once no copy is in flight, a router that has not delivered is cut off on every path
from the source: the path passes a router that relayed nothing, since the copy it delivered had no
hops left. So the neighbours of the source always deliver. -/
theorem flood_coverage (w : Wire) (t : Topology) {env : OverlayEnvelope}
    (hsource : env.source ∈ t.nodes) (hdest : env.dest = .broadcast) (hid : env.msgId ≠ 0)
    (hencodes : ∀ k ≤ env.hopCount, ∃ data, w.serialize { env with hopCount := k } = .ok data)
    {routers : NodeId → OverlayRouter}
    (hwired : ∀ v ∈ t.nodes, Wired w v (t.links v) (routers v))
    (hnew : ∀ v ∈ t.nodes, (routers v).seenEnvelopes.entries.get env.key = none) {data : Bytes}
    (hdata : w.serialize env = .ok data) (now : Instant) {n : Nat} {net : Network}
    (hrun : Floods w env n (Network.inject routers env data now) net) (hended : net.flight = [])
    {way : List NodeId} {v : NodeId} (hpath : t.Path env.source way v) (hother : v ≠ env.source) :
    v ∈ net.delivered ∨
      ∃ u ∈ way, u ≠ env.source ∧ ∃ e, (u, e) ∈ net.deliveries ∧ e.hopCount = 0 := by
  have hcover := (Covering.inject hsource hwired hnew data now).run
    (Flooding.inject hsource hwired hdata now) hdest hid hencodes hrun
  -- Nothing is pending any more.
  have hreached : ∀ u, (u = env.source ∨ ∃ e, (u, e) ∈ net.deliveries ∧ 0 < e.hopCount) →
      ∀ x ∈ t.links u, x ≠ env.source → x ∈ net.delivered := by
    intro u hu x hx hne
    rcases hcover.pending u hu x hx with hown | hmem | ⟨c, hc, _⟩
    · exact absurd hown hne
    · exact hmem
    · rw [hended] at hc
      cases hc
  induction hpath with
  | source => exact absurd rfl hother
  | @link way v u path hlink ih =>
    by_cases hown : v = env.source
    · exact Or.inl (hreached v (Or.inl hown) u hlink hother)
    · rcases ih hown with hmem | ⟨x, hx, hstopped⟩
      · obtain ⟨⟨v', e⟩, hdelivered, rfl⟩ := List.mem_map.mp hmem
        by_cases hhops : 0 < e.hopCount
        · exact Or.inl (hreached v' (Or.inr ⟨e, hdelivered, hhops⟩) u hlink hother)
        · exact Or.inr ⟨v', List.mem_cons_self, hown, e, hdelivered, Nat.eq_zero_of_not_pos hhops⟩
      · exact Or.inr ⟨x, List.mem_cons_of_mem _ hx, hstopped⟩

end Runs

/-! ### Two ways round a triangle

The source `o` and its neighbours `a` and `b` form a triangle, and `c` hangs
on `b`. The flood starts with one hop. -/

namespace Triangle

def o : NodeId := ⟨"o"⟩
def a : NodeId := ⟨"a"⟩
def b : NodeId := ⟨"b"⟩
def c : NodeId := ⟨"c"⟩

def links (v : NodeId) : List NodeId :=
  if v = o then [a, b] else if v = a then [o, b] else if v = b then [o, a, c]
  else if v = c then [b] else []

def topology : Topology where
  nodes := {o, a, b, c}
  links := links
  closed := by decide
  symm := by decide

def env : OverlayEnvelope := OverlayEnvelope.new o .broadcast 7 1 (.raw [42])

/-- The two frames of the flood, told apart by their hops. -/
def wire : Wire := .ofFrames [(env, [1]), (OverlayRouter.relayed env, [0])] (by decide)

def routers (v : NodeId) : OverlayRouter :=
  (OverlayRouter.new v 1 ⟨false, false⟩ []).syncConnectedNodes (links v).reverse

def start : Network := Network.inject routers env [1] 0

theorem routers_wired : ∀ v ∈ topology.nodes, Wired wire v (topology.links v) (routers v) := by
  intro v hv
  have hconnected : ∀ u ∈ topology.nodes,
      (routers u).routingTable.connectedNodes = topology.links u := by decide
  refine ⟨rfl, ?_, hconnected v hv, (by decide : 0 < OVERLAY_SEEN_TTL)⟩
  nofun

/-- `b` handles the copy that came over `a` before the one from the source. -/
def detour : Network :=
  ((start.handle wire env ⟨o, a, [1]⟩ 1).handle wire env ⟨a, b, [0]⟩ 2).handle wire env
    ⟨o, b, [1]⟩ 3

theorem detour_run : Floods wire env 3 start detour :=
  .step (.step (.step (.refl start) ⟨o, a, [1]⟩ (by decide) 1 (by decide))
    ⟨a, b, [0]⟩ (by decide) 2 (by decide)) ⟨o, b, [1]⟩ (by decide) 3 (by decide)

theorem path_c : topology.Path o [b, o] c :=
  .link (.link .source (by decide : b ∈ topology.links o)) (by decide)

end Triangle

open Triangle in
/-- On the detour both routers deliver once and the run ends. -/
theorem flood_atMostOnce_terminates_detour :
    detour.delivered.Nodup ∧ o ∉ detour.delivered ∧ detour.delivered = [b, a] := by
  obtain ⟨honce, hsource, _⟩ := flood_atMostOnce_terminates wire topology
    (by decide) (rfl : env.dest = .broadcast) (by decide) routers_wired
    (by decide : wire.serialize env = .ok [1]) 0 detour_run
  exact ⟨honce, hsource, by decide⟩

open Triangle in
/-- After the detour nothing is in flight, and `c` at distance two of a flood
with one hop has not delivered. -/
theorem flood_detour_uncovered :
    (∀ v ∈ topology.nodes, Wired wire v (topology.links v) (routers v)) ∧
      Floods wire env 3 start detour ∧ detour.flight = [] ∧
      topology.Path env.source [b, o] c ∧ [b, o].length ≤ env.hopCount + 1 ∧
      c ∉ detour.delivered :=
  ⟨routers_wired, detour_run, by decide, path_c, by decide, by decide⟩

open Triangle in
/-- What the detour leaves of the coverage: `b` had no hops left. -/
theorem flood_coverage_detour :
    c ∈ detour.delivered ∨
      ∃ u ∈ [b, o], u ≠ o ∧ ∃ e, (u, e) ∈ detour.deliveries ∧ e.hopCount = 0 := by
  have hencodes : ∀ k ≤ env.hopCount,
      ∃ data, wire.serialize { env with hopCount := k } = .ok data := by
    intro k hk
    have hk' : k = 0 ∨ k = 1 := by
      have : env.hopCount = 1 := rfl
      omega
    rcases hk' with rfl | rfl
    · exact ⟨[0], by decide⟩
    · exact ⟨[1], by decide⟩
  exact flood_coverage wire topology (by decide) rfl (by decide) hencodes routers_wired (by decide)
    (by decide : wire.serialize env = .ok [1]) 0 detour_run (by decide) path_c (by decide)

end Mistlib.Overlay
