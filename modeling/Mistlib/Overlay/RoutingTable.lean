import Mistlib.Data.Table
import Mistlib.Types

/-!
# The routing table and the duplicate suppression

`RoutingTable` knows the directly connected nodes and, for nodes that are not
connected, the neighbour to go through. `TtlCache` remembers keys for a time;
the router keeps one of `(source, msgId)` pairs to drop copies it has seen.
-/

namespace Mistlib.Overlay

structure RoutingTable where
  connectedNodes : List NodeId
  routes : Table NodeId NodeId

namespace RoutingTable

def new : RoutingTable := { connectedNodes := [], routes := ∅ }

def onConnected (rt : RoutingTable) (id : NodeId) : RoutingTable :=
  { rt with connectedNodes := rt.connectedNodes.insert id }

def onDisconnected (rt : RoutingTable) (id : NodeId) : RoutingTable :=
  { connectedNodes := rt.connectedNodes.filter (· ≠ id)
    routes := rt.routes.retain fun target nextHop => target ≠ id ∧ nextHop ≠ id }

def addRoute (rt : RoutingTable) (target nextHop : NodeId) : RoutingTable :=
  if target = nextHop ∨ target ∈ rt.connectedNodes then rt
  else { rt with routes := rt.routes.insert target nextHop }

def removeRoute (rt : RoutingTable) (target : NodeId) : RoutingTable :=
  { rt with routes := rt.routes.erase target }

def getNextHop (rt : RoutingTable) (node : NodeId) : Option NodeId :=
  if node ∈ rt.connectedNodes then some node
  else (rt.routes.get node).filter (· ∈ rt.connectedNodes)

/-- Bring the connected set in line with a snapshot of the transport. -/
def syncConnectedNodes (rt : RoutingTable) (connected : List NodeId) : RoutingTable :=
  let previous := rt.connectedNodes
  let rt := connected.foldl onConnected rt
  previous.foldl (fun rt id => if id ∈ connected then rt else rt.onDisconnected id) rt

end RoutingTable

/-- Entries expire after `ttl`; past `maxEntries` the oldest goes. -/
structure TtlCache (K : Type) where
  ttl : Duration
  maxEntries : Nat
  entries : Table K Instant

namespace TtlCache

variable {K : Type}

def new (ttl : Duration) (maxEntries : Nat) : TtlCache K := { ttl, maxEntries, entries := ∅ }

/-- Remove the entries whose age has reached the time to live. -/
def sweep (c : TtlCache K) (now : Instant) : TtlCache K :=
  { c with entries := c.entries.retain fun _ insertedAt => decide (now - insertedAt < c.ttl) }

/-- Rounds of the eviction loop; each removes one entry, so as many rounds as
there are entries are enough. -/
def evictRounds [DecidableEq K] (maxEntries : Nat) : Nat → Table K Instant → Table K Instant
  | 0, t => t
  | rounds + 1, t =>
    if t.size ≥ maxEntries then
      match Table.minByKey id t.entries with
      | some e => evictRounds maxEntries rounds (t.erase e.1)
      | none => t
    else t

def evictOldestUntilBelowLimit [DecidableEq K] (c : TtlCache K) : TtlCache K :=
  { c with entries := evictRounds c.maxEntries c.entries.size c.entries }

end TtlCache

def OVERLAY_SEEN_TTL : Duration := Duration.fromSecs 30
def OVERLAY_SEEN_MAX_ENTRIES : Nat := 4096

abbrev OverlaySeenCache := TtlCache (NodeId × Nat)

/-- Whether the pair is new; a new pair is remembered. Id 0 is always new and
never remembered. -/
def OverlaySeenCache.checkAndInsert (c : OverlaySeenCache) (source : NodeId) (msgId : Nat)
    (now : Instant) : Bool × OverlaySeenCache :=
  if msgId = 0 then (true, c)
  else
    let c := TtlCache.sweep c now
    if c.entries.contains (source, msgId) then (false, c)
    else
      let c := TtlCache.evictOldestUntilBelowLimit c
      (true, { c with entries := c.entries.insert (source, msgId) now })

end Mistlib.Overlay
