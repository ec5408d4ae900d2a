import Mistlib.Signaling.DiscoveryTable

/-!
# Requests to discovered peers

What a node keeps of the `Request`s it sends to keys it has discovered, shared by both signalers.
`DiscoveryBootstrap` picks a few more keys than the ring would, `DiscoveryExchanges` holds one
reservation a key, with a budget of retries, and `DiscoveryOutbox` is the bounded queue that a
worker sends from at a steady pace.

An entry of `DiscoveryExchanges` goes away in `release` alone, if it was never retried and its
peer has not answered (`has_release`).
-/

namespace Mistlib.Signaling

def fromMillis (n : Nat) : Duration := n * 1000000

/-! ## The reservations -/

def MAX_RETRIES : Nat := 3
def MAX_SESSION_RETRIES : Nat := 12

/-- Whether a peer has refreshed its advertisement, and when it was last heard of. -/
abbrev Evidence := Bool × Nat

structure Exchange where
  next : Instant
  retries : Nat
  progressed : Bool
  queued : Bool
  evidence : Evidence
  firstAdvertisement : Option Nat
  capLogged : Bool
deriving DecidableEq, Repr

structure DiscoveryExchanges where
  peers : Table String Exchange
  retries : Nat
  sentRetries : Nat
deriving DecidableEq

def retryDelay (retries : Nat) : Duration := fromMillis (1500 <<< min retries 2)

/-- A refresh comes this many seconds after the first advertisement or the join. -/
def MIN_REFRESH_SPAN : Nat := 30

/-- Whether a peer that joined at a time, in milliseconds, has refreshed since. -/
def refreshedSince (createdAt : Nat) (joinedAt : Option Nat) : Bool :=
  joinedAt.any fun joined => decide (joined > 0 ∧ createdAt - joined / 1000 ≥ MIN_REFRESH_SPAN)

namespace DiscoveryExchanges

def new : DiscoveryExchanges := ⟨∅, 0, 0⟩

variable (x : DiscoveryExchanges)

/-- Reserve a first publish, or a retry that is due. -/
def request (pubkey : String) (now : Instant) : Bool × DiscoveryExchanges :=
  match x.peers.get pubkey with
  | some peer =>
    if peer.queued ∨ peer.progressed ∨ now < peer.next then (false, x)
    else if peer.retries ≥ MAX_RETRIES ∨ x.retries ≥ MAX_SESSION_RETRIES then
      (false, { x with peers := x.peers.insert pubkey { peer with capLogged := true } })
    else
      let retries := peer.retries + 1
      (true,
        { x with
          peers := x.peers.insert pubkey { peer with retries, next := now + retryDelay retries }
          retries := x.retries + 1 })
  | none =>
    (true,
      { x with
        peers := x.peers.insert pubkey
          { next := now + retryDelay 0
            retries := 0
            progressed := false
            queued := false
            evidence := (false, 0)
            firstAdvertisement := none
            capLogged := false } })

/-- How a retry ranks: the peer heard of last first, a refreshed one before others, and
then the one with the fewest retries. -/
structure Rank where
  latest : Nat
  refreshed : Bool
  retries : Nat
deriving DecidableEq

def Rank.before (a b : Rank) : Prop :=
  b.latest < a.latest ∨ b.latest = a.latest ∧
    (b.refreshed < a.refreshed ∨ b.refreshed = a.refreshed ∧ a.retries ≤ b.retries)
deriving Decidable

def rank (evidence : String → Evidence) (key : String) : Rank :=
  let hint := evidence key
  match x.peers.get key with
  | some peer => ⟨max peer.evidence.2 hint.2, peer.evidence.1 || hint.1, peer.retries⟩
  | none => ⟨hint.2, hint.1, 0⟩

/-- The loop of `poll_with_evidence`: the number of reservations left for higher-ranked
peers, and the keys whose retries are due. -/
def pollKeys (now : Instant) : List String → DiscoveryExchanges → Nat → List String →
    List String × DiscoveryExchanges
  | [], x, _, due => (due, x)
  | key :: keys, x, spared, due =>
    match x.peers.get key with
    | none => pollKeys now keys x spared due
    | some peer =>
      if peer.progressed ∨ peer.retries ≥ MAX_RETRIES then pollKeys now keys x spared due
      else if MAX_SESSION_RETRIES - x.retries ≤ spared then
        (due, if x.retries = MAX_SESSION_RETRIES then (x.request key now).2 else x)
      else
        let (reserved, x) := x.request key now
        if reserved then pollKeys now keys x spared (due ++ [key])
        else pollKeys now keys x (spared + 1) due

/-- The retries that are due. The keys of the `BTreeMap` come in their order. -/
def pollWithEvidence (now : Instant) (evidence : String → Evidence) :
    List String × DiscoveryExchanges :=
  let keys := x.peers.keys.insertionSort (· ≤ ·)
  let keys := keys.insertionSort fun a b => (x.rank evidence a).before (x.rank evidence b)
  pollKeys now keys x 0 []

def observeEvidence (pubkey : String) (evidence : Evidence) : DiscoveryExchanges :=
  { x with
    peers := x.peers.modify pubkey fun peer =>
      { peer with
        evidence := (peer.evidence.1 || evidence.1, max peer.evidence.2 evidence.2)
        firstAdvertisement :=
          if evidence.2 > 0 then some (peer.firstAdvertisement.getD evidence.2)
          else peer.firstAdvertisement } }

def observeAdvertisement (pubkey : String) (createdAt : Nat) (joinedAt : Option Nat) :
    DiscoveryExchanges :=
  { x with
    peers := x.peers.modify pubkey fun peer =>
      let first := min (peer.firstAdvertisement.getD createdAt) createdAt
      let latest := max peer.evidence.2 createdAt
      { peer with
        firstAdvertisement := some first
        evidence := (peer.evidence.1 || decide (latest - first ≥ MIN_REFRESH_SPAN) ||
          refreshedSince createdAt joinedAt, latest) } }

def queued (pubkey : String) : DiscoveryExchanges :=
  { x with peers := x.peers.modify pubkey fun peer => { peer with queued := true } }

/-- Count a retry that a relay has taken. -/
def logSent (pubkey : String) : DiscoveryExchanges :=
  match x.peers.get pubkey with
  | some peer => if peer.retries > 0 then { x with sentRetries := x.sentRetries + 1 } else x
  | none => x

def observeActivity (pubkey : String) (createdAt : Nat) : DiscoveryExchanges :=
  { x with
    peers := x.peers.modify pubkey fun peer =>
      let latest := max peer.evidence.2 createdAt
      { peer with
        evidence := (peer.evidence.1 || peer.firstAdvertisement.any fun first =>
          decide (latest - first ≥ MIN_REFRESH_SPAN), latest) } }

def sent (pubkey : String) (now : Instant) : DiscoveryExchanges :=
  { x with
    peers := x.peers.modify pubkey fun peer =>
      { peer with queued := false, next := now + retryDelay peer.retries } }

/-- Give a reservation back that was not sent. -/
def release (pubkey : String) (now : Instant) : DiscoveryExchanges :=
  match x.peers.get pubkey with
  | none => x
  | some peer =>
    if peer.retries = 0 ∧ ¬ peer.progressed then { x with peers := x.peers.erase pubkey }
    else
      { x with
        peers := x.peers.insert pubkey
          { peer with queued := false, retries := peer.retries - 1, next := now }
        retries := if peer.retries > 0 then x.retries - 1 else x.retries }

def progress (pubkey : String) (now : Instant) : DiscoveryExchanges :=
  { x with
    peers := match x.peers.get pubkey with
      | some peer => x.peers.insert pubkey { peer with progressed := true }
      | none => x.peers.insert pubkey
        { next := now
          retries := 0
          progressed := true
          queued := false
          evidence := (false, 0)
          firstAdvertisement := none
          capLogged := false } }

def pending (pubkey : String) : Bool := (x.peers.get pubkey).any fun peer => !peer.progressed

/-! ### Which peers have an entry -/

def Has (pubkey : String) : Prop := (x.peers.get pubkey).isSome
deriving Decidable

/-- `release` leaves an entry of the key, if there is one. -/
def Spares (pubkey : String) : Prop :=
  ∀ peer ∈ x.peers.get pubkey, peer.retries ≠ 0 ∨ peer.progressed = true
deriving Decidable

variable {x} {key pubkey : String} {now : Instant}

theorem has_insert {peers : Table String Exchange} {retries sentRetries : Nat} {peer : Exchange}
    (h : (peers.get key).isSome) :
    Has ⟨peers.insert pubkey peer, retries, sentRetries⟩ key := by
  rw [Has, Table.get_insert]
  split
  · rfl
  · exact h

theorem has_insert_self {peers : Table String Exchange} {retries sentRetries : Nat}
    {peer : Exchange} : Has ⟨peers.insert pubkey peer, retries, sentRetries⟩ pubkey := by
  rw [Has, Table.get_insert_self]
  rfl

theorem has_modify {f : Exchange → Exchange} :
    Has { x with peers := x.peers.modify pubkey f } key ↔ x.Has key := by
  rw [Has, Has, Table.get_modify]
  split
  · rw [Option.isSome_map]
  · rfl

theorem has_request (h : x.Has key) : (x.request pubkey now).2.Has key := by
  unfold request
  split
  · split
    · exact h
    · split
      · exact has_insert h
      · exact has_insert h
  · exact has_insert h

theorem has_requested (x : DiscoveryExchanges) (pubkey : String) (now : Instant) :
    (x.request pubkey now).2.Has pubkey := by
  unfold request
  split
  · next peer hget =>
    split
    · rw [Has, hget]
      rfl
    · split
      · exact has_insert_self
      · exact has_insert_self
  · exact has_insert_self

theorem has_logSent : (x.logSent pubkey).Has key ↔ x.Has key := by
  unfold logSent
  split
  · split <;> rfl
  · rfl

theorem has_progress (h : x.Has key) : (x.progress pubkey now).Has key := by
  unfold progress
  split
  · exact has_insert h
  · exact has_insert h

theorem has_release (hspares : x.Spares pubkey) (h : x.Has key) : (x.release pubkey now).Has key := by
  unfold release
  split
  · exact h
  · next peer hget =>
    split
    · next hfresh =>
      rcases hspares peer hget with hretried | hprogressed
      · exact absurd hfresh.1 hretried
      · exact absurd hprogressed hfresh.2
    · exact has_insert h

theorem spares_queued {evidence : Evidence} :
    ((x.observeEvidence pubkey evidence).queued pubkey).Spares key ↔ x.Spares key := by
  simp only [Spares, observeEvidence, queued, Table.get_modify]
  split
  · cases x.peers.get key with
    | none | some peer => simp
  · rfl

/-- What each request keeps, a poll of the keys keeps. -/
theorem pollKeys_keeps {P : DiscoveryExchanges → Prop} {keys : List String}
    (hrequest : ∀ key ∈ keys, ∀ x, P x → P (x.request key now).2) (spared : Nat) (due : List String) (h : P x) :
    P (pollKeys now keys x spared due).2 := by
  induction keys generalizing x spared due with
  | nil => exact h
  | cons next keys ih =>
    obtain ⟨hnext, hrest⟩ := List.forall_mem_cons.mp hrequest
    unfold pollKeys
    split
    · exact ih hrest _ _ h
    · split
      · exact ih hrest _ _ h
      · split
        · dsimp only
          split
          · exact hnext x h
          · exact h
        · dsimp only
          split
          · exact ih hrest _ _ (hnext x h)
          · exact ih hrest _ _ (hnext x h)

theorem has_pollKeys (keys : List String) (spared : Nat) (due : List String) (h : x.Has key) :
    (pollKeys now keys x spared due).2.Has key :=
  pollKeys_keeps (P := fun x => x.Has key) (fun _ _ _ => has_request) spared due h

theorem has_due (keys : List String) (spared : Nat) (due : List String)
    (h : ∀ key ∈ due, x.Has key) :
    ∀ key ∈ (pollKeys now keys x spared due).1, (pollKeys now keys x spared due).2.Has key := by
  induction keys generalizing x spared due with
  | nil => exact h
  | cons next keys ih =>
    unfold pollKeys
    split
    · exact ih _ _ h
    · split
      · exact ih _ _ h
      · split
        · intro key hkey
          dsimp only
          split
          · exact has_request (h key hkey)
          · exact h key hkey
        · dsimp only
          split
          · refine ih _ _ fun key hkey => ?_
            rcases List.mem_append.mp hkey with hkey | hkey
            · exact has_request (h key hkey)
            · rw [List.mem_singleton.mp hkey]
              exact has_requested x next now
          · exact ih _ _ fun key hkey => has_request (h key hkey)

theorem has_poll (evidence : String → Evidence) (h : x.Has key) :
    (x.pollWithEvidence now evidence).2.Has key := has_pollKeys _ _ _ h

theorem has_retries (x : DiscoveryExchanges) (now : Instant) (evidence : String → Evidence) :
    ∀ key ∈ (x.pollWithEvidence now evidence).1, (x.pollWithEvidence now evidence).2.Has key :=
  has_due _ _ _ nofun

end DiscoveryExchanges

/-! ## The outbox -/

def CAPACITY : Nat := 32
def DISCOVERY_INTERVAL : Duration := fromMillis 100

inductive DiscoveryPriority where
  | reply
  | probe
  | ordinary
deriving DecidableEq, Repr

/-- The order of the priorities: the first one goes first. -/
def DiscoveryPriority.order : DiscoveryPriority → Nat
  | .reply => 0
  | .probe => 1
  | .ordinary => 2

structure DiscoveryRequest where
  pubkey : String
  priority : DiscoveryPriority
  delay : Duration
  queuedAt : Instant
deriving DecidableEq, Repr

structure DiscoveryOutbox where
  queue : List DiscoveryRequest
  lastSend : Option Instant
  workerEpoch : Option Nat
deriving DecidableEq, Repr

namespace DiscoveryOutbox

def new : DiscoveryOutbox := ⟨[], none, none⟩

variable (o : DiscoveryOutbox)

/-- The first item of a key becomes a reply, if there is one. -/
def promoteReply (pubkey : String) : Bool × DiscoveryOutbox :=
  match o.queue.findIdx? fun item => decide (item.pubkey = pubkey) with
  | some i =>
    (true, { o with queue := o.queue.modify i fun item =>
      { item with priority := .reply, delay := 0 } })
  | none => (false, o)

def lowest : Nat := (o.queue.map fun item => item.priority.order).foldl max 0

/-- Queue a request. What it answers is the key whose request was put out for it, which
is its own where all others go first. -/
def push (pubkey : String) (priority : DiscoveryPriority) (delay : Duration) (now : Instant) :
    Option String × DiscoveryOutbox :=
  let item : DiscoveryRequest := ⟨pubkey, priority, delay, now⟩
  if o.queue.length = CAPACITY then
    if priority.order > o.lowest then (some pubkey, o)
    else
      let i := o.queue.findIdx fun item => decide (item.priority.order = o.lowest)
      ((o.queue[i]?).map DiscoveryRequest.pubkey, { o with queue := o.queue.eraseIdx i ++ [item] })
  else (none, { o with queue := o.queue ++ [item] })

/-- The first item with the best priority. -/
def nextIndex : Option Nat :=
  match o.queue with
  | [] => none
  | _ :: _ =>
    let best := (o.queue.map fun item => item.priority.order).foldl min 2
    some (o.queue.findIdx fun item => decide (item.priority.order = best))

/-- How long the next item has to wait; `none` where there is none. -/
def delay (now : Instant) : Option Duration :=
  (o.nextIndex.bind fun i => o.queue[i]?).map fun item =>
    let deadline :=
      if item.priority = .ordinary then
        o.lastSend.getD item.queuedAt + max item.delay DISCOVERY_INTERVAL
      else (o.lastSend.map fun last => last + DISCOVERY_INTERVAL).getD now
    deadline - now

def pop (now : Instant) : Option DiscoveryRequest × DiscoveryOutbox :=
  if o.delay now = some 0 then
    match o.nextIndex with
    | some i => (o.queue[i]?, { o with queue := o.queue.eraseIdx i, lastSend := some now })
    | none => (none, o)
  else (none, o)

def sent (now : Instant) : DiscoveryOutbox := { o with lastSend := some now }

def stopProbes : List String × DiscoveryOutbox :=
  ((o.queue.filter fun item => decide (item.priority = .probe)).map DiscoveryRequest.pubkey,
    { o with queue := o.queue.filter fun item => decide (item.priority ≠ .probe) })

def keys : List String := o.queue.map DiscoveryRequest.pubkey

variable {o} {key pubkey : String} {now : Instant}

theorem map_promoteReply {α : Type} {f : DiscoveryRequest → α}
    (hf : ∀ item : DiscoveryRequest, f { item with priority := .reply, delay := 0 } = f item)
    (o : DiscoveryOutbox) (pubkey : String) : (o.promoteReply pubkey).2.queue.map f = o.queue.map f := by
  unfold promoteReply
  split
  · refine List.ext_getElem? fun j => ?_
    simp only [List.getElem?_map, List.getElem?_modify, Option.map_eq_map, Option.map_map]
    refine congrArg (fun g => Option.map g o.queue[j]?) (funext fun item => ?_)
    rw [Function.comp_apply]
    split
    · exact hf item
    · rfl
  · rfl

theorem keys_promoteReply (o : DiscoveryOutbox) (pubkey : String) :
    (o.promoteReply pubkey).2.keys = o.keys := map_promoteReply (fun _ => rfl) o pubkey

theorem mem_of_promoteReply (h : (o.promoteReply pubkey).1 = true) : pubkey ∈ o.keys := by
  unfold promoteReply at h
  split at h
  · next i hfound =>
    obtain ⟨hlt, hkey, -⟩ := List.findIdx?_eq_some_iff_getElem.mp hfound
    exact List.mem_map.mpr ⟨_, List.getElem_mem hlt, of_decide_eq_true hkey⟩
  · cases h

theorem keys_push {priority : DiscoveryPriority} {delay : Duration}
    (h : key ∈ (o.push pubkey priority delay now).2.keys) : key ∈ o.keys ∨ key = pubkey := by
  simp only [push] at h
  split at h
  · split at h
    · exact .inl h
    · simp only [keys, List.map_append, List.mem_append, List.map_cons, List.map_nil,
        List.mem_singleton] at h
      refine h.imp_left fun h => ?_
      obtain ⟨item, hitem, hkey⟩ := List.mem_map.mp h
      exact List.mem_map.mpr ⟨item, List.mem_of_mem_eraseIdx hitem, hkey⟩
  · simpa [keys] using h

theorem keys_pop (h : key ∈ (o.pop now).2.keys) : key ∈ o.keys := by
  simp only [pop] at h
  split at h
  · split at h
    · obtain ⟨item, hitem, hkey⟩ := List.mem_map.mp h
      exact List.mem_map.mpr ⟨item, List.mem_of_mem_eraseIdx hitem, hkey⟩
    · exact h
  · exact h

theorem keys_stopProbes (h : key ∈ o.stopProbes.2.keys) : key ∈ o.keys := by
  obtain ⟨item, hitem, hkey⟩ := List.mem_map.mp h
  exact List.mem_map.mpr ⟨item, (List.mem_filter.mp hitem).1, hkey⟩

end DiscoveryOutbox

/-! ## The bootstrap -/

def INITIAL_DELAY : Duration := fromMillis 500
def MAX_ROUNDS : Nat := 2
def MAX_PROBES : Nat := 6
def TARGET_PEERS : Nat := 2

structure Advertisement where
  first : Nat
  latest : Nat
  refreshed : Bool
deriving DecidableEq, Repr

structure DiscoveryBootstrap where
  nextProbe : Option Instant
  rounds : Nat
  finished : Bool
  advertisements : Table String Advertisement
  probed : List String
deriving DecidableEq

namespace DiscoveryBootstrap

def new : DiscoveryBootstrap := ⟨none, 0, false, ∅, []⟩

variable (b : DiscoveryBootstrap)

def stop : DiscoveryBootstrap := { b with finished := true, advertisements := ∅ }

def observe (pubkey : String) (createdAt : Nat) (joinedAt : Option Nat) (now : Instant) :
    DiscoveryBootstrap :=
  if b.finished ∨ b.rounds ≥ MAX_ROUNDS then b
  else
    let ad := (b.advertisements.get pubkey).getD ⟨createdAt, createdAt, false⟩
    let first := min ad.first createdAt
    let latest := max ad.latest createdAt
    { b with
      nextProbe := some (b.nextProbe.getD (now + INITIAL_DELAY))
      advertisements := b.advertisements.insert pubkey
        { first, latest
          refreshed := ad.refreshed || refreshedSince createdAt joinedAt ||
            decide (latest - first ≥ MIN_REFRESH_SPAN) } }

def observeActivity (pubkey : String) (createdAt : Nat) : DiscoveryBootstrap :=
  if b.finished ∨ b.rounds ≥ MAX_ROUNDS then b
  else
    { b with
      advertisements := b.advertisements.modify pubkey fun ad =>
        let latest := max ad.latest createdAt
        { ad with
          latest
          refreshed := ad.refreshed || decide (latest - ad.first ≥ MIN_REFRESH_SPAN) } }

def evidence (pubkey : String) : Evidence :=
  ((b.advertisements.get pubkey).map fun ad => (ad.refreshed, ad.latest)).getD (false, 0)

/-- Whether the evidence of one key is at least that of the other. -/
def atLeast (a b : Evidence) : Prop := b.1 < a.1 ∨ b.1 = a.1 ∧ b.2 ≤ a.2
deriving Decidable

/-- The keys that are sent a `Request` in this round, with the swept table. -/
def poll (now : Instant) (unixSeconds : Nat) (table : DiscoveryTable)
    (localPubkey localRank : String) (requested : List String) (connected : Nat) :
    List String × DiscoveryBootstrap × DiscoveryTable :=
  let b := if connected ≥ TARGET_PEERS then b.stop else b
  if b.finished ∨ b.rounds ≥ MAX_ROUNDS then ([], b, table)
  else
    match b.nextProbe with
    | none => ([], b, table)
    | some deadline =>
      if now < deadline then ([], b, table)
      else
        let table := table.sweepExpired unixSeconds
        let (candidates, table) := table.responderPubkeysFor unixSeconds localPubkey localRank
          localPubkey localRank table.byPubkey.size
        let candidates := candidates.reverse.filter fun key =>
          !requested.contains key && !b.probed.contains key
        let advertisements := b.advertisements.retain fun key _ => table.byPubkey.contains key
        let b := { b with advertisements }
        let candidates := candidates.insertionSort fun left right =>
          atLeast (b.evidence left) (b.evidence right)
        let batch := if connected > 0 then 1 else if b.rounds = 0 then 4 else 2
        let candidates := candidates.take (min batch (MAX_PROBES - b.probed.length))
        let probed := b.probed ++ candidates
        let rounds := b.rounds + 1
        (candidates,
          { b with
            probed, rounds
            advertisements :=
              if rounds = MAX_ROUNDS then b.advertisements.retain fun key _ => probed.contains key
              else b.advertisements
            nextProbe := some (now + INITIAL_DELAY) },
          table)

end DiscoveryBootstrap

end Mistlib.Signaling
