import Mistlib.Signaling.NativeRequests

/-!
# Requested peers of the browser's signaler

The `WasmNostrSignaler` does what the native one does, in one thread and without awaits: an
event, a pass of `maintain_bootstrap`, and what a pacing worker does between two timeouts run
from their first step to their last before anything else does. A step of the model goes up to
the next `release`, so that what it gives back is read off the state before it.

The locks are left out, with the numbers of outgoing messages and what is sent.
-/

namespace Mistlib.Signaling.Wasm

open Native (NostrConfig Tables)

/-- What a pass of `maintain_bootstrap` has read first. -/
structure Pass where
  room : String
  identity : String
  connectedPeers : Nat
deriving DecidableEq, Repr

/-- What is left to do of the call that runs. -/
inductive Task where
  | idle
  /-- `queue_request`, and what follows it. -/
  | queueing (pubkey room : String) (priority : DiscoveryPriority) (after : Task)
  | advertising (event : String) (decoded : DecodedDiscovery)
  | releasing (dropped : List String)
  | retrying (pass : Pass) (retries : List String)
  | choosing (pass : Pass)
  | probing (pass : Pass) (candidates : List String)
deriving DecidableEq, Repr

inductive WorkerPhase where
  | starting
  | sleeping
  | returned
deriving DecidableEq, Repr

structure Worker where
  epoch : Nat
  room : String
  identity : String
  phase : WorkerPhase
deriving DecidableEq, Repr

structure WasmNostrSignaler where
  sessionEpoch : Nat
  roomId : Option String
  /-- `current_identity`. -/
  identity : String
  connectedPeers : Nat
  dedupe : DedupeCache
  peerSessions : Table String Nat
  tables : Tables
  outbox : DiscoveryOutbox
  running : Task
  workers : List Worker

inductive Input where
  /-- An event, and whether the channel of messages is closed. -/
  | event (id : String) (clock : Native.Clock) (closed : Bool)
  | maintain (connectedPeers : Nat) (clock : Native.Clock)
  /-- What runs goes on, with the delay that `queue_request` draws. -/
  | goOn (clock : Native.Clock) (delay : Duration)
  | work (worker : Nat) (clock : Native.Clock) (published : Bool)
deriving DecidableEq, Repr

namespace WasmNostrSignaler

variable (config : NostrConfig) (s : WasmNostrSignaler)

def new (roomId : Option String) : WasmNostrSignaler where
  sessionEpoch := 0
  roomId
  identity := config.publicKey
  connectedPeers := 0
  dedupe := .new config.dedupeTtl
  peerSessions := ∅
  tables :=
    { discoveryTable := .new
      bootstrap := .new
      exchanges := .new
      messageDedupe := .new config.dedupeTtl
      incomingSequences := ∅
      requestedPubkeys := [] }
  outbox := .new
  running := .idle
  workers := []

def withExchanges (exchanges : DiscoveryExchanges) : WasmNostrSignaler :=
  { s with tables := { s.tables with exchanges } }

def withTable (discoveryTable : DiscoveryTable) : WasmNostrSignaler :=
  { s with tables := { s.tables with discoveryTable } }

/-! ## process_event -/

def markSeenIfCurrent (event room : String) (now : Instant) : Bool × WasmNostrSignaler :=
  if s.roomId = some room then
    let (isNew, dedupe) := s.dedupe.checkAndInsert event now
    (isNew, { s with dedupe })
  else (false, s)

/-- A peer that joined again is requested again. -/
def noteSession (decoded : DecodedDiscovery) : WasmNostrSignaler :=
  match decoded.joinedAt with
  | none => s
  | some joinedAt =>
    let peerSessions := s.peerSessions.insert decoded.signalingPubkey joinedAt
    match s.peerSessions.get decoded.signalingPubkey with
    | some previous =>
      if joinedAt > previous then
        { s with
          peerSessions
          tables := { s.tables with
            requestedPubkeys := s.tables.requestedPubkeys.erase decoded.signalingPubkey
            incomingSequences := s.tables.incomingSequences.erase decoded.signalingPubkey } }
      else s
    | none => { s with peerSessions }

def processDiscovery (event room : String) (clock : Native.Clock) (decoded : DecodedDiscovery) :
    WasmNostrSignaler :=
  let (isNew, s) := s.markSeenIfCurrent event room clock.instant
  if isNew then
    let s := s.noteSession decoded
    let bootstrap := s.tables.bootstrap.observe decoded.signalingPubkey (config.createdAt event)
      decoded.joinedAt clock.instant
    let (shouldRequest, discoveryTable) := s.tables.discoveryTable.recordDiscoveryAndShouldRequest
      config.lib config.codec clock.unixSeconds clock.unixSeconds decoded room s.identity 2
    let s := { s with tables := { s.tables with bootstrap, discoveryTable } }
    if shouldRequest ∧ decoded.signalingPubkey ∉ s.tables.requestedPubkeys then
      let requestedPubkeys := s.tables.requestedPubkeys.insert decoded.signalingPubkey
      let (reserved, exchanges) := s.tables.exchanges.request decoded.signalingPubkey clock.instant
      { s with
        tables := { s.tables with requestedPubkeys, exchanges }
        running :=
          if reserved then
            .queueing decoded.signalingPubkey room .ordinary (.advertising event decoded)
          else .advertising event decoded }
    else { s with running := .advertising event decoded }
  else s

def purgePeerState (pubkey : String) (now : Instant) : WasmNostrSignaler :=
  { s with
    peerSessions := s.peerSessions.erase pubkey
    tables := { s.tables with
      exchanges := s.tables.exchanges.progress pubkey now
      requestedPubkeys := s.tables.requestedPubkeys.erase pubkey
      incomingSequences := s.tables.incomingSequences.erase pubkey } }

/-- The reply to a `Request` to everybody. -/
def reply (event room pubkey : String) (clock : Native.Clock) : WasmNostrSignaler :=
  let requestedPubkeys := s.tables.requestedPubkeys.insert pubkey
  let s := { s with tables := { s.tables with requestedPubkeys } }
  let (promoted, outbox) := s.outbox.promoteReply pubkey
  if promoted then { s with outbox }
  else
    let (reserved, exchanges) := s.tables.exchanges.request pubkey clock.instant
    if reserved then
      { s.withExchanges (exchanges.observeActivity pubkey (config.createdAt event)) with
        running := .queueing pubkey room .reply .idle }
    else s.withExchanges exchanges

/-- What a message that was accepted changes. The channel may be closed. -/
def applyMessage (event room : String) (clock : Native.Clock) (decoded : DecodedMessage)
    (reboundFrom : Option String) (closed : Bool) : WasmNostrSignaler :=
  let s := s.withExchanges
    (s.tables.exchanges.observeActivity decoded.senderPubkey (config.createdAt event))
  let s :=
    if Native.NostrSignaler.negotiates decoded.data.signalingType then
      s.withExchanges (s.tables.exchanges.progress decoded.senderPubkey clock.instant)
    else s
  let s :=
    match reboundFrom with
    | some previousPubkey => s.purgePeerState previousPubkey clock.instant
    | none => s
  if closed ∨ s.roomId ≠ some room then s
  else if decoded.data.signalingType = .request ∧ decoded.data.receiverId.isBroadcast then
    s.reply config event room decoded.senderPubkey clock
  else s

/-- A message for us, up to the binding of its node. -/
def processDecoded (event room : String) (clock : Native.Clock) (decoded : DecodedMessage)
    (closed : Bool) : WasmNostrSignaler :=
  let (isNew, s) := s.markSeenIfCurrent event room clock.instant
  if isNew ∧ ¬ decoded.data.signalingType.isLocalOnly then
    let wasRequested := s.tables.requestedPubkeys.contains decoded.senderPubkey
    let (admitted, discoveryTable) := s.tables.discoveryTable.admitsSender clock.unixSeconds
      wasRequested decoded.senderPubkey decoded.data decoded.senderJoinedAt
    let s := s.withTable discoveryTable
    if admitted then
      let (acceptance, messageDedupe, incomingSequences) := acceptMessageOrder
        s.tables.messageDedupe s.tables.incomingSequences decoded.senderPubkey decoded.messageId
        decoded.sequence clock.instant
      let s := { s with tables := { s.tables with messageDedupe, incomingSequences } }
      if acceptance.isAccepted then
        let (bound, discoveryTable) := s.tables.discoveryTable.bindNodeWithEpoch clock.unixSeconds
          decoded.data.senderId decoded.senderPubkey decoded.expiresAt
          (config.codec.topologyRank config.lib room decoded.senderPubkey) decoded.senderJoinedAt
          (wasRequested && decide (decoded.data.signalingType = .request))
        match bound with
        | .error _ => s.withTable discoveryTable
        | .ok outcome =>
          (s.withTable (discoveryTable.touchNode clock.unixSeconds decoded.data.senderId
            config.codec.ttlSeconds)).applyMessage config event room clock decoded
              outcome.reboundFrom closed
      else s
    else s
  else s

def processMessageEvent (event room : String) (clock : Native.Clock) (closed : Bool) :
    WasmNostrSignaler :=
  match config.decodeMessage clock.unixSeconds s.identity event room with
  | .message decoded => s.processDecoded config event room clock decoded closed
  | .mailbox =>
    let createdAt := config.createdAt event
    let bootstrap := s.tables.bootstrap.observeActivity (config.author event) createdAt
    let exchanges := s.tables.exchanges.observeActivity (config.author event) createdAt
    let s := { s with tables := { s.tables with bootstrap, exchanges } }
    (s.markSeenIfCurrent event room clock.instant).2
  | .otherReceiver => (s.markSeenIfCurrent event room clock.instant).2
  | .malformed => s

def processEvent (event : String) (clock : Native.Clock) (closed : Bool) : WasmNostrSignaler :=
  if config.author event = s.identity then s
  else
    match s.roomId with
    | none => s
    | some room =>
      match config.kind event with
      | .discovery =>
        match config.decodeDiscovery clock.unixSeconds event room with
        | some decoded => s.processDiscovery config event room clock decoded
        | none => s
      | .message => s.processMessageEvent config event room clock closed
      | .other => s

/-! ## maintain_bootstrap and queue_request -/

def maintainBootstrap (connectedPeers : Nat) (clock : Native.Clock) : WasmNostrSignaler :=
  let s := { s with connectedPeers }
  match s.roomId with
  | none => s
  | some room =>
    if connectedPeers ≥ TARGET_PEERS then
      let (dropped, outbox) := s.outbox.stopProbes
      { s with
        outbox
        tables := { s.tables with bootstrap := s.tables.bootstrap.stop }
        running := .releasing dropped }
    else
      let (retries, exchanges) := s.tables.exchanges.pollWithEvidence clock.instant
        s.tables.bootstrap.evidence
      { s.withExchanges exchanges with running := .retrying ⟨room, s.identity, connectedPeers⟩ retries }

/-- `queue_request`, and what runs after it. -/
def queueRequest (pubkey room : String) (priority : DiscoveryPriority) (clock : Native.Clock)
    (delay : Duration) (after : Task) : WasmNostrSignaler :=
  let exchanges := (s.tables.exchanges.observeEvidence pubkey
    (s.tables.bootstrap.evidence pubkey)).queued pubkey
  let (dropped, outbox) := s.outbox.push pubkey priority delay clock.instant
  let exchanges := match dropped with
    | some pubkey => exchanges.release pubkey clock.instant
    | none => exchanges
  let s := s.withExchanges exchanges
  if outbox.workerEpoch.isSome then { s with outbox, running := after }
  else
    let worker : Worker := ⟨s.sessionEpoch, room, s.identity, .starting⟩
    { s with
      outbox := { outbox with workerEpoch := some s.sessionEpoch }
      running := after
      workers := s.workers ++ [worker] }

def goOn (clock : Native.Clock) (delay : Duration) : Option WasmNostrSignaler :=
  match s.running with
  | .idle => none
  | .queueing pubkey room priority after =>
    some (s.queueRequest pubkey room priority clock delay after)
  | .advertising event decoded =>
    some { s.withExchanges (s.tables.exchanges.observeAdvertisement decoded.signalingPubkey
      (config.createdAt event) decoded.joinedAt) with running := .idle }
  | .releasing [] => some { s with running := .idle }
  | .releasing (pubkey :: dropped) =>
    some { s.withExchanges (s.tables.exchanges.release pubkey clock.instant) with
      running := .releasing dropped }
  | .retrying pass [] => some { s with running := .choosing pass }
  | .retrying pass (pubkey :: retries) =>
    some { s with running := .queueing pubkey pass.room .probe (.retrying pass retries) }
  | .choosing pass =>
    let (candidates, bootstrap, discoveryTable) := s.tables.bootstrap.poll clock.instant
      clock.unixSeconds s.tables.discoveryTable pass.identity
      (config.codec.topologyRank config.lib pass.room pass.identity) s.tables.requestedPubkeys
      pass.connectedPeers
    let requestedPubkeys := s.tables.requestedPubkeys.union candidates
    some { s with
      tables := { s.tables with bootstrap, discoveryTable, requestedPubkeys }
      running := .probing pass candidates }
  | .probing _ [] => some { s with running := .idle }
  | .probing pass (pubkey :: candidates) =>
    if s.roomId = some pass.room ∧ s.identity = pass.identity then
      let (reserved, exchanges) := s.tables.exchanges.request pubkey clock.instant
      some { s.withExchanges exchanges with
        running :=
          if reserved then .queueing pubkey pass.room .probe (.probing pass candidates)
          else .probing pass candidates }
    else some { s with running := .idle }

/-! ## The pacing worker -/

/-- The head of the loop, up to its timeout. -/
def pace (w : Worker) (clock : Native.Clock) : WasmNostrSignaler × WorkerPhase :=
  if s.sessionEpoch = w.epoch then
    match s.outbox.delay clock.instant with
    | some _ => (s, .sleeping)
    | none => ({ s with outbox := { s.outbox with workerEpoch := none } }, .returned)
  else (s, .returned)

/-- What a worker does with the item that it has popped. -/
def send (item : DiscoveryRequest) (clock : Native.Clock) (published : Bool) : WasmNostrSignaler :=
  if item.priority = .probe ∧ s.connectedPeers ≥ TARGET_PEERS then
    s.withExchanges (s.tables.exchanges.release item.pubkey clock.instant)
  else if s.tables.exchanges.pending item.pubkey then
    let exchanges := if published then s.tables.exchanges.logSent item.pubkey else s.tables.exchanges
    { s.withExchanges (exchanges.sent item.pubkey clock.instant) with
      outbox := s.outbox.sent clock.instant }
  else s

def work (w : Worker) (clock : Native.Clock) (published : Bool) :
    WorkerPhase → Option (WasmNostrSignaler × WorkerPhase)
  | .starting => some (s.pace w clock)
  | .sleeping =>
    if s.sessionEpoch = w.epoch ∧ s.roomId = some w.room ∧ s.identity = w.identity then
      match s.outbox.pop clock.instant with
      | (some item, outbox) =>
        some (({ s with outbox } : WasmNostrSignaler).send item clock published |>.pace w clock)
      | (none, outbox) => some (({ s with outbox } : WasmNostrSignaler).pace w clock)
    else some (s, .returned)
  | .returned => none

def step : Input → Option WasmNostrSignaler
  | .event id clock closed =>
    if s.running = .idle then some (s.processEvent config id clock closed) else none
  | .maintain connectedPeers clock =>
    if s.running = .idle then some (s.maintainBootstrap connectedPeers clock) else none
  | .goOn clock delay => s.goOn config clock delay
  | .work i clock published =>
    if s.running = .idle then
      s.workers[i]?.bind fun w =>
        (s.work w clock published w.phase).map fun (after, phase) =>
          { after with workers := after.workers.set i { w with phase } }
    else none

/-! ## What is owed and what is given back -/

def Has (pubkey : String) : Prop := s.tables.exchanges.Has pubkey
deriving Decidable

end WasmNostrSignaler

/-- The keys that are marked as requested and have yet to be reserved. -/
def Task.owed : Task → List String
  | .probing _ candidates => candidates
  | .queueing _ _ _ after => after.owed
  | _ => []

/-- The keys that are reserved and are about to be queued. -/
def Task.reserved : Task → List String
  | .queueing pubkey _ _ after => pubkey :: after.reserved
  | .retrying _ retries => retries
  | _ => []

def Task.pass : Task → Option Pass
  | .retrying pass _ | .choosing pass | .probing pass _ => some pass
  | .queueing _ _ _ after => after.pass
  | _ => none

namespace WasmNostrSignaler

variable (config : NostrConfig) (s : WasmNostrSignaler)

/-- The key that goes back when what runs goes on. -/
def releases (clock : Native.Clock) (delay : Duration) : Task → Option String
  | .releasing (pubkey :: _) => some pubkey
  | .queueing pubkey _ priority _ => (s.outbox.push pubkey priority delay clock.instant).1
  | _ => none

/-- The key that goes back when a worker wakes up. -/
def wakes (clock : Native.Clock) (w : Worker) : Option String :=
  if w.phase = .sleeping ∧ s.sessionEpoch = w.epoch ∧ s.roomId = some w.room ∧
      s.identity = w.identity ∧ s.connectedPeers ≥ TARGET_PEERS then
    ((s.outbox.pop clock.instant).1.filter fun item => decide (item.priority = .probe)).map
      DiscoveryRequest.pubkey
  else none

/-- No step gives a reservation back that was never retried and whose peer has not
answered. -/
def Faithful : Input → Prop
  | .goOn clock delay => ∀ pubkey ∈ s.releases clock delay s.running,
    s.tables.exchanges.Spares pubkey
  | .work i clock _ => ∀ w ∈ s.workers[i]?, ∀ pubkey ∈ s.wakes clock w,
    s.tables.exchanges.Spares pubkey
  | _ => True

instance : DecidablePred s.Faithful
  | .goOn clock delay => inferInstanceAs (Decidable (∀ pubkey ∈ s.releases clock delay s.running, _))
  | .work i _ _ => inferInstanceAs (Decidable (∀ w ∈ s.workers[i]?, _))
  | .event _ _ _ | .maintain _ _ => .isTrue trivial

/-- A session begins: nothing is requested or queued, and nothing runs. -/
structure Begins : Prop where
  running : s.running = .idle
  queue : s.outbox.queue = []
  requested : s.tables.requestedPubkeys = []

def KeepsRequests : Prop := ∀ pubkey ∈ s.tables.requestedPubkeys, s.Has pubkey
deriving Decidable

/-- Whatever is queued or about to be has an entry, and so has whatever is requested, or
what runs has yet to reserve it. -/
structure Kept : Prop where
  queued : ∀ key ∈ s.outbox.keys, s.Has key
  reserved : ∀ key ∈ s.running.reserved, s.Has key
  requested : ∀ key ∈ s.tables.requestedPubkeys, s.Has key ∨ key ∈ s.running.owed
  pass : ∀ pass ∈ s.running.pass, s.roomId = some pass.room ∧ s.identity = pass.identity

variable {config} {s} {s' : WasmNostrSignaler} {clock : Native.Clock} {delay : Duration}

theorem Begins.kept (h : s.Begins) : s.Kept where
  queued := by simp [DiscoveryOutbox.keys, h.queue]
  reserved := by simp [h.running, Task.reserved]
  requested := by simp [h.requested]
  pass := by simp [h.running, Task.pass]

/-- When nothing runs every request has its entry. -/
theorem Kept.keepsRequests (h : s.Kept) (hidle : s.running = .idle) : s.KeepsRequests := by
  intro key hkey
  refine (h.requested key hkey).resolve_right ?_
  rw [hidle]
  exact List.not_mem_nil

/-! ## What an event does -/

/-- What happens of an event before a key is requested for it. -/
structure Calm (s s' : WasmNostrSignaler) : Prop where
  marks : s'.tables.requestedPubkeys ⊆ s.tables.requestedPubkeys
  keeps : ∀ key, s.Has key → s'.Has key
  outbox : s'.outbox = s.outbox
  running : s'.running = s.running

theorem Calm.refl (s : WasmNostrSignaler) : Calm s s :=
  ⟨List.Subset.refl _, fun _ h => h, rfl, rfl⟩

theorem Calm.trans {s'' : WasmNostrSignaler} (h : Calm s s') (h' : Calm s' s'') : Calm s s'' :=
  ⟨List.Subset.trans h'.marks h.marks, fun key hkey => h'.keeps key (h.keeps key hkey),
    h'.outbox.trans h.outbox, h'.running.trans h.running⟩

theorem Kept.calm (h : s.Kept) (hcalm : Calm s s') (hidle : s.running = .idle) : s'.Kept := by
  have hidle' : s'.running = .idle := hcalm.running.trans hidle
  refine ⟨fun key hkey => ?_, fun key hkey => ?_, fun key hkey => .inl ?_, fun pass hpass => ?_⟩
  · rw [hcalm.outbox] at hkey
    exact hcalm.keeps key (h.queued key hkey)
  · rw [hidle'] at hkey
    cases hkey
  · exact hcalm.keeps key (h.keepsRequests hidle key (hcalm.marks hkey))
  · rw [hidle'] at hpass
    cases hpass

theorem calm_exchanges {exchanges : DiscoveryExchanges}
    (h : ∀ key, s.Has key → exchanges.Has key) : Calm s (s.withExchanges exchanges) :=
  ⟨List.Subset.refl _, h, rfl, rfl⟩

variable (event room : String)

theorem calm_markSeenIfCurrent (now : Instant) : Calm s (s.markSeenIfCurrent event room now).2 := by
  unfold markSeenIfCurrent
  split
  · exact ⟨List.Subset.refl _, fun _ h => h, rfl, rfl⟩
  · exact .refl s

theorem calm_noteSession (decoded : DecodedDiscovery) : Calm s (s.noteSession decoded) := by
  unfold noteSession
  split
  · exact .refl s
  · dsimp only
    split
    · split
      · exact ⟨List.erase_subset, fun _ h => h, rfl, rfl⟩
      · exact .refl s
    · exact ⟨List.Subset.refl _, fun _ h => h, rfl, rfl⟩

theorem calm_purgePeerState (pubkey : String) (now : Instant) :
    Calm s (s.purgePeerState pubkey now) :=
  ⟨List.erase_subset, fun _ h => DiscoveryExchanges.has_progress h, rfl, rfl⟩

theorem kept_processDiscovery (decoded : DecodedDiscovery) (h : s.Kept) (hidle : s.running = .idle) :
    (s.processDiscovery config event room clock decoded).Kept := by
  have hseen := calm_markSeenIfCurrent (s := s) event room clock.instant
  unfold processDiscovery
  dsimp only
  split
  · have hnoted := hseen.trans (calm_noteSession decoded)
    generalize (s.markSeenIfCurrent event room clock.instant).2.noteSession decoded = t at hnoted ⊢
    generalize t.tables.discoveryTable.recordDiscoveryAndShouldRequest config.lib config.codec
      clock.unixSeconds clock.unixSeconds decoded room t.identity 2 = recorded
    have hkept := h.calm hnoted hidle
    have howed := hkept.keepsRequests (hnoted.running.trans hidle)
    split
    · have hself := DiscoveryExchanges.has_requested t.tables.exchanges decoded.signalingPubkey
        clock.instant
      refine ⟨fun key hkey => DiscoveryExchanges.has_request (hkept.queued key hkey),
        fun key hkey => ?_, fun key hkey => .inl ?_, fun pass hpass => ?_⟩
      · dsimp only at hkey
        split at hkey
        · rw [List.mem_singleton.mp hkey]
          exact hself
        · cases hkey
      · rcases List.mem_insert_iff.mp hkey with rfl | hkey
        · exact hself
        · exact DiscoveryExchanges.has_request (howed key hkey)
      · dsimp only at hpass
        split at hpass
        · cases hpass
        · cases hpass
    · exact ⟨hkept.queued, nofun,
        fun key hkey => .inl (howed key hkey), nofun⟩
  · exact h.calm hseen hidle

theorem kept_reply (event room pubkey : String) (h : s.Kept) (hidle : s.running = .idle) :
    (s.reply config event room pubkey clock).Kept := by
  have howed := h.keepsRequests hidle
  have hidlePass (pass : Pass) (hpass : pass ∈ s.running.pass) : False := by
    rw [hidle] at hpass
    cases hpass
  unfold reply
  dsimp only
  split
  · next hpromoted =>
    refine ⟨fun key hkey => h.queued key ?_, h.reserved, fun key hkey => .inl ?_, h.pass⟩
    · rw [← DiscoveryOutbox.keys_promoteReply s.outbox pubkey]
      exact hkey
    · rcases List.mem_insert_iff.mp hkey with rfl | hkey
      · exact h.queued _ (DiscoveryOutbox.mem_of_promoteReply hpromoted)
      · exact howed key hkey
  · have hself := DiscoveryExchanges.has_requested s.tables.exchanges pubkey clock.instant
    have hmarked (key : String) (hkey : key ∈ s.tables.requestedPubkeys.insert pubkey) :
        (s.tables.exchanges.request pubkey clock.instant).2.Has key := by
      rcases List.mem_insert_iff.mp hkey with rfl | hkey
      · exact hself
      · exact DiscoveryExchanges.has_request (howed key hkey)
    split
    · refine ⟨fun key hkey => ?_, fun key hkey => ?_, fun key hkey => .inl ?_, nofun⟩
      · exact DiscoveryExchanges.has_modify.mpr
          (DiscoveryExchanges.has_request (h.queued key hkey))
      · rw [List.mem_singleton.mp hkey]
        exact DiscoveryExchanges.has_modify.mpr hself
      · exact DiscoveryExchanges.has_modify.mpr (hmarked key hkey)
    · refine ⟨fun key hkey => DiscoveryExchanges.has_request (h.queued key hkey),
        fun key hkey => DiscoveryExchanges.has_request (h.reserved key hkey),
        fun key hkey => .inl (hmarked key hkey), fun pass hpass => (hidlePass pass hpass).elim⟩

theorem kept_applyMessage (decoded : DecodedMessage) (reboundFrom : Option String) (closed : Bool)
    (h : s.Kept) (hidle : s.running = .idle) :
    (s.applyMessage config event room clock decoded reboundFrom closed).Kept := by
  have hactive : Calm s (s.withExchanges
      (s.tables.exchanges.observeActivity decoded.senderPubkey (config.createdAt event))) :=
    calm_exchanges fun _ h => DiscoveryExchanges.has_modify.mpr h
  unfold applyMessage
  dsimp only
  generalize s.withExchanges
    (s.tables.exchanges.observeActivity decoded.senderPubkey (config.createdAt event)) = t
    at hactive ⊢
  have hprogress : Calm s (if Native.NostrSignaler.negotiates decoded.data.signalingType = true then
      t.withExchanges (t.tables.exchanges.progress decoded.senderPubkey clock.instant) else t) := by
    split
    · exact hactive.trans (calm_exchanges fun _ h => DiscoveryExchanges.has_progress h)
    · exact hactive
  generalize (if Native.NostrSignaler.negotiates decoded.data.signalingType = true then
      t.withExchanges (t.tables.exchanges.progress decoded.senderPubkey clock.instant) else t) = u
    at hprogress ⊢
  have hpurged : Calm s (match reboundFrom with
      | some previousPubkey => u.purgePeerState previousPubkey clock.instant
      | none => u) := by
    split
    · exact hprogress.trans (calm_purgePeerState _ _)
    · exact hprogress
  generalize (match reboundFrom with
      | some previousPubkey => u.purgePeerState previousPubkey clock.instant
      | none => u) = v at hpurged ⊢
  have hkept := h.calm hpurged hidle
  split
  · exact hkept
  · split
    · exact kept_reply event room decoded.senderPubkey hkept (hpurged.running.trans hidle)
    · exact hkept

theorem kept_processDecoded (decoded : DecodedMessage) (closed : Bool) (h : s.Kept)
    (hidle : s.running = .idle) :
    (s.processDecoded config event room clock decoded closed).Kept := by
  have hseen := calm_markSeenIfCurrent (s := s) event room clock.instant
  unfold processDecoded
  dsimp only
  generalize (s.markSeenIfCurrent event room clock.instant).2 = t at hseen ⊢
  have hother (tables : Tables) (hrequested : tables.requestedPubkeys = t.tables.requestedPubkeys)
      (hexchanges : tables.exchanges = t.tables.exchanges) :
      Calm s { t with tables } := by
    refine hseen.trans ⟨?_, fun key hkey => ?_, rfl, rfl⟩
    · dsimp only
      rw [hrequested]
      exact List.Subset.refl _
    · unfold Has
      dsimp only
      rw [hexchanges]
      exact hkey
  split
  · split
    · split
      · split
        · exact h.calm (hother _ rfl rfl) hidle
        · exact kept_applyMessage event room decoded _ closed (h.calm (hother _ rfl rfl) hidle)
            (hseen.running.trans hidle)
      · exact h.calm (hother _ rfl rfl) hidle
    · exact h.calm (hother _ rfl rfl) hidle
  · exact h.calm hseen hidle

theorem kept_processEvent (event : String) (closed : Bool) (h : s.Kept)
    (hidle : s.running = .idle) : (s.processEvent config event clock closed).Kept := by
  unfold processEvent
  split
  · exact h
  · split
    · exact h
    · next room _ =>
      split
      · split
        · exact kept_processDiscovery event room _ h hidle
        · exact h
      · unfold processMessageEvent
        split
        · exact kept_processDecoded event room _ closed h hidle
        · have hactive : Calm s { s with tables := { s.tables with
              bootstrap := s.tables.bootstrap.observeActivity (config.author event)
                (config.createdAt event)
              exchanges := s.tables.exchanges.observeActivity (config.author event)
                (config.createdAt event) } } :=
            ⟨List.Subset.refl _, fun _ h => DiscoveryExchanges.has_modify.mpr h, rfl, rfl⟩
          exact h.calm (hactive.trans (calm_markSeenIfCurrent event room clock.instant)) hidle
        · exact h.calm (calm_markSeenIfCurrent event room clock.instant) hidle
        · exact h
      · exact h

/-! ## What a pass and a worker do -/

theorem kept_maintainBootstrap (connectedPeers : Nat) (h : s.Kept) (hidle : s.running = .idle) :
    (s.maintainBootstrap connectedPeers clock).Kept := by
  have howed := h.keepsRequests hidle
  unfold maintainBootstrap
  dsimp only
  split
  · exact { h with }
  · next room hroom =>
    split
    · exact ⟨fun key hkey => h.queued key (DiscoveryOutbox.keys_stopProbes hkey), nofun,
        fun key hkey => .inl (howed key hkey), nofun⟩
    · refine ⟨fun key hkey => DiscoveryExchanges.has_poll _ (h.queued key hkey),
        fun key hkey => DiscoveryExchanges.has_retries _ _ _ key hkey,
        fun key hkey => .inl (DiscoveryExchanges.has_poll _ (howed key hkey)), fun pass hpass => ?_⟩
      cases hpass
      exact ⟨hroom, rfl⟩

theorem kept_queueRequest {pubkey room : String} {priority : DiscoveryPriority} {after : Task}
    (h : s.Kept) (hrunning : s.running = .queueing pubkey room priority after)
    (hspares : ∀ key ∈ s.releases clock delay s.running, s.tables.exchanges.Spares key) :
    (s.queueRequest pubkey room priority clock delay after).Kept := by
  rw [hrunning] at hspares
  have hkeeps (key : String) (hkey : s.Has key) :
      (match (s.outbox.push pubkey priority delay clock.instant).1 with
        | some dropped => ((s.tables.exchanges.observeEvidence pubkey
            (s.tables.bootstrap.evidence pubkey)).queued pubkey).release dropped clock.instant
        | none => (s.tables.exchanges.observeEvidence pubkey
            (s.tables.bootstrap.evidence pubkey)).queued pubkey).Has key := by
    have hqueued : ((s.tables.exchanges.observeEvidence pubkey
        (s.tables.bootstrap.evidence pubkey)).queued pubkey).Has key :=
      DiscoveryExchanges.has_modify.mpr (DiscoveryExchanges.has_modify.mpr hkey)
    split
    · next dropped hdropped =>
      refine DiscoveryExchanges.has_release ?_ hqueued
      exact DiscoveryExchanges.spares_queued.mpr (hspares dropped hdropped)
    · exact hqueued
  have hreserved (key : String) (hkey : key = pubkey ∨ key ∈ after.reserved) : s.Has key := by
    refine h.reserved key ?_
    rw [hrunning]
    exact List.mem_cons.mpr hkey
  have hkeys (key : String)
      (hkey : key ∈ (s.outbox.push pubkey priority delay clock.instant).2.keys) : s.Has key :=
    (DiscoveryOutbox.keys_push hkey).elim (h.queued key) fun hnew => hreserved key (.inl hnew)
  have hrequested (key : String) (hkey : key ∈ s.tables.requestedPubkeys) :
      s.Has key ∨ key ∈ after.owed := by
    have hbefore := h.requested key hkey
    rw [hrunning] at hbefore
    exact hbefore
  have hpass : ∀ pass ∈ after.pass, s.roomId = some pass.room ∧ s.identity = pass.identity := by
    have hbefore := h.pass
    rw [hrunning] at hbefore
    exact hbefore
  unfold queueRequest
  dsimp only
  split
  all_goals
    exact ⟨fun key hkey => hkeeps key (hkeys key hkey),
      fun key hkey => hkeeps key (hreserved key (.inr hkey)),
      fun key hkey => (hrequested key hkey).imp_left (hkeeps key), hpass⟩

/-- Going on keeps the books where it releases only what is spared. -/
theorem kept_goOn (h : s.Kept)
    (hspares : ∀ key ∈ s.releases clock delay s.running, s.tables.exchanges.Spares key)
    (hstep : s.goOn config clock delay = some s') : s'.Kept := by
  have hkept := h
  obtain ⟨hqueued, hreserved, hrequested, hpass⟩ := h
  have hbefore := hspares
  unfold goOn at hstep
  split at hstep
  all_goals
    rename_i hrunning
    rw [hrunning] at hreserved hrequested hpass hspares
  · cases hstep
  · cases hstep
    exact kept_queueRequest hkept hrunning hbefore
  · cases hstep
    refine ⟨fun key hkey => DiscoveryExchanges.has_modify.mpr (hqueued key hkey), nofun,
      fun key hkey => .inl (DiscoveryExchanges.has_modify.mpr ?_), nofun⟩
    exact (hrequested key hkey).resolve_right List.not_mem_nil
  · cases hstep
    exact ⟨hqueued, nofun, hrequested, nofun⟩
  · next pubkey dropped =>
    have hspare := hspares pubkey rfl
    cases hstep
    exact ⟨fun key hkey => DiscoveryExchanges.has_release hspare (hqueued key hkey), nofun,
      fun key hkey => (hrequested key hkey).imp (DiscoveryExchanges.has_release hspare) id, nofun⟩
  · cases hstep
    exact ⟨hqueued, nofun, hrequested, hpass⟩
  · cases hstep
    exact ⟨hqueued, hreserved, hrequested, hpass⟩
  · cases hstep
    refine ⟨hqueued, nofun, fun key hkey => ?_, hpass⟩
    rcases List.mem_union_iff.mp hkey with hkey | hkey
    · exact .inl ((hrequested key hkey).resolve_right List.not_mem_nil)
    · exact .inr hkey
  · cases hstep
    exact ⟨hqueued, nofun, hrequested, nofun⟩
  · next pass pubkey candidates =>
    have hnow := hpass pass rfl
    rw [if_pos hnow, Option.some.injEq] at hstep
    subst hstep
    have hself := DiscoveryExchanges.has_requested s.tables.exchanges pubkey clock.instant
    refine ⟨fun key hkey => DiscoveryExchanges.has_request (hqueued key hkey), fun key hkey => ?_,
      fun key hkey => ?_, fun p hp => ?_⟩
    · dsimp only at hkey
      split at hkey
      · rw [List.mem_singleton.mp hkey]
        exact hself
      · cases hkey
    · rcases hrequested key hkey with hhas | howed
      · exact .inl (DiscoveryExchanges.has_request hhas)
      · rcases List.mem_cons.mp howed with rfl | hmore
        · exact .inl hself
        · refine .inr ?_
          dsimp only
          split
          · exact hmore
          · exact hmore
    · dsimp only at hp
      split at hp
      all_goals
        cases hp
        exact hnow

theorem kept_pace (clock : Native.Clock) (w : Worker) (h : s.Kept) (hidle : s.running = .idle) :
    (s.pace w clock).1.Kept ∧ (s.pace w clock).1.running = .idle := by
  unfold pace
  split
  · split
    · exact ⟨h, hidle⟩
    · exact ⟨{ h with }, hidle⟩
  · exact ⟨h, hidle⟩

theorem kept_send (item : DiscoveryRequest) (clock : Native.Clock) (published : Bool) (h : s.Kept)
    (hidle : s.running = .idle)
    (hspares : item.priority = .probe → s.connectedPeers ≥ TARGET_PEERS →
      s.tables.exchanges.Spares item.pubkey) :
    (s.send item clock published).Kept ∧ (s.send item clock published).running = .idle := by
  unfold send
  split
  · next hprobe =>
    have hspare := hspares hprobe.1 hprobe.2
    exact ⟨h.calm (calm_exchanges fun _ h => DiscoveryExchanges.has_release hspare h) hidle, hidle⟩
  · split
    · have hkeeps (key : String) (hkey : s.Has key) :
          ((if published then s.tables.exchanges.logSent item.pubkey else s.tables.exchanges).sent
            item.pubkey clock.instant).Has key := by
        refine DiscoveryExchanges.has_modify.mpr ?_
        split
        · exact DiscoveryExchanges.has_logSent.mpr hkey
        · exact hkey
      exact ⟨⟨fun key hkey => hkeeps key (h.queued key hkey),
        fun key hkey => hkeeps key (h.reserved key hkey),
        fun key hkey => (h.requested key hkey).imp_left (hkeeps key), h.pass⟩, hidle⟩
    · exact ⟨h, hidle⟩

theorem kept_work {w : Worker} {published : Bool} {phase' : WorkerPhase} (h : s.Kept)
    (hidle : s.running = .idle)
    (hspares : ∀ key ∈ s.wakes clock w, s.tables.exchanges.Spares key)
    (hstep : s.work w clock published w.phase = some (s', phase')) : s'.Kept := by
  cases hphase : w.phase with
  | starting =>
    rw [hphase, work, Option.some.injEq] at hstep
    have hpaced := kept_pace clock w h hidle
    rw [hstep] at hpaced
    exact hpaced.1
  | sleeping =>
    rw [hphase, work] at hstep
    split at hstep
    · next hcurrent =>
      have hkept : ({ s with outbox := (s.outbox.pop clock.instant).2 } : WasmNostrSignaler).Kept :=
        ⟨fun key hkey => h.queued key (DiscoveryOutbox.keys_pop hkey), h.reserved, h.requested,
          h.pass⟩
      split at hstep
      · next item outbox hpop =>
        rw [hpop] at hkept
        have hsent := kept_send item clock published hkept hidle
          fun hprobe htarget => by
            refine hspares _ ?_
            rw [wakes, if_pos ⟨hphase, hcurrent.1, hcurrent.2.1, hcurrent.2.2, htarget⟩, hpop]
            simp [hprobe]
        have hpaced := kept_pace clock w hsent.1 hsent.2
        rw [Option.some.injEq] at hstep
        rw [hstep] at hpaced
        exact hpaced.1
      · next outbox hpop =>
        rw [hpop] at hkept
        have hpaced := kept_pace clock w hkept hidle
        rw [Option.some.injEq] at hstep
        rw [hstep] at hpaced
        exact hpaced.1
    · cases hstep
      exact h
  | returned =>
    rw [hphase, work] at hstep
    cases hstep

/-- Each faithful step keeps every request with its entry. -/
theorem Kept.step {input : Input} (h : s.Kept) (hfaithful : s.Faithful input)
    (hstep : s.step config input = some s') : s'.Kept := by
  cases input with
  | event id clock closed =>
    simp only [WasmNostrSignaler.step] at hstep
    split at hstep
    · next hidle =>
      cases hstep
      exact kept_processEvent id closed h hidle
    · cases hstep
  | maintain connectedPeers clock =>
    simp only [WasmNostrSignaler.step] at hstep
    split at hstep
    · next hidle =>
      cases hstep
      exact kept_maintainBootstrap connectedPeers h hidle
    · cases hstep
  | goOn clock delay => exact kept_goOn h hfaithful hstep
  | work i clock published =>
    simp only [WasmNostrSignaler.step] at hstep
    split at hstep
    · next hidle =>
      obtain ⟨w, hw, hstep⟩ := Option.bind_eq_some_iff.mp hstep
      obtain ⟨⟨after, phase⟩, hwork, rfl⟩ := Option.map_eq_some_iff.mp hstep
      have hafter := kept_work h hidle (hfaithful w hw) hwork
      exact { hafter with }
    · cases hstep

/-- In a session of the browser's signaler whose steps are all faithful, every requested
key has an entry whenever nothing runs. -/
theorem keepsRequests {start : WasmNostrSignaler}
    {moves : List (Reactive.Move WasmNostrSignaler Input)} (hbegins : start.Begins)
    (run : Reactive.Run (WasmNostrSignaler.step config) start moves s)
    (hfaithful : ∀ m ∈ moves, m.before.Faithful m.input) (hidle : s.running = .idle) :
    s.KeepsRequests := by
  have h : s.Kept := run.keepsUnder (C := Faithful) hbegins.kept
    (fun _ _ _ h hok hstep => h.step hok hstep) hfaithful
  exact h.keepsRequests hidle

end WasmNostrSignaler

end Mistlib.Signaling.Wasm

namespace Mistlib.Signaling

open Reactive
open Native (NostrConfig)
open Wasm (WasmNostrSignaler)

/-- In every session of either signaler in which no step gives a reservation back that
was never retried and whose peer has not answered, and no call is dropped between its
marks and its reservations, every requested peer has an entry whenever no handler is in
progress. -/
theorem requests_live (config : NostrConfig) :
    (∀ (start s : Native.NostrSignaler) (moves : List (Move Native.NostrSignaler Native.Input)),
      start.Begins → Run (Native.NostrSignaler.step config) start moves s →
      (∀ m ∈ moves, m.input.isChange = false) → (∀ m ∈ moves, m.before.Faithful m.input) →
      s.Quiescent → s.KeepsRequests) ∧
    ∀ (start s : WasmNostrSignaler) (moves : List (Move WasmNostrSignaler Wasm.Input)),
      start.Begins → Run (WasmNostrSignaler.step config) start moves s →
      (∀ m ∈ moves, m.before.Faithful m.input) → s.running = .idle → s.KeepsRequests :=
  ⟨fun _ _ _ hbegins run hwithin hfaithful hquiescent =>
      Native.NostrSignaler.keepsRequests hbegins run hwithin hfaithful hquiescent,
    fun _ _ _ hbegins run hfaithful hidle =>
      WasmNostrSignaler.keepsRequests hbegins run hfaithful hidle⟩

/-! ### A peer that asks and three that advertise -/

section Runs

def inBrowser (config : NostrConfig) (inputs : List Wasm.Input) :
    List (Move WasmNostrSignaler Wasm.Input) × WasmNostrSignaler :=
  play (WasmNostrSignaler.step config) (.new config (some "r")) inputs

/-- A peer asks everybody and is put down for a reply. The latest input is the first. -/
def askedNative : List Native.Input := Native.goOns 0 22 ++ [.event "six"]

def askedInBrowser : List Wasm.Input := [.goOn ⟨0, 10⟩ 0, .event "six" ⟨0, 10⟩ false]

theorem requests_live_asked :
    (Native.runOf (Native.listening ⟨""⟩) askedNative).2.tables.requestedPubkeys = ["k"] ∧
      (Native.runOf (Native.listening ⟨""⟩) askedNative).2.KeepsRequests ∧
      (inBrowser (Native.listening ⟨""⟩) askedInBrowser).2.tables.requestedPubkeys = ["k"] ∧
      (inBrowser (Native.listening ⟨""⟩) askedInBrowser).2.KeepsRequests := by
  have hnative : (Native.NostrSignaler.new (Native.listening ⟨""⟩) (some "r")).Begins :=
    ⟨rfl, rfl, rfl, rfl⟩
  have hbrowser : (WasmNostrSignaler.new (Native.listening ⟨""⟩) (some "r")).Begins :=
    ⟨rfl, rfl, rfl⟩
  refine ⟨by decide +kernel, ?_, by decide +kernel, ?_⟩
  · exact (requests_live (Native.listening ⟨""⟩)).1 _ _ _ hnative (run_play _ _ askedNative)
      (by decide +kernel) (by decide +kernel) (by decide +kernel)
  · exact (requests_live (Native.listening ⟨""⟩)).2 _ _ _ hbrowser (run_play _ _ askedInBrowser)
      (by decide +kernel) (by decide +kernel)

/-- Each event is the advertisement of a peer, which it names, and with it its rank. -/
def advertised : NostrConfig where
  lib := Sample.lib
  codec := Sample.config
  publicKey := "own"
  dedupeTtl := Duration.fromSecs 120
  author event := event
  kind _ := .discovery
  createdAt _ := 10
  decodeDiscovery _ event _ := some ⟨event, 100, event, none⟩
  decodeMessage _ _ _ _ := .malformed

/-- The first two are requested, and the third is left to them. A second later a pass asks
the third, and the next pass finds enough peers connected. -/
def reachedNative : List Native.Input :=
  List.replicate 6 (Native.Input.goOn 4 ⟨1000000000, 11⟩ 0) ++ Native.Input.maintain 2 ::
    List.replicate 20 (.goOn 3 ⟨1000000000, 11⟩ 0) ++ Native.Input.maintain 0 :: Native.goOns 2 8 ++
    Native.Input.event "3" :: Native.goOns 1 20 ++ Native.Input.event "2" :: Native.goOns 0 20 ++
    [Native.Input.event "1"]

def reachedInBrowser : List Wasm.Input :=
  List.replicate 2 (Wasm.Input.goOn ⟨1000000000, 11⟩ 0) ++ Wasm.Input.maintain 2 ⟨1000000000, 11⟩ ::
    List.replicate 5 (.goOn ⟨1000000000, 11⟩ 0) ++ Wasm.Input.maintain 0 ⟨1000000000, 11⟩ ::
    .goOn ⟨0, 10⟩ 0 :: .event "3" ⟨0, 10⟩ false :: List.replicate 2 (.goOn ⟨0, 10⟩ 0) ++
    Wasm.Input.event "2" ⟨0, 10⟩ false :: List.replicate 2 (.goOn ⟨0, 10⟩ 0) ++
    [Wasm.Input.event "1" ⟨0, 10⟩ false]

theorem forgets_reached :
    (∃ moves s, Run (Native.NostrSignaler.step advertised) (.new advertised (some "r")) moves s ∧
      (∀ m ∈ moves, m.input.isChange = false ∧ m.input.isDrop = false) ∧ s.Quiescent ∧
      ¬ s.KeepsRequests) ∧
    ∃ moves s, Run (WasmNostrSignaler.step advertised) (.new advertised (some "r")) moves s ∧
      s.running = .idle ∧ ¬ s.KeepsRequests :=
  ⟨⟨_, _, run_play _ _ reachedNative, by decide +kernel⟩,
    ⟨_, _, run_play _ _ reachedInBrowser, by decide +kernel⟩⟩

end Runs

end Mistlib.Signaling
