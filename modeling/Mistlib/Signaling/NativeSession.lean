import Mistlib.Async.Calls
import Mistlib.Async.Reactive
import Mistlib.Signaling.Admission
import Mistlib.Signaling.DiscoveryRequests

/-!
# The session of the native signaler

What `process_event` and `maintain_bootstrap` of the native `NostrSignaler`, the pacing workers
they start, and the calls that change the session (`set_room_id`, `reset_session`, `close`) do
to what they share. Any number of each run side by side. What one does between two awaits is one
step, and awaits with nothing of this model between them are one.

The only lock held over an await is the one of the outbox, in `queue_request`. A worker whose
pacing token is cancelled may take steps until its `select!` sees it. What is sent to relays and
to the signaling loop is left out, with the numbers of outgoing messages.
-/

namespace Mistlib.Signaling.Native

structure Clock where
  instant : Instant
  unixSeconds : Nat
deriving DecidableEq, Repr

inductive EventKind where
  | discovery
  | message
  | other
deriving DecidableEq, Repr

/-- What `decode_message_event` makes of an event. -/
inductive DecodedEvent where
  | message (decoded : DecodedMessage)
  /-- It is in the mailbox of the room, or addressed to all, and cannot be decrypted. -/
  | mailbox
  | otherReceiver
  | malformed
deriving DecidableEq, Repr

/-- What stays the same for a signaler, and what its decoder makes of an event, which
is given by its id. -/
structure NostrConfig where
  lib : Library
  codec : NostrCodecConfig
  /-- The key it starts with. -/
  publicKey : String
  dedupeTtl : Duration
  author : String → String
  kind : String → EventKind
  createdAt : String → Nat
  decodeDiscovery (unixSeconds : Nat) (event roomId : String) : Option DecodedDiscovery
  decodeMessage (unixSeconds : Nat) (publicKey event roomId : String) : DecodedEvent

/-! ## What a call is about to do -/

/-- The arguments of `queue_request`. -/
structure QueueRequest where
  pubkey : String
  room : String
  epoch : Nat
  priority : DiscoveryPriority
  delay : Duration
deriving DecidableEq, Repr

/-- `queue_request`, which holds the outbox from `evidencing` to `pushing`. -/
inductive QueueStage where
  | identifying
  | locking (identity : String)
  | evidencing (identity : String)
  | pushing (identity : String) (evidence : Evidence)
  /-- It has set `worker_epoch`, and waits for the lock of `pacing_cancel`. -/
  | spawning (identity : String)
deriving DecidableEq, Repr

/-- The branch of `process_event` for an advertisement. -/
inductive DiscoveryStage where
  | checking
  | deduping
  | observing
  | recording
  | requesting (shouldRequest : Bool)
  | rechecking
  /-- `send_request_to_pubkey`, which has read the epoch. -/
  | reserving (epoch : Nat)
  | advertising
deriving DecidableEq, Repr

/-- The part of `process_event` for a message that is encrypted for somebody else. -/
inductive MailboxStage where
  | observing
  | observingExchange
  | deduping
deriving DecidableEq, Repr

/-- The branch of `process_event` for a message. -/
inductive MessageStage where
  | checking
  | deduping
  | lookingUp
  | lookingUpAgain (wasRequested : Bool)
  | admitting (wasRequested requested : Bool)
  | ordering (wasRequested : Bool)
  | binding (wasRequested : Bool)
  | observing (reboundFrom : Option String)
  | progressing (reboundFrom : Option String)
  | purgingExchange (previousPubkey : String)
  | purgingRequested (previousPubkey : String)
  | purgingSequences (previousPubkey : String)
  | notifying
  | forwarding
  | replying
  | rechecking
  /-- `publish_request_to_pubkey`, which has read the epoch. -/
  | promoting (epoch : Nat)
  | reserving (epoch : Nat)
  | replied
  | noting
deriving DecidableEq, Repr

inductive MaintainStage where
  | entering
  | identifying
  | stopping
  | stoppingProbes
  | releasing (dropped : List String)
  | polling
  | retrying (retries : List String)
  | retryingIn (pubkey : String) (retries : List String)
  | choosing
  | probing (candidates : List String)
  | probingIn (pubkey : String) (candidates : List String)
  | probingAs (pubkey : String) (candidates : List String)
  | reserving (pubkey : String) (candidates : List String)
deriving DecidableEq, Repr

/-- What the caller of `queue_request` goes on with. -/
inductive After where
  | advertising (decoded : DecodedDiscovery)
  | replied (decoded : DecodedMessage)
  | retrying (retries : List String)
  | probing (candidates : List String)
deriving DecidableEq, Repr

inductive Phase where
  | identifying
  | entering
  | discovering (decoded : DecodedDiscovery) (stage : DiscoveryStage)
  | overhearing (stage : MailboxStage)
  /-- A message for another receiver only goes into the cache of events. -/
  | ignoring
  | processing (decoded : DecodedMessage) (stage : MessageStage)
  | maintaining (stage : MaintainStage)
  | queueing (request : QueueRequest) (stage : QueueStage) (after : After)
  | returned
deriving DecidableEq, Repr

def After.phase : After → Phase
  | .advertising decoded => .discovering decoded .advertising
  | .replied decoded => .processing decoded .replied
  | .retrying retries => .maintaining (.retrying retries)
  | .probing candidates => .maintaining (.probing candidates)

inductive Work where
  | event (id : String)
  | maintain (connectedPeers : Nat)
deriving DecidableEq, Repr

/-- A call, with what it has read so far. -/
structure Call where
  work : Work
  epoch : Nat
  identity : String
  room : String
  phase : Phase
  dropped : Bool
deriving DecidableEq, Repr

def Call.event (c : Call) : String :=
  match c.work with
  | .event id => id
  | .maintain _ => ""

/-! ## Workers and changes -/

inductive WorkerPhase where
  /-- The head of the loop, before the lock of the outbox. -/
  | starting
  | pacing
  | sleeping
  | entering
  | identifying
  | popping
  | asking (item : DiscoveryRequest)
  | publishing (item : DiscoveryRequest)
  | logging (item : DiscoveryRequest)
  | releasing (item : DiscoveryRequest)
  | finishing (item : DiscoveryRequest)
  | sent (item : DiscoveryRequest)
  | returned
deriving DecidableEq, Repr

/-- A pacing worker, with what its closure captured. -/
structure Worker where
  epoch : Nat
  room : String
  identity : String
  cancel : Nat
  phase : WorkerPhase
deriving DecidableEq, Repr

/-- How `publish_reserved_request` ends. -/
inductive Published where
  | sent
  | refused
  | failed
deriving DecidableEq, Repr

/-- What a call that changes the session does under one lock. -/
inductive SessionStep where
  /-- `set_room_id` puts the room in, if it is another one, and begins a session. -/
  | enterRoom (room : String)
  /-- `reset_session` begins a session, if there is a room. -/
  | beginReset
  /-- `close` begins a session. -/
  | beginClose
  | rotateIdentity (publicKey : String)
  | cancelPacing
  | leaveRoom
  | replacePacing
  | clearOutbox
  | clearExchanges
  | clearDiscoveryTable
  | clearBootstrap
  | clearDedupe
  | clearMessageDedupe
  | clearIncomingSequences
  | clearRequestedPubkeys
  | dropIdentity
deriving DecidableEq, Repr

inductive ChangeKind where
  | setRoomId (room : String)
  /-- With the key that is generated. -/
  | resetSession (publicKey : String)
  | close
deriving DecidableEq, Repr

/-- `clear_session_state`, which `set_room_id` repeats. -/
def clearSessionState : List SessionStep :=
  [.replacePacing, .clearOutbox, .clearExchanges, .clearDiscoveryTable, .clearBootstrap,
    .clearDedupe, .clearMessageDedupe, .clearIncomingSequences, .clearRequestedPubkeys]

def ChangeKind.script : ChangeKind → List SessionStep
  | .setRoomId room => if room.isEmpty then [] else .enterRoom room :: clearSessionState
  | .resetSession publicKey => .beginReset :: .rotateIdentity publicKey :: clearSessionState
  | .close => .beginClose :: .cancelPacing :: .leaveRoom :: clearSessionState ++ [.dropIdentity]

/-- A call that changes the session, with the steps that it has yet to take. -/
structure Change where
  kind : ChangeKind
  remaining : List SessionStep
deriving DecidableEq, Repr

/-! ## The signaler -/

structure Tables where
  discoveryTable : DiscoveryTable
  bootstrap : DiscoveryBootstrap
  exchanges : DiscoveryExchanges
  messageDedupe : DedupeCache
  incomingSequences : Table String Nat
  requestedPubkeys : List String

structure NostrSignaler where
  sessionEpoch : Nat
  roomId : Option String
  rotatedIdentity : Option String
  dedupe : DedupeCache
  tables : Tables
  outbox : DiscoveryOutbox
  /-- The call that holds the lock of the outbox. -/
  outboxHolder : Option Nat
  pacingCancel : Nat
  cancelled : List Nat
  calls : List Call
  workers : List Worker
  changes : List Change

inductive Input where
  /-- `process_event` reads the epoch and waits for the identity. -/
  | event (id : String)
  | maintain (connectedPeers : Nat)
  | goOn (call : Nat) (clock : Clock) (jitter : Duration)
  | drop (call : Nat)
  | work (worker : Nat) (clock : Clock) (published : Published)
  /-- A worker's `select!` sees that its token is cancelled. -/
  | cancelled (worker : Nat)
  | change (kind : ChangeKind)
  | advance (change : Nat)
deriving DecidableEq, Repr

namespace NostrSignaler

def new (config : NostrConfig) (roomId : Option String) : NostrSignaler where
  sessionEpoch := 0
  roomId
  rotatedIdentity := none
  dedupe := .new config.dedupeTtl
  tables :=
    { discoveryTable := .new
      bootstrap := .new
      exchanges := .new
      messageDedupe := .new config.dedupeTtl
      incomingSequences := ∅
      requestedPubkeys := [] }
  outbox := .new
  outboxHolder := none
  pacingCancel := 0
  cancelled := []
  calls := []
  workers := []
  changes := []

variable (config : NostrConfig) (s : NostrSignaler)

def currentIdentity : String := s.rotatedIdentity.getD config.publicKey

def sessionIsCurrent (epoch : Nat) : Bool := decide (s.sessionEpoch = epoch)

/-- The check of the room and of the epoch, which a call makes together. -/
def stillIn (room : String) (epoch : Nat) : Bool :=
  decide (s.roomId = some room) && s.sessionIsCurrent epoch

def withExchanges (exchanges : DiscoveryExchanges) : NostrSignaler :=
  { s with tables := { s.tables with exchanges } }

/-! ### process_event -/

def discover (c : Call) (clock : Clock) (jitter : Duration) (decoded : DecodedDiscovery) :
    DiscoveryStage → NostrSignaler × Phase
  | .checking =>
    (s, if s.stillIn c.room c.epoch then .discovering decoded .deduping else .returned)
  | .deduping =>
    let (isNew, dedupe) := s.dedupe.checkAndInsert c.event clock.instant
    ({ s with dedupe }, if isNew then .discovering decoded .observing else .returned)
  | .observing =>
    let bootstrap := s.tables.bootstrap.observe decoded.signalingPubkey (config.createdAt c.event)
      decoded.joinedAt clock.instant
    ({ s with tables := { s.tables with bootstrap } }, .discovering decoded .recording)
  | .recording =>
    if s.sessionIsCurrent c.epoch then
      let (shouldRequest, discoveryTable) := s.tables.discoveryTable.recordDiscoveryAndShouldRequest
        config.lib config.codec clock.unixSeconds clock.unixSeconds decoded c.room c.identity 2
      ({ s with tables := { s.tables with discoveryTable } },
        .discovering decoded (.requesting shouldRequest))
    else (s, .returned)
  | .requesting shouldRequest =>
    if s.sessionIsCurrent c.epoch then
      if shouldRequest ∧ decoded.signalingPubkey ∉ s.tables.requestedPubkeys then
        let requestedPubkeys := s.tables.requestedPubkeys.insert decoded.signalingPubkey
        ({ s with tables := { s.tables with requestedPubkeys } },
          .discovering decoded .rechecking)
      else (s, .discovering decoded .advertising)
    else (s, .returned)
  | .rechecking =>
    (s, if s.stillIn c.room c.epoch then .discovering decoded (.reserving s.sessionEpoch)
      else .returned)
  | .reserving epoch =>
    if s.sessionIsCurrent epoch then
      let (reserved, exchanges) := s.tables.exchanges.request decoded.signalingPubkey clock.instant
      (s.withExchanges exchanges,
        if reserved then
          .queueing ⟨decoded.signalingPubkey, c.room, epoch, .ordinary, jitter⟩ .identifying
            (.advertising decoded)
        else .discovering decoded .advertising)
    else (s, .discovering decoded .advertising)
  | .advertising =>
    (s.withExchanges (s.tables.exchanges.observeAdvertisement decoded.signalingPubkey
      (config.createdAt c.event) decoded.joinedAt), .returned)

/-- A message in the mailbox that is encrypted for somebody else. -/
def overhear (c : Call) (clock : Clock) : MailboxStage → NostrSignaler × Phase
  | .observing =>
    let bootstrap := s.tables.bootstrap.observeActivity (config.author c.event)
      (config.createdAt c.event)
    ({ s with tables := { s.tables with bootstrap } }, .overhearing .observingExchange)
  | .observingExchange =>
    (s.withExchanges (s.tables.exchanges.observeActivity (config.author c.event)
      (config.createdAt c.event)), .overhearing .deduping)
  | .deduping =>
    ({ s with dedupe := (s.dedupe.checkAndInsert c.event clock.instant).2 }, .returned)

/-- The types of message that say that a negotiation goes on. -/
def negotiates : SignalingType → Bool
  | .offer | .answer | .candidate | .candidates | .candidateAck | .negotiationAck => true
  | _ => false

/-- Where a call goes on that has noted what its message says of the sender. -/
def afterProgress (decoded : DecodedMessage) : Option String → Phase
  | some previousPubkey => .processing decoded (.purgingExchange previousPubkey)
  | none => .processing decoded .forwarding

def processMessage (c : Call) (clock : Clock) (decoded : DecodedMessage) :
    MessageStage → Option (NostrSignaler × Phase)
  | .checking =>
    some (s, if s.stillIn c.room c.epoch then .processing decoded .deduping else .returned)
  | .deduping =>
    let (isNew, dedupe) := s.dedupe.checkAndInsert c.event clock.instant
    some ({ s with dedupe },
      if isNew ∧ ¬ decoded.data.signalingType.isLocalOnly then .processing decoded .lookingUp
      else .returned)
  | .lookingUp =>
    some (s, .processing decoded
      (.lookingUpAgain (s.tables.requestedPubkeys.contains decoded.senderPubkey)))
  | .lookingUpAgain wasRequested =>
    some (s, .processing decoded
      (.admitting wasRequested (s.tables.requestedPubkeys.contains decoded.senderPubkey)))
  | .admitting wasRequested requested =>
    let (admitted, discoveryTable) := s.tables.discoveryTable.admitsSender clock.unixSeconds
      requested decoded.senderPubkey decoded.data decoded.senderJoinedAt
    some ({ s with tables := { s.tables with discoveryTable } },
      if admitted then .processing decoded (.ordering wasRequested) else .returned)
  | .ordering wasRequested =>
    let (acceptance, messageDedupe, incomingSequences) := acceptMessageOrder s.tables.messageDedupe
      s.tables.incomingSequences decoded.senderPubkey decoded.messageId decoded.sequence
      clock.instant
    some ({ s with tables := { s.tables with messageDedupe, incomingSequences } },
      if acceptance.isAccepted ∧ s.sessionIsCurrent c.epoch then
        .processing decoded (.binding wasRequested)
      else .returned)
  | .binding wasRequested =>
    if s.sessionIsCurrent c.epoch then
      let (bound, discoveryTable) := s.tables.discoveryTable.bindNodeWithEpoch clock.unixSeconds
        decoded.data.senderId decoded.senderPubkey decoded.expiresAt
        (config.codec.topologyRank config.lib c.room decoded.senderPubkey) decoded.senderJoinedAt
        (wasRequested && decide (decoded.data.signalingType = .request))
      match bound with
      | .error _ => some ({ s with tables := { s.tables with discoveryTable } }, .returned)
      | .ok outcome =>
        let discoveryTable := discoveryTable.touchNode clock.unixSeconds decoded.data.senderId
          config.codec.ttlSeconds
        some ({ s with tables := { s.tables with discoveryTable } },
          .processing decoded (.observing outcome.reboundFrom))
    else some (s, .returned)
  | .observing reboundFrom =>
    some (s.withExchanges (s.tables.exchanges.observeActivity decoded.senderPubkey
        (config.createdAt c.event)),
      if negotiates decoded.data.signalingType then .processing decoded (.progressing reboundFrom)
      else afterProgress decoded reboundFrom)
  | .progressing reboundFrom =>
    some (s.withExchanges (s.tables.exchanges.progress decoded.senderPubkey clock.instant),
      afterProgress decoded reboundFrom)
  | .purgingExchange previousPubkey =>
    some (s.withExchanges (s.tables.exchanges.progress previousPubkey clock.instant),
      .processing decoded (.purgingRequested previousPubkey))
  | .purgingRequested previousPubkey =>
    let requestedPubkeys := s.tables.requestedPubkeys.erase previousPubkey
    some ({ s with tables := { s.tables with requestedPubkeys } },
      .processing decoded (.purgingSequences previousPubkey))
  | .purgingSequences previousPubkey =>
    let incomingSequences := s.tables.incomingSequences.erase previousPubkey
    some ({ s with tables := { s.tables with incomingSequences } },
      .processing decoded .notifying)
  | .notifying =>
    some (s, if s.stillIn c.room c.epoch then .processing decoded .forwarding else .returned)
  | .forwarding =>
    some (s,
      if s.stillIn c.room c.epoch ∧ decoded.data.signalingType = .request ∧
        decoded.data.receiverId.isBroadcast then .processing decoded .replying
      else .returned)
  | .replying =>
    let requestedPubkeys := s.tables.requestedPubkeys.insert decoded.senderPubkey
    some ({ s with tables := { s.tables with requestedPubkeys } }, .processing decoded .rechecking)
  | .rechecking =>
    some (s, if s.stillIn c.room c.epoch then .processing decoded (.promoting s.sessionEpoch)
      else .returned)
  | .promoting epoch =>
    if s.outboxHolder.isSome then none
    else if s.sessionIsCurrent epoch then
      let (promoted, outbox) := s.outbox.promoteReply decoded.senderPubkey
      some ({ s with outbox },
        .processing decoded (if promoted then .replied else .reserving epoch))
    else some (s, .processing decoded .replied)
  | .reserving epoch =>
    if s.sessionIsCurrent epoch then
      let (reserved, exchanges) := s.tables.exchanges.request decoded.senderPubkey clock.instant
      some (s.withExchanges exchanges,
        if reserved then
          .queueing ⟨decoded.senderPubkey, c.room, epoch, .reply, 0⟩ .identifying (.replied decoded)
        else .processing decoded .replied)
    else some (s, .processing decoded .replied)
  | .replied =>
    some (s, if s.sessionIsCurrent c.epoch then .processing decoded .noting else .returned)
  | .noting =>
    some (s.withExchanges (s.tables.exchanges.observeActivity decoded.senderPubkey
      (config.createdAt c.event)), .returned)

/-! ### maintain_bootstrap -/

/-- A pass of `maintain_bootstrap`. It reads the epoch after the identity. -/
def maintain (c : Call) (connectedPeers : Nat) (clock : Clock) :
    MaintainStage → Option (NostrSignaler × Call)
  | .entering =>
    match s.roomId with
    | some room => some (s, { c with room, phase := .maintaining .identifying })
    | none => some (s, { c with phase := .returned })
  | .identifying =>
    let next := if connectedPeers ≥ TARGET_PEERS then .stopping else .polling
    some (s,
      { c with identity := s.currentIdentity config, epoch := s.sessionEpoch,
               phase := .maintaining next })
  | .stopping =>
    some ({ s with tables := { s.tables with bootstrap := s.tables.bootstrap.stop } },
      { c with phase := .maintaining .stoppingProbes })
  | .stoppingProbes =>
    if s.outboxHolder.isSome then none
    else
      let (dropped, outbox) := s.outbox.stopProbes
      some ({ s with outbox }, { c with phase := .maintaining (.releasing dropped) })
  | .releasing [] => some (s, { c with phase := .returned })
  | .releasing (pubkey :: dropped) =>
    some (s.withExchanges (s.tables.exchanges.release pubkey clock.instant),
      { c with phase := .maintaining (.releasing dropped) })
  | .polling =>
    let (retries, exchanges) := s.tables.exchanges.pollWithEvidence clock.instant
      s.tables.bootstrap.evidence
    some (s.withExchanges exchanges, { c with phase := .maintaining (.retrying retries) })
  | .retrying [] => some (s, { c with phase := .maintaining .choosing })
  | .retrying (pubkey :: retries) =>
    some (s,
      { c with phase := if s.sessionIsCurrent c.epoch then .maintaining (.retryingIn pubkey retries)
                        else .returned })
  | .retryingIn pubkey retries =>
    some (s,
      { c with phase :=
          if s.roomId = some c.room then
            .queueing ⟨pubkey, c.room, c.epoch, .probe, 0⟩ .identifying (.retrying retries)
          else .returned })
  | .choosing =>
    let (candidates, bootstrap, discoveryTable) := s.tables.bootstrap.poll clock.instant
      clock.unixSeconds s.tables.discoveryTable c.identity
      (config.codec.topologyRank config.lib c.room c.identity) s.tables.requestedPubkeys
      connectedPeers
    let requestedPubkeys := s.tables.requestedPubkeys.union candidates
    some ({ s with tables := { s.tables with bootstrap, discoveryTable, requestedPubkeys } },
      { c with phase := .maintaining (.probing candidates) })
  | .probing [] => some (s, { c with phase := .returned })
  | .probing (pubkey :: candidates) =>
    some (s,
      { c with phase := if s.sessionIsCurrent c.epoch then .maintaining (.probingIn pubkey candidates)
                        else .returned })
  | .probingIn pubkey candidates =>
    some (s,
      { c with phase := if s.roomId = some c.room then .maintaining (.probingAs pubkey candidates)
                        else .returned })
  | .probingAs pubkey candidates =>
    some (s,
      { c with phase :=
          if s.currentIdentity config = c.identity then .maintaining (.reserving pubkey candidates)
          else .returned })
  | .reserving pubkey candidates =>
    let (reserved, exchanges) := s.tables.exchanges.request pubkey clock.instant
    some (s.withExchanges exchanges,
      { c with phase :=
          if reserved then
            .queueing ⟨pubkey, c.room, c.epoch, .probe, 0⟩ .identifying (.probing candidates)
          else .maintaining (.probing candidates) })

/-! ### queue_request -/

/-- `queue_request`, as the call `i` takes it. -/
def queueRequest (i : Nat) (clock : Clock) (request : QueueRequest) (after : After) :
    QueueStage → Option (NostrSignaler × Phase)
  | .identifying => some (s, .queueing request (.locking (s.currentIdentity config)) after)
  | .locking identity =>
    if s.outboxHolder.isSome then none
    else if s.sessionIsCurrent request.epoch then
      some ({ s with outboxHolder := some i }, .queueing request (.evidencing identity) after)
    else some (s, after.phase)
  | .evidencing identity =>
    some (s, .queueing request (.pushing identity (s.tables.bootstrap.evidence request.pubkey)) after)
  | .pushing identity evidence =>
    let exchanges := (s.tables.exchanges.observeEvidence request.pubkey evidence).queued
      request.pubkey
    let (dropped, outbox) := s.outbox.push request.pubkey request.priority request.delay
      clock.instant
    let exchanges := match dropped with
      | some pubkey => exchanges.release pubkey clock.instant
      | none => exchanges
    if s.outbox.workerEpoch.isSome then
      some ({ s.withExchanges exchanges with outbox, outboxHolder := none }, after.phase)
    else
      some ({ s.withExchanges exchanges with
          outbox := { outbox with workerEpoch := some request.epoch }, outboxHolder := none },
        .queueing request (.spawning identity) after)
  | .spawning identity =>
    let worker : Worker := ⟨request.epoch, request.room, identity, s.pacingCancel, .starting⟩
    some ({ s with workers := s.workers ++ [worker] }, after.phase)

def processCall (i : Nat) (c : Call) (clock : Clock) (jitter : Duration) :
    Option (NostrSignaler × Call) :=
  match c.phase with
  | .identifying =>
    let identity := s.currentIdentity config
    let known := config.author c.event ≠ identity ∧ config.kind c.event ≠ .other
    some (s, { c with identity, phase := if known then .entering else .returned })
  | .entering =>
    match s.roomId with
    | none => some (s, { c with phase := .returned })
    | some room =>
      match config.kind c.event with
      | .discovery =>
        match config.decodeDiscovery clock.unixSeconds c.event room with
        | some decoded => some (s, { c with room, phase := .discovering decoded .checking })
        | none => some (s, { c with room, phase := .returned })
      | .message =>
        match config.decodeMessage clock.unixSeconds c.identity c.event room with
        | .message decoded => some (s, { c with room, phase := .processing decoded .checking })
        | .mailbox => some (s, { c with room, phase := .overhearing .observing })
        | .otherReceiver => some (s, { c with room, phase := .ignoring })
        | .malformed => some (s, { c with room, phase := .returned })
      | .other => some (s, { c with phase := .returned })
  | .discovering decoded stage =>
    let (s, phase) := s.discover config c clock jitter decoded stage
    some (s, { c with phase })
  | .overhearing stage =>
    let (s, phase) := s.overhear config c clock stage
    some (s, { c with phase })
  | .ignoring =>
    some ({ s with dedupe := (s.dedupe.checkAndInsert c.event clock.instant).2 },
      { c with phase := .returned })
  | .processing decoded stage =>
    (s.processMessage config c clock decoded stage).map fun (s, phase) => (s, { c with phase })
  | .maintaining stage =>
    match c.work with
    | .maintain connectedPeers => s.maintain config c connectedPeers clock stage
    | .event _ => none
  | .queueing request stage after =>
    (s.queueRequest config i clock request after stage).map fun (s, phase) => (s, { c with phase })
  | .returned => none

/-! ### The pacing worker -/

/-- A step of a pacing worker. The publish is one step, with how it ends. -/
def pace (w : Worker) (clock : Clock) (published : Published) :
    WorkerPhase → Option (NostrSignaler × WorkerPhase)
  | .starting => some (s, if s.sessionIsCurrent w.epoch then .pacing else .returned)
  | .pacing =>
    if s.outboxHolder.isSome then none
    else if s.outbox.workerEpoch = some w.epoch then
      match s.outbox.delay clock.instant with
      | some _ => some (s, .sleeping)
      | none => some ({ s with outbox := { s.outbox with workerEpoch := none } }, .returned)
    else some (s, .returned)
  | .sleeping => some (s, if s.sessionIsCurrent w.epoch then .entering else .returned)
  | .entering => some (s, if s.roomId = some w.room then .identifying else .returned)
  | .identifying => some (s, if s.currentIdentity config = w.identity then .popping else .returned)
  | .popping =>
    if s.outboxHolder.isSome then none
    else if s.outbox.workerEpoch = some w.epoch then
      match s.outbox.pop clock.instant with
      | (some item, outbox) => some ({ s with outbox }, .asking item)
      | (none, outbox) => some ({ s with outbox }, .starting)
    else some (s, .returned)
  | .asking item =>
    some (s, if s.tables.exchanges.pending item.pubkey then .publishing item else .starting)
  | .publishing item =>
    match published with
    | .sent => some (s, .logging item)
    | .refused =>
      some (s, if s.sessionIsCurrent w.epoch then .releasing item else .starting)
    | .failed => some (s, if s.sessionIsCurrent w.epoch then .finishing item else .starting)
  | .logging item =>
    some (s.withExchanges (s.tables.exchanges.logSent item.pubkey),
      if s.sessionIsCurrent w.epoch then .finishing item else .starting)
  | .releasing item =>
    some (s.withExchanges (s.tables.exchanges.release item.pubkey clock.instant), .starting)
  | .finishing item =>
    if s.outboxHolder.isSome then none
    else some ({ s with outbox := s.outbox.sent clock.instant }, .sent item)
  | .sent item =>
    some (s.withExchanges (s.tables.exchanges.sent item.pubkey clock.instant), .starting)
  | .returned => none

/-! ### Changing the session -/

/-- What one step of a change does, and whether the change goes on after it. -/
def changeSession : SessionStep → Option (NostrSignaler × Bool)
  | .enterRoom room =>
    if s.roomId = some room then some (s, false)
    else some ({ s with roomId := some room, sessionEpoch := s.sessionEpoch + 1 }, true)
  | .beginReset =>
    if s.roomId.isSome then some ({ s with sessionEpoch := s.sessionEpoch + 1 }, true)
    else some (s, false)
  | .beginClose => some ({ s with sessionEpoch := s.sessionEpoch + 1 }, true)
  | .rotateIdentity publicKey => some ({ s with rotatedIdentity := some publicKey }, true)
  | .cancelPacing => some ({ s with cancelled := s.pacingCancel :: s.cancelled }, true)
  | .leaveRoom => some ({ s with roomId := none }, true)
  | .replacePacing =>
    some ({ s with cancelled := s.pacingCancel :: s.cancelled, pacingCancel := s.pacingCancel + 1 },
      true)
  | .clearOutbox =>
    if s.outboxHolder.isSome then none else some ({ s with outbox := .new }, true)
  | .clearExchanges => some (s.withExchanges .new, true)
  | .clearDiscoveryTable =>
    some ({ s with tables := { s.tables with discoveryTable := .new } }, true)
  | .clearBootstrap => some ({ s with tables := { s.tables with bootstrap := .new } }, true)
  | .clearDedupe => some ({ s with dedupe := .new config.dedupeTtl }, true)
  | .clearMessageDedupe =>
    some ({ s with tables := { s.tables with messageDedupe := .new config.dedupeTtl } }, true)
  | .clearIncomingSequences =>
    some ({ s with tables := { s.tables with incomingSequences := ∅ } }, true)
  | .clearRequestedPubkeys =>
    some ({ s with tables := { s.tables with requestedPubkeys := [] } }, true)
  | .dropIdentity => some ({ s with rotatedIdentity := none }, true)

/-! ### A step -/

def step : Input → Option NostrSignaler
  | .event id =>
    let call : Call := ⟨.event id, s.sessionEpoch, "", "", .identifying, false⟩
    some { s with calls := s.calls ++ [call] }
  | .maintain connectedPeers =>
    let call : Call := ⟨.maintain connectedPeers, s.sessionEpoch, "", "", .maintaining .entering, false⟩
    some { s with calls := s.calls ++ [call] }
  | .goOn i clock jitter =>
    s.calls[i]?.bind fun c =>
      if c.dropped then none
      else
        (s.processCall config i c clock jitter).map fun (after, c') =>
          { after with calls := after.calls.set i c' }
  | .drop i =>
    s.calls[i]?.map fun c =>
      { s with
        calls := s.calls.set i { c with dropped := true }
        outboxHolder := if s.outboxHolder = some i then none else s.outboxHolder }
  | .work i clock published =>
    s.workers[i]?.bind fun w =>
      (s.pace config w clock published w.phase).map fun (after, phase) =>
        { after with workers := after.workers.set i { w with phase } }
  | .cancelled i =>
    s.workers[i]?.bind fun w =>
      if w.cancel ∈ s.cancelled then
        some { s with workers := s.workers.set i { w with phase := .returned } }
      else none
  | .change kind => some { s with changes := s.changes ++ [⟨kind, kind.script⟩] }
  | .advance i =>
    s.changes[i]?.bind fun ch =>
      match ch.remaining with
      | [] => none
      | next :: remaining =>
        (s.changeSession config next).map fun (after, goesOn) =>
          { after with
            changes := after.changes.set i
              { ch with remaining := if goesOn then remaining else [] } }

end NostrSignaler

/-! ## A peer that is heard -/

/-- What the peer says to the receiver. -/
def said (receiverId : NodeId) (messageId : String) (sequence : Nat) : DecodedMessage where
  senderPubkey := "k"
  data := ⟨⟨"b"⟩, receiverId, "r", "", .request⟩
  expiresAt := 100
  messageId := some messageId
  sequence := some sequence
  senderJoinedAt := some 7

/-- Every event is a message of one peer to the receiver. -/
def listening (receiverId : NodeId) : NostrConfig where
  lib := Sample.lib
  codec := Sample.config
  publicKey := "own"
  dedupeTtl := Duration.fromSecs 120
  author _ := "k"
  kind _ := .message
  createdAt _ := 10
  decodeDiscovery _ _ _ := none
  decodeMessage _ _ event _ := .message (said receiverId event (if event = "five" then 5 else 6))

def Input.isDrop : Input → Bool
  | .drop _ => true
  | _ => false

/-- The call goes on that often, at one time. -/
def goOns (call : Nat) (n : Nat) : List Input := List.replicate n (.goOn call ⟨0, 10⟩ 0)

def runOf (config : NostrConfig) (inputs : List Input) :
    List (Reactive.Move NostrSignaler Input) × NostrSignaler :=
  Reactive.play (NostrSignaler.step config) (.new config (some "r")) inputs

end Mistlib.Signaling.Native
