import Mistlib.Async.Calls
import Mistlib.Async.Reactive
import Mistlib.Signaling.Admission

/-!
# Readers of several relays

The message branch of `process_event`, as the readers of any number of relay connections run it
on the caches and tables they share, in one session. What a call does between two awaits is one
step, and awaits with nothing of this model between them are one. The reader of a connection
that dies drops its call where it stands.

The id of an event is the hash of what it carries, so it stands for the event.
`NostrSession.decode` is what the decoder answers for it. The channel to the signaling loop is
never full for ever, and what has been put on it is kept in order. To the cache a discovery event
is one that is not for this node; what it does to the tables are inputs of their own.
-/

namespace Mistlib.Signaling

inductive Decoded where
  | message (decoded : DecodedMessage)
  /-- It is encrypted for, or addressed to, somebody else. -/
  | notForUs
  | malformed
deriving DecidableEq, Repr

structure NostrSession where
  localNodeId : NodeId
  roomId : String
  ttlSeconds : Nat
  topologyRank : String → String
  decode : String → Decoded

/-- How a `process_event` call ends. -/
inductive Verdict where
  | malformed
  | notForUs
  | duplicate
  | localOnly
  | senderRefused
  | orderRefused
  | bindingRefused
  | forwarded (rebound : Bool)
deriving DecidableEq, Repr

/-- What a `process_event` call is about to do. -/
inductive Phase where
  | deduping
  /-- Looks up whether the sender was sent a `Request`. -/
  | lookingUp
  | lookingUpAgain (wasRequested : Bool)
  | admitting (wasRequested requested : Bool)
  | ordering (wasRequested : Bool)
  | binding (wasRequested : Bool)
  | recording (reboundFrom : Option String)
  | purgingRequested (previousPubkey : String)
  | purgingSequences (previousPubkey : String)
  | notifying
  | forwarding (rebound : Bool)
  | replying (rebound : Bool)
  | publishing (rebound : Bool)
  | returned (verdict : Verdict)
deriving DecidableEq, Repr

structure ReaderCall where
  event : String
  phase : Phase
  dropped : Bool
deriving DecidableEq, Repr

/-- What is put on the incoming channel, with the event it was put there for. -/
inductive Put where
  | rejoin (event : String) (data : SignalingData)
  | message (event : String) (data : SignalingData)
deriving DecidableEq, Repr

structure NostrSignaler where
  dedupe : DedupeCache
  messageDedupe : DedupeCache
  incomingSequences : Table String Nat
  requestedPubkeys : List String
  discoveryTable : DiscoveryTable
  channel : List Put
  calls : List ReaderCall

structure Clock where
  instant : Instant
  unixSeconds : Nat
deriving DecidableEq, Repr

namespace NostrSignaler

def new (dedupeTtl : Duration) : NostrSignaler where
  dedupe := .new dedupeTtl
  messageDedupe := .new dedupeTtl
  incomingSequences := ∅
  requestedPubkeys := []
  discoveryTable := .new
  channel := []
  calls := []

def put (s : NostrSignaler) (p : Put) : NostrSignaler := { s with channel := s.channel ++ [p] }

variable (session : NostrSession)

/-- The notice that tells the transport of the restarted peer. -/
def rejoinNotice (decoded : DecodedMessage) : SignalingData where
  senderId := decoded.data.senderId
  receiverId := session.localNodeId
  roomId := session.roomId
  data := (decoded.senderJoinedAt.map toString).getD "0"
  signalingType := .rejoin

/-- The message as it is forwarded: a broadcast is addressed to this node. -/
def forwarded (decoded : DecodedMessage) : SignalingData :=
  if decoded.data.receiverId.isBroadcast then
    { decoded.data with receiverId := session.localNodeId }
  else decoded.data

/-- Whether the sender is sent a `Request` in reply. -/
def repliesTo (decoded : DecodedMessage) : Bool :=
  decide (decoded.data.signalingType = .request) && decoded.data.receiverId.isBroadcast

/-- A step of a call on a message, with the phase it leaves the call in. -/
def processMessage (s : NostrSignaler) (clock : Clock) (event : String) (decoded : DecodedMessage) :
    Phase → Option (NostrSignaler × Phase)
  | .deduping =>
    let (isNew, dedupe) := s.dedupe.checkAndInsert event clock.instant
    some ({ s with dedupe },
      if !isNew then .returned .duplicate
      else if decoded.data.signalingType.isLocalOnly then .returned .localOnly
      else .lookingUp)
  | .lookingUp => some (s, .lookingUpAgain (s.requestedPubkeys.contains decoded.senderPubkey))
  | .lookingUpAgain wasRequested =>
    some (s, .admitting wasRequested (s.requestedPubkeys.contains decoded.senderPubkey))
  | .admitting wasRequested requested =>
    let (admitted, discoveryTable) := s.discoveryTable.admitsSender clock.unixSeconds requested
      decoded.senderPubkey decoded.data decoded.senderJoinedAt
    some ({ s with discoveryTable },
      if admitted then .ordering wasRequested else .returned .senderRefused)
  | .ordering wasRequested =>
    let (acceptance, messageDedupe, incomingSequences) := acceptMessageOrder s.messageDedupe
      s.incomingSequences decoded.senderPubkey decoded.messageId decoded.sequence clock.instant
    some ({ s with messageDedupe, incomingSequences },
      if acceptance.isAccepted then .binding wasRequested else .returned .orderRefused)
  | .binding wasRequested =>
    let (bound, discoveryTable) := s.discoveryTable.bindNodeWithEpoch clock.unixSeconds
      decoded.data.senderId decoded.senderPubkey decoded.expiresAt
      (session.topologyRank decoded.senderPubkey) decoded.senderJoinedAt
      (wasRequested && decide (decoded.data.signalingType = .request))
    match bound with
    | .error _ => some ({ s with discoveryTable }, .returned .bindingRefused)
    | .ok outcome =>
      let discoveryTable :=
        discoveryTable.touchNode clock.unixSeconds decoded.data.senderId session.ttlSeconds
      some ({ s with discoveryTable }, .recording outcome.reboundFrom)
  | .recording none => some (s, .forwarding false)
  | .recording (some previousPubkey) => some (s, .purgingRequested previousPubkey)
  | .purgingRequested previousPubkey =>
    some ({ s with requestedPubkeys := s.requestedPubkeys.erase previousPubkey },
      .purgingSequences previousPubkey)
  | .purgingSequences previousPubkey =>
    some ({ s with incomingSequences := s.incomingSequences.erase previousPubkey }, .notifying)
  | .notifying => some (s.put (.rejoin event (rejoinNotice session decoded)), .forwarding true)
  | .forwarding rebound =>
    some (s.put (.message event (forwarded session decoded)),
      if repliesTo decoded then .replying rebound else .returned (.forwarded rebound))
  | .replying rebound =>
    some ({ s with requestedPubkeys := s.requestedPubkeys.insert decoded.senderPubkey },
      .publishing rebound)
  | .publishing rebound => some (s, .returned (.forwarded rebound))
  | .returned _ => none

def processEvent (s : NostrSignaler) (clock : Clock) (event : String) (phase : Phase) :
    Option (NostrSignaler × Phase) :=
  match session.decode event with
  | .message decoded => s.processMessage session clock event decoded phase
  | .notForUs =>
    match phase with
    | .deduping =>
      some ({ s with dedupe := (s.dedupe.checkAndInsert event clock.instant).2 },
        .returned .notForUs)
    | _ => none
  | .malformed =>
    match phase with
    | .deduping => some (s, .returned .malformed)
    | _ => none

end NostrSignaler

inductive ReaderInput where
  /-- A reader gets a copy of an event and calls `process_event`. -/
  | read (event : String)
  | goOn (call : Nat) (clock : Clock)
  /-- The connection of the reader dies. -/
  | drop (call : Nat)
  /-- A discovery event is recorded, and the table is swept when the responders are chosen. -/
  | discovered (pubkey : String) (expiresAt : Nat) (topologyRank : String) (recorded chosen : Nat)
  /-- The sender of a discovery event is entered among those that are sent a `Request`. -/
  | requested (pubkey : String)
deriving DecidableEq, Repr

namespace NostrSignaler

def step (session : NostrSession) (s : NostrSignaler) : ReaderInput → Option NostrSignaler
  | .read event => some { s with calls := s.calls ++ [⟨event, .deduping, false⟩] }
  | .goOn i clock =>
    s.calls[i]?.bind fun c =>
      if c.dropped then none
      else
        (s.processEvent session clock c.event c.phase).map fun (after, phase) =>
          { after with calls := s.calls.set i { c with phase } }
  | .drop i => s.calls[i]?.map fun c => { s with calls := s.calls.set i { c with dropped := true } }
  | .discovered pubkey expiresAt topologyRank recorded chosen =>
    let discoveryTable := s.discoveryTable.insertPubkeyWithRank recorded pubkey expiresAt topologyRank
    some { s with discoveryTable := discoveryTable.sweepExpired chosen }
  | .requested pubkey => some { s with requestedPubkeys := s.requestedPubkeys.insert pubkey }

/-- What `record_discovery_and_should_request` leaves of the table. -/
theorem step_discovered (session : NostrSession) (s : NostrSignaler) (lib : Library)
    (config : NostrCodecConfig) (recorded chosen : Nat) (decoded : DecodedDiscovery)
    (roomId localPubkey : String) (maxResponders : Nat) :
    s.step session (.discovered decoded.signalingPubkey decoded.expiresAt decoded.topologyRank recorded chosen) =
      some { s with discoveryTable := (s.discoveryTable.recordDiscoveryAndShouldRequest lib config recorded
        chosen decoded roomId localPubkey maxResponders).2 } := by
  rw [step, DiscoveryTable.recordDiscoveryAndShouldRequest, DiscoveryTable.responderPubkeysFor_table]

end NostrSignaler

/-! ## What a call has done -/

namespace Phase

/-- Whether the call is one that put its event into the cache and goes on with it. -/
def claims : Phase → Bool
  | .deduping | .returned .malformed | .returned .notForUs | .returned .duplicate
  | .returned .localOnly => false
  | _ => true

/-- Whether the number of the message has been accepted and its sender not refused. -/
def ordered : Phase → Bool
  | .binding _ | .recording _ | .purgingRequested _ | .purgingSequences _ | .notifying
  | .forwarding _ | .replying _ | .publishing _ | .returned (.forwarded _) => true
  | _ => false

def isOrdering : Phase → Bool
  | .ordering _ => true
  | _ => false

/-- Whether the message has passed the checks of its order and of its sender,
of which the binding is the last. -/
def passed : Phase → Bool
  | .recording _ | .purgingRequested _ | .purgingSequences _ | .notifying | .forwarding _
  | .replying _ | .publishing _ | .returned (.forwarded _) => true
  | _ => false

/-- Whether the binding has answered `Rebound`. -/
def rebound : Phase → Bool
  | .recording reboundFrom => reboundFrom.isSome
  | .purgingRequested _ | .purgingSequences _ | .notifying => true
  | .forwarding rebound | .replying rebound | .publishing rebound
  | .returned (.forwarded rebound) => rebound
  | _ => false

/-- Whether the notice of a restarted peer has been put on the channel. -/
def notified : Phase → Bool
  | .forwarding rebound | .replying rebound | .publishing rebound
  | .returned (.forwarded rebound) => rebound
  | _ => false

def delivered : Phase → Bool
  | .replying _ | .publishing _ | .returned (.forwarded _) => true
  | _ => false

/-- Whether the message was refused by a check of its order or of its sender. -/
def refused : Phase → Bool
  | .returned .senderRefused | .returned .orderRefused | .returned .bindingRefused => true
  | _ => false

def finished : Phase → Bool
  | .returned _ => true
  | _ => false

/-- The call has the event and goes on with it. -/
def working : Phase → Bool
  | .deduping | .returned _ => false
  | _ => true

/-- The event is in the cache, and its message is neither refused nor on the channel yet. -/
def pending (phase : Phase) : Bool := phase.claims && !phase.delivered && !phase.finished

end Phase

def Put.isRejoinOf (event : String) : Put → Bool
  | .rejoin e _ => e = event
  | .message _ _ => false

def Put.isMessageOf (event : String) : Put → Bool
  | .rejoin _ _ => false
  | .message e _ => e = event

namespace NostrSignaler

/-- How often the message of an event is on the channel. -/
def messages (s : NostrSignaler) (event : String) : Nat := s.channel.countP (Put.isMessageOf event)

def rejoins (s : NostrSignaler) (event : String) : Nat := s.channel.countP (Put.isRejoinOf event)

def Reached (s : NostrSignaler) (stage : Phase → Bool) (event : String) : Prop :=
  ∃ c ∈ s.calls, c.event = event ∧ stage c.phase = true

instance (s : NostrSignaler) (stage : Phase → Bool) (event : String) :
    Decidable (s.Reached stage event) :=
  inferInstanceAs (Decidable (∃ c ∈ s.calls, _))

/-- The message of the event passes the checks of its order and of its sender:
some call has seen it pass, or none has refused it. -/
def Passes (s : NostrSignaler) (event : String) : Prop :=
  s.Reached Phase.passed event ∨ ¬ s.Reached Phase.refused event
deriving Decidable

/-- A copy of the event was read over a connection that stays up. -/
def ReadThrough (s : NostrSignaler) (event : String) : Prop :=
  ∃ c ∈ s.calls, c.event = event ∧ c.dropped = false
deriving Decidable

def Quiescent (s : NostrSignaler) : Prop :=
  ∀ c ∈ s.calls, c.dropped = false → c.phase.finished = true
deriving Decidable

end NostrSignaler

/-- The event carries a message that may come from a relay. -/
def NostrSession.Admits (session : NostrSession) (event : String) : Prop :=
  ∃ decoded, session.decode event = .message decoded ∧
    decoded.data.signalingType.isLocalOnly = false

namespace NostrSignaler

/-- Every message that passes its checks, and of which a copy was read over a
connection that stays up, is on the channel exactly once, and with it the notice
if its binding answered `Rebound`. -/
def Lossless (session : NostrSession) (s : NostrSignaler) : Prop :=
  ∀ event, session.Admits event → s.Passes event → s.ReadThrough event →
    s.messages event = 1 ∧ (s.Reached Phase.rebound event → s.rejoins event = 1)

/-- Whether the order check accepts the message of an event. -/
def acceptsOrder (session : NostrSession) (s : NostrSignaler) (clock : Clock) (event : String) : Bool :=
  match session.decode event with
  | .message decoded => (acceptMessageOrder s.messageDedupe s.incomingSequences decoded.senderPubkey
      decoded.messageId decoded.sequence clock.instant).1.isAccepted
  | _ => false

/-- No reader drops its call between the entry in the cache and the message on
the channel, and the caches do not forget an event whose order was accepted, so
that the order of another copy of it is accepted. -/
def Kept (session : NostrSession) (s : NostrSignaler) : ReaderInput → Prop
  | .read _ => True
  | .goOn i clock => ∀ c ∈ s.calls[i]?, c.phase.isOrdering = true → s.Reached Phase.ordered c.event →
      s.acceptsOrder session clock c.event = false
  | .drop i => ∀ c ∈ s.calls[i]?, c.phase.pending = false
  | .discovered _ _ _ _ _ | .requested _ => True

instance (session : NostrSession) (s : NostrSignaler) : DecidablePred (s.Kept session)
  | .discovered _ _ _ _ _ | .requested _ | .read _ => .isTrue trivial
  | .goOn i _ | .drop i => inferInstanceAs (Decidable (∀ c ∈ s.calls[i]?, _))

end NostrSignaler

/-! ## A step -/

namespace NostrSignaler

variable {session : NostrSession} {s s' : NostrSignaler} {clock : Clock} {event e : String}
  {phase phase' : Phase} {input : ReaderInput} {i : Nat} {c : ReaderCall}

/-- What a call on an event puts on the channel when it goes from `phase` to `phase'`. -/
def Puts (session : NostrSession) (event : String) (phase phase' : Phase) : Put → Prop
  | .rejoin e _ => e = event ∧ phase'.rebound = true
  | .message _ data => phase.working = true ∧
    ∃ decoded, session.decode event = .message decoded ∧ data = forwarded session decoded

/-- A step of a call on an event from `phase` to `phase'`. -/
structure Turn (session : NostrSession) (clock : Clock) (event : String) (s s' : NostrSignaler)
    (phase phase' : Phase) : Prop where
  calls : s'.calls = s.calls
  channel : s.channel <+: s'.channel
  messages : ∀ e, s'.messages e + (if event = e ∧ phase.delivered = true then 1 else 0) =
    s.messages e + (if event = e ∧ phase'.delivered = true then 1 else 0)
  rejoins : ∀ e, s'.rejoins e + (if event = e ∧ phase.notified = true then 1 else 0) =
    s.rejoins e + (if event = e ∧ phase'.notified = true then 1 else 0)
  cached : ∀ e, session.Admits e → s'.dedupe.entries.contains e = true →
    s.dedupe.entries.contains e = true ∨ event = e ∧ phase'.claims = true
  entered : session.Admits event → phase'.claims = true ∨ s.dedupe.entries.contains event = true
  ordered : phase'.ordered = true → phase.ordered = true ∨
    phase.isOrdering = true ∧ s.acceptsOrder session clock event = true
  claims : phase.claims = true → phase'.claims = true
  rebound : phase.rebound = true → phase'.rebound = true
  working : phase'.working = true → phase.working = true ∨ session.Admits event
  puts : ∀ p ∈ s'.channel, p ∈ s.channel ∨ Puts session event phase phase' p

theorem messages_congr (h : s'.channel = s.channel) : s'.messages e = s.messages e :=
  congrArg (List.countP (Put.isMessageOf e)) h

theorem rejoins_congr (h : s'.channel = s.channel) : s'.rejoins e = s.rejoins e :=
  congrArg (List.countP (Put.isRejoinOf e)) h

theorem Turn.still (hcalls : s'.calls = s.calls) (hchannel : s'.channel = s.channel)
    (hdedupe : s'.dedupe = s.dedupe) (hworking : phase.working = true)
    (hclaims : phase'.claims = true) (hdelivered : phase'.delivered = phase.delivered)
    (hnotified : phase'.notified = phase.notified)
    (hordered : phase'.ordered = true → phase.ordered = true ∨
      phase.isOrdering = true ∧ s.acceptsOrder session clock event = true)
    (hrebound : phase.rebound = true → phase'.rebound = true) :
    Turn session clock event s s' phase phase' where
  calls := hcalls
  channel := hchannel ▸ List.prefix_rfl
  messages e := by rw [messages_congr hchannel, hdelivered]
  rejoins e := by rw [rejoins_congr hchannel, hnotified]
  cached e _ hin := .inl (hdedupe ▸ hin)
  entered _ := .inl hclaims
  ordered := hordered
  claims _ := hclaims
  rebound := hrebound
  working _ := .inl hworking
  puts p hp := .inl (hchannel ▸ hp)

theorem Turn.first (hcalls : s'.calls = s.calls) (hchannel : s'.channel = s.channel)
    (hcached : ∀ e, s'.dedupe.entries.contains e = true →
      s.dedupe.entries.contains e = true ∨ e = event)
    (hdelivered : phase'.delivered = false) (hnotified : phase'.notified = false)
    (hordered : phase'.ordered = false)
    (hentered : session.Admits event →
      phase'.claims = true ∨ s.dedupe.entries.contains event = true)
    (hworking : phase'.working = true → session.Admits event) :
    Turn session clock event s s' .deduping phase' where
  calls := hcalls
  channel := hchannel ▸ List.prefix_rfl
  messages e := by
    rw [messages_congr hchannel, hdelivered]
    rfl
  rejoins e := by
    rw [rejoins_congr hchannel, hnotified]
    rfl
  cached e hadmits hin := by
    rcases hcached e hin with hold | rfl
    · exact .inl hold
    · exact (hentered hadmits).symm.imp_right fun hclaims => ⟨rfl, hclaims⟩
  entered := hentered
  ordered h := by
    rw [hordered] at h
    cases h
  claims := nofun
  rebound := nofun
  working h := .inr (hworking h)
  puts p hp := .inl (hchannel ▸ hp)

theorem messages_put (p : Put) :
    (s.put p).messages e = s.messages e + (if p.isMessageOf e then 1 else 0) := by
  rw [messages, put, List.countP_append, List.countP_singleton, messages]

theorem rejoins_put (p : Put) :
    (s.put p).rejoins e = s.rejoins e + (if p.isRejoinOf e then 1 else 0) := by
  rw [rejoins, put, List.countP_append, List.countP_singleton, rejoins]

theorem mem_put {p q : Put} (h : q ∈ (s.put p).channel) : q ∈ s.channel ∨ q = p := by
  simpa [put] using h

variable {decoded : DecodedMessage}

theorem turn_deduping (hdecode : session.decode event = .message decoded)
    (h : s.processMessage session clock event decoded .deduping = some (s', phase')) :
    Turn session clock event s s' .deduping phase' := by
  simp only [processMessage, Option.some.injEq, Prod.mk.injEq] at h
  obtain ⟨rfl, rfl⟩ := h
  have hfirst := s.dedupe.checkAndInsert_fst event clock.instant
  have hcached : ∀ e, (s.dedupe.checkAndInsert event clock.instant).2.entries.contains e = true →
      s.dedupe.entries.contains e = true ∨ e = event :=
    fun _ => DedupeCache.contains_checkAndInsert
  cases hnew : (s.dedupe.checkAndInsert event clock.instant).1 with
  | false =>
    rw [hnew] at hfirst
    have hseen : s.dedupe.remembers event clock.instant = true := by simpa using hfirst
    have hin := DedupeCache.contains_sweep hseen
    exact .first rfl rfl hcached rfl rfl rfl (fun _ => .inr hin) nofun
  | true =>
    cases hlocal : decoded.data.signalingType.isLocalOnly with
    | true =>
      refine .first rfl rfl hcached rfl rfl rfl ?_ nofun
      rintro ⟨d, hd, hadmits⟩
      rw [hdecode] at hd
      cases hd
      rw [hlocal] at hadmits
      cases hadmits
    | false =>
      exact .first rfl rfl hcached rfl rfl rfl (fun _ => .inl rfl) fun _ => ⟨decoded, hdecode, hlocal⟩

theorem turn_notifying :
    Turn session clock event s (s.put (.rejoin event (rejoinNotice session decoded))) .notifying
      (.forwarding true) where
  calls := rfl
  channel := List.prefix_append _ _
  messages e := by
    rw [messages_put]
    simp [Phase.delivered, Put.isMessageOf]
  rejoins e := by
    rw [rejoins_put]
    simp [Phase.notified, Put.isRejoinOf]
  cached e _ hin := .inl hin
  entered _ := .inl rfl
  ordered _ := .inl rfl
  claims _ := rfl
  rebound _ := rfl
  working _ := .inl rfl
  puts p hp := by
    rcases mem_put hp with hold | rfl
    · exact .inl hold
    · exact .inr ⟨rfl, rfl⟩

section

variable (hdecode : session.decode event = .message decoded)
include hdecode

theorem turn_forwarding (rebound : Bool) (hclaims : phase'.claims = true)
    (hdelivered : phase'.delivered = true) (hnotified : phase'.notified = rebound)
    (hrebound : phase'.rebound = rebound) :
    Turn session clock event s (s.put (.message event (forwarded session decoded)))
      (.forwarding rebound) phase' where
  calls := rfl
  channel := List.prefix_append _ _
  messages e := by
    rw [messages_put, hdelivered]
    simp [Phase.delivered, Put.isMessageOf]
  rejoins e := by
    rw [rejoins_put, hnotified]
    simp [Put.isRejoinOf]
    rfl
  cached e _ hin := .inl hin
  entered _ := .inl hclaims
  ordered _ := .inl rfl
  claims _ := hclaims
  rebound h := hrebound.trans h
  working _ := .inl rfl
  puts p hp := by
    rcases mem_put hp with hold | rfl
    · exact .inl hold
    · exact .inr ⟨rfl, decoded, hdecode, rfl⟩

theorem turn_ordering {wasRequested : Bool}
    (h : s.processMessage session clock event decoded (.ordering wasRequested) = some (s', phase')) :
    Turn session clock event s s' (.ordering wasRequested) phase' := by
  simp only [processMessage, Option.some.injEq, Prod.mk.injEq] at h
  obtain ⟨rfl, rfl⟩ := h
  split
  · next haccepted =>
    refine .still rfl rfl rfl rfl rfl rfl rfl (fun _ => .inr ⟨rfl, ?_⟩) nofun
    rw [acceptsOrder, hdecode]
    exact haccepted
  · exact .still rfl rfl rfl rfl rfl rfl rfl nofun nofun

theorem turn_processMessage
    (h : s.processMessage session clock event decoded phase = some (s', phase')) :
    Turn session clock event s s' phase phase' := by
  cases phase with
  | deduping => exact turn_deduping hdecode h
  | lookingUp | lookingUpAgain wasRequested =>
    cases h
    exact .still rfl rfl rfl rfl rfl rfl rfl nofun nofun
  | admitting wasRequested requested =>
    simp only [processMessage, Option.some.injEq, Prod.mk.injEq] at h
    obtain ⟨rfl, rfl⟩ := h
    split
    · exact .still rfl rfl rfl rfl rfl rfl rfl nofun nofun
    · exact .still rfl rfl rfl rfl rfl rfl rfl nofun nofun
  | ordering wasRequested => exact turn_ordering hdecode h
  | binding wasRequested =>
    simp only [processMessage] at h
    split at h
    all_goals
      cases h
      exact .still rfl rfl rfl rfl rfl rfl rfl (fun _ => .inl rfl) nofun
  | recording reboundFrom =>
    cases reboundFrom with
    | none =>
      cases h
      exact .still rfl rfl rfl rfl rfl rfl rfl (fun _ => .inl rfl) nofun
    | some previousPubkey =>
      cases h
      exact .still rfl rfl rfl rfl rfl rfl rfl (fun _ => .inl rfl) fun _ => rfl
  | purgingRequested previousPubkey | purgingSequences previousPubkey =>
    cases h
    exact .still rfl rfl rfl rfl rfl rfl rfl (fun _ => .inl rfl) fun _ => rfl
  | notifying =>
    cases h
    exact turn_notifying
  | forwarding rebound =>
    cases h
    split
    · exact turn_forwarding hdecode rebound rfl rfl rfl rfl
    · exact turn_forwarding hdecode rebound rfl rfl rfl rfl
  | replying rebound | publishing rebound =>
    cases h
    exact .still rfl rfl rfl rfl rfl rfl rfl (fun _ => .inl rfl) id
  | returned verdict => cases h

end

theorem turn_processEvent
    (h : s.processEvent session clock event phase = some (s', phase')) :
    Turn session clock event s s' phase phase' := by
  unfold processEvent at h
  split at h
  · next hdecode => exact turn_processMessage hdecode h
  · next hdecode =>
    split at h
    · cases h
      refine .first rfl rfl (fun _ => DedupeCache.contains_checkAndInsert) rfl rfl rfl ?_ nofun
      rintro ⟨d, hd, _⟩
      rw [hdecode] at hd
      cases hd
    · cases h
  · next hdecode =>
    split at h
    · cases h
      refine .first rfl rfl (fun _ => .inl) rfl rfl rfl ?_ nofun
      rintro ⟨d, hd, _⟩
      rw [hdecode] at hd
      cases hd
    · cases h

/-! ## A run -/

/-- How many calls on an event have come so far. -/
def callsIn (s : NostrSignaler) (stage : Phase → Bool) (event : String) : Nat :=
  s.calls.countP fun c => decide (c.event = event) && stage c.phase

/-- The channel holds what the calls have put there. One call at most on an event
is past the order check, an event in the cache has a call that goes on with it, and
a call that was dropped had nothing left to do. -/
structure Sound (session : NostrSession) (s : NostrSignaler) : Prop where
  messages : ∀ e, s.messages e = s.callsIn Phase.delivered e
  rejoins : ∀ e, s.rejoins e = s.callsIn Phase.notified e
  ordered : ∀ e, s.callsIn Phase.ordered e ≤ 1
  cached : ∀ e, session.Admits e → s.dedupe.entries.contains e = true → s.Reached Phase.claims e
  entered : ∀ c ∈ s.calls, session.Admits c.event →
    c.phase = .deduping ∨ s.Reached Phase.claims c.event
  settled : ∀ c ∈ s.calls, c.dropped = true → c.phase.pending = false

theorem callsIn_set (h : s.calls[i]? = some c) (c' : ReaderCall) (hevent : c'.event = c.event)
    (stage : Phase → Bool) (e : String) :
    (s.calls.set i c').countP (fun c => decide (c.event = e) && stage c.phase) +
        (if c.event = e ∧ stage c.phase = true then 1 else 0) =
      s.callsIn stage e + (if c.event = e ∧ stage c'.phase = true then 1 else 0) := by
  have hset := Calls.countP_set h c' fun c => decide (c.event = e) && stage c.phase
  simpa [hevent, callsIn] using hset

variable {stage : Phase → Bool}

theorem callsIn_begin (s : NostrSignaler) (event : String) (hstage : stage .deduping = false)
    (e : String) :
    (s.calls ++ [(⟨event, .deduping, false⟩ : ReaderCall)]).countP
      (fun c => decide (c.event = e) && stage c.phase) = s.callsIn stage e := by
  rw [Calls.countP_begin]
  simp [hstage, callsIn]

theorem callsIn_eq_zero (h : ¬ s.Reached stage e) : s.callsIn stage e = 0 := by
  refine List.countP_eq_zero.mpr fun c hc hcount => h ?_
  obtain ⟨hevent, hreached⟩ := Bool.and_eq_true_iff.mp hcount
  exact ⟨c, hc, of_decide_eq_true hevent, hreached⟩

theorem Reached.set (h : s.Reached stage e) (hc : s.calls[i]? = some c) {c' : ReaderCall}
    (hevent : c'.event = c.event) (hstage : stage c.phase = true → stage c'.phase = true) :
    ∃ d ∈ s.calls.set i c', d.event = e ∧ stage d.phase = true := by
  refine Calls.exists_set hc ?_ h
  rintro ⟨rfl, hreached⟩
  exact ⟨hevent, hstage hreached⟩

theorem Sound.new (session : NostrSession) (ttl : Duration) :
    (NostrSignaler.new ttl).Sound session where
  messages _ := rfl
  rejoins _ := rfl
  ordered _ := Nat.zero_le 1
  cached e _ h := by
    obtain ⟨t, ht⟩ := Table.contains_iff.mp h
    simp [NostrSignaler.new, DedupeCache.new, Overlay.TtlCache.new] at ht
  entered := nofun
  settled := nofun

/-- A turn of a kept reader keeps the channel sound. -/
theorem Sound.turn (h : s.Sound session) (hc : s.calls[i]? = some c)
    (hturn : Turn session clock c.event s s' c.phase phase') (hdropped : c.dropped = false)
    (hok : s.Kept session (.goOn i clock)) :
    Sound session { s' with calls := s.calls.set i { c with phase := phase' } } where
  messages e := by
    have hset := callsIn_set hc { c with phase := phase' } rfl Phase.delivered e
    have hput := hturn.messages e
    have hbefore := h.messages e
    change s'.messages e = _
    rw [callsIn]
    simp only at hset ⊢
    omega
  rejoins e := by
    have hset := callsIn_set hc { c with phase := phase' } rfl Phase.notified e
    have hput := hturn.rejoins e
    have hbefore := h.rejoins e
    change s'.rejoins e = _
    rw [callsIn]
    simp only at hset ⊢
    omega
  ordered e := by
    have hset := callsIn_set hc { c with phase := phase' } rfl Phase.ordered e
    have hbefore := h.ordered e
    rw [callsIn]
    simp only at hset ⊢
    by_cases hnew : c.event = e ∧ phase'.ordered = true
    · obtain ⟨rfl, hordered⟩ := hnew
      rcases hturn.ordered hordered with hold | ⟨hphase, haccepts⟩
      · simp only [hold, hordered] at hset
        omega
      · -- the order of no other copy of the event has been accepted
        have hnone : ¬ s.Reached Phase.ordered c.event := by
          intro hreached
          rw [hok c hc hphase hreached] at haccepts
          cases haccepts
        rw [callsIn_eq_zero hnone] at hset
        simp only [hordered, and_self, if_true] at hset
        omega
    · rw [if_neg hnew] at hset
      omega
  cached e hadmits hin := by
    rcases hturn.cached e hadmits hin with hold | ⟨rfl, hclaims⟩
    · exact (h.cached e hadmits hold).set hc rfl hturn.claims
    · exact Calls.exists_self hc ⟨rfl, hclaims⟩
  entered := by
    refine Calls.forall_set (fun d hd hadmits => ?_) fun hadmits => .inr ?_
    · exact (h.entered d hd hadmits).imp_right fun hreached => hreached.set hc rfl hturn.claims
    · rcases hturn.entered hadmits with hclaims | hin
      · exact Calls.exists_self hc ⟨rfl, hclaims⟩
      · exact (h.cached _ hadmits hin).set hc rfl hturn.claims
  settled := by
    refine Calls.forall_set h.settled ?_
    intro hdrop
    rw [hdropped] at hdrop
    cases hdrop

/-- Each step that keeps its readers keeps the channel sound. -/
theorem Sound.step (h : s.Sound session) (hok : s.Kept session input)
    (hstep : s.step session input = some s') : s'.Sound session := by
  cases input with
  | read event =>
    cases hstep
    have hreached {e : String} (hr : s.Reached Phase.claims e) :
        ∃ d ∈ s.calls ++ [(⟨event, .deduping, false⟩ : ReaderCall)], d.event = e ∧ d.phase.claims = true := by
      obtain ⟨d, hd, hclaims⟩ := hr
      exact ⟨d, List.mem_append_left _ hd, hclaims⟩
    refine ⟨fun e => ?_, fun e => ?_, fun e => ?_, fun e hadmits hin => ?_, ?_, ?_⟩
    · exact (h.messages e).trans (callsIn_begin s event rfl e).symm
    · exact (h.rejoins e).trans (callsIn_begin s event rfl e).symm
    · exact (callsIn_begin s event rfl e).trans_le (h.ordered e)
    · exact hreached (h.cached e hadmits hin)
    · refine Calls.forall_begin (fun d hd hadmits => ?_) fun _ => .inl rfl
      exact (h.entered d hd hadmits).imp_right hreached
    · exact Calls.forall_begin h.settled nofun
  | goOn i clock =>
    obtain ⟨c, hc, hstep⟩ := Option.bind_eq_some_iff.mp hstep
    split at hstep
    · cases hstep
    · next hdropped =>
      obtain ⟨⟨after, phase⟩, hturn, rfl⟩ := Option.map_eq_some_iff.mp hstep
      exact h.turn hc (turn_processEvent hturn) (Bool.eq_false_iff.mpr hdropped) hok
  | drop i =>
    obtain ⟨c, hc, rfl⟩ := Option.map_eq_some_iff.mp hstep
    have hsame (stage : Phase → Bool) (e : String) :
        (s.calls.set i { c with dropped := true }).countP
          (fun c => decide (c.event = e) && stage c.phase) = s.callsIn stage e := by
      have hset := callsIn_set hc { c with dropped := true } rfl stage e
      simp only at hset
      omega
    refine ⟨fun e => ?_, fun e => ?_, fun e => ?_, fun e hadmits hin => ?_, ?_, ?_⟩
    · exact (h.messages e).trans (hsame _ e).symm
    · exact (h.rejoins e).trans (hsame _ e).symm
    · exact (hsame _ e).trans_le (h.ordered e)
    · exact (h.cached e hadmits hin).set hc rfl id
    · refine Calls.forall_set (fun d hd hadmits => ?_) fun hadmits => ?_
      · exact (h.entered d hd hadmits).imp_right fun hr => hr.set hc rfl id
      · exact (Calls.of_get h.entered hc hadmits).imp_right fun hr => hr.set hc rfl id
    · exact Calls.forall_set h.settled fun _ => hok c hc
  | discovered pubkey expiresAt topologyRank recorded chosen | requested pubkey =>
    cases hstep
    exact ⟨h.messages, h.rejoins, h.ordered, h.cached, h.entered, h.settled⟩

/-! ## What is on the channel -/

/-- A message on the channel may come from a relay, and a notice is there because
its event's binding has answered `Rebound`. -/
structure Genuine (session : NostrSession) (s : NostrSignaler) : Prop where
  admitted : ∀ c ∈ s.calls, c.phase.working = true → session.Admits c.event
  messages : ∀ e data, .message e data ∈ s.channel → data.signalingType.isLocalOnly = false
  rejoins : ∀ e data, .rejoin e data ∈ s.channel → s.Reached Phase.rebound e

theorem Genuine.new (session : NostrSession) (ttl : Duration) :
    Genuine session (NostrSignaler.new ttl) where
  admitted := nofun
  messages := nofun
  rejoins := nofun

theorem isLocalOnly_forwarded (session : NostrSession) (decoded : DecodedMessage) :
    (forwarded session decoded).signalingType = decoded.data.signalingType := by
  unfold forwarded
  split
  · rfl
  · rfl

theorem Genuine.turn (h : s.Genuine session) (hc : s.calls[i]? = some c)
    (hturn : Turn session clock c.event s s' c.phase phase') :
    Genuine session { s' with calls := s.calls.set i { c with phase := phase' } } where
  admitted := by
    refine Calls.forall_set h.admitted fun hworking => ?_
    simp only at hworking ⊢
    rcases hturn.working hworking with hbefore | hadmits
    · exact Calls.of_get h.admitted hc hbefore
    · exact hadmits
  messages e data hmem := by
    rcases hturn.puts _ hmem with hold | ⟨hworking, decoded, hdecode, rfl⟩
    · exact h.messages e data hold
    · obtain ⟨d, hd, hlocal⟩ := Calls.of_get h.admitted hc hworking
      rw [hdecode] at hd
      cases hd
      rw [isLocalOnly_forwarded]
      exact hlocal
  rejoins e data hmem := by
    rcases hturn.puts _ hmem with hold | ⟨rfl, hrebound⟩
    · refine Calls.exists_set hc ?_ (h.rejoins e data hold)
      rintro ⟨hevent, hrebound⟩
      exact ⟨hevent, hturn.rebound hrebound⟩
    · exact Calls.exists_self hc ⟨rfl, hrebound⟩

/-- Each step keeps what is on the channel genuine. -/
theorem Genuine.step (h : s.Genuine session) (hstep : s.step session input = some s') :
    s'.Genuine session := by
  cases input with
  | read event =>
    cases hstep
    refine ⟨Calls.forall_begin h.admitted nofun, h.messages, fun e data hmem => ?_⟩
    obtain ⟨c, hc, hrebound⟩ := h.rejoins e data hmem
    exact ⟨c, List.mem_append_left _ hc, hrebound⟩
  | goOn i clock =>
    obtain ⟨c, hc, hstep⟩ := Option.bind_eq_some_iff.mp hstep
    split at hstep
    · cases hstep
    · obtain ⟨⟨after, phase⟩, hturn, rfl⟩ := Option.map_eq_some_iff.mp hstep
      exact h.turn hc (turn_processEvent hturn)
  | drop i =>
    obtain ⟨c, hc, rfl⟩ := Option.map_eq_some_iff.mp hstep
    have hadmitted := Calls.of_get h.admitted hc
    refine ⟨Calls.forall_set h.admitted hadmitted, h.messages, fun e data hmem => ?_⟩
    exact (h.rejoins e data hmem).set hc rfl id
  | discovered pubkey expiresAt topologyRank recorded chosen | requested pubkey =>
    cases hstep
    exact ⟨h.admitted, h.messages, h.rejoins⟩

/-- The channel only grows. -/
theorem grows_step (hstep : s.step session input = some s') :
    s.channel <+: s'.channel ∧ ∀ e, s.Reached Phase.rebound e → s'.Reached Phase.rebound e := by
  cases input with
  | read event =>
    cases hstep
    refine ⟨List.prefix_rfl, ?_⟩
    rintro e ⟨c, hc, hrebound⟩
    exact ⟨c, List.mem_append_left _ hc, hrebound⟩
  | goOn i clock =>
    obtain ⟨c, hc, hstep⟩ := Option.bind_eq_some_iff.mp hstep
    split at hstep
    · cases hstep
    · obtain ⟨⟨after, phase⟩, hturn, rfl⟩ := Option.map_eq_some_iff.mp hstep
      have hturn := turn_processEvent hturn
      exact ⟨hturn.channel, fun e h => h.set hc rfl hturn.rebound⟩
  | drop i =>
    obtain ⟨c, hc, rfl⟩ := Option.map_eq_some_iff.mp hstep
    exact ⟨List.prefix_rfl, fun e h => h.set hc rfl id⟩
  | discovered pubkey expiresAt topologyRank recorded chosen | requested pubkey =>
    cases hstep
    exact ⟨List.prefix_rfl, fun _ h => h⟩

/-! ## What has passed is on the channel -/

section

variable {phase : Phase}

theorem Phase.ordered_of_delivered (h : phase.delivered = true) : phase.ordered = true := by
  unfold Phase.delivered at h
  split at h
  all_goals first | rfl | exact nomatch h

theorem Phase.ordered_of_notified (h : phase.notified = true) : phase.ordered = true := by
  unfold Phase.notified at h
  split at h
  all_goals first | rfl | exact nomatch h

/-- A call that has its event and nothing left to do has put the message, if it was
not refused. -/
theorem Phase.delivered_of_claims (h : phase.claims = true) (hdone : phase.pending = false)
    (hrefused : phase.refused = false) : phase.delivered = true := by
  cases phase with
  | returned verdict =>
    cases verdict with
    | forwarded rebound => rfl
    | senderRefused | orderRefused | bindingRefused => cases hrefused
    | _ => cases h
  | replying rebound | publishing rebound => rfl
  | deduping => cases h
  | _ => cases hdone

theorem Phase.of_passed (h : phase.passed = true) :
    phase.claims = true ∧ phase.refused = false := by
  unfold Phase.passed at h
  split at h
  all_goals first | exact ⟨rfl, rfl⟩ | exact nomatch h

theorem Phase.notified_of_rebound (h : phase.rebound = true) (hdone : phase.pending = false) :
    phase.notified = true := by
  cases phase with
  | returned verdict =>
    cases verdict with
    | forwarded rebound => exact h
    | _ => cases h
  | replying rebound | publishing rebound => exact h
  | deduping => cases h
  | _ => cases hdone

theorem Phase.pending_of_finished (h : phase.finished = true) : phase.pending = false := by
  rw [Phase.pending, h, Bool.not_true, Bool.and_false]

end

section

variable (h : s.Sound session)
include h

theorem Sound.done (hq : s.Quiescent) (hc : c ∈ s.calls) : c.phase.pending = false := by
  cases hdropped : c.dropped with
  | true => exact h.settled c hc hdropped
  | false => exact Phase.pending_of_finished (hq c hc hdropped)

theorem Sound.callsIn_eq_one (hstage : ∀ phase, stage phase = true → phase.ordered = true)
    (hex : s.Reached stage e) : s.callsIn stage e = 1 := by
  have hle : s.callsIn stage e ≤ s.callsIn Phase.ordered e := by
    refine List.countP_mono_left fun c _ hc => ?_
    obtain ⟨hevent, hreached⟩ := Bool.and_eq_true_iff.mp hc
    exact Bool.and_eq_true_iff.mpr ⟨hevent, hstage _ hreached⟩
  obtain ⟨c, hc, hevent, hreached⟩ := hex
  have hpos : 0 < s.callsIn stage e := by
    refine List.countP_pos_iff.mpr ⟨c, hc, ?_⟩
    exact Bool.and_eq_true_iff.mpr ⟨decide_eq_true hevent, hreached⟩
  have honce := h.ordered e
  omega

/-- A message that passes its checks, and that some call has read to its end, was put. -/
theorem Sound.delivered (hq : s.Quiescent) (hadmits : session.Admits e) (hpasses : s.Passes e)
    (hread : s.ReadThrough e) : s.Reached Phase.delivered e := by
  rcases hpasses with ⟨c, hc, hevent, hpassed⟩ | hnone
  · obtain ⟨hclaims, hrefused⟩ := Phase.of_passed hpassed
    exact ⟨c, hc, hevent, Phase.delivered_of_claims hclaims (h.done hq hc) hrefused⟩
  · obtain ⟨c, hc, rfl, hkept⟩ := hread
    rcases h.entered c hc hadmits with hphase | ⟨d, hd, hevent, hclaims⟩
    · have hfinished := hq c hc hkept
      rw [hphase] at hfinished
      cases hfinished
    · have hrefused : d.phase.refused = false := by
        refine Bool.eq_false_iff.mpr fun hrefused => hnone ⟨d, hd, hevent, hrefused⟩
      exact ⟨d, hd, hevent, Phase.delivered_of_claims hclaims (h.done hq hd) hrefused⟩

theorem Sound.lossless (hq : s.Quiescent) : s.Lossless session := by
  intro e hadmits hpasses hread
  constructor
  · rw [h.messages e]
    exact h.callsIn_eq_one (fun _ => Phase.ordered_of_delivered) (h.delivered hq hadmits hpasses hread)
  · rintro ⟨d, hd, hevent, hrebound⟩
    rw [h.rejoins e]
    refine h.callsIn_eq_one (fun _ => Phase.ordered_of_notified) ⟨d, hd, hevent, ?_⟩
    exact Phase.notified_of_rebound hrebound (h.done hq hd)

end

open Reactive

/-- Where no reader drops a call that has an event and has not delivered it, and
the order of no second copy of an event is accepted, every message that passes its
checks is on the channel exactly once. -/
theorem lossless_of_kept {session : NostrSession} {ttl : Duration}
    {moves : List (Move NostrSignaler ReaderInput)} {s : NostrSignaler}
    (run : Run (NostrSignaler.step session) (.new ttl) moves s)
    (hok : ∀ m ∈ moves, m.before.Kept session m.input) (hq : s.Quiescent) : s.Lossless session := by
  have hsound : s.Sound session := run.keepsUnder (P := Sound session) (C := Kept session)
    (.new session ttl) (fun _ _ _ hs hkept hstep => hs.step hkept hstep) hok
  exact hsound.lossless hq

/-! ### Two relays with a copy each -/

section Runs

def peer : DecodedMessage where
  senderPubkey := "k"
  data := ⟨⟨"b"⟩, ⟨"a"⟩, "r", "", .request⟩
  expiresAt := 100
  messageId := some "m"
  sequence := some 1
  senderJoinedAt := some 7

/-- Every event carries the same message. -/
def room : NostrSession where
  localNodeId := ⟨"a"⟩
  roomId := "r"
  ttlSeconds := 60
  topologyRank := id
  decode _ := .message peer

def noon : Clock := ⟨0, 10⟩

/-- Two readers get a copy of one event, and the first takes seven steps: it is
about to put the message on the channel. The latest input is the first. -/
def reading : List ReaderInput :=
  List.replicate 7 (ReaderInput.goOn 0 noon) ++ [ReaderInput.read "e", .read "e"]

def after (inputs : List ReaderInput) : List (Move NostrSignaler ReaderInput) × NostrSignaler :=
  play (NostrSignaler.step room) (.new (Duration.fromSecs 120)) inputs

def bothUp : List ReaderInput := .goOn 1 noon :: .goOn 0 noon :: reading

theorem lossless_bothUp : (after bothUp).2.messages "e" = 1 ∧ (after bothUp).2.Lossless room := by
  refine ⟨by decide +kernel, ?_⟩
  exact lossless_of_kept (run_play _ _ bothUp) (by decide +kernel) (by decide +kernel)

/-- The first connection dies, and the copy of the other one is a duplicate. -/
def oneDies : List ReaderInput := .goOn 1 noon :: .drop 0 :: reading

theorem lost_when_oneDies :
    ∃ moves s, Run (NostrSignaler.step room) (.new (Duration.fromSecs 120)) moves s ∧
      s.Quiescent ∧ room.Admits "e" ∧ s.Reached Phase.passed "e" ∧ s.ReadThrough "e" ∧
      s.channel = [] ∧ ¬ s.Lossless room := by
  have hadmits : room.Admits "e" := ⟨peer, rfl, rfl⟩
  refine ⟨_, _, run_play _ _ oneDies, by decide +kernel, hadmits, by decide +kernel,
    by decide +kernel, by decide +kernel, fun h => ?_⟩
  have honce := (h "e" hadmits (.inl (by decide +kernel)) (by decide +kernel)).1
  revert honce
  decide +kernel

end Runs

end NostrSignaler

end Mistlib.Signaling
