import Mistlib.Data.Table
import Mistlib.Data.Text
import Mistlib.Types

/-!
# The acknowledgement of an offer or an answer

A peer sends an offer or an answer again until its transaction id is acknowledged.
`handle_message` sends the acknowledgement when the handler of the message answers `Ok`. This is
one call of it in the native transport, on any state of the transport. `Answers` is what the
call meets on its way: the answers of the connection, the parser and the signaler, and what
other tasks have changed while it waited.

Buffered candidates, the capabilities of the channels, the books of the attempts, and the
follow-up offer for published tracks do not decide whether the message is applied.
-/

namespace Mistlib.Transport.NegotiationAck

inductive SdpType where
  | offer
  | pranswer
  | answer
  | rollback
deriving DecidableEq, Repr

structure Description where
  sdpType : SdpType
  sdp : String
deriving DecidableEq, Repr

inductive SignalingState where
  | stable
  | haveLocalOffer
  | haveLocalPranswer
  | haveRemoteOffer
  | haveRemotePranswer
  | closed
deriving DecidableEq, Repr

/-- A peer connection. `healthy` is whether it is connected with an open channel. -/
structure Peer where
  id : Nat
  signaling : SignalingState
  remoteDescription : Option Description
  localDescription : Option Description
  healthy : Bool
deriving DecidableEq, Repr

/-- The transport. The last three tables hold times in milliseconds. -/
structure WebRtcTransport where
  localNodeId : NodeId
  roomId : String
  maxConnections : Nat
  connectionStates : Table NodeId ConnectionState
  peers : Table NodeId Peer
  created : Nat
  establishedAt : Table NodeId Nat
  lastTakeoverAt : Table NodeId Nat
  connectStartedAt : Table NodeId Nat

structure DecodedNegotiation where
  sdp : String
  id : Option Nat
deriving DecidableEq, Repr

structure Answers where
  now : Nat
  decode : String → DecodedNegotiation
  /-- `parse_sdp_description`, for an offer or not. -/
  parse : String → Bool → Option Description
  /-- The transport when the call got its handshake permit, if it got one. -/
  permit : Option WebRtcTransport
  createPc : Bool
  /-- The connection when the call got its `negotiating` lock. -/
  locked : Peer → Peer
  setRemote : Bool
  createAnswer : Bool
  /-- The answer that became the local description, if it did. -/
  setLocal : Option Description
  send : Bool

/-! ## Texts of session descriptions -/

/-- Whether a line counts when two answers are compared: candidates do not. -/
def negotiated (line : List Char) : Bool :=
  !"a=candidate:".toList.isPrefixOf line && line != "a=end-of-candidates".toList

def sameNegotiation (applied incoming : String) : Bool :=
  (Text.lines applied.toList).filter negotiated == (Text.lines incoming.toList).filter negotiated

/-- The kind and the digits of the first fingerprint, if it has both. -/
def sdpFingerprint (sdp : String) : Option (List Char) :=
  let lines := (Text.lines sdp.toList).map Text.trim
  (lines.findSome? (Text.stripPrefix "a=fingerprint:".toList)).bind fun rest =>
    let rest := rest.dropWhile Text.isWhite
    let algo := Text.firstWord rest
    let hex := Text.firstWord (rest.drop algo.length)
    if algo = [] ∨ hex = [] then none
    else some (Text.toAsciiLowercase algo ++ ' ' :: hex.map Char.toUpper)

/-! ## The decisions on an offer -/

def CONNECTION_TIMEOUT_MS : Nat := 6000
def REMOTE_TAKEOVER_RECENT_CONNECT_MS : Nat := 5000
def REMOTE_TAKEOVER_MIN_INTERVAL_MS : Nat := 10000

def takeoverAllowed (healthy : Bool)
    (msSinceConnected msSinceLastTakeover msSinceConnectStarted : Option Nat) : Bool :=
  !(healthy && msSinceConnected.any (decide <| · < REMOTE_TAKEOVER_RECENT_CONNECT_MS)) &&
    !msSinceConnectStarted.any (decide <| · < CONNECTION_TIMEOUT_MS) &&
    !msSinceLastTakeover.any (decide <| · < REMOTE_TAKEOVER_MIN_INTERVAL_MS)

def offerTakeoverDecision (existingFingerprint incomingFingerprint : Option (List Char)) (healthy : Bool)
    (msSinceConnected msSinceLastTakeover msSinceConnectStarted : Option Nat) : Bool :=
  match existingFingerprint, incomingFingerprint with
  | some existing, some incoming =>
    existing != incoming &&
      takeoverAllowed healthy msSinceConnected msSinceLastTakeover msSinceConnectStarted
  | _, _ => false

inductive DuplicateOfferAction where
  | resendAnswer
  | ignore
deriving DecidableEq, Repr

def duplicateOfferDecision (remoteMatches : Bool) (signalingState : SignalingState)
    (localIsAnswer : Bool) : Option DuplicateOfferAction :=
  if !remoteMatches then none
  else
    match signalingState with
    | .stable => if localIsAnswer then some .resendAnswer else none
    | .haveRemoteOffer => some .ignore
    | _ => none

namespace WebRtcTransport

variable (t : WebRtcTransport)

def shouldTakeoverOnFreshOffer (now : Nat) (node : NodeId) (peer : Peer) (sdp : String) : Bool :=
  let since (at_ : Table NodeId Nat) : Option Nat := (at_.get node).map (now - ·)
  offerTakeoverDecision (peer.remoteDescription.bind fun desc => sdpFingerprint desc.sdp)
    (sdpFingerprint sdp) peer.healthy (since t.establishedAt) (since t.lastTakeoverAt)
    (since t.connectStartedAt)

/-- The part of `cleanup_session` that the handlers read again. -/
def cleanupSession (node : NodeId) : WebRtcTransport :=
  { t with
    peers := t.peers.erase node
    connectionStates := t.connectionStates.erase node
    establishedAt := t.establishedAt.erase node
    connectStartedAt := t.connectStartedAt.erase node }

def takeoverStaleSession (now : Nat) (node : NodeId) : WebRtcTransport :=
  { t.cleanupSession node with lastTakeoverAt := t.lastTakeoverAt.insert node now }

/-- The glare rule: this side's own offer goes on. -/
def ignoresForGlare (remote : NodeId) (peer : Peer) : Bool :=
  decide (t.localNodeId.id < remote.id) && decide (peer.signaling = .haveLocalOffer)

def activeConnectionCount : Nat :=
  t.connectionStates.values.countP fun state =>
    match state with
    | .connected | .connecting | .reconnecting => true
    | _ => false

/-- Whether there is no reservation for the node and no room for one. -/
def atCapacity (remote : NodeId) : Bool :=
  !t.connectionStates.contains remote && decide (t.maxConnections ≤ t.activeConnectionCount)

def reserve (remote : NodeId) : WebRtcTransport :=
  if t.connectionStates.contains remote then t
  else { t with connectionStates := t.connectionStates.insert remote .connecting }

/-- A new connection takes the place of the one there was. -/
def register (remote : NodeId) : Peer × WebRtcTransport :=
  let peer : Peer := ⟨t.created, .stable, none, none, false⟩
  (peer, { t with peers := t.peers.insert remote peer, created := t.created + 1 })

/-- What a connection has become shows where it is registered. -/
def update (remote : NodeId) (peer : Peer) : WebRtcTransport :=
  { t with peers := t.peers.modify remote fun p => if p.id = peer.id then peer else p }

end WebRtcTransport

/-! ## The handlers -/

/-- How a handler ends, with the connection it has given the message to. -/
structure Handled where
  transport : WebRtcTransport
  peer : Option Peer
  ok : Bool

variable (e : Answers)

/-- The connection after the wait for its lock. It is the same connection. -/
def Answers.lock (peer : Peer) : Peer := { e.locked peer with id := peer.id }

/-- `set_remote_description` and the steps after it. A failed one rolls back. -/
def applyOffer (peer : Peer) (sdp : String) : Bool × Peer :=
  let peer := e.lock peer
  if peer.signaling ≠ .stable then (false, peer)
  else
    match e.parse sdp true with
    | none => (false, peer)
    | some offer =>
      if !e.setRemote then (false, peer)
      else if !e.createAnswer then (false, peer)
      else
        match e.setLocal with
        | none => (false, peer)
        | some answer =>
          (e.send, { peer with remoteDescription := some offer, localDescription := some answer })

/-- The part of `handle_decoded_offer` that makes a connection. -/
def acceptOffer (t : WebRtcTransport) (remote : NodeId) (sdp : String) : Handled :=
  if t.atCapacity remote then ⟨t, none, true⟩
  else
    match e.permit with
    | none => ⟨t.reserve remote, none, false⟩
    | some t' =>
      if !t'.connectionStates.contains remote then ⟨t', none, true⟩
      else if !e.createPc then
        let newlyReserved := !t.connectionStates.contains remote
        ⟨if newlyReserved then { t' with connectionStates := t'.connectionStates.erase remote } else t',
          none, false⟩
      else
        let (peer, t') := t'.register remote
        let (ok, peer) := applyOffer e peer sdp
        if ok then ⟨t'.update remote peer, some peer, true⟩
        else ⟨t'.cleanupSession remote, some peer, false⟩

def handleDecodedOffer (t : WebRtcTransport) (remote : NodeId) (sdp : String) : Handled :=
  match t.peers.get remote with
  | none => acceptOffer e t remote sdp
  | some peer =>
    if t.ignoresForGlare remote peer then ⟨t, some peer, true⟩
    else if t.shouldTakeoverOnFreshOffer e.now remote peer sdp then
      acceptOffer e (t.takeoverStaleSession e.now remote) remote sdp
    else
      let remoteMatches := peer.remoteDescription.any fun desc => desc.sdp == sdp
      let localIsAnswer := peer.localDescription.any fun desc => desc.sdpType == .answer
      match duplicateOfferDecision remoteMatches peer.signaling localIsAnswer with
      | some _ => ⟨t, some peer, true⟩
      | none =>
        let (ok, peer) := applyOffer e peer sdp
        ⟨t.update remote peer, some peer, ok⟩

/-- Whether the connection's remote description is this answer, candidates aside. -/
def alreadyApplied (peer : Peer) (answer : Description) : Bool :=
  decide (peer.signaling = .stable) &&
    peer.remoteDescription.any fun applied =>
      applied.sdpType == .answer && sameNegotiation applied.sdp answer.sdp

def handleDecodedAnswer (t : WebRtcTransport) (remote : NodeId) (sdp : String) : Handled :=
  match t.peers.get remote with
  | none => ⟨t, none, true⟩
  | some peer =>
    let peer := e.lock peer
    let t := t.update remote peer
    match e.parse sdp false with
    | none => ⟨t, some peer, false⟩
    | some answer =>
      if alreadyApplied peer answer then ⟨t, some peer, true⟩
      else if peer.signaling ≠ .haveLocalOffer then ⟨t, some peer, false⟩
      else if !e.setRemote then
        let peer := { peer with signaling := .stable }
        ⟨t.update remote peer, some peer, false⟩
      else
        let peer := { peer with signaling := .stable, remoteDescription := some answer }
        ⟨t.update remote peer, some peer, true⟩

/-- The handler of an offer or an answer, with the id it acknowledges. -/
def handleMessage (t : WebRtcTransport) (data : SignalingData) : Handled × Option Nat :=
  if data.roomId ≠ "" ∧ data.roomId ≠ t.roomId then (⟨t, none, true⟩, none)
  else
    let payload := e.decode data.data
    let acknowledge (handled : Handled) := (handled, if handled.ok then payload.id else none)
    match data.signalingType with
    | .offer => acknowledge (handleDecodedOffer e t data.senderId payload.sdp)
    | .answer => acknowledge (handleDecodedAnswer e t data.senderId payload.sdp)
    | _ => (⟨t, none, true⟩, none)

/-! ## What is acknowledged -/

/-- The connection's remote description is the one that the message carries. That of an
answer may have gained candidates since. -/
def Carries (offer : Bool) (sdp : String) (peer : Peer) : Prop :=
  ∃ applied ∈ peer.remoteDescription, applied.sdp = sdp ∨ e.parse sdp offer = some applied ∨
    offer = false ∧ applied.sdpType = .answer ∧ ∃ answer, e.parse sdp offer = some answer ∧
      sameNegotiation applied.sdp answer.sdp = true

/-- The connection is one that was registered for the node before the call, or is
one that the call has registered. -/
def RegisteredFor (t t' : WebRtcTransport) (node : NodeId) (peer : Peer) : Prop :=
  (∃ p ∈ t.peers.get node, p.id = peer.id) ∨ ∃ p ∈ t'.peers.get node, p.id = peer.id

/-- The description that the message carries is that of a connection registered for
its sender. -/
def Applied (t : WebRtcTransport) (remote : NodeId) (offer : Bool) (sdp : String) (handled : Handled) :
    Prop :=
  ∃ peer ∈ handled.peer, RegisteredFor t handled.transport remote peer ∧ Carries e offer sdp peer

/-- Whatever transaction is acknowledged was applied. -/
def AcksApplied (t : WebRtcTransport) (data : SignalingData) : Prop :=
  ∀ id, (handleMessage e t data).2 = some id →
    Applied e t data.senderId (data.signalingType = .offer) (e.decode data.data).sdp
      (handleMessage e t data).1

/-- No connection is made for an offer: there is no room for one, or the node's
reservation has gone while the call waited for its permit. -/
def Refuses (t : WebRtcTransport) (remote : NodeId) : Prop :=
  t.atCapacity remote = true ∨
    t.atCapacity remote = false ∧ ∃ t' ∈ e.permit, t'.connectionStates.contains remote = false

/-- An offer that the connection does not have yet is dropped for glare, or no
connection is made for an offer. -/
def DropsOffer (t : WebRtcTransport) (remote : NodeId) (sdp : String) : Prop :=
  match t.peers.get remote with
  | none => Refuses e t remote
  | some peer =>
    t.ignoresForGlare remote peer = true ∧ ¬ Carries e true sdp peer ∨
      t.ignoresForGlare remote peer = false ∧
        t.shouldTakeoverOnFreshOffer e.now remote peer sdp = true ∧
          Refuses e (t.takeoverStaleSession e.now remote) remote

/-- A message of this room with a transaction id is not applied: it is an offer that
is dropped, or an answer of a node without a connection. -/
def Drops (t : WebRtcTransport) (data : SignalingData) : Prop :=
  (data.roomId = "" ∨ data.roomId = t.roomId) ∧ (e.decode data.data).id ≠ none ∧
    match data.signalingType with
    | .offer => DropsOffer e t data.senderId (e.decode data.data).sdp
    | .answer => t.peers.get data.senderId = none
    | _ => False

variable {e} {t t' : WebRtcTransport} {remote : NodeId} {peer : Peer} {sdp : String}

/-- How `applyOffer` ends: the connection is the same one, and it has the offer if all went well. -/
theorem applyOffer_cases (e : Answers) (peer : Peer) (sdp : String) :
    (applyOffer e peer sdp).2.id = peer.id ∧
      ((applyOffer e peer sdp).1 = true → Carries e true sdp (applyOffer e peer sdp).2) := by
  unfold applyOffer
  simp only
  split
  · exact ⟨rfl, nofun⟩
  · split
    · exact ⟨rfl, nofun⟩
    · next offer hparse =>
      split
      · exact ⟨rfl, nofun⟩
      · split
        · exact ⟨rfl, nofun⟩
        · split
          · exact ⟨rfl, nofun⟩
          · exact ⟨rfl, fun _ => ⟨offer, rfl, .inr (.inl hparse)⟩⟩

theorem get_update {p : Peer} (h : t.peers.get remote = some p) (hid : p.id = peer.id) :
    (t.update remote peer).peers.get remote = some peer := by
  simp [WebRtcTransport.update, h, hid]

theorem not_applied_none {ok : Bool} {offer : Bool} :
    ¬ Applied e t remote offer sdp ⟨t', none, ok⟩ := by
  rintro ⟨_, ⟨⟩, _⟩

/-- An offer that a new connection is made for is applied if it is acknowledged. -/
theorem acceptOffer_iff (before : WebRtcTransport) :
    ((acceptOffer e t remote sdp).ok = true →
      Applied e before remote true sdp (acceptOffer e t remote sdp)) ↔ ¬ Refuses e t remote := by
  unfold acceptOffer Refuses
  cases hfull : t.atCapacity remote with
  | true => simpa using not_applied_none
  | false =>
    cases hpermit : e.permit with
    | none => simp
    | some t' =>
      cases hactive : t'.connectionStates.contains remote with
      | false => simpa [hactive] using not_applied_none
      | true =>
        cases hcreate : e.createPc with
        | false => simp [hactive]
        | true =>
          obtain ⟨hid, hcarries⟩ := applyOffer_cases e (t'.register remote).1 sdp
          cases hok : (applyOffer e (t'.register remote).1 sdp).1 with
          | false => simp [hactive, hok]
          | true =>
            have hregistered : (t'.register remote).2.peers.get remote = some (t'.register remote).1 := by
              simp [WebRtcTransport.register]
            have hget := get_update hregistered hid.symm
            have happlied : Applied e before remote true sdp
                ⟨(t'.register remote).2.update remote (applyOffer e (t'.register remote).1 sdp).2,
                  some (applyOffer e (t'.register remote).1 sdp).2, true⟩ :=
              ⟨_, rfl, .inr ⟨_, hget, rfl⟩, hcarries hok⟩
            simpa [hactive, hok] using happlied

theorem duplicateOfferDecision_some {remoteMatches localIsAnswer : Bool} {signaling : SignalingState}
    {action : DuplicateOfferAction}
    (h : duplicateOfferDecision remoteMatches signaling localIsAnswer = some action) :
    remoteMatches = true := by
  cases remoteMatches with
  | true => rfl
  | false => cases h

/-- An offer that is acknowledged was applied, unless it was dropped. -/
theorem handleDecodedOffer_iff :
    ((handleDecodedOffer e t remote sdp).ok = true →
      Applied e t remote true sdp (handleDecodedOffer e t remote sdp)) ↔
      ¬ DropsOffer e t remote sdp := by
  unfold handleDecodedOffer DropsOffer
  cases hpeer : t.peers.get remote with
  | none => exact acceptOffer_iff t
  | some peer =>
    have hkept (ok : Bool) : Applied e t remote true sdp ⟨t, some peer, ok⟩ ↔ Carries e true sdp peer := by
      constructor
      · rintro ⟨p, hp, _, hcarries⟩
        cases hp
        exact hcarries
      · exact fun hcarries => ⟨peer, rfl, .inl ⟨peer, hpeer, rfl⟩, hcarries⟩
    cases hglare : t.ignoresForGlare remote peer with
    | true => simp [hkept, hglare]
    | false =>
      cases htakeover : t.shouldTakeoverOnFreshOffer e.now remote peer sdp with
      | true => simpa [hglare, htakeover] using acceptOffer_iff t
      | false =>
        simp only [hglare, htakeover, Bool.false_eq_true, if_false, false_and, and_false, or_false,
          not_false_eq_true, iff_true]
        split
        · next action hdecision =>
          have hmatches := duplicateOfferDecision_some hdecision
          obtain ⟨applied, happlied, hsame⟩ := (Option.any_eq_true _ _).mp hmatches
          exact fun _ => (hkept true).mpr ⟨applied, happlied, .inl (beq_iff_eq.mp hsame)⟩
        · obtain ⟨hid, hcarries⟩ := applyOffer_cases e peer sdp
          exact fun hok => ⟨_, rfl, .inl ⟨peer, hpeer, hid.symm⟩, hcarries hok⟩

theorem carries_of_alreadyApplied {answer : Description} (h : alreadyApplied peer answer = true) :
    ∃ applied ∈ peer.remoteDescription, applied.sdpType = .answer ∧
      sameNegotiation applied.sdp answer.sdp = true := by
  obtain ⟨_, hany⟩ := Bool.and_eq_true_iff.mp h
  obtain ⟨applied, happlied, hsame⟩ := (Option.any_eq_true _ _).mp hany
  obtain ⟨htype, hlines⟩ := Bool.and_eq_true_iff.mp hsame
  exact ⟨applied, happlied, beq_iff_eq.mp htype, hlines⟩

theorem handleDecodedAnswer_iff :
    ((handleDecodedAnswer e t remote sdp).ok = true →
      Applied e t remote false sdp (handleDecodedAnswer e t remote sdp)) ↔
      t.peers.get remote ≠ none := by
  unfold handleDecodedAnswer
  cases hpeer : t.peers.get remote with
  | none => simpa using not_applied_none
  | some peer =>
    simp only [ne_eq, reduceCtorEq, not_false_eq_true, iff_true]
    split
    · nofun
    · next answer hparse =>
      split
      · next hsame =>
        obtain ⟨applied, happlied, hsame⟩ := carries_of_alreadyApplied hsame
        exact fun _ => ⟨_, rfl, .inl ⟨peer, hpeer, rfl⟩, applied, happlied, .inr (.inr
          ⟨rfl, hsame.1, answer, hparse, hsame.2⟩)⟩
      · split
        · nofun
        · split
          · nofun
          · exact fun _ => ⟨_, rfl, .inl ⟨peer, hpeer, rfl⟩, answer, rfl, .inr (.inl hparse)⟩

theorem forall_ack {handled : Handled} {id : Option Nat} {P : Prop} :
    (∀ i, (if handled.ok then id else none) = some i → P) ↔ (id ≠ none → handled.ok = true → P) := by
  cases handled.ok with
  | false => simp
  | true =>
    cases id with
    | none | some i => simp

/-- What is acknowledged was applied, exactly where nothing is dropped. -/
theorem acksApplied_iff (e : Answers) (t : WebRtcTransport) (data : SignalingData) :
    AcksApplied e t data ↔ ¬ Drops e t data := by
  unfold AcksApplied Drops handleMessage
  by_cases hroom : data.roomId ≠ "" ∧ data.roomId ≠ t.roomId
  · simp [hroom]
  · have hours : data.roomId = "" ∨ data.roomId = t.roomId := by
      simpa only [not_and_or, not_not] using hroom
    rw [if_neg hroom]
    cases htype : data.signalingType with
    | offer =>
      simp only [hours, true_and, decide_true]
      rw [forall_ack, handleDecodedOffer_iff, not_and]
    | answer =>
      simp only [hours, true_and, reduceCtorEq, decide_false]
      rw [forall_ack, handleDecodedAnswer_iff, not_and]
    | _ => simp

/-! ### Messages that are dropped -/

section Runs

def a : NodeId := ⟨"a"⟩
def b : NodeId := ⟨"b"⟩

/-- Everything goes well, and the description and its id are the whole text. -/
def calm : Answers where
  now := 0
  decode text := ⟨text, some 7⟩
  parse text offer := some ⟨if offer then .offer else .answer, text⟩
  permit := none
  createPc := true
  locked := id
  setRemote := true
  createAnswer := true
  setLocal := none
  send := true

def alone : WebRtcTransport := ⟨a, "r", 3, ∅, ∅, 0, ∅, ∅, ∅⟩

/-- The node has sent an offer to `b`. -/
def offering : WebRtcTransport :=
  { alone with
    connectionStates := (∅ : Table NodeId ConnectionState).insert b .connecting
    peers := (∅ : Table NodeId Peer).insert b ⟨0, .haveLocalOffer, none, some ⟨.offer, "mine"⟩, false⟩
    created := 1 }

/-- The node has no room for another connection. -/
def full : WebRtcTransport := { alone with maxConnections := 0 }

/-- An offer that crosses this node's own is acknowledged, and so are an offer for
which there is no room and an answer for which there is no connection. -/
theorem dropped_acknowledged :
    (handleMessage calm offering ⟨b, a, "r", "sdp", .offer⟩).2 = some 7 ∧
      (handleMessage calm full ⟨b, a, "r", "sdp", .offer⟩).2 = some 7 ∧
      (handleMessage calm alone ⟨b, a, "r", "sdp", .answer⟩).2 = some 7 ∧
      ¬ AcksApplied calm offering ⟨b, a, "r", "sdp", .offer⟩ ∧
      ¬ AcksApplied calm full ⟨b, a, "r", "sdp", .offer⟩ ∧
      ¬ AcksApplied calm alone ⟨b, a, "r", "sdp", .answer⟩ := by
  refine ⟨by decide +kernel, by decide +kernel, by decide +kernel, fun h => ?_, fun h => ?_, fun h => ?_⟩
  · obtain ⟨peer, hpeer, _, applied, happlied, _⟩ := h 7 (by decide +kernel)
    have hnone : (handleMessage calm offering ⟨b, a, "r", "sdp", .offer⟩).1.peer.bind
        Peer.remoteDescription = none := by
      decide +kernel
    rw [hpeer, Option.bind_some, happlied] at hnone
    cases hnone
  · obtain ⟨peer, hpeer, _⟩ := h 7 (by decide +kernel)
    have hnone : (handleMessage calm full ⟨b, a, "r", "sdp", .offer⟩).1.peer = none := by
      decide +kernel
    rw [hpeer] at hnone
    cases hnone
  · obtain ⟨peer, hpeer, _⟩ := h 7 (by decide +kernel)
    have hnone : (handleMessage calm alone ⟨b, a, "r", "sdp", .answer⟩).1.peer = none := by
      decide +kernel
    rw [hpeer] at hnone
    cases hnone

end Runs

end Mistlib.Transport.NegotiationAck
