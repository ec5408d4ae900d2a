import Mistlib.Browser.AnswerMatch
import Mistlib.Browser.PeerCleanup

/-!
# Copies of a negotiation transaction

`handle_message` for the Offers and Answers of one node. A message may come several times, over
two routes and again by its sender's retries, and its copies carry the id of one transaction.
They are recognized by the ids recorded when transactions were acknowledged.

A step goes from one await to the next, and what the browser answers is arbitrary. Whatever
tears the node's peer down ends the run.
-/

namespace Mistlib.Browser.Transactions

open Negotiation (MAX_NEGOTIATIONS_PER_NODE mlineSignature sameNegotiation)

def MAX_NEGOTIATION_NODES : Nat := 256

/-- What an Offer or Answer carries: older senders give no id. -/
structure Payload where
  id : Option Nat
  sdp : String
deriving DecidableEq, Repr

inductive Signaling where
  | stable
  | haveLocalOffer (sdp : String)
  | haveRemoteOffer
deriving DecidableEq, Repr

def Signaling.snapshot : Signaling → SignalingSnapshot
  | .stable => .stable
  | .haveLocalOffer _ => .haveLocalOffer
  | .haveRemoteOffer => .other

structure Peer where
  signaling : Signaling
  /-- The current remote description is an answer. -/
  remoteIsAnswer : Bool
  /-- The answer whose text is in `applied_answer_sdp`. -/
  appliedAnswer : Option Payload
  /-- The call that holds the lock. -/
  negotiating : Option Nat
deriving DecidableEq, Repr

/-- How a call is over: a message that is settled is acknowledged if it has an id. -/
inductive Ending where
  | settled
  | ignored
  | failed
deriving DecidableEq, Repr

inductive Call where
  /-- `renegotiate_peer` or an ICE restart, on a peer that `connect` has just
  built or on another. -/
  | offering (first : Bool) (await : Await)
  | applying (payload : Payload) (await : Await)
  /-- `handle_offer` answers over the peer it has built. -/
  | answering (payload : Payload) (await : Await)
  /-- `handle_offer` has answered and offers the published tracks. -/
  | offeringTracks (payload : Payload) (await : Await)
  /-- The `Answer` arm waits for the lock. -/
  | takingAnswer (payload : Payload)
  | addingCandidates (payload : Payload)
  | settingAnswer (payload : Payload)
  | rollingBack
  | returned (ending : Ending)
deriving DecidableEq, Repr

structure Transport where
  peer : Option Peer
  /-- The node's ids in the table of received ones, the oldest first. It is in
  the table if there are any. -/
  received : List Nat
  calls : List Call
  /-- The ids of the descriptions that were applied. -/
  applied : List Nat
  /-- The ids that were ever recorded as received, the latest first. -/
  recorded : List Nat
  /-- The acknowledgements: the call that sent one, and the id. -/
  acks : List (Nat × Nat)
deriving DecidableEq, Repr

/-- What a step reads of its surroundings. -/
structure Around where
  connectionState : Option ConnectionState
  activeConnections : Nat
  maxConnections : Nat
  created : Bool
  /-- Tracks are published to the node, and its connection state lets them be offered. -/
  publishedTracks : Bool
  nodes : Nat
  offerSdp : String
deriving DecidableEq, Repr

namespace Peer

def new : Peer where
  signaling := .stable
  remoteIsAnswer := false
  appliedAnswer := none
  negotiating := none

def lock (p : Peer) (call : Nat) : Peer := { p with negotiating := some call }

def unlock (p : Peer) : Peer := { p with negotiating := none }

/-- What a wait of an own offer leaves of the connection. -/
def offer (p : Peer) (sdp : String) : Await → Outcome → Peer
  | .setLocal, .fulfilled => { p with signaling := .haveLocalOffer sdp }
  | .rollback, .fulfilled => { p with signaling := .stable }
  | _, _ => p

/-- What a wait of an answer to an offer leaves of the connection. -/
def answer (p : Peer) : Await → Outcome → Peer
  | .setRemoteOffer, .fulfilled => { p with signaling := .haveRemoteOffer }
  | .setLocal, .fulfilled => { p with signaling := .stable, remoteIsAnswer := false }
  | .rollback, .fulfilled | .rollbackOffer _, .fulfilled => { p with signaling := .stable }
  | _, _ => p

def complete (p : Peer) (payload : Payload) : Peer :=
  { p with signaling := .stable, remoteIsAnswer := true, appliedAnswer := some payload }

end Peer

namespace Transport

def new : Transport where
  peer := none
  received := []
  calls := []
  applied := []
  recorded := []
  acks := []

def setPeer (t : Transport) (p : Peer) : Transport := { t with peer := some p }

/-- `remember_received`, where the table holds ids of so many nodes. -/
def rememberReceived (t : Transport) (nodes id : Nat) : Transport :=
  if id ∈ t.received then t
  else if t.received = [] ∧ MAX_NEGOTIATION_NODES ≤ nodes then t
  else
    let items := if MAX_NEGOTIATIONS_PER_NODE ≤ t.received.length then t.received.tail else t.received
    { t with received := items ++ [id], recorded := id :: t.recorded }

/-- `acknowledge_negotiation`, if the message has an id. -/
def acknowledge (t : Transport) (call nodes : Nat) : Option Nat → Transport
  | none => t
  | some id => { t.rememberReceived nodes id with acks := (call, id) :: t.acks }

def apply (t : Transport) (payload : Payload) : Transport :=
  { t with applied := payload.id.toList ++ t.applied }

/-- An offer is applied once its answer is the local description. -/
def applyAt (t : Transport) (payload : Payload) : Await → Outcome → Transport
  | .setLocal, .fulfilled => t.apply payload
  | _, _ => t

/-- What a step of a call leaves, and the phase it leaves the call in. -/
abbrev Turn := Transport × Call

def settle (t : Transport) (call nodes : Nat) (payload : Payload) : Turn :=
  (t.acknowledge call nodes payload.id, .returned .settled)

def handleOffer (t : Transport) (payload : Payload) (around : Around) : Turn :=
  let signaling := t.peer.elim .other fun p => p.signaling.snapshot
  match offerActionForSnapshot t.peer.isSome false around.connectionState around.activeConnections
      around.maxConnections signaling with
  | .applyInPlace | .yieldAndApply => (t, .applying payload .lock)
  | .accept _ =>
    if around.created then (t.setPeer .new, .answering payload .lock)
    else (t, .returned .failed)
  | _ => (t, .returned .ignored)

def handleMessage (t : Transport) (offer : Bool) (payload : Payload) (around : Around) : Turn :=
  if payload.id.any fun id => decide (id ∈ t.received) then
    t.settle t.calls.length around.nodes payload
  else if offer then t.handleOffer payload around
  else if t.peer.isSome then (t, .takingAnswer payload)
  else (t, .returned .ignored)

/-- The `Answer` arm once it has the lock. -/
def takeAnswer (t : Transport) (call : Nat) (p : Peer) (payload : Payload) : Turn :=
  match p.signaling with
  | .stable =>
    if p.remoteIsAnswer ∧ p.appliedAnswer.any fun a => sameNegotiation a.sdp payload.sdp then
      (t.setPeer (p.lock call), .addingCandidates payload)
    else (t, .returned .failed)
  | .haveLocalOffer sdp =>
    if mlineSignature sdp = mlineSignature payload.sdp then
      (t.setPeer (p.lock call), .settingAnswer payload)
    else (t, .returned .ignored)
  | .haveRemoteOffer => (t, .returned .failed)

/-- A suspended call goes on, or not where it would have to wait for the lock or
would tear the peer down. -/
def resume (t : Transport) (call : Nat) (around : Around) (outcome : Outcome) (p : Peer) : Call → Option Turn
  | .offering first .lock =>
    if p.negotiating ≠ none then none
    else if p.signaling = .stable ∧ outcome = .fulfilled then
      some (t.setPeer (p.lock call), .offering first .createOffer)
    else if first then none
    else some (t, .returned .failed)
  | .offering first await =>
    let after := p.offer around.offerSdp await outcome
    match renegotiatePeer await outcome with
    | .goesOn next => some (t.setPeer after, .offering first next)
    | .succeeds => some (t.setPeer after.unlock, .returned .settled)
    | _ => if first then none else some (t.setPeer after.unlock, .returned .failed)
  | .applying payload .lock =>
    if p.negotiating ≠ none then none
    else if p.signaling = .haveRemoteOffer then some (t, .returned .failed)
    else some (t.setPeer (p.lock call), .applying payload .setRemoteOffer)
  | .applying payload await =>
    let after := p.answer await outcome
    match applyOfferInPlace await outcome with
    | .goesOn next => some ((t.setPeer after).applyAt payload await outcome, .applying payload next)
    | .succeeds => some ((t.setPeer after.unlock).settle call around.nodes payload)
    | .fails => some (t.setPeer after.unlock, .returned .failed)
    | .rebuilds => none
  | .answering payload .lock =>
    if p.negotiating = none ∧ p.signaling = .stable then
      some (t.setPeer (p.lock call), .answering payload .setRemoteOffer)
    else none
  | .answering payload await =>
    let after := p.answer await outcome
    match answerOffer await outcome with
    | .goesOn next => some ((t.setPeer after).applyAt payload await outcome, .answering payload next)
    | .succeeds =>
      if around.publishedTracks then some (t.setPeer after.unlock, .offeringTracks payload .lock)
      else some ((t.setPeer after.unlock).settle call around.nodes payload)
    | _ => none
  | .offeringTracks payload .lock =>
    if p.negotiating ≠ none then none
    else if p.signaling = .stable ∧ outcome = .fulfilled then
      some (t.setPeer (p.lock call), .offeringTracks payload .createOffer)
    else some (t.settle call around.nodes payload)
  | .offeringTracks payload await =>
    let after := p.offer around.offerSdp await outcome
    match renegotiatePeer await outcome with
    | .goesOn next => some (t.setPeer after, .offeringTracks payload next)
    | _ => some ((t.setPeer after.unlock).settle call around.nodes payload)
  | .takingAnswer payload =>
    if p.negotiating ≠ none then none
    else some (t.takeAnswer call p payload)
  | .addingCandidates payload => some ((t.setPeer p.unlock).settle call around.nodes payload)
  | .settingAnswer payload =>
    if outcome = .fulfilled then
      some (((t.setPeer (p.complete payload).unlock).apply payload).settle call around.nodes payload)
    else some (t, .rollingBack)
  | .rollingBack =>
    let signaling := if outcome = .fulfilled then .stable else p.signaling
    some (t.setPeer { p with signaling }.unlock, .returned .failed)
  | .returned _ => none

end Transport

inductive Input where
  | connect
  | renegotiate
  /-- A copy of an Offer, or of an Answer, arrives. -/
  | message (offer : Bool) (payload : Payload) (around : Around)
  | resume (call : Nat) (around : Around) (outcome : Outcome)
deriving DecidableEq, Repr

namespace Transport

def begun (turn : Turn) : Transport := { turn.1 with calls := turn.1.calls ++ [turn.2] }

def step (t : Transport) : Input → Option Transport
  | .connect =>
    match t.peer with
    | none => some (begun (t.setPeer .new, .offering true .lock))
    | some _ => none
  | .renegotiate => t.peer.map fun _ => begun (t, .offering false .lock)
  | .message offer payload around => some (begun (t.handleMessage offer payload around))
  | .resume i around outcome =>
    t.peer.bind fun p => t.calls[i]?.bind fun c =>
      (t.resume i around outcome p c).map fun turn => { turn.1 with calls := turn.1.calls.set i turn.2 }

end Transport

/-! ## Where a call stands with its message -/

/-- The id, while the offer is being applied. -/
def Payload.underWayAt (payload : Payload) : Await → Option Nat
  | .setRemoteOffer | .createAnswer | .setLocal => payload.id
  | _ => none

/-- The id, while the answer to the applied offer is being sent. -/
def Payload.appliedAt (payload : Payload) : Await → Option Nat
  | .send => payload.id
  | _ => none

namespace Call

def holds : Call → Bool
  | .offering _ await | .applying _ await | .answering _ await
  | .offeringTracks _ await => decide (await ≠ .lock)
  | .takingAnswer _ => false
  | .addingCandidates _ | .settingAnswer _ | .rollingBack => true
  | .returned _ => false

/-- The id of the description that the call is applying. -/
def underWay : Call → Option Nat
  | .applying payload await | .answering payload await => payload.underWayAt await
  | .settingAnswer payload => payload.id
  | _ => none

/-- The id that the call has found or made applied and is yet to record. -/
def unrecorded : Call → Option Nat
  | .applying payload await | .answering payload await => payload.appliedAt await
  | .offeringTracks payload _ | .addingCandidates payload => payload.id
  | _ => none

/-- What the call goes on to apply if it gets the lock now. -/
def enters (signaling : Signaling) : Call → Option Payload
  | .applying payload .lock => if signaling = .haveRemoteOffer then none else some payload
  | .answering payload .lock => if signaling = .stable then some payload else none
  | .takingAnswer payload =>
    match signaling with
    | .haveLocalOffer sdp =>
      if mlineSignature sdp = mlineSignature payload.sdp then some payload else none
    | _ => none
  | _ => none

/-- The answer that is taken for the applied one if its call gets the lock now. -/
def matched (p : Peer) : Call → Option Payload
  | .takingAnswer payload =>
    if p.signaling = .stable ∧ p.remoteIsAnswer ∧
        p.appliedAnswer.any fun a => sameNegotiation a.sdp payload.sdp then
      some payload
    else none
  | _ => none

def settling : Call → Bool
  | .settingAnswer _ => true
  | c => c.unrecorded.isSome

end Call

namespace Transport

/-- Fewer than 64 transactions were recorded since this one was. -/
def Recent (t : Transport) (id : Nat) : Prop :=
  id ∈ t.recorded → (t.recorded.takeWhile fun other => other != id).length < MAX_NEGOTIATIONS_PER_NODE
deriving Decidable

/-- No copy is recorded, and no other call has one applied that it is yet to record. -/
def Fresh (t : Transport) (id : Nat) : Prop :=
  id ∉ t.received ∧ ∀ c ∈ t.calls, c.unrecorded ≠ some id
deriving Decidable

/-- The node has an entry in the table of received ids, or there is room for one. -/
def HasRoom (t : Transport) (nodes : Nat) : Prop := t.received = [] → nodes < MAX_NEGOTIATION_NODES
deriving Decidable

/-- The answer whose text is the applied one is a copy of it. -/
def Own (t : Transport) (p : Peer) (id : Nat) : Prop :=
  id ∈ t.received ∨ ∃ a ∈ p.appliedAnswer, a.id = some id
deriving Decidable

/-- What a step may not find: a call that gets the lock for a copy of what was
applied meanwhile, a table without room, an answer that reads like another. -/
def Timely (t : Transport) : Input → Prop
  | .resume i around _ =>
    ∀ p ∈ t.peer, ∀ c ∈ t.calls[i]?,
      (∀ payload ∈ c.enters p.signaling, ∀ id ∈ payload.id, t.Fresh id) ∧
      (∀ payload ∈ c.matched p, ∀ id ∈ payload.id, t.Own p id) ∧
      (c.settling = true → t.HasRoom around.nodes)
  | _ => True

/-- When a call gets the lock for a copy, fewer than 64 other transactions were
recorded since its own was. -/
def Window (t : Transport) : Input → Prop
  | .resume i _ _ =>
    ∀ p ∈ t.peer, ∀ c ∈ t.calls[i]?, ∀ payload ∈ c.enters p.signaling, ∀ id ∈ payload.id, t.Recent id
  | _ => True

instance (t : Transport) : DecidablePred t.Timely
  | .resume i around _ =>
    inferInstanceAs (Decidable (∀ p ∈ t.peer, ∀ c ∈ t.calls[i]?,
      (∀ payload ∈ c.enters p.signaling, ∀ id ∈ payload.id, t.Fresh id) ∧
      (∀ payload ∈ c.matched p, ∀ id ∈ payload.id, t.Own p id) ∧
      (c.settling = true → t.HasRoom around.nodes)))
  | .connect | .renegotiate | .message _ _ _ => .isTrue trivial

instance (t : Transport) : DecidablePred t.Window
  | .resume i _ _ =>
    inferInstanceAs (Decidable (∀ p ∈ t.peer, ∀ c ∈ t.calls[i]?, ∀ payload ∈ c.enters p.signaling,
      ∀ id ∈ payload.id, t.Recent id))
  | .connect | .renegotiate | .message _ _ _ => .isTrue trivial

/-- Each description is applied at most once, a copy is acknowledged only after
that, and none whose application failed. -/
structure Once (t : Transport) : Prop where
  applied : t.applied.Nodup
  acknowledged : ∀ ack ∈ t.acks, ack.2 ∈ t.applied
  failed : ∀ i, t.calls[i]? = some (.returned .failed) → ∀ ack ∈ t.acks, ack.1 ≠ i

end Transport

/-! ## How a negotiation goes on -/

theorem Peer.offer_frame (p : Peer) (sdp : String) (await : Await) (outcome : Outcome) :
    (p.offer sdp await outcome).appliedAnswer = p.appliedAnswer ∧
      (p.offer sdp await outcome).negotiating = p.negotiating := by
  unfold Peer.offer
  split
  · exact ⟨rfl, rfl⟩
  · exact ⟨rfl, rfl⟩
  · exact ⟨rfl, rfl⟩

theorem Peer.answer_frame (p : Peer) (await : Await) (outcome : Outcome) :
    (p.answer await outcome).appliedAnswer = p.appliedAnswer ∧
      (p.answer await outcome).negotiating = p.negotiating := by
  unfold Peer.answer
  split
  · exact ⟨rfl, rfl⟩
  · exact ⟨rfl, rfl⟩
  · exact ⟨rfl, rfl⟩
  · exact ⟨rfl, rfl⟩
  · exact ⟨rfl, rfl⟩

section Progress

variable {await next : Await} {outcome : Outcome} {t : Transport} {payload : Payload}

theorem applyOfferInPlace_goesOn (h : applyOfferInPlace await outcome = .goesOn next) (hlock : await ≠ .lock) :
    next ≠ .lock ∧ ((await = .setLocal ∧ outcome = .fulfilled ∧ next = .send) ∨
      t.applyAt payload await outcome = t ∧
        (payload.underWayAt next = none ∨ payload.underWayAt next = payload.underWayAt await) ∧
        payload.appliedAt next = payload.appliedAt await) := by
  unfold applyOfferInPlace at h
  split at h
  · exact absurd rfl hlock
  · cases h
    exact ⟨nofun, .inr ⟨rfl, .inr rfl, rfl⟩⟩
  · cases h
    exact ⟨nofun, .inr ⟨rfl, .inl rfl, rfl⟩⟩
  · cases h
  · cases h
    exact ⟨nofun, .inr ⟨rfl, .inr rfl, rfl⟩⟩
  · cases h
    exact ⟨nofun, .inr ⟨rfl, .inl rfl, rfl⟩⟩
  · cases h
    exact ⟨nofun, .inl ⟨rfl, rfl, rfl⟩⟩
  · cases h
    exact ⟨nofun, .inr ⟨rfl, .inl rfl, rfl⟩⟩
  · cases h
  · cases h

theorem answerOffer_goesOn (h : answerOffer await outcome = .goesOn next) :
    applyOfferInPlace await outcome = .goesOn next := by
  unfold answerOffer at h
  split at h
  · exact h
  · exact h
  · exact h
  · exact h
  · cases h
  · cases h

theorem applyOfferInPlace_succeeds (h : applyOfferInPlace await outcome = .succeeds) : await = .send := by
  unfold applyOfferInPlace at h
  split at h
  all_goals first | rfl | cases h

theorem answerOffer_succeeds (h : answerOffer await outcome = .succeeds) : await = .send := by
  unfold answerOffer at h
  split at h
  all_goals first | rfl | cases h

theorem applyOfferInPlace_fails (h : applyOfferInPlace await outcome = .fails) :
    payload.appliedAt await = none := by
  cases await with
  | send => simp [applyOfferInPlace] at h
  | _ => rfl

theorem renegotiatePeer_goesOn (h : renegotiatePeer await outcome = .goesOn next) : next ≠ .lock := by
  unfold renegotiatePeer at h
  split at h
  all_goals
    cases h
    try nofun

end Progress

namespace Transport

/-! ## One turn of a call -/

/-- What a turn does to the lock, given who holds it before and after, and
whether the call does. -/
inductive Grip (call : Nat) : Option Nat → Option Nat → Bool → Bool → Prop
  | keeps (n : Option Nat) : Grip call n n true true
  | gives (n : Option Nat) : Grip call n none true false
  | takes : Grip call none (some call) false true
  | stays (n : Option Nat) : Grip call n n false false

inductive Deals (t : Transport) (p : Peer) (call nodes : Nat) (c : Call) : Transport → Call → Prop
  | passes {p' : Peer} {c' : Call} (hanswer : p'.appliedAnswer = p.appliedAnswer)
      (hway : c'.underWay = none ∨ c'.underWay = c.underWay) (hrecord : c'.unrecorded = c.unrecorded) :
      Deals t p call nodes c (t.setPeer p') c'
  | enters {payload : Payload} {c' : Call} (h : payload ∈ c.enters p.signaling)
      (hway : c'.underWay = payload.id) (hrecord : c'.unrecorded = none) (hold : c.unrecorded = none) :
      Deals t p call nodes c (t.setPeer (p.lock call)) c'
  | recognizes {payload : Payload} (h : payload ∈ c.matched p) (hold : c.unrecorded = none) :
      Deals t p call nodes c (t.setPeer (p.lock call)) (.addingCandidates payload)
  | applies {payload : Payload} {p' : Peer} {c' : Call} (hanswer : p'.appliedAnswer = p.appliedAnswer)
      (hold : c.underWay = payload.id) (hbefore : c.unrecorded = none) (hway : c'.underWay = none)
      (hrecord : c'.unrecorded = payload.id) :
      Deals t p call nodes c ((t.setPeer p').apply payload) c'
  | settles {payload : Payload} {p' : Peer} (hanswer : p'.appliedAnswer = p.appliedAnswer)
      (hold : c.unrecorded = payload.id) :
      Deals t p call nodes c ((t.setPeer p').acknowledge call nodes payload.id) (.returned .settled)
  | completes {payload : Payload} (hold : c = .settingAnswer payload) :
      Deals t p call nodes c
        (((t.setPeer (p.complete payload).unlock).apply payload).acknowledge call nodes payload.id)
        (.returned .settled)

/-- The lock of the registered peer, if there is one. -/
def negotiating (t : Transport) : Option Nat := t.peer.bind Peer.negotiating

structure Turns (t : Transport) (p : Peer) (call nodes : Nat) (c : Call) (turn : Turn) : Prop where
  deals : Deals t p call nodes c turn.1 turn.2
  grip : Grip call p.negotiating turn.1.negotiating c.holds turn.2.holds

variable {t t' : Transport} {p p' : Peer} {call nodes id : Nat} {c : Call} {turn : Turn}
  {around : Around} {outcome : Outcome} {input : Input} {payload : Payload}

theorem rememberReceived_cases (t : Transport) (nodes id : Nat) :
    (t.rememberReceived nodes id = t ∧ (id ∈ t.received ∨ ¬ t.HasRoom nodes)) ∨
      id ∉ t.received ∧ t.rememberReceived nodes id = { t with
        received := (if MAX_NEGOTIATIONS_PER_NODE ≤ t.received.length then t.received.tail
          else t.received) ++ [id]
        recorded := id :: t.recorded } := by
  unfold rememberReceived
  split
  · next hin => exact .inl ⟨rfl, .inl hin⟩
  · next hin =>
    split
    · next hfull =>
      refine .inl ⟨rfl, .inr fun hroom => ?_⟩
      exact absurd (hroom hfull.1) (Nat.not_lt.mpr hfull.2)
    · exact .inr ⟨hin, rfl⟩

theorem acknowledge_frame (t : Transport) (call nodes : Nat) (id : Option Nat) :
    (t.acknowledge call nodes id).peer = t.peer ∧ (t.acknowledge call nodes id).calls = t.calls ∧
      (t.acknowledge call nodes id).applied = t.applied := by
  cases id with
  | none => exact ⟨rfl, rfl, rfl⟩
  | some id =>
    simp only [acknowledge]
    rcases t.rememberReceived_cases nodes id with ⟨hsame, -⟩ | ⟨-, hmore⟩
    · rw [hsame]
      exact ⟨rfl, rfl, rfl⟩
    · rw [hmore]
      exact ⟨rfl, rfl, rfl⟩

theorem setPeer_self (hp : t.peer = some p) : t.setPeer p = t := by
  rw [setPeer, ← hp]

theorem Turns.still (hp : t.peer = some p) {c' : Call} (hholds : c.holds = false) (hholds' : c'.holds = false)
    (hway : c'.underWay = none) (hrecord : c'.unrecorded = c.unrecorded) :
    Turns t p call nodes c (t, c') where
  deals := by
    have hpasses : Deals t p call nodes c (t.setPeer p) c' := .passes rfl (.inl hway) hrecord
    rwa [setPeer_self hp] at hpasses
  grip := by
    have hpeer : t.negotiating = p.negotiating := by
      rw [negotiating, hp]
      rfl
    rw [hpeer, hholds, hholds']
    exact .stays _

theorem Turns.moves {p' : Peer} {c' : Call} (hdeals : Deals t p call nodes c (t.setPeer p') c')
    (hgrip : Grip call p.negotiating p'.negotiating c.holds c'.holds) :
    Turns t p call nodes c (t.setPeer p', c') where
  deals := hdeals
  grip := hgrip

theorem negotiating_acknowledge (t : Transport) (call nodes : Nat) (id : Option Nat) :
    (t.acknowledge call nodes id).negotiating = t.negotiating := by
  rw [negotiating, (t.acknowledge_frame call nodes id).1, negotiating]

theorem Turns.settles {p' : Peer} (hanswer : p'.appliedAnswer = p.appliedAnswer)
    (hold : c.unrecorded = payload.id) (hholds : c.holds = true) :
    Turns t p call nodes c ((t.setPeer p'.unlock).settle call nodes payload) where
  deals := .settles hanswer hold
  grip := by
    have hfree : ((t.setPeer p'.unlock).settle call nodes payload).1.negotiating = none :=
      negotiating_acknowledge _ _ _ _
    rw [hfree, hholds]
    exact .gives _

theorem Turns.carries {await next : Await} (hlock : await ≠ .lock)
    (h : applyOfferInPlace await outcome = .goesOn next) (c' : Call)
    (hholds : c.holds = true) (hway : c.underWay = payload.underWayAt await)
    (hrecord : c.unrecorded = payload.appliedAt await) (hholds' : next ≠ .lock → c'.holds = true)
    (hway' : c'.underWay = payload.underWayAt next) (hrecord' : c'.unrecorded = payload.appliedAt next) :
    Turns t p call nodes c ((t.setPeer (p.answer await outcome)).applyAt payload await outcome, c') := by
  obtain ⟨hanswer, hnegotiating⟩ := p.answer_frame await outcome
  obtain ⟨hnext, hat⟩ := applyOfferInPlace_goesOn (t := t.setPeer (p.answer await outcome)) h hlock
  have hgrip : Grip call p.negotiating (p.answer await outcome).negotiating c.holds c'.holds := by
    rw [hnegotiating, hholds, hholds' hnext]
    exact .keeps _
  rcases hat with ⟨rfl, rfl, rfl⟩ | ⟨hsame, hways, hrecords⟩
  · exact ⟨.applies hanswer hway hrecord hway' hrecord', hgrip⟩
  · rw [hsame]
    refine .moves (.passes hanswer ?_ ?_) hgrip
    · rw [hway', hway]
      exact hways
    · rw [hrecord', hrecord]
      exact hrecords

theorem Turns.takes {c' : Call} (hfree : p.negotiating = none)
    (hdeals : Deals t p call nodes c (t.setPeer (p.lock call)) c') (hholds : c.holds = false)
    (hholds' : c'.holds = true) : Turns t p call nodes c (t.setPeer (p.lock call), c') := by
  refine .moves hdeals ?_
  rw [hfree, hholds, hholds']
  exact .takes

theorem takeAnswer_turns (hp : t.peer = some p) (hfree : p.negotiating = none) :
    Turns t p call nodes (.takingAnswer payload) (t.takeAnswer call p payload) := by
  unfold takeAnswer
  split
  · next hstable =>
    split
    · next hsame =>
      refine .takes hfree (.recognizes ?_ rfl) rfl rfl
      exact if_pos ⟨hstable, hsame⟩
    · exact .still hp rfl rfl rfl rfl
  · next sdp hlocal =>
    split
    · next hlines =>
      refine .takes hfree (.enters ?_ rfl rfl rfl) rfl rfl
      rw [hlocal]
      exact if_pos hlines
    · exact .still hp rfl rfl rfl rfl
  · exact .still hp rfl rfl rfl rfl

/-- What a turn of a call does to the books. -/
theorem turn_cases (hp : t.peer = some p) (h : t.resume call around outcome p c = some turn) :
    Turns t p call around.nodes c turn := by
  have hholds : ∀ {await : Await}, (await = .lock → False) → decide (await ≠ .lock) = true :=
    fun hlock => decide_eq_true hlock
  unfold resume at h
  split at h
  · split at h
    · cases h
    · next hfree =>
      split at h
      · cases h
        exact .takes (not_not.mp hfree) (.passes rfl (.inl rfl) rfl) rfl rfl
      · split at h
        · cases h
        · cases h
          exact .still hp rfl rfl rfl rfl
  · next first await hlock =>
    obtain ⟨hanswer, hnegotiating⟩ := p.offer_frame around.offerSdp await outcome
    simp only at h
    split at h
    · next next hprogress =>
      cases h
      refine .moves (.passes hanswer (.inl rfl) rfl) ?_
      rw [hnegotiating, Call.holds, Call.holds, hholds hlock, hholds (renegotiatePeer_goesOn hprogress)]
      exact .keeps _
    · cases h
      refine .moves (.passes hanswer (.inl rfl) rfl) ?_
      rw [Call.holds, hholds hlock]
      exact .gives _
    · split at h
      · cases h
      · cases h
        refine .moves (.passes hanswer (.inl rfl) rfl) ?_
        rw [Call.holds, hholds hlock]
        exact .gives _
  · next payload =>
    split at h
    · cases h
    · next hfree =>
      split at h
      · cases h
        exact .still hp rfl rfl rfl rfl
      · next hstate =>
        cases h
        exact .takes (not_not.mp hfree) (.enters (if_neg hstate) rfl rfl rfl) rfl rfl
  · next payload await hlock =>
    simp only at h
    split at h
    · next next hprogress =>
      cases h
      exact .carries hlock hprogress _ (hholds hlock) rfl rfl hholds rfl rfl
    · next hprogress =>
      cases h
      cases applyOfferInPlace_succeeds hprogress
      exact .settles (p.answer_frame _ _).1 rfl rfl
    · next hprogress =>
      cases h
      refine .moves (.passes (p.answer_frame _ _).1 (.inl rfl) ?_) ?_
      · exact (applyOfferInPlace_fails hprogress).symm
      · rw [Call.holds, hholds hlock]
        exact .gives _
    · cases h
  · next payload =>
    split at h
    · next hready =>
      cases h
      exact .takes hready.1 (.enters (if_pos hready.2) rfl rfl rfl) rfl rfl
    · cases h
  · next payload await hlock =>
    simp only at h
    split at h
    · next next hprogress =>
      cases h
      exact .carries hlock (answerOffer_goesOn hprogress) _ (hholds hlock) rfl rfl hholds rfl rfl
    · next hprogress =>
      cases answerOffer_succeeds hprogress
      split at h
      · cases h
        exact .moves (.passes (p.answer_frame _ _).1 (.inl rfl) rfl) (.gives _)
      · cases h
        exact .settles (p.answer_frame _ _).1 rfl rfl
    · cases h
  · next payload =>
    split at h
    · cases h
    · next hfree =>
      split at h
      · cases h
        exact .takes (not_not.mp hfree) (.passes rfl (.inl rfl) rfl) rfl rfl
      · cases h
        refine ⟨?_, ?_⟩
        · have hsettles : Deals t p call around.nodes (.offeringTracks payload .lock)
              ((t.setPeer p).acknowledge call around.nodes payload.id) (.returned .settled) :=
            .settles rfl rfl
          rwa [setPeer_self hp] at hsettles
        · have hsame : (t.settle call around.nodes payload).1.negotiating = p.negotiating := by
            rw [settle, negotiating_acknowledge, negotiating, hp]
            rfl
          rw [hsame]
          exact .stays _
  · next payload await hlock =>
    obtain ⟨hanswer, hnegotiating⟩ := p.offer_frame around.offerSdp await outcome
    simp only at h
    split at h
    · next next hprogress =>
      cases h
      refine .moves (.passes hanswer (.inl rfl) rfl) ?_
      rw [hnegotiating, Call.holds, Call.holds, hholds hlock, hholds (renegotiatePeer_goesOn hprogress)]
      exact .keeps _
    · cases h
      exact .settles hanswer rfl (hholds hlock)
  · next payload =>
    split at h
    · cases h
    · next hfree =>
      cases h
      exact takeAnswer_turns hp (not_not.mp hfree)
  · next payload =>
    cases h
    exact .settles rfl rfl rfl
  · next payload =>
    split at h
    · cases h
      refine ⟨.completes rfl, ?_⟩
      have hfree : (((t.setPeer (p.complete payload).unlock).apply payload).settle call around.nodes
          payload).1.negotiating = none :=
        negotiating_acknowledge _ _ _ _
      rw [hfree]
      exact .gives _
    · cases h
      have hpasses : Deals t p call around.nodes (.settingAnswer payload) (t.setPeer p) .rollingBack :=
        .passes rfl (.inl rfl) rfl
      have hturns : Turns t p call around.nodes (.settingAnswer payload) (t.setPeer p, .rollingBack) :=
        .moves hpasses (.keeps _)
      rwa [setPeer_self hp] at hturns
  · cases h
    exact .moves (.passes rfl (.inl rfl) rfl) (.gives _)
  · cases h

end Transport

/-! ## What holds in every run -/

theorem window_cons (n : Nat) (a : Nat) (l : List Nat) :
    ((a :: l).take (n + 1)).reverse =
      (if n + 1 ≤ (l.take (n + 1)).reverse.length then (l.take (n + 1)).reverse.tail
        else (l.take (n + 1)).reverse) ++ [a] := by
  rw [List.take_succ_cons, List.reverse_cons]
  congr 1
  split
  · next hfull =>
    have hlt : n < l.length := by
      simp only [List.length_reverse, List.length_take] at hfull
      omega
    rw [List.take_succ_eq_append_getElem hlt, List.reverse_append]
    rfl
  · next hshort =>
    have hle : l.length ≤ n := by
      simp only [List.length_reverse, List.length_take] at hshort
      omega
    rw [List.take_of_length_le hle, List.take_of_length_le (Nat.le_succ_of_le hle)]

theorem mem_take_of_takeWhile {n a : Nat} {l : List Nat} (ha : a ∈ l)
    (h : (l.takeWhile fun b => b != a).length < n) : a ∈ l.take n := by
  induction l generalizing n with
  | nil => cases ha
  | cons b l ih =>
    cases n with
    | zero => cases h
    | succ n =>
      rw [List.take_succ_cons]
      by_cases hb : b = a
      · rw [hb]
        exact List.mem_cons_self
      · have hrest : a ∈ l := (List.mem_cons.mp ha).resolve_left (Ne.symm hb)
        rw [List.takeWhile_cons_of_pos (by simpa using hb), List.length_cons] at h
        exact List.mem_cons_of_mem _ (ih hrest (Nat.lt_of_succ_lt_succ h))

theorem Call.holds_of_underWay {c : Call} {id : Nat} (h : c.underWay = some id) : c.holds = true := by
  cases c with
  | applying payload await | answering payload await =>
    cases await with
    | lock => cases h
    | _ => rfl
  | settingAnswer payload => rfl
  | _ => cases h

namespace Transport

/-- The books agree, up to an id that the running step has applied and is about
to record. -/
structure Sound (t : Transport) (owed : Option Nat) : Prop where
  locked : ∀ i c, t.calls[i]? = some c → c.holds = true → t.negotiating = some i
  once : t.applied.Nodup
  window : t.received = (t.recorded.take MAX_NEGOTIATIONS_PER_NODE).reverse
  recorded : ∀ id ∈ t.recorded, id ∈ t.applied
  kept : ∀ id ∈ t.applied, id ∈ t.recorded ∨ owed = some id ∨ ∃ c ∈ t.calls, c.unrecorded = some id
  underWay : ∀ c ∈ t.calls, ∀ id, c.underWay = some id → id ∉ t.applied
  unrecorded : ∀ c ∈ t.calls, ∀ id, c.unrecorded = some id → id ∈ t.applied
  answered : ∀ p ∈ t.peer, ∀ a ∈ p.appliedAnswer, ∀ id ∈ a.id, id ∈ t.applied
  acked : ∀ ack ∈ t.acks, ack.2 ∈ t.applied
  settled : ∀ ack ∈ t.acks, t.calls[ack.1]? = some (.returned .settled)

def put (t : Transport) (i : Nat) (c : Call) : Transport := { t with calls := t.calls.set i c }

theorem rememberReceived_put (t : Transport) (i nodes id : Nat) (c : Call) :
    (t.put i c).rememberReceived nodes id = (t.rememberReceived nodes id).put i c := by
  by_cases hin : id ∈ t.received
  · have hsame : t.rememberReceived nodes id = t := if_pos hin
    rw [hsame]
    exact if_pos hin
  · by_cases hfull : t.received = [] ∧ MAX_NEGOTIATION_NODES ≤ nodes
    · have hsame : t.rememberReceived nodes id = t := (if_neg hin).trans (if_pos hfull)
      rw [hsame]
      exact (if_neg hin).trans (if_pos hfull)
    · rw [rememberReceived, rememberReceived, if_neg hin, if_neg hfull]
      exact (if_neg hin).trans (if_neg hfull)

theorem acknowledge_put (t : Transport) (i call nodes : Nat) (id : Option Nat) (c : Call) :
    (t.acknowledge call nodes id).put i c = (t.put i c).acknowledge call nodes id := by
  cases id with
  | none => rfl
  | some id =>
    rw [acknowledge, acknowledge, rememberReceived_put]
    rfl

namespace Sound

variable {t t' : Transport} {p p' : Peer} {call nodes id i : Nat} {c c' : Call} {owed : Option Nat}
  {around : Around} {outcome : Outcome} {input : Input} {payload : Payload}

theorem new : Sound .new none where
  locked := by simp [Transport.new]
  once := List.nodup_nil
  window := rfl
  recorded := by simp [Transport.new]
  kept := by simp [Transport.new]
  underWay := by simp [Transport.new]
  unrecorded := by simp [Transport.new]
  answered := by simp [Transport.new]
  acked := by simp [Transport.new]
  settled := by simp [Transport.new]

theorem of_received (h : t.Sound owed) (hid : id ∈ t.received) : id ∈ t.applied := by
  rw [h.window, List.mem_reverse] at hid
  exact h.recorded id (List.mem_of_mem_take hid)

theorem notMem_applied (h : t.Sound none) (hfresh : t.Fresh id) (hrecent : t.Recent id) :
    id ∉ t.applied := by
  intro happlied
  rcases h.kept id happlied with hrecorded | howed | ⟨c, hc, hunrecorded⟩
  · have htake := mem_take_of_takeWhile hrecorded (hrecent hrecorded)
    refine hfresh.1 ?_
    rw [h.window]
    exact List.mem_reverse.mpr htake
  · cases howed
  · exact hfresh.2 c hc hunrecorded

theorem locks (h : t.Sound owed) (hc : t.calls[i]? = some c) {n : Option Nat}
    (hgrip : Grip i t.negotiating n c.holds c'.holds) (j : Nat) (d : Call)
    (hd : (t.calls.set i c')[j]? = some d) (hholds : d.holds = true) : n = some j := by
  rw [Calls.get_set hc] at hd
  split at hd
  · next hj =>
    cases hd
    subst hj
    have hown := h.locked j c hc
    rw [hholds] at hgrip
    generalize c.holds = before at hgrip hown
    generalize t.negotiating = held at hgrip hown
    cases hgrip with
    | keeps => exact hown rfl
    | takes => rfl
  · next hj =>
    have hother := h.locked j d hd hholds
    have hown := h.locked i c hc
    generalize c.holds = before at hgrip hown
    rw [hother] at hgrip hown
    generalize c'.holds = after at hgrip
    cases hgrip with
    | keeps | stays => rfl
    | gives => exact absurd (Option.some.inj (hown rfl)) hj

theorem live (h : t.Sound owed) (hc : t.calls[i]? = some c) (hlive : ∀ ending, c ≠ .returned ending)
    (c' : Call) : ∀ ack ∈ t.acks, (t.calls.set i c')[ack.1]? = some (.returned .settled) := by
  intro ack hack
  have hsettled := h.settled ack hack
  rw [Calls.get_set hc]
  split
  · next hi =>
    rw [hi, hc] at hsettled
    exact absurd (Option.some.inj hsettled) (hlive _)
  · exact hsettled

theorem acknowledge (h : t.Sound owed) (hcall : t.calls[call]? = some (.returned .settled))
    (howed : ∀ id, owed = some id → t.HasRoom nodes ∧ id ∈ t.applied) :
    (t.acknowledge call nodes owed).Sound none := by
  cases owed with
  | none => exact h
  | some id =>
    obtain ⟨hroom, hid⟩ := howed id rfl
    have hacked : ∀ ack ∈ (call, id) :: t.acks, ack.2 ∈ t.applied :=
      List.forall_mem_cons.mpr ⟨hid, h.acked⟩
    have hsettled : ∀ ack ∈ (call, id) :: t.acks, t.calls[ack.1]? = some (.returned .settled) :=
      List.forall_mem_cons.mpr ⟨hcall, h.settled⟩
    rcases t.rememberReceived_cases nodes id with ⟨hsame, hwhy⟩ | ⟨hnew, hmore⟩
    · have hin : id ∈ t.received := hwhy.resolve_right (not_not.mpr hroom)
      have hrecorded : id ∈ t.recorded := by
        rw [h.window, List.mem_reverse] at hin
        exact List.mem_of_mem_take hin
      rw [Transport.acknowledge, hsame]
      refine { h with kept := ?_, acked := hacked, settled := hsettled }
      intro other hother
      rcases h.kept other hother with hold | heq | hcarried
      · exact .inl hold
      · cases heq
        exact .inl hrecorded
      · exact .inr (.inr hcarried)
    · rw [Transport.acknowledge, hmore]
      refine { h with window := ?_, recorded := ?_, kept := ?_, acked := hacked, settled := hsettled }
      · have hwindow := window_cons 63 id t.recorded
        rw [show 63 + 1 = MAX_NEGOTIATIONS_PER_NODE from rfl, ← h.window] at hwindow
        exact hwindow.symm
      · exact List.forall_mem_cons.mpr ⟨hid, h.recorded⟩
      · intro other hother
        rcases h.kept other hother with hold | heq | hcarried
        · exact .inl (List.mem_cons_of_mem _ hold)
        · cases heq
          exact .inl List.mem_cons_self
        · exact .inr (.inr hcarried)

theorem alone (h : t.Sound owed) (hc : t.calls[i]? = some c) (hholds : c.holds = true) {j : Nat} {d : Call}
    (hd : t.calls[j]? = some d) (hj : j ≠ i) : d.underWay = none := by
  have hown := h.locked i c hc hholds
  cases hway : d.underWay with
  | none => rfl
  | some id =>
    have hother := h.locked j d hd (Call.holds_of_underWay hway)
    rw [hown] at hother
    exact absurd (Option.some.inj hother).symm hj

section

variable (h : t.Sound none) (hc : t.calls[i]? = some c) (hlive : ∀ ending, c ≠ .returned ending)
  (hgrip : Grip i t.negotiating p'.negotiating c.holds c'.holds)
include h hc hlive hgrip

theorem moved {more : List Nat} (hmore : (more ++ t.applied).Nodup)
    (hanswer : ∀ a ∈ p'.appliedAnswer, ∀ id ∈ a.id, id ∈ more ++ t.applied)
    (hways : ∀ d ∈ t.calls.set i c', ∀ id, d.underWay = some id → id ∉ more ++ t.applied)
    (hrecord : ∀ id, c'.unrecorded = some id → id ∈ more ++ t.applied)
    (hkept : ∀ id, id ∈ more ∨ c.unrecorded = some id → owed = some id ∨ c'.unrecorded = some id) :
    Sound { t with peer := some p', calls := t.calls.set i c', applied := more ++ t.applied } owed where
  locked := h.locks hc hgrip
  once := hmore
  window := h.window
  recorded := fun id hid => List.mem_append_right _ (h.recorded id hid)
  kept := by
    have hself : c' ∈ t.calls.set i c' := List.mem_of_getElem? (by rw [Calls.get_set hc, if_pos rfl])
    have hown : ∀ id, id ∈ more ∨ c.unrecorded = some id →
        owed = some id ∨ ∃ d ∈ t.calls.set i c', d.unrecorded = some id :=
      fun id hid => (hkept id hid).imp_right fun hnext => ⟨c', hself, hnext⟩
    intro id hid
    rcases List.mem_append.mp hid with hnew | hold
    · exact .inr (hown id (.inl hnew))
    · rcases h.kept id hold with hrecorded | hnone | ⟨d, hd, hunrecorded⟩
      · exact .inl hrecorded
      · cases hnone
      · rcases Calls.mem_set hc c' hd with rfl | hd
        · exact .inr (hown id (.inr hunrecorded))
        · exact .inr (.inr ⟨d, hd, hunrecorded⟩)
  underWay := hways
  unrecorded := Calls.forall_set (fun d hd id hid => List.mem_append_right _ (h.unrecorded d hd id hid)) hrecord
  answered := by
    intro q hq
    cases hq
    exact hanswer
  acked := fun ack hack => List.mem_append_right _ (h.acked ack hack)
  settled := h.live hc hlive c'

theorem moves (hanswer : ∀ a ∈ p'.appliedAnswer, ∀ id ∈ a.id, id ∈ t.applied)
    (hway : ∀ id, c'.underWay = some id → id ∉ t.applied)
    (hrecord : ∀ id, c'.unrecorded = some id → id ∈ t.applied)
    (hkept : ∀ id, c.unrecorded = some id → owed = some id ∨ c'.unrecorded = some id) :
    ((t.setPeer p').put i c').Sound owed := by
  have hmoved : Sound { t with peer := some p', calls := t.calls.set i c', applied := [] ++ t.applied } owed :=
    h.moved hc hlive hgrip h.once hanswer (Calls.forall_set h.underWay hway) hrecord
      fun id hid => hkept id (hid.resolve_left List.not_mem_nil)
  exact hmoved

end

theorem ways_of_underWay (h : t.Sound none) (hc : t.calls[i]? = some c) (hold : c.underWay = payload.id)
    (hway : c'.underWay = none) : ∀ d ∈ t.calls.set i c', ∀ id, d.underWay = some id →
      id ∉ payload.id.toList ++ t.applied := by
  intro d hd id hid
  obtain ⟨j, hj⟩ := List.mem_iff_getElem?.mp hd
  rw [Calls.get_set hc] at hj
  split at hj
  · cases hj
    rw [hway] at hid
    cases hid
  · next hne =>
    cases hpayload : payload.id with
    | none => exact h.underWay d (List.mem_of_getElem? hj) id hid
    | some x =>
      have hholds := Call.holds_of_underWay (hold.trans hpayload)
      rw [h.alone hc hholds hj hne] at hid
      cases hid

theorem nodup_of_underWay (h : t.Sound none) (hc : t.calls[i]? = some c) (hold : c.underWay = payload.id) :
    (payload.id.toList ++ t.applied).Nodup := by
  cases hpayload : payload.id with
  | none => exact h.once
  | some x =>
    have hnew := h.underWay c (List.mem_of_getElem? hc) x (hold.trans hpayload)
    exact List.nodup_cons.mpr ⟨hnew, h.once⟩

structure Admits (t : Transport) (p : Peer) (c : Call) (nodes : Nat) : Prop where
  fresh : ∀ payload ∈ c.enters p.signaling, ∀ id ∈ payload.id, t.Fresh id ∧ t.Recent id
  own : ∀ payload ∈ c.matched p, ∀ id ∈ payload.id, t.Own p id
  room : c.settling = true → t.HasRoom nodes

theorem settling_of_unrecorded (h : c.unrecorded = some id) : c.settling = true := by
  unfold Call.settling
  split
  · rfl
  · rw [h]
    rfl

/-- Every turn that is admitted keeps the books. -/
theorem turn (h : t.Sound none) (hp : t.peer = some p) (hc : t.calls[i]? = some c)
    (hlive : ∀ ending, c ≠ .returned ending) {turn : Turn} (hturns : Turns t p i nodes c turn)
    (hadmits : Admits t p c nodes) : (turn.1.put i turn.2).Sound none := by
  obtain ⟨t', c'⟩ := turn
  obtain ⟨hdeals, hgrip⟩ := hturns
  have hmem := List.mem_of_getElem? hc
  have hself : ∀ c' : Call, (t.calls.set i c')[i]? = some c' := fun c' => by rw [Calls.get_set hc, if_pos rfl]
  have hpeer : t.negotiating = p.negotiating := by
    rw [negotiating, hp]
    rfl
  rw [← hpeer] at hgrip
  have hanswered := h.answered p hp
  simp only at hdeals hgrip ⊢
  cases hdeals with
  | passes hanswer hway hrecord =>
    refine h.moves hc hlive hgrip ?_ ?_ ?_ ?_
    · rw [hanswer]
      exact hanswered
    · intro id hid
      rcases hway with hnone | hsame
      · rw [hnone] at hid
        cases hid
      · exact h.underWay c hmem id (hsame ▸ hid)
    · rw [hrecord]
      exact h.unrecorded c hmem
    · rw [hrecord]
      exact fun id hid => .inr hid
  | enters henters hway hrecord hold =>
    refine h.moves hc hlive hgrip hanswered ?_ ?_ ?_
    · intro id hid
      rw [hway] at hid
      obtain ⟨hfresh, hrecent⟩ := hadmits.fresh _ henters id hid
      exact h.notMem_applied hfresh hrecent
    · rw [hrecord]
      nofun
    · rw [hold]
      nofun
  | recognizes hmatched hold =>
    refine h.moves hc hlive hgrip hanswered nofun ?_ ?_
    · intro id hid
      rcases hadmits.own _ hmatched id hid with hreceived | ⟨a, ha, haid⟩
      · exact h.of_received hreceived
      · exact hanswered a ha id haid
    · rw [hold]
      nofun
  | @applies payload q _ hanswer hold hbefore hway hrecord =>
    refine h.moved hc hlive hgrip (h.nodup_of_underWay hc hold) ?_ (h.ways_of_underWay hc hold hway) ?_ ?_
    · rw [hanswer]
      exact fun a ha id hid => List.mem_append_right _ (hanswered a ha id hid)
    · intro id hid
      rw [hrecord] at hid
      exact List.mem_append_left _ (Option.mem_toList.mpr hid)
    · intro id hid
      rcases hid with hnew | hunrecorded
      · exact .inr (hrecord.trans (Option.mem_toList.mp hnew))
      · rw [hbefore] at hunrecorded
        cases hunrecorded
  | @settles payload q hanswer hold =>
    have hmoved : ((t.setPeer q).put i (.returned .settled)).Sound payload.id := by
      refine h.moves hc hlive ?_ ?_ nofun nofun ?_
      · rw [negotiating_acknowledge] at hgrip
        exact hgrip
      · rw [hanswer]
        exact hanswered
      · intro id hid
        exact .inl (hold ▸ hid)
    rw [acknowledge_put]
    refine hmoved.acknowledge (hself _) fun id hid => ⟨?_, ?_⟩
    · exact hadmits.room (settling_of_unrecorded (hold.trans hid))
    · exact h.unrecorded c hmem id (hold.trans hid)
  | @completes payload hold =>
    subst hold
    have hmoved : (((t.setPeer (p.complete payload).unlock).apply payload).put i (.returned .settled)).Sound
        payload.id := by
      rw [negotiating_acknowledge] at hgrip
      refine h.moved hc hlive hgrip (h.nodup_of_underWay hc rfl) ?_ (h.ways_of_underWay hc rfl rfl) nofun ?_
      · intro a ha id hid
        cases ha
        exact List.mem_append_left _ (Option.mem_toList.mpr hid)
      · intro id hid
        rcases hid with hnew | hunrecorded
        · exact .inl (Option.mem_toList.mp hnew)
        · cases hunrecorded
    rw [acknowledge_put]
    refine hmoved.acknowledge (hself _) fun id hid => ⟨hadmits.room rfl, ?_⟩
    exact List.mem_append_left _ (Option.mem_toList.mpr hid)

theorem begins (h : t.Sound none) {peer : Option Peer} (hpeer : peer = t.peer ∨ t.peer = none ∧ peer = some .new)
    (hholds : c.holds = false) (hway : c.underWay = none) (hrecord : c.unrecorded = none) :
    Sound { t with peer, calls := t.calls ++ [c] } none where
  locked := by
    intro i d hd hd'
    rw [Calls.get_begin] at hd
    split at hd
    · cases hd
      rw [hholds] at hd'
      cases hd'
    · have hold := h.locked i d hd hd'
      rcases hpeer with rfl | ⟨hnone, -⟩
      · exact hold
      · rw [negotiating, hnone] at hold
        cases hold
  once := h.once
  window := h.window
  recorded := h.recorded
  kept := by
    intro id hid
    rcases h.kept id hid with hrecorded | howed | ⟨d, hd, hunrecorded⟩
    · exact .inl hrecorded
    · exact .inr (.inl howed)
    · exact .inr (.inr ⟨d, List.mem_append_left _ hd, hunrecorded⟩)
  underWay := by
    refine Calls.forall_begin h.underWay ?_
    rw [hway]
    nofun
  unrecorded := by
    refine Calls.forall_begin h.unrecorded ?_
    rw [hrecord]
    nofun
  answered := by
    rcases hpeer with rfl | ⟨-, rfl⟩
    · exact h.answered
    · intro p hp
      cases hp
      nofun
  acked := h.acked
  settled := by
    intro ack hack
    exact Calls.get_before (h.settled ack hack) _

theorem handleOffer (h : t.Sound none) : (Transport.begun (t.handleOffer payload around)).Sound none := by
  unfold Transport.handleOffer
  simp only
  split
  · exact h.begins (.inl rfl) rfl rfl rfl
  · exact h.begins (.inl rfl) rfl rfl rfl
  · next haction =>
    have hnone : t.peer = none := by
      cases hpeer : t.peer with
      | none => rfl
      | some p =>
        rw [hpeer] at haction
        cases hs : p.signaling <;> simp [offerActionForSnapshot, Signaling.snapshot, hs] at haction
    split
    · exact h.begins (.inr ⟨hnone, rfl⟩) rfl rfl rfl
    · exact h.begins (.inl rfl) rfl rfl rfl
  · exact h.begins (.inl rfl) rfl rfl rfl

theorem handleMessage (h : t.Sound none) (offer : Bool) :
    (Transport.begun (t.handleMessage offer payload around)).Sound none := by
  unfold Transport.handleMessage
  split
  · next hseen =>
    obtain ⟨id, hid, hin⟩ := (Option.any_eq_true _ _).mp hseen
    have hin : id ∈ t.received := of_decide_eq_true hin
    have hbegins : Sound { t with calls := t.calls ++ [.returned .settled] } none :=
      h.begins (.inl rfl) rfl rfl rfl
    have hsettle : Transport.begun (t.settle t.calls.length around.nodes payload) =
        { t with
          calls := t.calls ++ [.returned .settled]
          acks := (t.calls.length, id) :: t.acks } := by
      have hsame : t.rememberReceived around.nodes id = t := if_pos hin
      rw [settle, hid, Transport.acknowledge, hsame]
      rfl
    rw [hsettle]
    refine { hbegins with acked := ?_, settled := ?_ }
    · exact List.forall_mem_cons.mpr ⟨h.of_received hin, hbegins.acked⟩
    · refine List.forall_mem_cons.mpr ⟨?_, hbegins.settled⟩
      exact (Calls.get_begin _).trans (if_pos rfl)
  · split
    · exact h.handleOffer
    · split
      · exact h.begins (.inl rfl) rfl rfl rfl
      · exact h.begins (.inl rfl) rfl rfl rfl

/-- Each timely step keeps the books. -/
theorem step (h : t.Sound none) (hwindow : t.Window input) (htimely : t.Timely input)
    (hstep : t.step input = some t') : t'.Sound none := by
  cases input with
  | connect =>
    simp only [Transport.step] at hstep
    split at hstep
    · next hnone =>
      cases hstep
      exact h.begins (.inr ⟨hnone, rfl⟩) rfl rfl rfl
    · cases hstep
  | renegotiate =>
    obtain ⟨p, -, rfl⟩ := Option.map_eq_some_iff.mp hstep
    exact h.begins (.inl rfl) rfl rfl rfl
  | message offer payload around =>
    cases hstep
    exact h.handleMessage offer
  | resume i around outcome =>
    obtain ⟨p, hp, hrest⟩ := Option.bind_eq_some_iff.mp hstep
    obtain ⟨c, hc, hmap⟩ := Option.bind_eq_some_iff.mp hrest
    obtain ⟨turn, hturn, rfl⟩ := Option.map_eq_some_iff.mp hmap
    obtain ⟨hfresh, hown, hroom⟩ := htimely p hp c hc
    have hlive : ∀ ending, c ≠ .returned ending := by
      rintro ending rfl
      cases hturn
    have hadmits : Admits t p c around.nodes := by
      refine ⟨fun payload hpayload id hid => ⟨hfresh payload hpayload id hid, ?_⟩, hown, hroom⟩
      exact hwindow p hp c hc payload hpayload id hid
    exact h.turn hp hc hlive (turn_cases hp hturn) hadmits

end Sound

end Transport

open Reactive

/-- In a run whose steps are all timely, with fewer than 64 other transactions
between the copies of one, each description is applied at most once, and only
what was applied is acknowledged. -/
theorem appliedOnce_of_timely {moves : List (Move Transport Input)} {t : Transport}
    (run : Run Transport.step .new moves t) (hwindow : ∀ m ∈ moves, m.before.Window m.input)
    (htimely : ∀ m ∈ moves, m.before.Timely m.input) : t.Once := by
  have hsound : t.Sound none := by
    refine run.keepsUnder (P := fun t => t.Sound none) (C := fun t input => t.Window input ∧ t.Timely input)
      .new ?_ fun m hm => ⟨hwindow m hm, htimely m hm⟩
    rintro s input s' hs ⟨hin, htime⟩ hstep
    exact hs.step hin htime hstep
  refine ⟨hsound.once, hsound.acked, ?_⟩
  rintro i hfailed ack hack rfl
  have hsettled := hsound.settled ack hack
  rw [hfailed] at hsettled
  cases hsettled

/-! ### Copies of one offer -/

section Runs

def calm : Around where
  connectionState := none
  activeConnections := 0
  maxConnections := 30
  created := true
  publishedTracks := false
  nodes := 0
  offerSdp := "m=application 9"

def firstOffer : Payload where
  id := some 7
  sdp := "m=application 9"

/-- An offer is answered over a new peer, and then a second copy of it comes; the
latest input first. -/
def repeatedLater : List Input :=
  [.message true firstOffer calm, .resume 0 calm .fulfilled, .resume 0 calm .fulfilled,
    .resume 0 calm .fulfilled, .resume 0 calm .fulfilled, .resume 0 calm .fulfilled,
    .message true firstOffer calm]

theorem repeatedLater_once :
    (play Transport.step .new repeatedLater).1.length = 7 ∧
      (play Transport.step .new repeatedLater).2.acks = [(1, 7), (0, 7)] ∧
        (play Transport.step .new repeatedLater).2.Once :=
  ⟨by decide, by decide, appliedOnce_of_timely (run_play Transport.step .new repeatedLater) (by decide)
    (by decide)⟩

/-- The second copy comes while the first is being answered, and waits for the
lock. -/
def repeatedMeanwhile : List Input :=
  [.resume 1 calm .fulfilled, .resume 1 calm .fulfilled, .resume 1 calm .fulfilled,
    .resume 1 calm .fulfilled, .resume 0 calm .fulfilled, .resume 0 calm .fulfilled,
    .resume 0 calm .fulfilled, .resume 0 calm .fulfilled, .message true firstOffer calm,
    .resume 0 calm .fulfilled, .message true firstOffer calm]

/-- Nobody looks again whether it was recorded, and it is applied a second time. -/
theorem repeatedMeanwhile_appliedTwice :
    ∃ moves t, Run Transport.step .new moves t ∧ (∀ m ∈ moves, m.before.Window m.input) ∧
      t.applied = [7, 7] ∧ ¬ t.Once := by
  have happlied : (play Transport.step .new repeatedMeanwhile).2.applied = [7, 7] := by decide
  refine ⟨_, _, run_play Transport.step .new repeatedMeanwhile, by decide, happlied, fun honce => ?_⟩
  have hnodup := honce.applied
  rw [happlied] at hnodup
  exact absurd hnodup (by decide)

end Runs

end Mistlib.Browser.Transactions
