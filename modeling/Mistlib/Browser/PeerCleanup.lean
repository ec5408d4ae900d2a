import Mistlib.Async.Calls
import Mistlib.Async.Reactive
import Mistlib.Types

/-!
# Attempts to reach a node, and their clean-up

`WasmWebRtcTransport` for one remote node. The browser runs one thread, so what happens between
two awaits is one step. A peer gets its id where it is registered, hence the ids are in the
order of registration.

What the browser answers is arbitrary, and so are the signaling state that an offer meets and
how many other nodes are active. The node's channels, candidates and senders are left out.
-/

namespace Mistlib.Browser

inductive SignalingSnapshot where
  | stable
  | haveLocalOffer
  | other
deriving DecidableEq, Repr

inductive OfferAction where
  | ignoreAtCapacity
  | replacePeer
  | applyInPlace
  | yieldAndApply
  | deferTransient
  | accept (newlyReserved : Bool)
deriving DecidableEq, Repr

/-- The states `active_connection_count` counts. -/
def activeState : ConnectionState → Bool
  | .connected | .connecting | .reconnecting => true
  | .disconnected | .failed => false

def offerActionForSnapshot (peerExists remoteRestarted : Bool) (state : Option ConnectionState)
    (activeConnections maxConnections : Nat) (signalingState : SignalingSnapshot) : OfferAction :=
  if peerExists then
    if remoteRestarted then .replacePeer
    else
      match signalingState with
      | .stable => .applyInPlace
      | .haveLocalOffer => .yieldAndApply
      | .other => .deferTransient
  else if state = none then
    if maxConnections ≤ activeConnections then .ignoreAtCapacity
    else .accept true
  else .accept false

abbrev PeerId := Nat

/-- What a suspended negotiation waits for. -/
inductive Await where
  | lock
  | createOffer
  | setRemoteOffer
  | createAnswer
  | setLocal
  | rollback
  /-- A rollback after a rejected offer, and whether its error was the one of
  the transport's role. -/
  | rollbackOffer (roleError : Bool)
  | send
deriving DecidableEq, Repr

/-- How a wait ends. A lock is `fulfilled` if the preconditions hold that are
checked under it. A rollback is `fulfilled` if the connection is stable after
it, and `malformed` if the connection was closed meanwhile. -/
inductive Outcome where
  | fulfilled
  | rejected (roleError : Bool)
  | malformed
deriving DecidableEq, Repr

inductive Progress where
  | goesOn (await : Await)
  | succeeds
  | fails
  | rebuilds
deriving DecidableEq, Repr

def renegotiatePeer : Await → Outcome → Progress
  | .lock, .fulfilled => .goesOn .createOffer
  | .createOffer, .fulfilled => .goesOn .setLocal
  | .createOffer, .rejected _ => .goesOn .rollback
  | .setLocal, .fulfilled => .goesOn .send
  | .setLocal, .rejected _ => .goesOn .rollback
  | .send, _ => .succeeds
  | _, _ => .fails

/-- The answer to the offer that a new peer was built for. -/
def answerOffer : Await → Outcome → Progress
  | .lock, .fulfilled => .goesOn .setRemoteOffer
  | .setRemoteOffer, .fulfilled => .goesOn .createAnswer
  | .createAnswer, .fulfilled => .goesOn .setLocal
  | .setLocal, .fulfilled => .goesOn .send
  | .send, _ => .succeeds
  | _, _ => .fails

def applyOfferInPlace : Await → Outcome → Progress
  | .lock, .fulfilled => .goesOn .setRemoteOffer
  | .setRemoteOffer, .fulfilled => .goesOn .createAnswer
  | .setRemoteOffer, .rejected roleError => .goesOn (.rollbackOffer roleError)
  | .rollbackOffer true, .rejected _ => .rebuilds
  | .createAnswer, .fulfilled => .goesOn .setLocal
  | .createAnswer, .rejected _ => .goesOn .rollback
  | .setLocal, .fulfilled => .goesOn .send
  | .setLocal, .rejected _ => .goesOn .rollback
  | .send, _ => .succeeds
  | _, _ => .fails

/-- A call for the node and where it is suspended. -/
inductive Call where
  /-- `connect` negotiates the peer it has built. -/
  | connecting (peer : PeerId) (await : Await)
  /-- `handle_offer` applies the offer to a peer that was there. -/
  | applying (peer : PeerId) (await : Await)
  /-- `handle_offer` answers over the peer it has built, for a session of the
  remote if that restarted. -/
  | answering (peer : PeerId) (epoch : Option Nat) (await : Await)
  /-- `handle_offer` has answered and offers the published tracks. -/
  | offeringTracks (peer : PeerId) (await : Await)
  | returned
deriving DecidableEq, Repr

/-- The node's entries in the maps of the transport, and the calls. -/
structure Transport where
  peers : Option PeerId
  connectionStates : Option ConnectionState
  connectionAttemptIds : Option Nat
  nextConnectionAttemptId : Nat
  restartedPeers : Option Nat
  peerEpochs : Option Nat
  /-- How many peers were registered. -/
  registered : Nat
  /-- The peers whose connections this side has closed. -/
  closed : List PeerId
  calls : List Call
deriving DecidableEq, Repr

/-- What a call reads of its surroundings: how many other nodes are active, the
limit, the signaling state of the registered peer, whether `create_pc` succeeds
and whether tracks are published to the node. -/
structure Surroundings where
  otherActive : Nat
  maxConnections : Nat
  signalingState : SignalingSnapshot
  created : Bool
  publishedTracks : Bool
deriving DecidableEq, Repr

namespace Transport

def new : Transport where
  peers := none
  connectionStates := none
  connectionAttemptIds := none
  nextConnectionAttemptId := 0
  restartedPeers := none
  peerEpochs := none
  registered := 0
  closed := []
  calls := []

def activeConnections (t : Transport) (around : Surroundings) : Nat :=
  around.otherActive + (if t.connectionStates.any activeState then 1 else 0)

/-- `cleanup_peer_connection` with `close_pc`, as all its callers here have it. -/
def cleanupPeerConnection (t : Transport) : Transport :=
  { t with
    peers := none
    closed := t.peers.toList ++ t.closed
    connectionStates := some .disconnected
    connectionAttemptIds := none
    restartedPeers := none
    peerEpochs := none }

/-- `fetch_add` on a `u32`, which wraps around. -/
def reserveConnectionAttempt (t : Transport) : Transport :=
  let attemptId := (t.nextConnectionAttemptId + 1) % 2 ^ 32
  { t with nextConnectionAttemptId := attemptId, connectionAttemptIds := some attemptId }

/-- A new peer takes the node's entry, and one it displaces is closed. -/
def register (t : Transport) : Transport :=
  { t with
    peers := some t.registered
    closed := t.peers.toList ++ t.closed
    registered := t.registered + 1 }

def setCall (t : Transport) (i : Nat) (c : Call) : Transport := { t with calls := t.calls.set i c }

/-- What a step of a call leaves, and the phase it leaves the call in. -/
abbrev Turn := Transport × Call

def connect (t : Transport) (around : Surroundings) : Turn :=
  if t.connectionStates.any activeState then (t, .returned)
  else if around.maxConnections ≤ t.activeConnections around then (t, .returned)
  else
    let t := { t with connectionStates := some .connecting }.reserveConnectionAttempt
    if around.created then (t.register, .connecting t.registered .lock)
    else (t, .returned)

/-- The part of `handle_offer` that builds a peer for the offer. -/
def buildForOffer (t : Transport) (around : Surroundings) (epoch : Option Nat)
    (newlyReserved : Bool) : Turn :=
  if around.created then
    (t.register.reserveConnectionAttempt, .answering t.registered epoch .lock)
  else
    ({ t with connectionStates := if newlyReserved then none else t.connectionStates }, .returned)

def handleOffer (t : Transport) (around : Surroundings) : Turn :=
  let epoch := t.restartedPeers
  let t := { t with restartedPeers := none }
  match offerActionForSnapshot t.peers.isSome epoch.isSome t.connectionStates
      (t.activeConnections around) around.maxConnections around.signalingState, t.peers with
  | .applyInPlace, some peer | .yieldAndApply, some peer => (t, .applying peer .lock)
  | .replacePeer, _ => t.cleanupPeerConnection.buildForOffer around epoch false
  | .accept true, _ =>
    { t with connectionStates := some .connecting }.buildForOffer around epoch true
  | .accept false, _ => t.buildForOffer around epoch false
  | _, _ => (t, .returned)

/-- `handle_offer` after an offer that the peer could neither apply nor roll
back: the peer is replaced if it is still the registered one. -/
def rebuild (t : Transport) (around : Surroundings) (peer : PeerId) : Turn :=
  if t.peers = some peer then
    t.cleanupPeerConnection.buildForOffer around t.peerEpochs false
  else (t, .returned)

def answered (t : Transport) (around : Surroundings) (peer : PeerId) (epoch : Option Nat) : Turn :=
  ({ t with peerEpochs := epoch <|> t.peerEpochs },
    if around.publishedTracks then .offeringTracks peer .lock else .returned)

def resume (t : Transport) (around : Surroundings) (outcome : Outcome) : Call → Option Turn
  | .connecting peer await =>
    match renegotiatePeer await outcome with
    | .goesOn await => some (t, .connecting peer await)
    | .succeeds => some (t, .returned)
    | _ => some (t.cleanupPeerConnection, .returned)
  | .applying peer await =>
    match applyOfferInPlace await outcome with
    | .goesOn await => some (t, .applying peer await)
    | .rebuilds => some (t.rebuild around peer)
    | _ => some (t, .returned)
  | .answering peer epoch await =>
    match answerOffer await outcome with
    | .goesOn await => some (t, .answering peer epoch await)
    | .succeeds => some (t.answered around peer epoch)
    | _ => some (t.cleanupPeerConnection, .returned)
  | .offeringTracks peer await =>
    match renegotiatePeer await outcome with
    | .goesOn await => some (t, .offeringTracks peer await)
    | _ => some (t, .returned)
  | .returned => none

/-- The `Rejoin` arm: it is ignored if the registered peer was built for that
session of the remote or a newer one. -/
def rejoin (t : Transport) (epoch : Nat) : Transport :=
  if epoch ≠ 0 ∧ t.peers.isSome ∧ t.peerEpochs.any fun known => decide (epoch ≤ known) then t
  else
    let t := t.cleanupPeerConnection
    { t with restartedPeers := some (t.restartedPeers.elim epoch (max epoch)) }

end Transport

inductive Input where
  | connect (around : Surroundings)
  | offer (around : Surroundings)
  | disconnect
  | rejoin (epoch : Nat)
  | resume (call : Nat) (around : Surroundings) (outcome : Outcome)
deriving DecidableEq, Repr

namespace Transport

def begun (turn : Turn) : Transport :=
  { turn.1 with calls := turn.1.calls ++ [turn.2] }

def step (t : Transport) : Input → Option Transport
  | .connect around => some (begun (t.connect around))
  | .offer around => some (begun (t.handleOffer around))
  | .disconnect => some t.cleanupPeerConnection
  | .rejoin epoch => some (t.rejoin epoch)
  | .resume i around outcome =>
    (t.calls[i]?.bind (t.resume around outcome)).map fun turn => turn.1.setCall i turn.2

end Transport

/-! ## Peers are registered in order -/

def Call.built : Call → Option PeerId
  | .connecting peer _ => some peer
  | .applying _ _ => none
  | .answering peer _ _ => some peer
  | .offeringTracks _ _ | .returned => none

/-- The peer of the attempt that a call was, if the call ends in an error. -/
def Call.failed (outcome : Outcome) : Call → Option PeerId
  | .connecting peer await =>
    match renegotiatePeer await outcome with
    | .goesOn _ | .succeeds => none
    | _ => some peer
  | .answering peer _ await =>
    match answerOffer await outcome with
    | .goesOn _ | .succeeds => none
    | _ => some peer
  | _ => none

theorem Call.built_of_failed {c : Call} {outcome : Outcome} {peer : PeerId}
    (h : c.failed outcome = some peer) : c.built = some peer := by
  cases c with
  | connecting built await | answering built epoch await =>
    simp only [failed] at h
    split at h
    · cases h
    · cases h
    · exact h
  | applying built await | offeringTracks built await | returned => cases h

namespace Transport

def Newest (t : Transport) : Prop := ∀ peer, t.peers = some peer → peer + 1 = t.registered

structure Ordered (t : Transport) : Prop where
  newest : t.Newest
  built : ∀ c ∈ t.calls, ∀ peer, c.built = some peer → peer < t.registered

/-- What a turn keeps of the transport it starts from. -/
structure Fits (t : Transport) (turn : Turn) : Prop where
  calls : turn.1.calls = t.calls
  grows : t.registered ≤ turn.1.registered
  newest : turn.1.Newest
  built : ∀ peer, turn.2.built = some peer → peer < turn.1.registered

variable {t t' : Transport} {around : Surroundings} {input : Input}

theorem newest_cleanup : t.cleanupPeerConnection.Newest := nofun

theorem newest_register : t.register.Newest := by
  intro peer hpeer
  cases hpeer
  rfl

/-- A turn that leaves registrations alone and whose call has built nothing new. -/
theorem Fits.still {c : Call} (hcalls : t'.calls = t.calls) (hregistered : t'.registered = t.registered)
    (hnewest : t'.Newest) (hbuilt : ∀ peer, c.built = some peer → peer < t.registered) :
    Fits t (t', c) where
  calls := hcalls
  grows := Nat.le_of_eq hregistered.symm
  newest := hnewest
  built := by
    rw [hregistered]
    exact hbuilt

theorem fits_connect (h : t.Newest) : Fits t (t.connect around) := by
  unfold connect
  split
  · exact Fits.still (t := t) rfl rfl h nofun
  · split
    · exact Fits.still (t := t) rfl rfl h nofun
    · simp only
      split
      · refine ⟨rfl, Nat.le_succ _, newest_register, ?_⟩
        intro peer hpeer
        cases hpeer
        exact Nat.lt_succ_self _
      · exact Fits.still (t := t) rfl rfl h nofun

theorem fits_buildForOffer (around : Surroundings) (h : t.Newest) (epoch : Option Nat) (newlyReserved : Bool) :
    Fits t (t.buildForOffer around epoch newlyReserved) := by
  unfold buildForOffer
  split
  · refine ⟨rfl, Nat.le_succ _, newest_register, ?_⟩
    intro peer hpeer
    cases hpeer
    exact Nat.lt_succ_self _
  · exact Fits.still (t := t) rfl rfl h nofun

theorem fits_handleOffer (h : t.Newest) : Fits t (t.handleOffer around) := by
  unfold handleOffer
  simp only
  split
  · exact Fits.still (t := t) rfl rfl h nofun
  · exact Fits.still (t := t) rfl rfl h nofun
  · have hfits := fits_buildForOffer around (newest_cleanup (t := { t with restartedPeers := none }))
      t.restartedPeers false
    exact { hfits with }
  · have hfits := fits_buildForOffer around
      (t := { t with restartedPeers := none, connectionStates := some .connecting }) h t.restartedPeers true
    exact { hfits with }
  · have hfits := fits_buildForOffer around
      (t := { t with restartedPeers := none }) h t.restartedPeers false
    exact { hfits with }
  · exact Fits.still (t := t) rfl rfl h nofun

theorem fits_rebuild (h : t.Newest) (peer : PeerId) : Fits t (t.rebuild around peer) := by
  unfold rebuild
  split
  · have hfits := fits_buildForOffer around (newest_cleanup (t := t)) t.peerEpochs false
    exact { hfits with }
  · exact Fits.still (t := t) rfl rfl h nofun

theorem fits_answered (h : t.Newest) (peer : PeerId) (epoch : Option Nat) :
    Fits t (t.answered around peer epoch) := by
  unfold answered
  refine Fits.still (t := t) rfl rfl h ?_
  split
  · nofun
  · nofun

/-- What a call does when it goes on: it leaves the entries alone, stamps the epoch
of its answer, cleans up after its failed attempt or rebuilds its peer. -/
inductive Resumes (t : Transport) (around : Surroundings) (outcome : Outcome) : Call → Turn → Prop
  | still {c c' : Call} (hfailed : c.failed outcome = none)
      (hbuilt : ∀ peer, c'.built = some peer → c.built = some peer) : Resumes t around outcome c (t, c')
  | answered (peer : PeerId) (epoch : Option Nat) {await : Await}
      (hfailed : (Call.answering peer epoch await).failed outcome = none) :
      Resumes t around outcome (.answering peer epoch await) (t.answered around peer epoch)
  | fails {c : Call} (peer : PeerId) (hfailed : c.failed outcome = some peer) :
      Resumes t around outcome c (t.cleanupPeerConnection, .returned)
  | rebuilds (peer : PeerId) {await : Await} (hprogress : applyOfferInPlace await outcome = .rebuilds) :
      Resumes t around outcome (.applying peer await) (t.rebuild around peer)

theorem resume_cases {c : Call} {outcome : Outcome} {turn : Turn}
    (h : t.resume around outcome c = some turn) : Resumes t around outcome c turn := by
  cases c with
  | connecting peer await =>
    cases hprogress : renegotiatePeer await outcome
    all_goals
      simp only [resume, hprogress, Option.some.injEq] at h
      subst h
    case goesOn next => exact .still (by simp only [Call.failed, hprogress]) fun _ hbuilt => hbuilt
    case succeeds => exact .still (by simp only [Call.failed, hprogress]) nofun
    all_goals exact .fails peer (by simp only [Call.failed, hprogress])
  | applying peer await =>
    cases hprogress : applyOfferInPlace await outcome
    all_goals
      simp only [resume, hprogress, Option.some.injEq] at h
      subst h
    case rebuilds => exact .rebuilds peer hprogress
    all_goals exact .still rfl nofun
  | answering peer epoch await =>
    cases hprogress : answerOffer await outcome
    all_goals
      simp only [resume, hprogress, Option.some.injEq] at h
      subst h
    case goesOn next => exact .still (by simp only [Call.failed, hprogress]) fun _ hbuilt => hbuilt
    case succeeds => exact .answered peer epoch (by simp only [Call.failed, hprogress])
    all_goals exact .fails peer (by simp only [Call.failed, hprogress])
  | offeringTracks peer await =>
    cases hprogress : renegotiatePeer await outcome
    all_goals
      simp only [resume, hprogress, Option.some.injEq] at h
      subst h
      exact .still rfl nofun
  | returned => cases h

theorem fits_resume (h : t.Newest) {c : Call} (hc : ∀ peer, c.built = some peer → peer < t.registered)
    {outcome : Outcome} {turn : Turn} (hresume : t.resume around outcome c = some turn) :
    Fits t turn := by
  cases resume_cases hresume with
  | still _ hbuilt => exact Fits.still (t := t) rfl rfl h fun peer hpeer => hc peer (hbuilt peer hpeer)
  | answered peer epoch _ => exact fits_answered h peer epoch
  | fails peer _ => exact Fits.still (t := t) rfl rfl newest_cleanup nofun
  | rebuilds peer _ => exact fits_rebuild h peer

theorem newest_rejoin (h : t.Newest) (epoch : Nat) : (t.rejoin epoch).Newest := by
  unfold rejoin
  split
  · exact h
  · exact newest_cleanup

theorem registered_rejoin (epoch : Nat) :
    (t.rejoin epoch).registered = t.registered ∧ (t.rejoin epoch).calls = t.calls := by
  unfold rejoin
  split
  · exact ⟨rfl, rfl⟩
  · exact ⟨rfl, rfl⟩

namespace Ordered

theorem new : Ordered .new where
  newest := nofun
  built := by simp [Transport.new]

theorem turn (h : t.Ordered) {turn : Turn} (hfits : Fits t turn) {calls : List Call}
    (hcalls : ∀ c ∈ calls, c ∈ t.calls ∨ c = turn.2) : Ordered { turn.1 with calls } where
  newest := hfits.newest
  built := by
    intro c hc peer hbuilt
    rcases hcalls c hc with hold | rfl
    · exact Nat.lt_of_lt_of_le (h.built c hold peer hbuilt) hfits.grows
    · exact hfits.built peer hbuilt

theorem begun (h : t.Ordered) {turn : Turn} (hfits : Fits t turn) : Ordered (begun turn) := by
  refine h.turn hfits fun c hc => ?_
  rw [hfits.calls] at hc
  simpa using hc

/-- Each step keeps the registered peer the newest. -/
theorem step (h : t.Ordered) (hstep : t.step input = some t') : t'.Ordered := by
  cases input with
  | connect around =>
    cases hstep
    exact h.begun (fits_connect h.newest)
  | offer around =>
    cases hstep
    exact h.begun (fits_handleOffer h.newest)
  | disconnect =>
    cases hstep
    exact ⟨newest_cleanup, h.built⟩
  | rejoin epoch =>
    cases hstep
    obtain ⟨hregistered, hcalls⟩ := registered_rejoin (t := t) epoch
    refine ⟨newest_rejoin h.newest epoch, ?_⟩
    rw [hregistered, hcalls]
    exact h.built
  | resume i around outcome =>
    obtain ⟨turn, hturn, rfl⟩ := Option.map_eq_some_iff.mp hstep
    obtain ⟨c, hc, hresume⟩ := Option.bind_eq_some_iff.mp hturn
    have hfits := fits_resume h.newest (Calls.of_get h.built hc) hresume
    refine h.turn hfits fun d hd => ?_
    rw [hfits.calls] at hd
    exact List.mem_or_eq_of_mem_set hd

end Ordered

end Transport

/-! ## The clean-up of a failed attempt -/

namespace Transport

/-- The peer built by the attempt whose error clean-up a step runs. -/
def errorCleanup (t : Transport) : Input → Option PeerId
  | .resume i _ outcome =>
    match t.calls[i]? with
    | some (.connecting peer await) =>
      match renegotiatePeer await outcome with
      | .goesOn _ | .succeeds => none
      | _ => some peer
    | some (.answering peer _ await) =>
      match answerOffer await outcome with
      | .goesOn _ | .succeeds => none
      | _ => some peer
    | _ => none
  | _ => none

/-- No peer registered after `p` is removed or closed by the step from `t` to
`t'`, nor is the node marked while such a peer is registered. -/
structure Spares (p : PeerId) (t t' : Transport) : Prop where
  kept : ∀ q, p < q → t.peers = some q → t'.peers = some q
  open_ : ∀ q, p < q → q ∈ t'.closed → q ∈ t.closed
  unmarked : ∀ q, p < q → t.peers = some q → t'.connectionStates = t.connectionStates

/-- The test the rebuild path makes: the registered peer is the attempt's own,
if there is one at all. -/
def NoneNewer (p : PeerId) (t : Transport) : Prop := ∀ q, t.peers = some q → q = p

instance (p : PeerId) (t : Transport) : Decidable (t.NoneNewer p) :=
  match h : t.peers with
  | none => .isTrue (by simp [NoneNewer, h])
  | some q => decidable_of_iff (q = p) (by simp [NoneNewer, h])

variable {t t' : Transport} {input : Input} {p : PeerId}

theorem errorCleanup_resume {i : Nat} {around : Surroundings} {outcome : Outcome} {c : Call}
    (hc : t.calls[i]? = some c) : t.errorCleanup (.resume i around outcome) = c.failed outcome := by
  simp only [errorCleanup, hc]
  cases c with
  | _ => rfl

theorem errorCleanup_step (h : t.errorCleanup input = some p) (hstep : t.step input = some t') :
    (∃ c ∈ t.calls, c.built = some p) ∧ t'.peers = none ∧ t'.closed = t.peers.toList ++ t.closed := by
  cases input with
  | resume i around outcome =>
    obtain ⟨turn, hturn, rfl⟩ := Option.map_eq_some_iff.mp hstep
    obtain ⟨c, hc, hresume⟩ := Option.bind_eq_some_iff.mp hturn
    rw [errorCleanup_resume hc] at h
    cases resume_cases hresume with
    | still hnone _ | answered peer epoch hnone => cases hnone.symm.trans h
    | fails peer _ => exact ⟨⟨c, List.mem_of_getElem? hc, Call.built_of_failed h⟩, rfl, rfl⟩
    | rebuilds peer _ => cases h
  | connect around | offer around | disconnect | rejoin epoch => cases h

/-- A clean-up spares its peer exactly if none newer is registered. -/
theorem spares_iff (hordered : t.Ordered) (h : t.errorCleanup input = some p)
    (hstep : t.step input = some t') : Spares p t t' ↔ t.NoneNewer p := by
  obtain ⟨⟨c, hc, hbuilt⟩, hpeers, hclosed⟩ := errorCleanup_step h hstep
  have hp := hordered.built c hc p hbuilt
  have hnewest : ∀ q, t.peers = some q → p ≤ q := by
    intro q hq
    rw [← hordered.newest q hq] at hp
    exact Nat.le_of_lt_succ hp
  constructor
  · intro hspares q hq
    by_contra hne
    have hkept := hspares.kept q (Nat.lt_of_le_of_ne (hnewest q hq) (Ne.symm hne)) hq
    rw [hpeers] at hkept
    cases hkept
  · intro hnone
    refine ⟨?_, ?_, ?_⟩
    · intro q hlt hq
      exact absurd (hnone q hq) (Nat.ne_of_gt hlt)
    · intro q hlt hq
      rw [hclosed] at hq
      rcases List.mem_append.mp hq with hq | hq
      · exact absurd (hnone q (Option.mem_toList.mp hq)) (Nat.ne_of_gt hlt)
      · exact hq
    · intro q hlt hq
      exact absurd (hnone q hq) (Nat.ne_of_gt hlt)

end Transport

open Reactive Browser.Transport

/-- In a run every error clean-up of an attempt spares the peers registered
after the attempt's own exactly if, at each of them, no other peer than the
attempt's own is registered. -/
theorem errorCleanup_spares_iff {moves : List (Move Transport Input)} {s : Transport}
    (run : Run Transport.step .new moves s) :
    (∀ m ∈ moves, ∀ p, m.before.errorCleanup m.input = some p →
      ∀ t', m.before.step m.input = some t' → Spares p m.before t') ↔
    ∀ m ∈ moves, ∀ p, m.before.errorCleanup m.input = some p → m.before.NoneNewer p := by
  have hmoves : s.Ordered ∧ ∀ m ∈ moves, m.before.Ordered ∧ ∃ t', m.before.step m.input = some t' := by
    refine run.keeps (P := fun moves s => s.Ordered ∧
      ∀ m ∈ moves, m.before.Ordered ∧ ∃ t', m.before.step m.input = some t')
      ⟨.new, by simp⟩ ?_
    rintro past s i s' ⟨hs, hpast⟩ hstep
    exact ⟨hs.step hstep, List.forall_mem_cons.mpr ⟨⟨hs, s', hstep⟩, hpast⟩⟩
  constructor
  · intro hspares m hm p hp
    obtain ⟨hordered, t', hstep⟩ := hmoves.2 m hm
    exact (spares_iff hordered hp hstep).mp (hspares m hm p hp t' hstep)
  · intro hnone m hm p hp t' hstep
    exact (spares_iff (hmoves.2 m hm).1 hp hstep).mpr (hnone m hm p hp)

/-! ### An attempt that fails late -/

section Runs

/-- Room for the node, a connection that can be created, and no tracks. -/
def calm : Surroundings where
  otherActive := 0
  maxConnections := 30
  signalingState := .stable
  created := true
  publishedTracks := false

/-- `connect` fails while its peer is the registered one; the latest input first. -/
def failedConnect : List Input :=
  [.resume 0 calm .fulfilled, .resume 0 calm (.rejected false), .resume 0 calm .fulfilled, .connect calm]

theorem failedConnect_spares :
    (play Transport.step .new failedConnect).1.length = 4 ∧
      ∀ m ∈ (play Transport.step .new failedConnect).1, ∀ p,
        m.before.errorCleanup m.input = some p →
          ∀ t', m.before.step m.input = some t' → Spares p m.before t' := by
  refine ⟨by decide, (errorCleanup_spares_iff (run_play Transport.step .new failedConnect)).mpr ?_⟩
  have hchecked : ∀ m ∈ (play Transport.step .new failedConnect).1,
      (m.before.errorCleanup m.input).all fun p => decide (m.before.NoneNewer p) := by
    decide
  intro m hm p hp
  have hm := hchecked m hm
  rw [hp] at hm
  exact of_decide_eq_true hm

/-- While `connect` waits for its offer the node rejoins, and its own offer
builds a new peer; then the wait of `connect` ends in an error. -/
def lateFailure : List Input :=
  [.resume 0 calm .fulfilled, .resume 0 calm (.rejected false), .offer calm, .rejoin 0,
    .resume 0 calm .fulfilled, .connect calm]

/-- The clean-up of the failed attempt removes and closes the new peer. -/
theorem lateFailure_closesNewer :
    ∃ moves t input t', Run Transport.step .new moves t ∧ t.errorCleanup input = some 0 ∧
      t.step input = some t' ∧ t.peers = some 1 ∧ t'.peers = none ∧ t'.closed = [1, 0] ∧
      ¬ Spares 0 t t' := by
  have hrun := run_play Transport.step .new lateFailure.tail
  have hstep : ∃ t', (play Transport.step .new lateFailure.tail).2.step (.resume 0 calm .fulfilled) =
      some t' ∧ t'.peers = none ∧ t'.closed = [1, 0] := by
    refine ⟨_, rfl, ?_⟩
    decide
  obtain ⟨t', hstep, hpeers, hclosed⟩ := hstep
  have hbefore : (play Transport.step .new lateFailure.tail).2.peers = some 1 := by decide
  refine ⟨_, _, _, t', hrun, by decide, hstep, hbefore, hpeers, hclosed, fun hspares => ?_⟩
  have hkept := hspares.kept 1 (by decide) hbefore
  rw [hpeers] at hkept
  cases hkept

end Runs

end Mistlib.Browser
