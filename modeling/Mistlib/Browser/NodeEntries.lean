import Mistlib.Browser.PeerCleanup

/-!
# A node's entries and the callbacks of its peer

What takes and gives up a node's entries in the maps of `WasmWebRtcTransport`: its calls and
their clean-up, the callbacks of a peer's ICE state and channels, the watchdogs of its attempts
and the sweeper. A callback of a peer that is not registered does nothing. The host is told when
a peer is connected and disconnected.

What is read of the browser is arbitrary, so the grace of a disconnected peer, which only the
sweeper reads, is left out.
-/

namespace Mistlib.Browser

inductive IceState where
  | new
  | checking
  | connected
  | completed
  | disconnected
  | failed
  | closed
deriving DecidableEq, Repr

/-- A peer's channels. The bulk one is the reliable unordered channel. -/
inductive Channel where
  | reliableOrdered
  | unreliableOrdered
  | unreliable
  | bulk
deriving DecidableEq, Repr

inductive WatchdogPhase where
  | legacy
  | negotiation
  | connectivity
deriving DecidableEq, Repr

/-- The events of the host: `emit_peer_connected` and `emit_peer_disconnected`. -/
inductive Notice where
  | connected
  | disconnected
deriving DecidableEq, Repr

/-- The state that `handle_ice_state_change` puts. -/
def stateAfterIce (hasOpenChannel : Bool) : IceState → Option ConnectionState
  | .connected | .completed => some (if hasOpenChannel then .connected else .connecting)
  | .disconnected => some .reconnecting
  | .failed | .closed => some .disconnected
  | .checking => some .connecting
  | .new => none

def IceState.terminal : IceState → Bool
  | .failed | .closed => true
  | _ => false

/-- Whether a watchdog gives the attempt up. `healthy` is what it asks of the
browser: a live path and channel, a remote description, or the open reliable
channel. -/
def shouldTimeout (state : ConnectionState) (healthy : Bool) : WatchdogPhase → Bool
  | .legacy | .negotiation => state == .connecting && !healthy
  | .connectivity => state != .connected || !healthy

structure Node where
  transport : Transport
  /-- The peers with `connection_announced`. -/
  announced : List PeerId
  /-- What the host was told, the latest first. -/
  notices : List Notice
deriving DecidableEq, Repr

inductive NodeInput where
  | call (input : Input)
  | iceStateChange (peer : PeerId) (ice : IceState) (hasOpenChannel : Bool)
  | channelOpen (peer : PeerId) (channel : Channel)
  | channelClose (peer : PeerId) (channel : Channel)
  | watchdog (peer : PeerId) (attemptId : Nat) (phase : WatchdogPhase) (healthy : Bool)
  /-- A sweeper pass, and whether it finds the peer failed, its grace run out or
  its channels gone. -/
  | sweep (failing : Bool)
deriving DecidableEq, Repr

def Transport.unregister (t : Transport) : Transport :=
  { t with peers := none, closed := t.peers.toList ++ t.closed }

namespace Node

def new : Node where
  transport := .new
  announced := []
  notices := []

def tell (n : Node) (notice : Notice) : Node := { n with notices := notice :: n.notices }

/-- The host is told of the end of a peer that was announced. -/
def tellIfAnnounced (n : Node) (peer : PeerId) : Node :=
  if peer ∈ n.announced then
    { n with announced := n.announced.filter (· ≠ peer) }.tell .disconnected
  else n

def onIceStateChange (n : Node) (ice : IceState) (hasOpenChannel : Bool) : Node :=
  match stateAfterIce hasOpenChannel ice with
  | none => n
  | some state =>
    let t := { n.transport with connectionStates := some state }
    if ice.terminal then { n with transport := t.unregister }.tell .disconnected
    else { n with transport := t }

def onOpen (n : Node) (peer : PeerId) : Node :=
  let next := { n with transport := { n.transport with connectionStates := some .connected } }
  if n.transport.connectionStates = some .connected then next
  else { next with announced := peer :: next.announced }.tell .connected

/-- `onclose` of a channel of the registered peer, but for the bulk one. -/
def onClose (n : Node) : Node :=
  { n with transport := { n.transport with connectionStates := none }.unregister }.tell .disconnected

/-- A watchdog gives the attempt of the registered peer up. -/
def timeOut (n : Node) (peer : PeerId) : Node :=
  tellIfAnnounced
    { n with
      transport := { n.transport.unregister with
        connectionStates := some .disconnected
        connectionAttemptIds := none } }
    peer

/-- The sweeper removes what is left of a node without a peer. -/
def sweepRest (n : Node) : Node :=
  { n with transport := { n.transport with
      connectionStates := none
      restartedPeers := none
      peerEpochs := none } }

/-- The sweeper cleans a registered peer up that is beyond recovery. -/
def sweepPeer (n : Node) (peer : PeerId) : Node :=
  tellIfAnnounced
    { n with
      transport := { n.transport.unregister with
        connectionStates := some .disconnected
        connectionAttemptIds := none
        restartedPeers := none
        peerEpochs := none } }
    peer

/-- A sweeper pass goes over the nodes that have a state. -/
def sweep (n : Node) (failing : Bool) : Node :=
  if n.transport.connectionStates = none then n
  else
    match n.transport.peers with
    | none => n.sweepRest
    | some peer => if failing then n.sweepPeer peer else n

def isCurrent (n : Node) (peer : PeerId) : Bool := n.transport.peers == some peer

def step (n : Node) : NodeInput → Option Node
  | .call input => (n.transport.step input).map fun transport => { n with transport }
  | .iceStateChange peer ice hasOpenChannel =>
    some (if n.isCurrent peer then n.onIceStateChange ice hasOpenChannel else n)
  | .channelOpen peer channel =>
    some (if channel = .reliableOrdered ∧ n.isCurrent peer then n.onOpen peer else n)
  | .channelClose peer channel =>
    some (if channel ≠ .bulk ∧ n.isCurrent peer then n.onClose else n)
  | .watchdog peer attemptId phase healthy =>
    let state := n.transport.connectionStates.getD .disconnected
    some (if n.transport.connectionAttemptIds = some attemptId ∧ n.isCurrent peer ∧
        shouldTimeout state healthy phase then
      n.timeOut peer
    else n)
  | .sweep failing => some (n.sweep failing)

end Node

/-! ## What a call does to the entries -/

namespace Transport

/-- `handle_offer` goes on to rebuild the registered peer. -/
def rebuilds (t : Transport) : Input → Bool
  | .resume i _ outcome =>
    match t.calls[i]? with
    | some (.applying peer await) => applyOfferInPlace await outcome == .rebuilds && t.peers == some peer
    | _ => false
  | _ => false

/-- The step runs `cleanup_peer_connection`: for a `disconnect`, a `Rejoin` that
counts, a restart or rebuild found by `handle_offer`, or a failed attempt. -/
def cleansUp (t : Transport) : Input → Bool
  | .connect _ => false
  | .offer _ => t.restartedPeers.isSome && t.peers.isSome
  | .disconnect => true
  | .rejoin epoch => !decide (epoch ≠ 0 ∧ t.peers.isSome ∧ t.peerEpochs.any fun known => decide (epoch ≤ known))
  | .resume i around outcome =>
    (t.errorCleanup (.resume i around outcome)).isSome || t.rebuilds (.resume i around outcome)

/-- A `connect` builds a peer, in the place of one that may be registered. -/
def displaces (t : Transport) : Input → Bool
  | .connect around =>
    !t.connectionStates.any activeState &&
      decide (t.activeConnections around < around.maxConnections) && around.created
  | _ => false

/-- The step takes the registered peer away, if there is one. -/
def takesAway (t : Transport) (input : Input) : Bool := t.cleansUp input || t.displaces input

/-- What a step does to the entries of the node. -/
inductive Does (t : Transport) (input : Input) (t' : Transport) : Prop
  | same (hpeers : t'.peers = t.peers) (hstates : t'.connectionStates = t.connectionStates)
      (hattempts : t'.connectionAttemptIds = t.connectionAttemptIds)
      (hregistered : t'.registered = t.registered)
  | cleans (hcleans : t.cleansUp input = true) (hpeers : t'.peers = none)
      (hstates : t'.connectionStates = some .disconnected) (hattempts : t'.connectionAttemptIds = none)
      (hregistered : t'.registered = t.registered)
  /-- An inactive node becomes active, below the limit. -/
  | reserves (hinactive : t.connectionStates.any activeState = false)
      (hroom : ∃ around, (input = .connect around ∨ input = .offer around) ∧
        t.activeConnections around < around.maxConnections)
      (hstates : t'.connectionStates = some .connecting) (hattempts : t'.connectionAttemptIds.isSome)
      (hpeers : t'.peers = some t.registered ∧ t'.registered = t.registered + 1 ∧
          (t.peers = none ∨ t.displaces input = true) ∨
        t'.peers = t.peers ∧ t'.registered = t.registered ∧
          ∃ around, input = .connect around ∧ around.created = false)
  /-- A peer is built for an offer without a reservation. -/
  | builds (hpeers : t'.peers = some t.registered) (hattempts : t'.connectionAttemptIds.isSome)
      (hstates : t'.connectionStates = t.connectionStates ∧ t.peers = none ∨
        t'.connectionStates = some .disconnected ∧ t.cleansUp input = true)
      (hregistered : t'.registered = t.registered + 1)

variable {t t' : Transport} {around : Surroundings} {input : Input}

theorem buildForOffer_entries (t : Transport) (around : Surroundings) (epoch : Option Nat)
    (newlyReserved : Bool) :
    ((t.buildForOffer around epoch newlyReserved).1.peers = some t.registered ∧
        (t.buildForOffer around epoch newlyReserved).1.connectionAttemptIds.isSome ∧
        (t.buildForOffer around epoch newlyReserved).1.connectionStates = t.connectionStates ∧
        (t.buildForOffer around epoch newlyReserved).1.registered = t.registered + 1) ∨
      (t.buildForOffer around epoch newlyReserved).1 =
        { t with connectionStates := if newlyReserved then none else t.connectionStates } := by
  unfold buildForOffer
  split
  · exact .inl ⟨rfl, rfl, rfl, rfl⟩
  · exact .inr rfl

theorem connect_does : Does t (.connect around) (t.connect around).1 := by
  unfold connect
  split
  · exact .same rfl rfl rfl rfl
  · next hinactive =>
    have hinactive : t.connectionStates.any activeState = false := Bool.eq_false_iff.mpr hinactive
    split
    · exact .same rfl rfl rfl rfl
    · next hroom =>
      have hroom : t.activeConnections around < around.maxConnections := Nat.not_le.mp hroom
      have hfound : ∃ a, (Input.connect around = .connect a ∨ Input.connect around = .offer a) ∧
          t.activeConnections a < a.maxConnections := ⟨around, .inl rfl, hroom⟩
      simp only
      split
      · next hcreated =>
        have hdisplaces : t.displaces (.connect around) = true := by
          simp [displaces, hinactive, hroom, hcreated]
        exact .reserves hinactive hfound rfl rfl (.inl ⟨rfl, rfl, .inr hdisplaces⟩)
      · next hcreated =>
        exact .reserves hinactive hfound rfl rfl
          (.inr ⟨rfl, rfl, around, rfl, Bool.eq_false_iff.mpr hcreated⟩)

section OfferAction

variable {peerExists restarted : Bool} {state : Option ConnectionState} {active limit : Nat}
  {signaling : SignalingSnapshot}

theorem offerAction_replacePeer
    (h : offerActionForSnapshot peerExists restarted state active limit signaling = .replacePeer) :
    restarted = true ∧ peerExists = true := by
  unfold offerActionForSnapshot at h
  split at h
  · split at h
    · exact ⟨‹_›, ‹_›⟩
    · split at h
      all_goals cases h
  · split at h
    · split at h
      all_goals cases h
    · cases h

theorem offerAction_accept {newlyReserved : Bool}
    (h : offerActionForSnapshot peerExists restarted state active limit signaling = .accept newlyReserved) :
    peerExists = false ∧ (newlyReserved = true → state = none ∧ active < limit) := by
  unfold offerActionForSnapshot at h
  split at h
  · split at h
    · cases h
    · split at h
      all_goals cases h
  · next hnone =>
    have hnone : peerExists = false := Bool.eq_false_iff.mpr hnone
    split at h
    · next hstate =>
      split at h
      · cases h
      · next hroom => exact ⟨hnone, fun _ => ⟨hstate, Nat.not_le.mp hroom⟩⟩
    · cases h
      exact ⟨hnone, nofun⟩

end OfferAction

theorem replaced_does (t₁ : Transport) (hregistered : t₁.registered = t.registered) (epoch : Option Nat)
    (hcleans : t.cleansUp input = true) :
    Does t input (t₁.cleanupPeerConnection.buildForOffer around epoch false).1 := by
  rcases t₁.cleanupPeerConnection.buildForOffer_entries around epoch false with
    ⟨hpeers, hattempts, hstates, hmore⟩ | hfailed
  · refine .builds ?_ hattempts (.inr ⟨hstates, hcleans⟩) ?_
    · rw [hpeers]
      exact congrArg some hregistered
    · rw [hmore]
      exact congrArg Nat.succ hregistered
  · rw [hfailed]
    exact .cleans hcleans rfl rfl rfl hregistered

theorem handleOffer_does : Does t (.offer around) (t.handleOffer around).1 := by
  unfold handleOffer
  simp only
  split
  · exact .same rfl rfl rfl rfl
  · exact .same rfl rfl rfl rfl
  · next haction =>
    obtain ⟨hrestarted, hexists⟩ := offerAction_replacePeer haction
    have hcleans : t.cleansUp (.offer around) = true := by
      rw [cleansUp, hrestarted, hexists]
      rfl
    exact replaced_does (t := t) { t with restartedPeers := none } rfl _ hcleans
  · next haction =>
    obtain ⟨hexists, hreserved⟩ := offerAction_accept haction
    obtain ⟨hstate, hroom⟩ := hreserved rfl
    have hpeers : t.peers = none := Option.isNone_iff_eq_none.mp (Option.isSome_eq_false_iff.mp hexists)
    rcases { t with restartedPeers := none, connectionStates := some .connecting }.buildForOffer_entries
      around t.restartedPeers true with ⟨hbuilt, hattempts, hstates, hmore⟩ | hfailed
    · refine .reserves ?_ ⟨around, .inr rfl, hroom⟩ hstates hattempts (.inl ⟨hbuilt, hmore, .inl hpeers⟩)
      rw [hstate]
      rfl
    · rw [hfailed]
      exact .same rfl hstate.symm rfl rfl
  · next haction =>
    have hexists := (offerAction_accept haction).1
    have hpeers : t.peers = none := Option.isNone_iff_eq_none.mp (Option.isSome_eq_false_iff.mp hexists)
    rcases { t with restartedPeers := none }.buildForOffer_entries around t.restartedPeers false with
      ⟨hbuilt, hattempts, hstates, hmore⟩ | hfailed
    · exact .builds hbuilt hattempts (.inl ⟨hstates, hpeers⟩) hmore
    · rw [hfailed]
      exact .same rfl rfl rfl rfl
  · exact .same rfl rfl rfl rfl

variable {i : Nat} {outcome : Outcome}

theorem rebuild_does {peer : PeerId} {await : Await} (hc : t.calls[i]? = some (.applying peer await))
    (hprogress : applyOfferInPlace await outcome = .rebuilds) :
    Does t (.resume i around outcome) (t.rebuild around peer).1 := by
  unfold rebuild
  split
  · next hcurrent =>
    have hcleans : t.cleansUp (.resume i around outcome) = true := by
      simp [cleansUp, rebuilds, hc, hprogress, hcurrent]
    exact replaced_does t rfl _ hcleans
  · exact .same rfl rfl rfl rfl

theorem cleansUp_of_errorCleanup {p : PeerId} (h : t.errorCleanup (.resume i around outcome) = some p) :
    t.cleansUp (.resume i around outcome) = true := by
  simp [cleansUp, h]

theorem resume_does {c : Call} {turn : Turn} (hc : t.calls[i]? = some c)
    (h : t.resume around outcome c = some turn) : Does t (.resume i around outcome) turn.1 := by
  cases resume_cases h with
  | still _ _ | answered peer epoch _ => exact .same rfl rfl rfl rfl
  | fails peer hfailed =>
    exact .cleans (cleansUp_of_errorCleanup ((errorCleanup_resume hc).trans hfailed)) rfl rfl rfl rfl
  | rebuilds peer hprogress => exact rebuild_does hc hprogress

theorem Does.withCalls (h : Does t input t') (calls : List Call) : Does t input { t' with calls } := by
  cases h with
  | same hpeers hstates hattempts hregistered => exact .same hpeers hstates hattempts hregistered
  | cleans hcleans hpeers hstates hattempts hregistered =>
    exact .cleans hcleans hpeers hstates hattempts hregistered
  | reserves hinactive hroom hstates hattempts hpeers => exact .reserves hinactive hroom hstates hattempts hpeers
  | builds hpeers hattempts hstates hregistered => exact .builds hpeers hattempts hstates hregistered

/-- What a step does to the entries of the node. -/
theorem step_does (hstep : t.step input = some t') : Does t input t' := by
  cases input with
  | connect around =>
    cases hstep
    exact connect_does.withCalls _
  | offer around =>
    cases hstep
    exact handleOffer_does.withCalls _
  | disconnect =>
    cases hstep
    exact .cleans rfl rfl rfl rfl rfl
  | rejoin epoch =>
    cases hstep
    unfold rejoin
    split
    · exact .same rfl rfl rfl rfl
    · next hcounts =>
      refine .cleans ?_ rfl rfl rfl rfl
      rw [cleansUp, decide_eq_false hcounts]
      rfl
  | resume i around outcome =>
    obtain ⟨turn, hturn, rfl⟩ := Option.map_eq_some_iff.mp hstep
    obtain ⟨c, hc, hresume⟩ := Option.bind_eq_some_iff.mp hturn
    exact (resume_does hc hresume).withCalls _

end Transport

end Mistlib.Browser
