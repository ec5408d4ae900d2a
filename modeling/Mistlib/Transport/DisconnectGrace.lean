import Mistlib.Async.Reactive
import Mistlib.Data.Table
import Mistlib.Types

/-!
# The disconnect grace

Two detectors report an outage of a peer: the peer connection by its state events, and the
overlay by the pings that stay unanswered. Both start the same grace, and the entry keeps the
origin of the one that fired first. The sweeper ends a grace by recovery, by reaping the session
or not yet.

The tables are those of `PeerSharedHandles` that take part in this. Of the repair attempts, an
admitted one restarts a grace's clock.
-/

namespace Mistlib.Transport.Grace

inductive PeerConnectionState where
  | unspecified
  | new
  | connecting
  | connected
  | disconnected
  | failed
  | closed
deriving DecidableEq, Repr

inductive GraceOrigin where
  | ice
  | livenessSuspect
deriving DecidableEq, Repr

structure DisconnectGrace where
  startedAt : Instant
  origin : GraceOrigin
deriving DecidableEq, Repr

/-- A registered peer: the state of its peer connection, whether its
ReliableOrdered data channel is open, and when something last arrived. -/
structure Peer where
  pcState : PeerConnectionState
  reliableOpen : Bool
  lastRx : Option Instant
deriving DecidableEq, Repr

structure PeerSharedHandles where
  peers : Table NodeId Peer
  connectionStates : Table NodeId ConnectionState
  disconnectedSince : Table NodeId DisconnectGrace
  pcConnectedAt : Table NodeId Instant
  lastIceRestartAt : Table NodeId Instant

/-- `saturating_duration_since(..).as_millis()`. -/
def millisSince (now at_ : Instant) : Nat := (now - at_) / 1000000

def ICE_RESTART_MIN_INTERVAL_MS : Nat := 2000

def iceRestartAllowed (msSinceLast : Option Nat) : Bool :=
  msSinceLast.all fun ms => decide (ICE_RESTART_MIN_INTERVAL_MS ≤ ms)

inductive GraceExpiryDecision where
  | wait
  | extendedByTraffic
  | recoverFalsePositive
  | reap
deriving DecidableEq, Repr

/-- The window is a duration of whole milliseconds. -/
def graceWindow (graceMs : Nat) : Duration := graceMs * 1000000

def decideGraceExpiry (grace : Option DisconnectGrace) (pcState : PeerConnectionState)
    (hasRequiredDataChannel : Bool) (lastRx : Option Instant) (now : Instant) (graceMs : Nat) :
    GraceExpiryDecision :=
  if pcState = .failed ∨ pcState = .closed then .reap
  else
    match grace with
    | none => .wait
    | some grace =>
      if now - grace.startedAt < graceWindow graceMs then .wait
      else if grace.origin = .livenessSuspect ∧ pcState = .connected ∧ hasRequiredDataChannel then
        .recoverFalsePositive
      else if lastRx.any fun rx => decide (now - max rx grace.startedAt < graceWindow graceMs) then
        .extendedByTraffic
      else .reap

theorem pcConnected_of_recover {grace : Option DisconnectGrace} {pcState : PeerConnectionState}
    {hasRequiredDataChannel : Bool} {lastRx : Option Instant} {now : Instant} {graceMs : Nat}
    (h : decideGraceExpiry grace pcState hasRequiredDataChannel lastRx now graceMs =
      .recoverFalsePositive) : pcState = .connected := by
  unfold decideGraceExpiry at h
  split at h
  · cases h
  · split at h
    · cases h
    · split at h
      · cases h
      · split at h
        · next hall => exact hall.2.1
        · split at h
          · cases h
          · cases h

namespace PeerSharedHandles

/-- What `on_open` of the ReliableOrdered channel does to the tables. -/
def onReliableOpen (h : PeerSharedHandles) (node : NodeId) : PeerSharedHandles :=
  if h.connectionStates.contains node then
    { h with
      peers := h.peers.modify node fun peer => { peer with reliableOpen := true }
      connectionStates := h.connectionStates.insert node .connected
      disconnectedSince := h.disconnectedSince.erase node
      pcConnectedAt := h.pcConnectedAt.erase node }
  else h

/-- Answers whether the node is reserved and whether this call started the
grace; one that runs keeps its start and its origin. -/
def startDisconnectGrace (h : PeerSharedHandles) (node : NodeId) (origin : GraceOrigin)
    (now : Instant) : (Bool × Bool) × PeerSharedHandles :=
  if h.connectionStates.contains node then
    match h.disconnectedSince.get node with
    | none => ((true, true),
        { h with
          connectionStates := h.connectionStates.insert node .reconnecting
          disconnectedSince := h.disconnectedSince.insert node { startedAt := now, origin } })
    | some _ => ((true, false),
        { h with connectionStates := h.connectionStates.insert node .reconnecting })
  else ((false, false), h)

def markDisconnectedGrace (h : PeerSharedHandles) (node : NodeId) (now : Instant) :
    (Bool × Bool) × PeerSharedHandles :=
  h.startDisconnectGrace node .ice now

def markSuspectDisconnected (h : PeerSharedHandles) (node : NodeId) (now : Instant) :
    Bool × PeerSharedHandles :=
  if h.connectionStates.get node = some .connected then
    let (result, h) := h.startDisconnectGrace node .livenessSuspect now
    (result.1, h)
  else (false, h)

def markConnectionState (h : PeerSharedHandles) (node : NodeId) (state : ConnectionState) :
    Bool × PeerSharedHandles :=
  if h.connectionStates.contains node then
    (true,
      { h with
        connectionStates := h.connectionStates.insert node state
        disconnectedSince :=
          if state = .connected then h.disconnectedSince.erase node else h.disconnectedSince })
  else (false, h)

/-- Whether the grace of a node was started by a suspicion. -/
def suspectOrigin (h : PeerSharedHandles) (node : NodeId) : Bool :=
  (h.disconnectedSince.get node).any fun grace => decide (grace.origin = .livenessSuspect)

def clearSuspect (h : PeerSharedHandles) (node : NodeId) : Bool × PeerSharedHandles :=
  if h.suspectOrigin node then h.markConnectionState node .connected else (false, h)

def recoverConnectedFromGrace (h : PeerSharedHandles) (node : NodeId) : Bool × PeerSharedHandles :=
  if h.disconnectedSince.contains node then h.markConnectionState node .connected else (false, h)

def rearmDisconnectGrace (h : PeerSharedHandles) (node : NodeId) (now : Instant) :
    PeerSharedHandles :=
  { h with
    disconnectedSince := h.disconnectedSince.modify node fun grace => { grace with startedAt := now } }

/-- `maybe_try_ice_restart`, up to the restart itself. -/
def maybeTryIceRestart (h : PeerSharedHandles) (node : NodeId) (now : Instant) : PeerSharedHandles :=
  match h.peers.get node with
  | none => h
  | some peer =>
    if peer.pcState = .connected then h
    else if iceRestartAllowed ((h.lastIceRestartAt.get node).map (millisSince now)) then
      { h with lastIceRestartAt := h.lastIceRestartAt.insert node now }.rearmDisconnectGrace node now
    else h

end PeerSharedHandles

/-- The events of a peer connection that is neither failed nor closed. -/
inductive PcEvent where
  | connecting
  | connected
  | disconnected
deriving DecidableEq, Repr

def PcEvent.state : PcEvent → PeerConnectionState
  | .connecting => .connecting
  | .connected => .connected
  | .disconnected => .disconnected

namespace PeerSharedHandles

def setPcState (h : PeerSharedHandles) (node : NodeId) (state : PeerConnectionState) :
    PeerSharedHandles :=
  { h with peers := h.peers.modify node fun peer => { peer with pcState := state } }

/-- `or_insert_with(Instant::now)` on the time a peer connection came up. -/
def notePcConnected (h : PeerSharedHandles) (node : NodeId) (now : Instant) : PeerSharedHandles :=
  if h.pcConnectedAt.contains node then h
  else { h with pcConnectedAt := h.pcConnectedAt.insert node now }

/-- `setup_connection_state_handler`: the peer connection takes a state and the
handler is called with it. -/
def onPeerConnectionStateChange (h : PeerSharedHandles) (node : NodeId) (event : PcEvent)
    (now : Instant) : PeerSharedHandles :=
  let h := h.setPcState node event.state
  match event with
  | .connected =>
    if h.connectionStates.contains node then
      ((h.notePcConnected node now).recoverConnectedFromGrace node).2
    else h
  | .connecting => (h.markConnectionState node .connecting).2
  | .disconnected => (h.markDisconnectedGrace node now).2

/-- `record`: the last receipt never moves back. -/
def recordInbound (h : PeerSharedHandles) (node : NodeId) (at_ : Instant) : PeerSharedHandles :=
  { h with
    peers := h.peers.modify node fun peer =>
      { peer with lastRx := some (peer.lastRx.elim at_ (max at_)) } }

end PeerSharedHandles

/-- What the environment of a process sets. -/
structure Config where
  disconnectedGraceMs : Nat
  dataChannelOpenTimeout : Duration
deriving Repr

namespace PeerSharedHandles

/-- A node's turn in a sweep, or `none` if it is reaped. A reservation without a
peer that is left alone is not touched. -/
def sweepNode (config : Config) (h : PeerSharedHandles) (node : NodeId) (now : Instant) :
    Option PeerSharedHandles :=
  match h.connectionStates.get node, h.peers.get node with
  | none, _ | some _, none => some h
  | some _, some peer =>
    let h := if peer.reliableOpen then { h with pcConnectedAt := h.pcConnectedAt.erase node } else h
    let decision := decideGraceExpiry (h.disconnectedSince.get node) peer.pcState peer.reliableOpen
      peer.lastRx now config.disconnectedGraceMs
    let missingRequiredChannel := !peer.reliableOpen && (h.pcConnectedAt.get node).any fun at_ =>
      decide (config.dataChannelOpenTimeout ≤ now - at_)
    if decision = .recoverFalsePositive then some (h.recoverConnectedFromGrace node).2
    else if decision = .reap ∨ missingRequiredChannel then none
    else some h

end PeerSharedHandles

/-- What happens to the peer of a node. -/
inductive Event where
  | stateChange (node : NodeId) (event : PcEvent) (now : Instant)
  | suspectDisconnected (node : NodeId) (now : Instant)
  | clearSuspect (node : NodeId)
  | iceRestart (node : NodeId) (now : Instant)
  | inbound (node : NodeId) (at_ : Instant)
  | sweep (node : NodeId) (now : Instant)
deriving DecidableEq, Repr

namespace PeerSharedHandles

def step (config : Config) (h : PeerSharedHandles) : Event → Option PeerSharedHandles
  | .stateChange node event now => some (h.onPeerConnectionStateChange node event now)
  | .suspectDisconnected node now => some (h.markSuspectDisconnected node now).2
  | .clearSuspect node => some (h.clearSuspect node).2
  | .iceRestart node now => some (h.maybeTryIceRestart node now)
  | .inbound node at_ => some (h.recordInbound node at_)
  | .sweep node now => h.sweepNode config node now

end PeerSharedHandles

/-! ## One node's entries -/

structure View where
  peer : Option Peer
  state : Option ConnectionState
  grace : Option DisconnectGrace
deriving DecidableEq

namespace PeerSharedHandles

def view (h : PeerSharedHandles) (n : NodeId) : View where
  peer := h.peers.get n
  state := h.connectionStates.get n
  grace := h.disconnectedSince.get n

section Views

variable (h : PeerSharedHandles) (node n : NodeId)

theorem contains_states : h.connectionStates.contains node = (h.view node).state.isSome := rfl

theorem contains_grace : h.disconnectedSince.contains node = (h.view node).grace.isSome := rfl

theorem view_markConnectionState (state : ConnectionState) :
    (h.markConnectionState node state).2.view n =
      if n = node ∧ (h.view node).state.isSome then
        { h.view n with
          state := some state
          grace := if state = .connected then none else (h.view n).grace }
      else h.view n := by
  unfold markConnectionState
  rw [contains_states]
  by_cases hstate : (h.view node).state.isSome = true
  · rw [if_pos hstate]
    by_cases hn : n = node
    · subst hn
      rw [if_pos (show n = n ∧ (h.view n).state.isSome = true from ⟨rfl, hstate⟩)]
      by_cases hconnected : state = .connected
      · simp [view, Table.get_erase, hconnected]
      · simp [view, hconnected]
    · rw [if_neg (show ¬ (n = node ∧ (h.view node).state.isSome = true) from fun hc => hn hc.1)]
      by_cases hconnected : state = .connected
      · simp [view, Table.get_insert, Table.get_erase, hn, hconnected]
      · simp [view, Table.get_insert, hn, hconnected]
  · simp [hstate]

theorem view_recoverConnectedFromGrace :
    (h.recoverConnectedFromGrace node).2.view n =
      if n = node ∧ (h.view node).grace.isSome ∧ (h.view node).state.isSome then
        { h.view n with state := some .connected, grace := none }
      else h.view n := by
  unfold recoverConnectedFromGrace
  rw [contains_grace]
  by_cases hgrace : (h.view node).grace.isSome = true
  · simp [hgrace, view_markConnectionState]
  · simp [hgrace]

theorem view_clearSuspect :
    (h.clearSuspect node).2.view n =
      if n = node ∧ h.suspectOrigin node ∧ (h.view node).state.isSome then
        { h.view n with state := some .connected, grace := none }
      else h.view n := by
  unfold clearSuspect
  by_cases horigin : h.suspectOrigin node = true
  · simp [horigin, view_markConnectionState]
  · simp [horigin]

theorem view_startDisconnectGrace (origin : GraceOrigin) (now : Instant) :
    (h.startDisconnectGrace node origin now).2.view n =
      if n = node ∧ (h.view node).state.isSome then
        { h.view n with
          state := some .reconnecting
          grace := some ((h.view n).grace.getD { startedAt := now, origin }) }
      else h.view n := by
  unfold startDisconnectGrace
  rw [contains_states]
  by_cases hstate : (h.view node).state.isSome = true
  · rw [if_pos hstate]
    by_cases hn : n = node
    · subst hn
      rw [if_pos (show n = n ∧ (h.view n).state.isSome = true from ⟨rfl, hstate⟩)]
      cases hgrace : h.disconnectedSince.get n with
      | none | some grace => simp [view, hgrace]
    · rw [if_neg (show ¬ (n = node ∧ (h.view node).state.isSome = true) from fun hc => hn hc.1)]
      cases hgrace : h.disconnectedSince.get node with
      | none | some grace => simp [view, Table.get_insert, hn]
  · simp [hstate]

theorem view_markSuspectDisconnected (now : Instant) :
    (h.markSuspectDisconnected node now).2.view n =
      if n = node ∧ (h.view node).state = some .connected then
        { h.view n with
          state := some .reconnecting
          grace := some ((h.view n).grace.getD { startedAt := now, origin := .livenessSuspect }) }
      else h.view n := by
  unfold markSuspectDisconnected
  by_cases hstate : h.connectionStates.get node = some .connected
  · have hview : (h.view node).state = some .connected := hstate
    simp [hstate, hview, view_startDisconnectGrace]
  · have hview : (h.view node).state ≠ some .connected := hstate
    simp [hstate, hview]

theorem view_setPcState (state : PeerConnectionState) :
    (h.setPcState node state).view n =
      if n = node then
        { h.view n with peer := (h.view n).peer.map fun peer => { peer with pcState := state } }
      else h.view n := by
  by_cases hn : n = node
  · simp [setPcState, view, hn]
  · simp [setPcState, view, hn]

@[simp] theorem view_notePcConnected (now : Instant) :
    (h.notePcConnected node now).view n = h.view n := by
  unfold notePcConnected
  split
  · rfl
  · rfl

end Views

end PeerSharedHandles

/-! ## The state follows the peer connection -/

/-- What the state of a node owes to the last event of its peer connection. -/
structure Agrees (last : PeerConnectionState) (state : ConnectionState)
    (grace : Option DisconnectGrace) : Prop where
  reconnecting : state = .reconnecting → grace.isSome = true
  outage : last = .disconnected → state ≠ .connected
  recovered : last = .connected → grace = none → state = .connected

theorem agrees_iff {last : PeerConnectionState} {state : ConnectionState}
    {grace : Option DisconnectGrace} :
    Agrees last state grace ↔ (state = .reconnecting → grace.isSome = true) ∧
      (last = .disconnected → state ≠ .connected) ∧
      (last = .connected → grace = none → state = .connected) :=
  ⟨fun h => ⟨h.reconnecting, h.outage, h.recovered⟩, fun ⟨h₁, h₂, h₃⟩ => ⟨h₁, h₂, h₃⟩⟩

instance (last : PeerConnectionState) (state : ConnectionState) (grace : Option DisconnectGrace) :
    Decidable (Agrees last state grace) :=
  decidable_of_iff _ agrees_iff.symm

/-- The node has a peer, and its state agrees with the peer connection. -/
def View.Follows (v : View) : Prop :=
  ∃ peer state, v.peer = some peer ∧ v.state = some state ∧ Agrees peer.pcState state v.grace

def PeerSharedHandles.Follows (h : PeerSharedHandles) (n : NodeId) : Prop := (h.view n).Follows

namespace Event

/-- The peer connection of the node comes up only while a grace is pending or
the node is connected, and no suspicion is cleared that started the grace of an
outage the peer connection reports too. -/
def Calm (n : NodeId) (h : PeerSharedHandles) : Event → Prop
  | .stateChange node .connected _ => node = n →
      (h.view n).state = some .connected ∨ (h.view n).grace.isSome = true
  | .clearSuspect node => node = n → h.suspectOrigin n = true →
      (h.view n).peer.map (·.pcState) ≠ some .disconnected
  | _ => True

instance (n : NodeId) (h : PeerSharedHandles) : (event : Event) → Decidable (event.Calm n h)
  | .stateChange node .connected _ => inferInstanceAs (Decidable (node = n →
      (h.view n).state = some .connected ∨ (h.view n).grace.isSome = true))
  | .stateChange _ .connecting _
  | .stateChange _ .disconnected _ => inferInstanceAs (Decidable True)
  | .clearSuspect node => inferInstanceAs (Decidable (node = n → h.suspectOrigin n = true →
      (h.view n).peer.map (·.pcState) ≠ some .disconnected))
  | .suspectDisconnected .. | .iceRestart .. | .inbound ..
  | .sweep .. => inferInstanceAs (Decidable True)

end Event

namespace PeerSharedHandles

section Steps

variable {h h' : PeerSharedHandles} {n : NodeId} {config : Config}

theorem view_sweepNode {node : NodeId} {now : Instant} (hsweep : h.sweepNode config node now = some h') :
    h'.view n = h.view n ∨ n = node ∧
      (∃ peer, (h.view node).peer = some peer ∧ peer.pcState = .connected) ∧
      (h.view node).state.isSome = true ∧
      h'.view n = { h.view n with state := some .connected, grace := none } := by
  unfold sweepNode at hsweep
  split at hsweep
  · cases hsweep
    exact .inl rfl
  · cases hsweep
    exact .inl rfl
  · next state peer hstate hpeer =>
    have hview : ∀ m, (if peer.reliableOpen = true
        then { h with pcConnectedAt := h.pcConnectedAt.erase node } else h).view m = h.view m := by
      intro m
      split
      · rfl
      · rfl
    generalize (if peer.reliableOpen = true
        then { h with pcConnectedAt := h.pcConnectedAt.erase node } else h) = g at hsweep hview
    simp only at hsweep
    split at hsweep
    · next hdecision =>
      cases hsweep
      rw [view_recoverConnectedFromGrace, hview, hview]
      split
      · next hboth =>
        exact .inr ⟨hboth.1, ⟨peer, hpeer, pcConnected_of_recover hdecision⟩, hboth.2.2, rfl⟩
      · exact .inl rfl
    · split at hsweep
      · cases hsweep
      · cases hsweep
        exact .inl (hview n)

theorem view_maybeTryIceRestart (node : NodeId) (now : Instant) :
    ((h.maybeTryIceRestart node now).view n).peer = (h.view n).peer ∧
      ((h.maybeTryIceRestart node now).view n).state = (h.view n).state ∧
      ((h.maybeTryIceRestart node now).view n).grace.isSome = (h.view n).grace.isSome := by
  unfold maybeTryIceRestart
  split
  · exact ⟨rfl, rfl, rfl⟩
  · split
    · exact ⟨rfl, rfl, rfl⟩
    · split
      · refine ⟨rfl, rfl, ?_⟩
        simp only [view, rearmDisconnectGrace, Table.get_modify]
        split
        · simp
        · rfl
      · exact ⟨rfl, rfl, rfl⟩

theorem view_onPeerConnectionStateChange {peer : Peer} {state : ConnectionState} (node : NodeId)
    (event : PcEvent) (now : Instant) (hpeer : (h.view n).peer = some peer)
    (hstate : (h.view n).state = some state) :
    (h.onPeerConnectionStateChange node event now).view n =
      if n = node then
        { peer := some { peer with pcState := event.state }
          state :=
            match event with
            | .connecting => some .connecting
            | .connected => if (h.view n).grace.isSome then some .connected else some state
            | .disconnected => some .reconnecting
          grace :=
            match event with
            | .connecting => (h.view n).grace
            | .connected => none
            | .disconnected => some ((h.view n).grace.getD { startedAt := now, origin := .ice }) }
      else h.view n := by
  by_cases hn : n = node
  · subst hn
    have hset : (h.setPcState n event.state).view n =
        { h.view n with peer := some { peer with pcState := event.state } } := by
      rw [view_setPcState, if_pos rfl, hpeer, Option.map_some]
    cases event with
    | connecting =>
      simp [onPeerConnectionStateChange, view_markConnectionState, hset, hstate]
    | connected =>
      have hcontains : (h.setPcState n PcEvent.connected.state).connectionStates.contains n = true := by
        rw [contains_states, hset]
        simp [hstate]
      simp only [onPeerConnectionStateChange, hcontains, if_true, view_recoverConnectedFromGrace,
        view_notePcConnected, hset, hstate, Option.isSome_some, and_true, true_and]
      cases hgrace : (h.view n).grace with
      | none | some grace => simp
    | disconnected =>
      simp [onPeerConnectionStateChange, markDisconnectedGrace, view_startDisconnectGrace, hset, hstate]
  · have hset : (h.setPcState node event.state).view n = h.view n := by
      rw [view_setPcState, if_neg hn]
    cases event with
    | connecting => simp [onPeerConnectionStateChange, view_markConnectionState, hset, hn]
    | connected =>
      simp only [onPeerConnectionStateChange]
      split
      · simp [view_recoverConnectedFromGrace, hset, hn]
      · exact hset
    | disconnected =>
      simp [onPeerConnectionStateChange, markDisconnectedGrace, view_startDisconnectGrace, hset, hn]

theorem follows_congr (hview : h'.view n = h.view n) : h'.Follows n ↔ h.Follows n := by
  rw [Follows, Follows, hview]

theorem follows_iff {peer : Peer} {state : ConnectionState} {grace : Option DisconnectGrace}
    (hview : h.view n = ⟨some peer, some state, grace⟩) :
    h.Follows n ↔ Agrees peer.pcState state grace := by
  simp [Follows, View.Follows, hview]

section

variable (hf : h.Follows n) (node : NodeId)
include hf node

theorem follows_stateChange (event : PcEvent) (now : Instant) :
    (h.onPeerConnectionStateChange node event now).Follows n ↔
      (Event.stateChange node event now).Calm n h := by
  obtain ⟨peer, state, hpeer, hstate, hagrees⟩ := hf
  have hview := view_onPeerConnectionStateChange node event now hpeer hstate
  by_cases hn : n = node
  · subst hn
    rw [if_pos rfl] at hview
    rw [Follows, hview]
    cases event with
    | connecting | disconnected => simp [View.Follows, agrees_iff, Event.Calm, PcEvent.state]
    | connected =>
      cases hgrace : (h.view n).grace with
      | none =>
        have hnot : state ≠ .reconnecting := fun heq => by
          have := hagrees.reconnecting heq
          rw [hgrace] at this
          cases this
        simp [View.Follows, agrees_iff, Event.Calm, PcEvent.state, hstate, hgrace, hnot]
      | some grace => simp [View.Follows, agrees_iff, Event.Calm, PcEvent.state, hgrace]
  · rw [if_neg hn] at hview
    have hsame : h.Follows n := ⟨peer, state, hpeer, hstate, hagrees⟩
    have hother : node ≠ n := fun heq => hn heq.symm
    cases event with
    | connecting | disconnected => simp [follows_congr hview, hsame, Event.Calm]
    | connected => simp [follows_congr hview, hsame, Event.Calm, hother]

theorem follows_suspectDisconnected (now : Instant) :
    (h.markSuspectDisconnected node now).2.Follows n := by
  have hview := view_markSuspectDisconnected h node n now
  split at hview
  · next hboth =>
    obtain ⟨rfl, hconnected⟩ := hboth
    obtain ⟨peer, state, hpeer, hstate, hagrees⟩ := hf
    cases hstate.symm.trans hconnected
    rw [Follows, hview]
    refine ⟨peer, .reconnecting, hpeer, rfl, fun _ => rfl, fun _ => nofun, ?_⟩
    intro _ hnone
    cases hnone
  · exact (follows_congr hview).mpr hf

theorem follows_clearSuspect :
    (h.clearSuspect node).2.Follows n ↔ (Event.clearSuspect node).Calm n h := by
  have hview := view_clearSuspect h node n
  have hregistered := hf
  obtain ⟨peer, state, hpeer, hstate, hagrees⟩ := hregistered
  split at hview
  · next hall =>
    obtain ⟨rfl, horigin, _⟩ := hall
    rw [Follows, hview]
    simp [View.Follows, agrees_iff, Event.Calm, hpeer, horigin]
  · next hnot =>
    have hcalm : (Event.clearSuspect node).Calm n h := by
      rintro rfl horigin
      exact absurd ⟨rfl, horigin, by rw [hstate]; rfl⟩ hnot
    simp [follows_congr hview, hf, hcalm]

theorem follows_iceRestart (now : Instant) : (h.maybeTryIceRestart node now).Follows n := by
  obtain ⟨peer, state, hpeer, hstate, hagrees⟩ := hf
  obtain ⟨hpeer', hstate', hgrace'⟩ := view_maybeTryIceRestart (h := h) (n := n) node now
  refine ⟨peer, state, hpeer'.trans hpeer, hstate'.trans hstate, ?_, hagrees.outage, ?_⟩
  · rw [hgrace']
    exact hagrees.reconnecting
  · intro hlast hnone
    refine hagrees.recovered hlast ?_
    rw [hnone] at hgrace'
    exact Option.isSome_eq_false_iff.mp hgrace'.symm |> Option.isNone_iff_eq_none.mp

theorem follows_inbound (at_ : Instant) : (h.recordInbound node at_).Follows n := by
  obtain ⟨peer, state, hpeer, hstate, hagrees⟩ := hf
  have hget : h.peers.get n = some peer := hpeer
  by_cases hn : n = node
  · subst hn
    refine ⟨{ peer with lastRx := some (peer.lastRx.elim at_ (max at_)) }, state, ?_, hstate, hagrees⟩
    simp [view, recordInbound, hget]
  · refine ⟨peer, state, ?_, hstate, hagrees⟩
    simp [view, recordInbound, hn, hget]

end

theorem follows_sweep (hf : h.Follows n) {node : NodeId} {now : Instant}
    (hsweep : h.sweepNode config node now = some h') : h'.Follows n := by
  rcases view_sweepNode (n := n) hsweep with hsame | ⟨rfl, ⟨peer, hpeer, hconnected⟩, _, hview⟩
  · exact (follows_congr hsame).mpr hf
  · rw [Follows, hview]
    refine ⟨peer, .connected, hpeer, rfl, nofun, ?_, fun _ _ => rfl⟩
    rw [hconnected]
    nofun

/-- A step still follows the node exactly if its event is calm. -/
theorem follows_step (hf : h.Follows n) {event : Event} (hstep : h.step config event = some h') :
    h'.Follows n ↔ event.Calm n h := by
  cases event with
  | stateChange node event now =>
    cases hstep
    exact follows_stateChange hf node event now
  | suspectDisconnected node now =>
    cases hstep
    exact iff_of_true (follows_suspectDisconnected hf node now) trivial
  | clearSuspect node =>
    cases hstep
    exact follows_clearSuspect hf node
  | iceRestart node now =>
    cases hstep
    exact iff_of_true (follows_iceRestart hf node now) trivial
  | inbound node at_ =>
    cases hstep
    exact iff_of_true (follows_inbound hf node at_) trivial
  | sweep node now => exact iff_of_true (follows_sweep hf hstep) trivial

theorem follows_onReliableOpen {peer : Peer} (hpeer : h.peers.get n = some peer)
    (hstate : h.connectionStates.contains n = true) :
    (h.onReliableOpen n).Follows n ↔ peer.pcState ≠ .disconnected := by
  have hview : (h.onReliableOpen n).view n =
      ⟨some { peer with reliableOpen := true }, some .connected, none⟩ := by
    simp [onReliableOpen, hstate, view, hpeer, Table.get_erase]
  rw [follows_iff hview]
  simp [agrees_iff]

end Steps

end PeerSharedHandles

open Reactive in
/-- From the opening of its channel on, the state of a node follows its peer
connection throughout a run exactly if the peer connection was not disconnected
at the opening and every step of the run is calm. -/
theorem follows_throughout_iff {config : Config} {h s : PeerSharedHandles} {n : NodeId} {peer : Peer}
    (hpeer : h.peers.get n = some peer) (hstate : h.connectionStates.contains n = true)
    {moves : List (Move PeerSharedHandles Event)}
    (run : Run (PeerSharedHandles.step config) (h.onReliableOpen n) moves s) :
    (s.Follows n ∧ ∀ m ∈ moves, m.before.Follows n) ↔
      peer.pcState ≠ .disconnected ∧ ∀ m ∈ moves, m.input.Calm n m.before := by
  rw [← PeerSharedHandles.follows_onReliableOpen hpeer hstate]
  exact run.throughout_iff (I := fun _ => True) (C := fun h event => event.Calm n h) trivial
    (fun _ _ _ _ _ => trivial) fun _ _ _ _ hf hstep => PeerSharedHandles.follows_step hf hstep

/-! ### An outage that a cleared suspicion ends, and one that ends by itself -/

section Runs

def remote : NodeId := ⟨"remote"⟩

def graceConfig : Config := { disconnectedGraceMs := 15000, dataChannelOpenTimeout := 10000000000 }

/-- The remote is reserved and its peer connection has come up. -/
def dialled : PeerSharedHandles where
  peers := (∅ : Table NodeId Peer).insert remote ⟨.connected, false, none⟩
  connectionStates := (∅ : Table NodeId ConnectionState).insert remote .connecting
  disconnectedSince := ∅
  pcConnectedAt := ∅
  lastIceRestartAt := ∅

def afterOpening (events : List Event) : List (Reactive.Move PeerSharedHandles Event) × PeerSharedHandles :=
  Reactive.play (PeerSharedHandles.step graceConfig) (dialled.onReliableOpen remote) events

/-- ICE reports an outage of a peer that is suspected already, and recovers. -/
def outageAndRecovery : List Event :=
  [.sweep remote 9, .clearSuspect remote, .stateChange remote .connected 8, .iceRestart remote 7,
    .stateChange remote .connecting 6, .stateChange remote .disconnected 5,
    .suspectDisconnected remote 4]

theorem outageAndRecovery_follows :
    (afterOpening outageAndRecovery).2.Follows remote ∧
      ∀ m ∈ (afterOpening outageAndRecovery).1, m.before.Follows remote :=
  (follows_throughout_iff (by decide : dialled.peers.get remote = some ⟨.connected, false, none⟩)
    (by decide) (Reactive.run_play _ _ outageAndRecovery)).mpr ⟨by decide, by decide +kernel⟩

/-- A suspicion, the outage that ICE reports, and the end of the suspicion: the
node is connected over a peer connection that is not. -/
theorem clearSuspect_endsOutage :
    ∃ moves s, Reactive.Run (PeerSharedHandles.step graceConfig) (dialled.onReliableOpen remote) moves s ∧
      s.view remote = ⟨some ⟨.disconnected, true, none⟩, some .connected, none⟩ ∧
      ¬ s.Follows remote := by
  have hview : (afterOpening [.clearSuspect remote, .stateChange remote .disconnected 5,
      .suspectDisconnected remote 4]).2.view remote =
        ⟨some ⟨.disconnected, true, none⟩, some .connected, none⟩ := by
    decide +kernel
  exact ⟨_, _, Reactive.run_play _ _ _, hview,
    mt (PeerSharedHandles.follows_iff hview).mp (by decide)⟩

end Runs

end Mistlib.Transport.Grace
