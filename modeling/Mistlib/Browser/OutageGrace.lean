import Mistlib.Browser.NodeEntries
import Mistlib.Transport.DisconnectGrace

/-!
# The outage grace of a browser peer

The browser's tables of peers, states and graces under the two detectors of an outage: the ICE
callbacks of a peer, and the suspicions of the overlay. A grace has the origin of the detector
that fired first. The bytes of a statistics sample can cancel a suspicion too, and the sweeper
never changes a grace without reaping the peer.
-/

namespace Mistlib.Browser.Outage

open Transport.Grace (GraceOrigin DisconnectGrace graceWindow)

def DISCONNECTED_GRACE_MS : Nat := 5000

/-- A registered peer. `ice` is what its peer connection says, which the latest
callback has read, and `transportRx` the report and the count of the last
statistics sample. -/
structure Peer where
  id : PeerId
  ice : IceState
  connectionAnnounced : Bool
  transportRx : Option (String × Nat)
  lastRx : Option Instant
deriving DecidableEq, Repr

namespace Peer

/-- `TransportReceiveCounter::observe`: only growth in the same report proves
new inbound bytes. -/
def observe (peer : Peer) (reportId : String) (bytes : Nat) : Bool × Peer :=
  (peer.transportRx.any fun known => decide (known.1 = reportId ∧ known.2 < bytes),
    { peer with transportRx := some (reportId, bytes) })

/-- `record`: the last receipt never moves back. -/
def record (peer : Peer) (now : Instant) : Peer :=
  { peer with lastRx := some (peer.lastRx.elim now (max now)) }

def recordTransportBytes (peer : Peer) (reportId : String) (bytes : Nat) (now : Instant) : Bool × Peer :=
  let (grew, peer) := peer.observe reportId bytes
  (grew, if grew then peer.record now else peer)

theorem ice_recordTransportBytes (peer : Peer) (reportId : String) (bytes : Nat) (now : Instant) :
    (peer.recordTransportBytes reportId bytes now).2.ice = peer.ice := by
  simp only [recordTransportBytes]
  split
  · rfl
  · rfl

end Peer

inductive GraceExpiryDecision where
  | wait
  | extendedByTraffic
  | reap
deriving DecidableEq, Repr

def decideGraceExpiry (ice : IceState) (state : ConnectionState) (graceStart lastRx : Option Instant)
    (now : Instant) (graceMs : Nat) : GraceExpiryDecision :=
  if ice.terminal then .reap
  else if ice ≠ .disconnected ∧ state ≠ .reconnecting then .wait
  else
    match graceStart with
    | none => .wait
    | some start =>
      if now - start < graceWindow graceMs then .wait
      else if lastRx.any fun rx => decide (now - max rx start < graceWindow graceMs) then
        .extendedByTraffic
      else .reap

/-- The callbacks of a peer connection that is neither failed nor closed. -/
inductive IceEvent where
  | checking
  | connected
  | completed
  | disconnected
deriving DecidableEq, Repr

def IceEvent.state : IceEvent → IceState
  | .checking => .checking
  | .connected => .connected
  | .completed => .completed
  | .disconnected => .disconnected

structure WasmWebRtcTransport where
  peers : Table NodeId Peer
  connectionStates : Table NodeId ConnectionState
  disconnectedSince : Table NodeId DisconnectGrace

namespace WasmWebRtcTransport

/-- The peer is the registered one of the node: `Arc::ptr_eq`. -/
def isCurrent (t : WasmWebRtcTransport) (node : NodeId) (peer : PeerId) : Bool :=
  (t.peers.get node).any fun current => decide (current.id = peer)

/-- An entry that is there keeps its start and its origin. -/
def startGrace (t : WasmWebRtcTransport) (node : NodeId) (origin : GraceOrigin) (now : Instant) :
    WasmWebRtcTransport :=
  match t.disconnectedSince.get node with
  | none => { t with disconnectedSince := t.disconnectedSince.insert node { startedAt := now, origin } }
  | some _ => t

/-- `handle_ice_state_change` and what the callback does after it. -/
def handleIceStateChange (t : WasmWebRtcTransport) (node : NodeId) (event : IceEvent)
    (hasOpenChannel : Bool) (now : Instant) : WasmWebRtcTransport :=
  let t :=
    match stateAfterIce hasOpenChannel event.state with
    | some state => { t with connectionStates := t.connectionStates.insert node state }
    | none => t
  match event with
  | .connected | .completed => { t with disconnectedSince := t.disconnectedSince.erase node }
  | .disconnected => t.startGrace node .ice now
  | .checking => t

/-- `oniceconnectionstatechange` of a peer; one that is not registered is stale. -/
def onIceStateChange (t : WasmWebRtcTransport) (node : NodeId) (peer : PeerId) (event : IceEvent)
    (hasOpenChannel : Bool) (now : Instant) : WasmWebRtcTransport :=
  if t.isCurrent node peer then
    { t with peers := t.peers.modify node fun current => { current with ice := event.state } }
      |>.handleIceStateChange node event hasOpenChannel now
  else t

/-- The grace of a node was started by a suspicion. -/
def isSuspect (t : WasmWebRtcTransport) (node : NodeId) : Bool :=
  (t.disconnectedSince.get node).any fun grace => decide (grace.origin = .livenessSuspect)

/-- `cancel_suspect_grace`, which `OverlayAction::ClearSuspect` runs. -/
def cancelSuspectGrace (t : WasmWebRtcTransport) (node : NodeId) : Bool × WasmWebRtcTransport :=
  if t.isSuspect node then
    if t.connectionStates.contains node then
      (true,
        { t with
          connectionStates := t.connectionStates.insert node .connected
          disconnectedSince := t.disconnectedSince.erase node })
    else (false, t)
  else (false, t)

/-- `OverlayAction::SuspectDisconnected`. -/
def markSuspectDisconnected (t : WasmWebRtcTransport) (node : NodeId) (now : Instant) :
    Bool × WasmWebRtcTransport :=
  if t.connectionStates.get node = some .connected then
    (true,
      { t with connectionStates := t.connectionStates.insert node .reconnecting }.startGrace node
        .livenessSuspect now)
  else (false, t)

/-- What the sweeper does with a statistics sample of a peer. `suspected` is what
`note_inbound_activity` answers: the statistics had the node under suspicion. -/
def noteSample (t : WasmWebRtcTransport) (node : NodeId) (peer : PeerId) (reportId : String)
    (bytes : Nat) (suspected : Bool) (now : Instant) : WasmWebRtcTransport :=
  match t.peers.get node with
  | none => t
  | some current =>
    if current.id = peer ∧ current.connectionAnnounced then
      let (grew, current) := current.recordTransportBytes reportId bytes now
      let t := { t with peers := t.peers.insert node current }
      if grew ∧ suspected then (t.cancelSuspectGrace node).2 else t
    else t

/-- A node's turn in a sweeper pass, or `none` if its peer is reaped. `hasChannel`
says that one of its channels is open or connecting. -/
def sweepNode (t : WasmWebRtcTransport) (node : NodeId) (hasChannel : Bool) (now : Instant) :
    Option WasmWebRtcTransport :=
  match t.connectionStates.get node, t.peers.get node with
  | none, _ => some t
  | some _, none =>
    some { t with
      connectionStates := t.connectionStates.erase node
      disconnectedSince := t.disconnectedSince.erase node }
  | some state, some peer =>
    let graceDecision := decideGraceExpiry peer.ice state
      ((t.disconnectedSince.get node).map (·.startedAt)) peer.lastRx now DISCONNECTED_GRACE_MS
    let disconnectedGraceExpired := !peer.ice.terminal && graceDecision == .reap
    let missingChannel := state == .connected && !hasChannel
    if peer.ice.terminal || disconnectedGraceExpired || missingChannel then none else some t

end WasmWebRtcTransport

inductive Event where
  | iceStateChange (node : NodeId) (peer : PeerId) (event : IceEvent) (hasOpenChannel : Bool) (now : Instant)
  | suspectDisconnected (node : NodeId) (now : Instant)
  | clearSuspect (node : NodeId)
  | sample (node : NodeId) (peer : PeerId) (reportId : String) (bytes : Nat) (suspected : Bool)
      (now : Instant)
  | sweep (node : NodeId) (hasChannel : Bool) (now : Instant)
deriving DecidableEq, Repr

namespace WasmWebRtcTransport

def step (t : WasmWebRtcTransport) : Event → Option WasmWebRtcTransport
  | .iceStateChange node peer event hasOpenChannel now =>
    some (t.onIceStateChange node peer event hasOpenChannel now)
  | .suspectDisconnected node now => some (t.markSuspectDisconnected node now).2
  | .clearSuspect node => some (t.cancelSuspectGrace node).2
  | .sample node peer reportId bytes suspected now =>
    some (t.noteSample node peer reportId bytes suspected now)
  | .sweep node hasChannel now => t.sweepNode node hasChannel now

end WasmWebRtcTransport

/-! ## One node's entries -/

/-- What the tables say of a node, and the latest ICE callback of its peer. -/
structure View where
  ice : Option IceState
  state : Option ConnectionState
  grace : Option DisconnectGrace
deriving DecidableEq, Repr

/-- An outage is under grace: the sweeper has an entry to time it by. -/
structure View.Covered (v : View) : Prop where
  outage : v.ice = some .disconnected → v.grace.isSome = true ∧ v.state ≠ some .connected
  reconnecting : v.state = some .reconnecting → v.grace.isSome = true

theorem View.covered_iff {v : View} :
    v.Covered ↔ (v.ice = some .disconnected → v.grace.isSome = true ∧ v.state ≠ some .connected) ∧
      (v.state = some .reconnecting → v.grace.isSome = true) :=
  ⟨fun h => ⟨h.outage, h.reconnecting⟩, fun ⟨h₁, h₂⟩ => ⟨h₁, h₂⟩⟩

instance (v : View) : Decidable v.Covered := decidable_of_iff _ View.covered_iff.symm

namespace WasmWebRtcTransport

def view (t : WasmWebRtcTransport) (n : NodeId) : View where
  ice := (t.peers.get n).map (·.ice)
  state := t.connectionStates.get n
  grace := t.disconnectedSince.get n

def Covered (t : WasmWebRtcTransport) (n : NodeId) : Prop := (t.view n).Covered
deriving Decidable

def endsGrace (t : WasmWebRtcTransport) (node : NodeId) : Bool :=
  t.isSuspect node && t.connectionStates.contains node

/-- The sample is of the registered peer, it counts new bytes, and the node was
under suspicion. -/
def cancelsBy (t : WasmWebRtcTransport) (node : NodeId) (peer : PeerId) (reportId : String)
    (bytes : Nat) (suspected : Bool) : Bool :=
  (t.peers.get node).any fun current =>
    decide (current.id = peer) && current.connectionAnnounced && (current.observe reportId bytes).1 &&
      suspected

end WasmWebRtcTransport

namespace Event

/-- The step runs `cancel_suspect_grace` of the node. -/
def Cancels (n : NodeId) (t : WasmWebRtcTransport) : Event → Prop
  | .clearSuspect node => node = n
  | .sample node peer reportId bytes suspected _ =>
    node = n ∧ t.cancelsBy node peer reportId bytes suspected = true
  | _ => False

/-- No grace that a suspicion started is cancelled in an outage that ICE reports. -/
def Calm (n : NodeId) (t : WasmWebRtcTransport) (event : Event) : Prop :=
  event.Cancels n t → t.endsGrace n = true → (t.view n).ice ≠ some .disconnected

instance (n : NodeId) (t : WasmWebRtcTransport) : (event : Event) → Decidable (event.Cancels n t)
  | .clearSuspect node => inferInstanceAs (Decidable (node = n))
  | .sample node peer reportId bytes suspected _ =>
    inferInstanceAs (Decidable (node = n ∧ t.cancelsBy node peer reportId bytes suspected = true))
  | .iceStateChange .. | .suspectDisconnected .. | .sweep .. => inferInstanceAs (Decidable False)

instance (n : NodeId) (t : WasmWebRtcTransport) (event : Event) : Decidable (event.Calm n t) :=
  inferInstanceAs (Decidable (event.Cancels n t → t.endsGrace n = true →
    (t.view n).ice ≠ some .disconnected))

end Event

namespace WasmWebRtcTransport

section Steps

variable (t : WasmWebRtcTransport) (node n : NodeId)

theorem view_startGrace (origin : GraceOrigin) (now : Instant) :
    (t.startGrace node origin now).view n =
      if n = node then
        { t.view n with grace := some ((t.view n).grace.getD { startedAt := now, origin }) }
      else t.view n := by
  unfold startGrace
  cases hgrace : t.disconnectedSince.get node with
  | none =>
    by_cases hn : n = node
    · subst hn
      simp [view, hgrace]
    · simp [view, Table.get_insert, hn]
  | some grace =>
    by_cases hn : n = node
    · subst hn
      simp [view, hgrace]
    · simp [hn]

theorem view_onIceStateChange (peer : PeerId) (event : IceEvent) (hasOpenChannel : Bool) (now : Instant) :
    (t.onIceStateChange node peer event hasOpenChannel now).view n =
      if n = node ∧ t.isCurrent node peer = true then
        { ice := some event.state
          state := stateAfterIce hasOpenChannel event.state
          grace :=
            match event with
            | .checking => (t.view n).grace
            | .connected | .completed => none
            | .disconnected => some ((t.view n).grace.getD { startedAt := now, origin := .ice }) }
      else t.view n := by
  unfold onIceStateChange
  by_cases hcurrent : t.isCurrent node peer = true
  · obtain ⟨current, hget⟩ := Option.isSome_iff_exists.mp (Option.isSome_of_any hcurrent)
    rw [if_pos hcurrent]
    by_cases hn : n = node
    · subst hn
      rw [if_pos ⟨rfl, hcurrent⟩]
      cases event with
      | checking => simp [handleIceStateChange, view, hget, IceEvent.state, stateAfterIce]
      | connected | completed =>
        simp [handleIceStateChange, view, hget, IceEvent.state, stateAfterIce, Table.get_erase]
      | disconnected =>
        simp only [handleIceStateChange, IceEvent.state, stateAfterIce]
        rw [view_startGrace, if_pos rfl]
        simp [view, hget]
    · rw [if_neg fun h => hn h.1]
      cases event with
      | checking =>
        simp [handleIceStateChange, view, IceEvent.state, stateAfterIce, Table.get_insert, hn]
      | connected | completed =>
        simp [handleIceStateChange, view, IceEvent.state, stateAfterIce, Table.get_insert,
          Table.get_erase, hn]
      | disconnected =>
        simp only [handleIceStateChange, IceEvent.state, stateAfterIce]
        rw [view_startGrace, if_neg hn]
        simp [view, Table.get_insert, hn]
  · rw [if_neg hcurrent, if_neg fun h => hcurrent h.2]

theorem view_markSuspectDisconnected (now : Instant) :
    (t.markSuspectDisconnected node now).2.view n =
      if n = node ∧ (t.view n).state = some .connected then
        { t.view n with
          state := some .reconnecting
          grace := some ((t.view n).grace.getD { startedAt := now, origin := .livenessSuspect }) }
      else t.view n := by
  unfold markSuspectDisconnected
  by_cases hn : n = node
  · subst hn
    by_cases hstate : t.connectionStates.get n = some .connected
    · rw [if_pos hstate, if_pos ⟨rfl, hstate⟩, view_startGrace, if_pos rfl]
      simp [view]
    · rw [if_neg hstate, if_neg fun h => hstate h.2]
  · rw [if_neg (show ¬ (n = node ∧ (t.view n).state = some .connected) from fun h => hn h.1)]
    split
    · rw [view_startGrace, if_neg hn]
      simp [view, Table.get_insert, hn]
    · rfl

theorem view_cancelSuspectGrace :
    (t.cancelSuspectGrace node).2.view n =
      if n = node ∧ t.endsGrace node = true then
        { t.view n with state := some .connected, grace := none }
      else t.view n := by
  unfold cancelSuspectGrace endsGrace
  by_cases hsuspect : t.isSuspect node = true
  · by_cases hstate : t.connectionStates.contains node = true
    · by_cases hn : n = node
      · subst hn
        simp [hsuspect, hstate, view, Table.get_erase]
      · simp [hsuspect, hstate, view, Table.get_insert, Table.get_erase, hn]
    · simp [hsuspect, hstate]
  · simp [hsuspect]

theorem view_noteSample (peer : PeerId) (reportId : String) (bytes : Nat) (suspected : Bool)
    (now : Instant) :
    (t.noteSample node peer reportId bytes suspected now).view n =
      if t.cancelsBy node peer reportId bytes suspected = true then
        (t.cancelSuspectGrace node).2.view n
      else t.view n := by
  unfold noteSample cancelsBy
  cases hget : t.peers.get node with
  | none => rw [Option.any_none, if_neg Bool.false_ne_true]
  | some current =>
    by_cases htaken : current.id = peer ∧ current.connectionAnnounced = true
    · have hview : ∀ m, { t with
          peers := t.peers.insert node (current.recordTransportBytes reportId bytes now).2 }.view m =
            t.view m := by
        intro m
        by_cases hm : m = node
        · subst hm
          simp [view, hget, Peer.ice_recordTransportBytes]
        · simp [view, Table.get_insert, hm]
      have hgrew : (current.recordTransportBytes reportId bytes now).1 =
          (current.observe reportId bytes).1 := rfl
      simp only [htaken, and_self, if_true, hgrew, Option.any_some, decide_true, Bool.true_and,
        Bool.and_eq_true]
      by_cases hcounts : (current.observe reportId bytes).1 = true ∧ suspected = true
      · rw [if_pos hcounts, if_pos hcounts, view_cancelSuspectGrace, view_cancelSuspectGrace, hview]
        rfl
      · rw [if_neg hcounts, if_neg hcounts]
        exact hview n
    · simp only [htaken, if_false, Option.any_some]
      rw [if_neg]
      intro hall
      simp only [Bool.and_eq_true, decide_eq_true_eq] at hall
      exact htaken hall.1.1

end Steps

section Coverage

variable {t t' : WasmWebRtcTransport} {n node : NodeId}

theorem covered_congr (hview : t'.view n = t.view n) : t'.Covered n ↔ t.Covered n := by
  rw [Covered, Covered, hview]

section

variable (hc : t.Covered n)
include hc

theorem covered_iceStateChange (peer : PeerId) (event : IceEvent) (hasOpenChannel : Bool)
    (now : Instant) : (t.onIceStateChange node peer event hasOpenChannel now).Covered n := by
  have hview := view_onIceStateChange t node n peer event hasOpenChannel now
  split at hview
  · rw [Covered, hview]
    cases event with
    | checking => exact ⟨nofun, nofun⟩
    | connected | completed => cases hasOpenChannel <;> exact ⟨nofun, nofun⟩
    | disconnected => exact ⟨fun _ => ⟨rfl, nofun⟩, fun _ => rfl⟩
  · exact (covered_congr hview).mpr hc

theorem covered_suspectDisconnected (now : Instant) :
    (t.markSuspectDisconnected node now).2.Covered n := by
  have hview := view_markSuspectDisconnected t node n now
  split at hview
  · rw [Covered, hview]
    exact ⟨fun _ => ⟨rfl, nofun⟩, fun _ => rfl⟩
  · exact (covered_congr hview).mpr hc

theorem covered_cancelSuspectGrace : (t.cancelSuspectGrace node).2.Covered n ↔
      (node = n → t.endsGrace n = true → (t.view n).ice ≠ some .disconnected) := by
  have hview := view_cancelSuspectGrace t node n
  split at hview
  · next hends =>
    obtain ⟨rfl, hends⟩ := hends
    rw [Covered, hview]
    simp [View.covered_iff, hends]
  · next hkeeps =>
    refine iff_of_true ((covered_congr hview).mpr hc) ?_
    rintro rfl hends
    exact absurd ⟨rfl, hends⟩ hkeeps

theorem covered_sample (peer : PeerId) (reportId : String) (bytes : Nat) (suspected : Bool)
    (now : Instant) : (t.noteSample node peer reportId bytes suspected now).Covered n ↔
      (Event.sample node peer reportId bytes suspected now).Calm n t := by
  have hview := view_noteSample t node n peer reportId bytes suspected now
  split at hview
  · next hcancels =>
    have hcancel := covered_congr hview
    rw [hcancel, covered_cancelSuspectGrace hc]
    constructor
    · rintro hfree ⟨heq, _⟩
      exact hfree heq
    · intro hcalm heq
      exact hcalm ⟨heq, hcancels⟩
  · next hnot =>
    refine iff_of_true ((covered_congr hview).mpr hc) ?_
    rintro ⟨_, hcancels⟩
    exact absurd hcancels hnot

/-- A pass that does not reap touches the entries of a node without a peer only,
and takes them away together. -/
theorem covered_sweep {hasChannel : Bool} {now : Instant}
    (hsweep : t.sweepNode node hasChannel now = some t') : t'.Covered n := by
  unfold sweepNode at hsweep
  split at hsweep
  · cases hsweep
    exact hc
  · next hpeer =>
    cases hsweep
    by_cases hn : n = node
    · subst hn
      refine ⟨?_, ?_⟩
      · simp [view, hpeer]
      · simp [view, Table.get_erase]
    · refine (covered_congr ?_).mpr hc
      simp [view, Table.get_erase, hn]
  · simp only at hsweep
    split at hsweep
    · cases hsweep
    · cases hsweep
      exact hc

/-- A step leaves the node covered exactly if its event is calm. -/
theorem covered_step {event : Event} (hstep : t.step event = some t') :
    t'.Covered n ↔ event.Calm n t := by
  cases event with
  | iceStateChange node peer event hasOpenChannel now =>
    cases hstep
    exact iff_of_true (covered_iceStateChange hc peer event hasOpenChannel now) fun h => h.elim
  | suspectDisconnected node now =>
    cases hstep
    exact iff_of_true (covered_suspectDisconnected hc now) fun h => h.elim
  | clearSuspect node =>
    cases hstep
    exact covered_cancelSuspectGrace hc
  | sample node peer reportId bytes suspected now =>
    cases hstep
    exact covered_sample hc peer reportId bytes suspected now
  | sweep node hasChannel now => exact iff_of_true (covered_sweep hc hstep) fun h => h.elim

end

end Coverage

end WasmWebRtcTransport

open Reactive in
/-- In every run an outage of a node stays under grace throughout exactly if it
was at the start and every step of the run is calm. -/
theorem covered_throughout_iff {t s : WasmWebRtcTransport} {n : NodeId}
    {moves : List (Move WasmWebRtcTransport Event)} (run : Run WasmWebRtcTransport.step t moves s) :
    (s.Covered n ∧ ∀ m ∈ moves, m.before.Covered n) ↔
      t.Covered n ∧ ∀ m ∈ moves, m.input.Calm n m.before :=
  run.throughout_iff (I := fun _ => True) (C := fun t event => event.Calm n t) trivial
    (fun _ _ _ _ _ => trivial) fun _ _ _ _ hc hstep => WasmWebRtcTransport.covered_step hc hstep

/-! ### An outage that is reaped, and one that a cleared suspicion hides -/

section Runs

def remote : NodeId := ⟨"remote"⟩

/-- A registered peer whose reliable channel has just opened. -/
def opened : WasmWebRtcTransport where
  peers := (∅ : Table NodeId Peer).insert remote ⟨0, .connected, true, none, none⟩
  connectionStates := (∅ : Table NodeId ConnectionState).insert remote .connected
  disconnectedSince := ∅

def afterOpening (events : List Event) :
    List (Reactive.Move WasmWebRtcTransport Event) × WasmWebRtcTransport :=
  Reactive.play WasmWebRtcTransport.step opened events

/-- A suspicion that traffic cancels, and an outage that ICE recovers from. -/
def suspicionAndOutage : List Event :=
  [.sweep remote true 90, .iceStateChange remote 0 .completed true 80, .clearSuspect remote,
    .iceStateChange remote 0 .disconnected true 70, .sample remote 0 "T01" 900 true 60,
    .sample remote 0 "T01" 700 false 50, .suspectDisconnected remote 40]

theorem suspicionAndOutage_covered :
    (afterOpening suspicionAndOutage).2.Covered remote ∧
      ∀ m ∈ (afterOpening suspicionAndOutage).1, m.before.Covered remote :=
  (covered_throughout_iff (Reactive.run_play _ _ suspicionAndOutage)).mpr
    ⟨by decide, by decide +kernel⟩

/-- A suspicion, the outage that ICE reports, and the end of the suspicion: the
node is connected without an entry over a path that is down, and no later pass
reaps it while a channel looks open. -/
theorem clearSuspect_hidesOutage :
    ∃ moves s, Reactive.Run WasmWebRtcTransport.step opened moves s ∧
      s.view remote = ⟨some .disconnected, some .connected, none⟩ ∧ ¬ s.Covered remote ∧
      ∀ now, s.sweepNode remote true now = some s := by
  refine ⟨_, _, Reactive.run_play _ _ [.clearSuspect remote,
    .iceStateChange remote 0 .disconnected true 50, .suspectDisconnected remote 40],
    by decide +kernel, by decide +kernel, ?_⟩
  intro now
  rfl

theorem decideGraceExpiry_reap {ice : IceState} {state : ConnectionState} {start now : Instant}
    {lastRx : Option Instant} (hup : ice.terminal = false)
    (hout : ice = .disconnected ∨ state = .reconnecting) :
    decideGraceExpiry ice state (some start) lastRx now DISCONNECTED_GRACE_MS = .reap ↔
      start + graceWindow DISCONNECTED_GRACE_MS ≤ now ∧
        ∀ rx ∈ lastRx, rx + graceWindow DISCONNECTED_GRACE_MS ≤ now := by
  have hwindow : 0 < graceWindow DISCONNECTED_GRACE_MS := by decide
  rw [decideGraceExpiry, if_neg (ne_true_of_eq_false hup), if_neg fun hno => hout.elim hno.1 hno.2]
  cases lastRx with
  | none => grind
  | some rx =>
    simp only [Option.mem_def, Option.some.injEq, forall_eq']
    grind

open Reactive in
/-- After calm steps a pass reaps an outage as soon as a whole grace window is behind its start and
behind the last bytes of the peer, and not before. -/
theorem reaped_iff {t s : WasmWebRtcTransport} {n : NodeId} {moves : List (Move WasmWebRtcTransport Event)}
    (run : Run WasmWebRtcTransport.step t moves s) (hc : t.Covered n)
    (hcalm : ∀ m ∈ moves, m.input.Calm n m.before) {peer : Peer} {state : ConnectionState}
    (hpeer : s.peers.get n = some peer) (hstate : s.connectionStates.get n = some state)
    (hup : peer.ice.terminal = false) (hout : peer.ice = .disconnected ∨ state = .reconnecting)
    (hasChannel : Bool) (now : Instant) :
    s.sweepNode n hasChannel now = none ↔
      ∃ grace ∈ s.disconnectedSince.get n,
        grace.startedAt + graceWindow DISCONNECTED_GRACE_MS ≤ now ∧
          ∀ rx ∈ peer.lastRx, rx + graceWindow DISCONNECTED_GRACE_MS ≤ now := by
  have hcovered : s.Covered n := by
    refine run.keepsUnder (P := fun s => s.Covered n) (C := fun s event => event.Calm n s) hc ?_ hcalm
    intro s event s' h hevent hstep
    exact (WasmWebRtcTransport.covered_step h hstep).mpr hevent
  have hview : s.view n = ⟨some peer.ice, some state, s.disconnectedSince.get n⟩ := by
    simp [WasmWebRtcTransport.view, hpeer, hstate]
  obtain ⟨hdown, hreconnecting⟩ := (show (s.view n).Covered from hcovered)
  rw [hview] at hdown hreconnecting
  have hclosed : state ≠ .connected := by grind
  obtain ⟨grace, hgrace⟩ := Option.isSome_iff_exists.mp
    (show (s.disconnectedSince.get n).isSome = true by grind)
  rw [WasmWebRtcTransport.sweepNode, hstate, hpeer, hgrace]
  simp [hup, hclosed, decideGraceExpiry_reap hup hout]

theorem disconnected_reaped :
    (afterOpening [.iceStateChange remote 0 .disconnected true 50]).2.sweepNode remote true
      (50 + graceWindow DISCONNECTED_GRACE_MS) = none :=
  (reaped_iff (Reactive.run_play _ _ _) (by decide) (by decide +kernel) rfl rfl rfl (.inl rfl) _ _).mpr
    ⟨_, rfl, Nat.le_refl _, nofun⟩

end Runs

end Mistlib.Browser.Outage
