import Mistlib.Async.Reactive
import Mistlib.Transport.NegotiationAck

/-!
# Two copies of an offer

The initiator sends an unanswered offer again, and the copy may come by another route: one is
handled by the bootstrap consumer and one by the overlay consumer, each in a call of
`handle_decoded_offer`. The two calls go on in turns, from one wait to the next.

Calls on a connection succeed while it is open, as do sends, and permits and locks come at any
later time. The offer carries its session description as it is, so that parsing gives it back.
Attempt ids, reservation times, send queues, buffered candidates and the audience of the tracks
decide nothing here.
-/

open Reactive

namespace Mistlib.Transport.OfferCopies

open NegotiationAck

abbrev PeerId := Nat

inductive Caller where
  | bootstrap
  | overlay
deriving DecidableEq, Repr

def Caller.other : Caller → Caller
  | .bootstrap => .overlay
  | .overlay => .bootstrap

/-- What `apply_offer` does next. -/
inductive Applying where
  | locking
  | settingRemote
  | creatingAnswer
  | settingLocal
  | takingCandidates
  | sendingAnswer
deriving DecidableEq, Repr

/-- What the offer that follows for published tracks does next. -/
inductive Offering where
  | locking
  | creatingOffer
  | settingLocal
  | sendingOffer
deriving DecidableEq, Repr

inductive Phase where
  /-- It is about to look for a peer. -/
  | called
  /-- It found a peer, and reads the description that was applied to it. -/
  | fingerprinting (peer : PeerId)
  | judging (peer : PeerId) (existingFingerprint : Option (List Char))
  | comparing (peer : PeerId)
  | deciding (peer : PeerId) (remoteMatches : Bool)
  | resendingAnswer (peer : PeerId)
  /-- It takes over the session of the peer it found. -/
  | takingOver
  | closingSession (peer : Option PeerId)
  | permitting
  | creating
  | inserting (peer : PeerId)
  /-- Another peer was registered, and storage is told before it is closed. -/
  | resettingStorage (peer old : PeerId)
  | closingOld (peer old : PeerId)
  | resyncing (peer : PeerId)
  /-- `inserted` says that this call has registered the peer. -/
  | applying (peer : PeerId) (inserted : Bool) (stage : Applying)
  | offering (peer : PeerId) (stage : Offering)
  | cleaningUp (peer : PeerId)
  | closingFailed (peer : PeerId)
  | returned (ok : Bool)
deriving DecidableEq, Repr

structure Connection where
  signaling : SignalingState
  remoteDescription : Option Description
  localDescription : Option SdpType
  /-- The call that holds the lock. -/
  negotiating : Option Caller
deriving DecidableEq, Repr

/-- The node's entries for the remote node, and the two calls. -/
structure Node where
  peers : Option PeerId
  connectionStates : Option ConnectionState
  /-- Whether there is a permit for the remote node. -/
  handshakePermits : Bool
  connections : PeerId → Connection
  created : Nat
  phase : Caller → Phase
  /-- How many permits the calls have got. -/
  permits : Nat
  /-- The peers whose answers were sent, the latest first. -/
  answers : List PeerId

structure Setting where
  localNodeId : NodeId
  remoteId : NodeId
  maxConnections : Nat
  sdp : String

/-- What a turn finds out about the rest of the node. -/
structure Seen where
  /-- The connections of other nodes that count. -/
  active : Nat
  healthy : Bool
  msSinceConnected : Option Nat
  msSinceLastTakeover : Option Nat
  msSinceConnectStarted : Option Nat
  hasPublishedTracks : Bool
  /-- The state and the connection allow an offer. -/
  canSendOffer : Bool
deriving DecidableEq, Repr

structure Input where
  caller : Caller
  seen : Seen
deriving DecidableEq, Repr

/-! ## The connection -/

namespace Connection

def new : Connection where
  signaling := .stable
  remoteDescription := none
  localDescription := none
  negotiating := none

def unlock (c : Connection) : Connection := { c with negotiating := none }

def close (c : Connection) : Connection := { c with signaling := .closed }

end Connection

/-- How a step of `apply_offer` or `send_offer` goes on. -/
inductive Outcome (α : Type) where
  | goes (stage : α)
  | sent
  | failed
deriving DecidableEq, Repr

variable (setting : Setting) (who : Caller)

/-- The next step of `apply_offer`. What fails gives the lock back. -/
def applyOffer (c : Connection) : Applying → Option (Connection × Outcome Applying)
  | .locking =>
    if c.negotiating ≠ none then none
    else if c.signaling ≠ .stable then some (c, .failed)
    else some ({ c with negotiating := some who }, .goes .settingRemote)
  | .settingRemote =>
    if c.signaling = .closed then some (c.unlock, .failed)
    else
      some ({ c with signaling := .haveRemoteOffer, remoteDescription := some ⟨.offer, setting.sdp⟩ },
        .goes .creatingAnswer)
  | .creatingAnswer =>
    if c.signaling = .closed then some (c.unlock, .failed) else some (c, .goes .settingLocal)
  | .settingLocal =>
    if c.signaling = .closed then some (c.unlock, .failed)
    else some ({ c with signaling := .stable, localDescription := some .answer }, .goes .takingCandidates)
  | .takingCandidates => some (c, .goes .sendingAnswer)
  | .sendingAnswer => some (c.unlock, .sent)

/-- The next step of `send_offer`. -/
def sendOffer (c : Connection) (canSendOffer : Bool) : Offering → Option (Connection × Outcome Offering)
  | .locking =>
    if c.negotiating ≠ none then none
    else if canSendOffer = false ∨ c.signaling ≠ .stable then some (c, .failed)
    else some ({ c with negotiating := some who }, .goes .creatingOffer)
  | .creatingOffer =>
    if c.signaling = .closed then some (c.unlock, .failed) else some (c, .goes .settingLocal)
  | .settingLocal =>
    if c.signaling = .closed then some (c.unlock, .failed)
    else some ({ c with signaling := .haveLocalOffer, localDescription := some .offer }, .goes .sendingOffer)
  | .sendingOffer => some (c.unlock, .sent)

/-! ## The calls -/

namespace Node

variable (n : Node)

def go (phase : Phase) : Node := { n with phase := Function.update n.phase who phase }

def connected (peer : PeerId) (c : Connection) : Node :=
  { n with connections := Function.update n.connections peer c }

def close (peer : PeerId) : Node := n.connected peer (n.connections peer).close

/-- The glare rule: this side's own offer goes on. -/
def ignoresForGlare (peer : PeerId) : Bool :=
  decide (setting.localNodeId.id < setting.remoteId.id) &&
    decide ((n.connections peer).signaling = .haveLocalOffer)

/-- The reservation of a connection, if there is room for one. -/
def reserve (active : Nat) : Node :=
  if n.connectionStates = none then
    if setting.maxConnections ≤ active then n.go who (.returned true)
    else { n with connectionStates := some .connecting }.go who .permitting
  else n.go who .permitting

/-- `cleanup_session` up to where it closes the peer. -/
def cleanupSession : Node := { n with peers := none, connectionStates := none, handshakePermits := false }

def turn (seen : Seen) : Phase → Option Node
  | .called =>
    match n.peers with
    | none => some (n.reserve setting who seen.active)
    | some peer =>
      some (n.go who (if n.ignoresForGlare setting peer then .returned true else .fingerprinting peer))
  | .fingerprinting peer =>
    some (n.go who
      (.judging peer ((n.connections peer).remoteDescription.bind fun desc => sdpFingerprint desc.sdp)))
  | .judging peer existingFingerprint =>
    let takeover := offerTakeoverDecision existingFingerprint (sdpFingerprint setting.sdp) seen.healthy
      seen.msSinceConnected seen.msSinceLastTakeover seen.msSinceConnectStarted
    some (n.go who (if takeover then .takingOver else .comparing peer))
  | .comparing peer =>
    some (n.go who
      (.deciding peer ((n.connections peer).remoteDescription.any fun desc => desc.sdp == setting.sdp)))
  | .deciding peer remoteMatches =>
    let localIsAnswer := (n.connections peer).localDescription == some .answer
    match duplicateOfferDecision remoteMatches (n.connections peer).signaling localIsAnswer with
    | some .resendAnswer => some (n.go who (.resendingAnswer peer))
    | some .ignore => some (n.go who (.returned true))
    | none => some (n.go who (.applying peer false .locking))
  | .resendingAnswer peer => some ({ n with answers := peer :: n.answers }.go who (.returned true))
  | .takingOver => some (n.cleanupSession.go who (.closingSession n.peers))
  | .closingSession peer =>
    some ((peer.elim n fun peer => n.close peer).reserve setting who seen.active)
  | .permitting =>
    let n := { n with permits := n.permits + 1 }
    if n.connectionStates = none then some ({ n with handshakePermits := false }.go who (.returned true))
    else some ({ n with handshakePermits := true }.go who .creating)
  | .creating =>
    some ({ n.connected n.created .new with created := n.created + 1 }.go who (.inserting n.created))
  | .inserting peer =>
    some ({ n with peers := some peer }.go who
      (n.peers.elim (.resyncing peer) fun old => .resettingStorage peer old))
  | .resettingStorage peer old => some (n.go who (.closingOld peer old))
  | .closingOld peer old => some ((n.close old).go who (.resyncing peer))
  | .resyncing peer => some (n.go who (.applying peer true .locking))
  | .applying peer inserted stage =>
    (applyOffer setting who (n.connections peer) stage).map fun (c, outcome) =>
      match outcome with
      | .goes stage => (n.connected peer c).go who (.applying peer inserted stage)
      | .sent =>
        { n.connected peer c with answers := peer :: n.answers }.go who
          (if inserted ∧ seen.hasPublishedTracks then .offering peer .locking else .returned true)
      | .failed => (n.connected peer c).go who (if inserted then .cleaningUp peer else .returned false)
  | .offering peer stage =>
    (sendOffer who (n.connections peer) seen.canSendOffer stage).map fun (c, outcome) =>
      match outcome with
      | .goes stage => (n.connected peer c).go who (.offering peer stage)
      | _ => (n.connected peer c).go who (.returned true)
  | .cleaningUp peer =>
    if n.peers = some peer then some (n.cleanupSession.go who (.closingFailed peer))
    else some (n.go who (.returned false))
  | .closingFailed peer => some ((n.close peer).go who (.returned false))
  | .returned _ => none

def step (n : Node) (input : Input) : Option Node :=
  n.turn setting input.caller input.seen (n.phase input.caller)

/-- The node has no peer, and both calls begin. -/
def start (connectionStates : Option ConnectionState) (handshakePermits : Bool) : Node where
  peers := none
  connectionStates
  handshakePermits
  connections _ := .new
  created := 0
  phase _ := .called
  permits := 0
  answers := []

end Node

/-- The call has found no peer and has not registered its own yet. -/
def Phase.building : Phase → Bool
  | .permitting | .creating | .inserting _ => true
  | _ => false

def Phase.isReturned : Phase → Bool
  | .returned _ => true
  | _ => false

namespace Node

/-- A call that looks for a peer and finds none is alone in that. -/
def Apart (n : Node) (input : Input) : Prop :=
  n.phase input.caller = .called → n.peers = none → (n.phase input.caller.other).building = false
deriving Decidable

/-- The offer has built one connection at most. -/
structure OneConnection (n : Node) : Prop where
  source : ∀ peer ∈ n.answers, ∀ peer' ∈ n.answers, peer = peer'
  registered : (∀ who, (n.phase who).isReturned = true) → ∀ peer ∈ n.answers, n.peers = some peer
  permits : n.permits ≤ 1

end Node

/-! ## What a connection is like while a call works on it -/

/-- What holds of the connection that `apply_offer` works on. -/
def Applying.Expects (c : Connection) : Applying → Prop
  | .locking => True
  | .settingRemote => c.negotiating = some who ∧ c.signaling = .stable
  | .creatingAnswer | .settingLocal => c.negotiating = some who ∧ c.signaling = .haveRemoteOffer
  | .takingCandidates | .sendingAnswer => c.negotiating = some who ∧ c.signaling = .stable

def Offering.Expects (c : Connection) : Offering → Prop
  | .locking => True
  | _ => c.negotiating = some who

def Phase.Expects (c : Connection) : Phase → Prop
  | .applying _ _ stage | .offering _ stage => stage.Expects who c
  | _ => True

namespace Connection

/-- It is open, and nothing but this offer was applied to it. -/
structure Copied (c : Connection) : Prop where
  opened : c.signaling ≠ .closed
  remote : ∀ desc ∈ c.remoteDescription, desc.sdp = setting.sdp

/-- It is stable while no call works on it. -/
def Rests (c : Connection) : Prop := c.negotiating = none → c.signaling = .stable

variable {setting who} {c c' : Connection}

theorem Copied.new : Copied setting .new where
  opened := nofun
  remote := nofun

end Connection

theorem Caller.other_ne (who : Caller) : who.other ≠ who := by cases who <;> nofun

theorem Caller.other_other (who : Caller) : who.other.other = who := by cases who <;> rfl

theorem Caller.eq_or_eq (owner who : Caller) : who = owner ∨ who = owner.other := by
  cases owner <;> cases who <;> simp [Caller.other]

section Connections

variable {setting who} {c c' : Connection} {who' : Caller}

theorem Phase.Expects.frame {phase : Phase} (h : phase.Expects who c)
    (hlock : c.negotiating ≠ some who) : phase.Expects who c' := by
  cases phase with
  | applying peer inserted stage =>
    cases stage with
    | locking => trivial
    | settingRemote | creatingAnswer | settingLocal | takingCandidates | sendingAnswer =>
      exact absurd h.1 hlock
  | offering peer stage =>
    cases stage with
    | locking => trivial
    | creatingOffer | settingLocal | sendingOffer => exact absurd h hlock
  | _ => trivial

/-- What a step of `apply_offer` makes of a connection. -/
structure Applied (setting : Setting) (who : Caller) (c c' : Connection) (outcome : Outcome Applying) :
    Prop where
  copied : c'.Copied setting
  lock : ∀ who', who' ≠ who → c.negotiating ≠ some who'
  rests : c.Rests → c'.Rests
  outcome : match outcome with
    | .goes stage => stage.Expects who c'
    | .sent => c'.Rests
    | .failed => ¬ c.Rests

theorem rests_of_held (hlock : c.negotiating = some who) : c.Rests := by
  intro hfree
  rw [hlock] at hfree
  cases hfree

theorem Applied.of_held {outcome : Outcome Applying} (hlock : c.negotiating = some who)
    (hcopied : c'.Copied setting) (hrests : c'.Rests)
    (houtcome : match outcome with
      | .goes stage => stage.Expects who c'
      | .sent => c'.Rests
      | .failed => ¬ c.Rests) : Applied setting who c c' outcome where
  copied := hcopied
  lock := by
    rw [hlock]
    rintro who' hne ⟨⟩
    exact hne rfl
  rests _ := hrests
  outcome := houtcome

theorem applyOffer_applied {stage : Applying} {outcome : Outcome Applying} (hcopied : c.Copied setting)
    (hexpects : stage.Expects who c) (h : applyOffer setting who c stage = some (c', outcome)) :
    Applied setting who c c' outcome := by
  cases stage with
  | locking =>
    simp only [applyOffer] at h
    split at h
    · cases h
    · next hfree =>
      have hnone : c.negotiating = none := not_not.mp hfree
      have hlock : ∀ who', who' ≠ who → c.negotiating ≠ some who' := by simp [hnone]
      split at h
      · next hunstable =>
        cases h
        exact ⟨hcopied, hlock, id, fun hrests => hunstable (hrests hnone)⟩
      · next hstable =>
        cases h
        exact ⟨⟨hcopied.opened, hcopied.remote⟩, hlock, fun _ => rests_of_held rfl, rfl,
          not_not.mp hstable⟩
  | settingRemote =>
    rw [applyOffer, if_neg hcopied.opened] at h
    cases h
    refine .of_held hexpects.1 ⟨nofun, ?_⟩ (rests_of_held hexpects.1) ⟨hexpects.1, rfl⟩
    rintro desc ⟨⟩
    rfl
  | creatingAnswer =>
    rw [applyOffer, if_neg hcopied.opened] at h
    cases h
    exact .of_held hexpects.1 hcopied (rests_of_held hexpects.1) hexpects
  | settingLocal =>
    rw [applyOffer, if_neg hcopied.opened] at h
    cases h
    exact .of_held hexpects.1 ⟨nofun, hcopied.remote⟩ (rests_of_held hexpects.1) ⟨hexpects.1, rfl⟩
  | takingCandidates =>
    cases h
    exact .of_held hexpects.1 hcopied (rests_of_held hexpects.1) hexpects
  | sendingAnswer =>
    cases h
    exact .of_held hexpects.1 ⟨hcopied.opened, hcopied.remote⟩ (fun _ => hexpects.2) fun _ => hexpects.2

/-- What a step of `send_offer` makes of a connection. -/
structure Offered (setting : Setting) (who : Caller) (c c' : Connection) (outcome : Outcome Offering) :
    Prop where
  copied : c'.Copied setting
  lock : ∀ who', who' ≠ who → c.negotiating ≠ some who'
  outcome : ∀ stage, outcome = .goes stage → stage.Expects who c'

theorem sendOffer_offered {stage : Offering} {canSendOffer : Bool} {outcome : Outcome Offering}
    (hcopied : c.Copied setting) (hexpects : stage.Expects who c)
    (h : sendOffer who c canSendOffer stage = some (c', outcome)) :
    Offered setting who c c' outcome := by
  have hheld : c.negotiating = some who → ∀ who', who' ≠ who → c.negotiating ≠ some who' := by
    rintro hlock who' hne hlock'
    exact hne (Option.some.inj (hlock'.symm.trans hlock))
  cases stage with
  | locking =>
    simp only [sendOffer] at h
    split at h
    · cases h
    · next hfree =>
      have hnone : c.negotiating = none := not_not.mp hfree
      have hlock : ∀ who', who' ≠ who → c.negotiating ≠ some who' := by simp [hnone]
      split at h
      · cases h
        exact ⟨hcopied, hlock, nofun⟩
      · cases h
        refine ⟨⟨hcopied.opened, hcopied.remote⟩, hlock, ?_⟩
        rintro stage ⟨⟩
        rfl
  | creatingOffer =>
    rw [sendOffer, if_neg hcopied.opened] at h
    cases h
    refine ⟨hcopied, hheld hexpects, ?_⟩
    rintro stage ⟨⟩
    exact hexpects
  | settingLocal =>
    rw [sendOffer, if_neg hcopied.opened] at h
    cases h
    refine ⟨⟨nofun, hcopied.remote⟩, hheld hexpects, ?_⟩
    rintro stage ⟨⟩
    exact hexpects
  | sendingOffer =>
    cases h
    exact ⟨⟨hcopied.opened, hcopied.remote⟩, hheld hexpects, nofun⟩

end Connections

/-! ## Where the two calls stand -/

/-- The calls of the one that registers the peer, once it has. -/
def Phase.Owns (peer : PeerId) : Phase → Prop
  | .resyncing p => p = peer
  | .applying p inserted _ => p = peer ∧ inserted = true
  | .offering p _ => p = peer
  | .returned _ => True
  | _ => False

def Phase.idle : Phase → Bool
  | .called | .returned _ => true
  | _ => false

/-- The call that has registered the peer has not answered yet. -/
def Phase.unanswered : Phase → Bool
  | .resyncing _ | .applying _ _ _ => true
  | _ => false

/-- The other call works on the registered peer, if on any. -/
def Phase.Visits (peer : PeerId) : Phase → Prop
  | .called => True
  | .fingerprinting p => p = peer
  | .judging p existingFingerprint =>
    p = peer ∧ ∀ f ∈ existingFingerprint, sdpFingerprint setting.sdp = some f
  | .comparing p | .deciding p _ | .resendingAnswer p => p = peer
  | .applying p inserted _ => p = peer ∧ inserted = false
  | .returned _ => True
  | _ => False

namespace Node

/-- A call has registered the peer, and the other one finds it. -/
structure Registered (n : Node) (peer : PeerId) (owner : Caller) : Prop where
  peers : n.peers = some peer
  answers : ∀ p ∈ n.answers, p = peer
  permits : n.permits = 1
  owns : (n.phase owner).Owns peer
  visits : (n.phase owner.other).Visits setting peer
  copied : (n.connections peer).Copied setting
  expects : ∀ who, (n.phase who).Expects who (n.connections peer)
  rests : (n.phase owner).unanswered = true → (n.connections peer).Rests

/-- A call is on its way to a peer of its own, and the other one has not begun or is over. -/
structure Builds (n : Node) (owner : Caller) : Prop where
  peers : n.peers = none
  answers : n.answers = []
  permits : n.permits = if n.phase owner = .permitting then 0 else 1
  reserved : n.connectionStates ≠ none
  builds : (n.phase owner).building = true
  other : (n.phase owner.other).idle = true
  fresh : ∀ peer, n.phase owner = .inserting peer → n.connections peer = .new

/-- No call has found out that there is no peer and gone on. -/
structure Before (n : Node) : Prop where
  peers : n.peers = none
  answers : n.answers = []
  permits : n.permits = 0
  phase : ∀ who, (n.phase who).idle = true

inductive Sound (n : Node) : Prop where
  | before : n.Before → Sound n
  | builds (owner : Caller) : n.Builds owner → Sound n
  | registered (peer : PeerId) (owner : Caller) : n.Registered setting peer owner → Sound n

variable {setting who} {n n' : Node} {peer : PeerId} {owner who' : Caller} {phase : Phase} {seen : Seen}

@[simp] theorem go_phase_self : (n.go who phase).phase who = phase := Function.update_self ..

@[simp] theorem go_phase_other (h : who' ≠ who) : (n.go who phase).phase who' = n.phase who' :=
  Function.update_of_ne h ..

@[simp] theorem connected_self {c : Connection} : (n.connected peer c).connections peer = c :=
  Function.update_self ..

theorem forall_caller {P : Caller → Prop} (owner : Caller) :
    (∀ who, P who) ↔ P owner ∧ P owner.other := by
  refine ⟨fun h => ⟨h _, h _⟩, fun h who => ?_⟩
  obtain rfl | rfl := owner.eq_or_eq who
  · exact h.1
  · exact h.2

theorem Sound.start (states : Option ConnectionState) (permits : Bool) :
    (Node.start states permits).Sound setting :=
  .before ⟨rfl, rfl, rfl, fun _ => rfl⟩

section

variable (h : n.Registered setting peer owner)
include h

/-- A turn on the registered peer keeps it registered. -/
theorem Registered.moves {c : Connection} {answers : List PeerId}
    (hanswers : ∀ p ∈ answers, p = peer) (hcopied : c.Copied setting)
    (hexpects : phase.Expects who c) (hframe : ∀ who', who' ≠ who → (n.phase who').Expects who' c)
    (howns : who = owner → phase.Owns peer ∧ (phase.unanswered = true → c.Rests))
    (hvisits : who = owner.other → phase.Visits setting peer ∧ ((n.connections peer).Rests → c.Rests)) :
    ({ n.connected peer c with answers }.go who phase).Registered setting peer owner where
  peers := h.peers
  answers := hanswers
  permits := h.permits
  owns := by
    by_cases hwho : owner = who
    · subst hwho
      rw [go_phase_self]
      exact (howns rfl).1
    · rw [go_phase_other hwho]
      exact h.owns
  visits := by
    by_cases hwho : owner.other = who
    · subst hwho
      rw [go_phase_self]
      exact (hvisits rfl).1
    · rw [go_phase_other hwho]
      exact h.visits
  copied := by
    show ((n.connected peer c).connections peer).Copied setting
    rw [connected_self]
    exact hcopied
  expects := by
    intro who'
    show (Phase.Expects who' ((n.connected peer c).connections peer) _)
    rw [connected_self]
    by_cases hwho : who' = who
    · subst hwho
      rw [go_phase_self]
      exact hexpects
    · rw [go_phase_other hwho]
      exact hframe who' hwho
  rests := by
    show _ → ((n.connected peer c).connections peer).Rests
    rw [connected_self]
    by_cases hwho : owner = who
    · subst hwho
      rw [go_phase_self]
      exact (howns rfl).2
    · rw [go_phase_other hwho]
      have hother : who = owner.other := (owner.eq_or_eq who).resolve_left (Ne.symm hwho)
      exact fun hunanswered => (hvisits hother).2 (h.rests hunanswered)

theorem Registered.passes {answers : List PeerId} (hanswers : ∀ p ∈ answers, p = peer)
    (hexpects : ∀ c, phase.Expects who c)
    (howns : who = owner → phase.Owns peer ∧ (phase.unanswered = true → (n.connections peer).Rests))
    (hvisits : who = owner.other → phase.Visits setting peer) :
    ({ n with answers }.go who phase).Registered setting peer owner := by
  have hsame : n.connected peer (n.connections peer) = n := by
    rw [connected, Function.update_eq_self]
  have hmoves : ({ n.connected peer (n.connections peer) with answers }.go who phase).Registered
      setting peer owner :=
    h.moves hanswers h.copied (hexpects _) (fun who' _ => h.expects who') howns
      fun hwho => ⟨hvisits hwho, id⟩
  rwa [hsame] at hmoves

theorem Registered.apply {inserted : Bool} {stage : Applying}
    (hphase : n.phase who = .applying peer inserted stage) (hwho : inserted = true ↔ who = owner)
    (hturn : n.turn setting who seen (.applying peer inserted stage) = some n') :
    n'.Registered setting peer owner := by
  have hexpects : stage.Expects who (n.connections peer) := by
    have hbefore := h.expects who
    rw [hphase] at hbefore
    exact hbefore
  obtain ⟨⟨c, outcome⟩, happly, rfl⟩ := Option.map_eq_some_iff.mp hturn
  have happlied := applyOffer_applied h.copied hexpects happly
  have hframe : ∀ who', who' ≠ who → (n.phase who').Expects who' c :=
    fun who' hne => (h.expects who').frame (happlied.lock who' hne)
  have hnot : who = owner.other → inserted = false := by
    rintro rfl
    exact Bool.eq_false_iff.mpr fun htrue => owner.other_ne (hwho.mp htrue)
  have hrests : inserted = true → (n.connections peer).Rests := by
    intro htrue
    refine h.rests ?_
    rw [← hwho.mp htrue, hphase]
    rfl
  cases outcome with
  | goes stage' =>
    refine h.moves h.answers happlied.copied happlied.outcome hframe ?_ ?_
    · exact fun hown => ⟨⟨rfl, hwho.mpr hown⟩, fun _ => happlied.rests (hrests (hwho.mpr hown))⟩
    · exact fun hother => ⟨⟨rfl, hnot hother⟩, happlied.rests⟩
  | sent =>
    have hanswers : ∀ p ∈ peer :: n.answers, p = peer := List.forall_mem_cons.mpr ⟨rfl, h.answers⟩
    dsimp only
    split
    · next hoffers =>
      refine h.moves hanswers happlied.copied trivial hframe (fun _ => ⟨rfl, nofun⟩) fun hother => ?_
      exact absurd hoffers.1 (by rw [hnot hother]; nofun)
    · exact h.moves hanswers happlied.copied trivial hframe (fun _ => ⟨trivial, nofun⟩)
        fun _ => ⟨trivial, happlied.rests⟩
  | failed =>
    cases inserted with
    | true => exact absurd (hrests rfl) happlied.outcome
    | false =>
      refine h.moves h.answers happlied.copied trivial hframe (fun hown => ?_) fun _ =>
        ⟨trivial, happlied.rests⟩
      exact absurd (hwho.mpr hown) Bool.false_ne_true

theorem Registered.offer {stage : Offering} (hphase : n.phase owner = .offering peer stage)
    (hturn : n.turn setting owner seen (.offering peer stage) = some n') :
    n'.Registered setting peer owner := by
  have hexpects : stage.Expects owner (n.connections peer) := by
    have hbefore := h.expects owner
    rw [hphase] at hbefore
    exact hbefore
  obtain ⟨⟨c, outcome⟩, hoffer, rfl⟩ := Option.map_eq_some_iff.mp hturn
  have hoffered := sendOffer_offered h.copied hexpects hoffer
  have hframe : ∀ who', who' ≠ owner → (n.phase who').Expects who' c :=
    fun who' hne => (h.expects who').frame (hoffered.lock who' hne)
  cases outcome with
  | goes stage' =>
    exact h.moves h.answers hoffered.copied (hoffered.outcome _ rfl) hframe (fun _ => ⟨rfl, nofun⟩)
      fun hother => absurd hother.symm owner.other_ne
  | sent | failed =>
    exact h.moves h.answers hoffered.copied trivial hframe (fun _ => ⟨trivial, nofun⟩)
      fun hother => absurd hother.symm owner.other_ne

/-- A turn of the call that registered the peer keeps it. -/
theorem Registered.ownTurn (hturn : n.turn setting owner seen (n.phase owner) = some n') :
    n'.Registered setting peer owner := by
  have howns := h.owns
  have hrests := h.rests
  cases hphase : n.phase owner with
  | resyncing p =>
    rw [hphase] at howns hturn hrests
    obtain rfl : p = peer := howns
    cases hturn
    exact h.passes h.answers (fun _ => trivial) (fun _ => ⟨⟨rfl, rfl⟩, fun _ => hrests rfl⟩)
      fun hother => absurd hother.symm owner.other_ne
  | applying p inserted stage =>
    rw [hphase] at howns hturn
    obtain ⟨rfl, rfl⟩ : p = peer ∧ inserted = true := howns
    exact h.apply hphase (iff_of_true rfl rfl) hturn
  | offering p stage =>
    rw [hphase] at howns hturn
    obtain rfl : p = peer := howns
    exact h.offer hphase hturn
  | returned ok =>
    rw [hphase] at hturn
    cases hturn
  | _ =>
    rw [hphase] at howns
    exact howns.elim

theorem Registered.visit (hturn : n.turn setting owner.other seen (n.phase owner.other) = some n') :
    n'.Registered setting peer owner := by
  have hvisits := h.visits
  -- the visiting call is not the owner, and its next phase is one of a visit
  have hgoes : ∀ {phase : Phase} {answers : List PeerId}, (∀ p ∈ answers, p = peer) →
      (∀ c, phase.Expects owner.other c) → phase.Visits setting peer →
      ({ n with answers }.go owner.other phase).Registered setting peer owner :=
    fun hanswers hexpects hphase =>
      h.passes hanswers hexpects (fun hown => absurd hown owner.other_ne) fun _ => hphase
  cases hphase : n.phase owner.other with
  | called =>
    rw [hphase] at hturn
    simp only [turn, h.peers] at hturn
    cases hturn
    refine hgoes h.answers (fun _ => ?_) ?_
    · split <;> trivial
    · split
      · trivial
      · rfl
  | fingerprinting p =>
    rw [hphase] at hvisits hturn
    obtain rfl : p = peer := hvisits
    cases hturn
    refine hgoes h.answers (fun _ => trivial) ⟨rfl, fun f hf => ?_⟩
    obtain ⟨desc, hdesc, hf⟩ := Option.bind_eq_some_iff.mp hf
    rwa [h.copied.remote desc hdesc] at hf
  | judging p existing =>
    rw [hphase] at hvisits hturn
    obtain ⟨rfl, hsame⟩ := hvisits
    have hkeeps : offerTakeoverDecision existing (sdpFingerprint setting.sdp) seen.healthy
        seen.msSinceConnected seen.msSinceLastTakeover seen.msSinceConnectStarted = false := by
      cases existing with
      | none => rfl
      | some f =>
        rw [hsame f rfl]
        simp [offerTakeoverDecision]
    simp only [turn, hkeeps] at hturn
    cases hturn
    exact hgoes h.answers (fun _ => trivial) rfl
  | comparing p =>
    rw [hphase] at hvisits hturn
    obtain rfl : p = peer := hvisits
    cases hturn
    exact hgoes h.answers (fun _ => trivial) rfl
  | deciding p remoteMatches =>
    rw [hphase] at hvisits hturn
    obtain rfl : p = peer := hvisits
    simp only [turn] at hturn
    split at hturn
    · cases hturn
      exact hgoes h.answers (fun _ => trivial) rfl
    · cases hturn
      exact hgoes h.answers (fun _ => trivial) trivial
    · cases hturn
      exact hgoes h.answers (fun _ => trivial) ⟨rfl, rfl⟩
  | resendingAnswer p =>
    rw [hphase] at hvisits hturn
    obtain rfl : p = peer := hvisits
    cases hturn
    exact hgoes (List.forall_mem_cons.mpr ⟨rfl, h.answers⟩) (fun _ => trivial) trivial
  | applying p inserted stage =>
    rw [hphase] at hvisits hturn
    obtain ⟨rfl, rfl⟩ : p = peer ∧ inserted = false := hvisits
    exact h.apply hphase (iff_of_false Bool.false_ne_true owner.other_ne) hturn
  | returned ok =>
    rw [hphase] at hturn
    cases hturn
  | _ =>
    rw [hphase] at hvisits
    exact hvisits.elim

end

theorem visits_of_idle (h : phase.idle = true) : phase.Visits setting peer := by
  cases phase with
  | called | returned ok => trivial
  | _ => cases h

theorem expects_of_idle (h : phase.idle = true) (c : Connection) : phase.Expects who c := by
  cases phase with
  | called | returned ok => trivial
  | _ => cases h

theorem reserve_sound (hpeers : n.peers = none) (hanswers : n.answers = []) (hpermits : n.permits = 0)
    (hother : (n.phase who.other).idle = true) (active : Nat) :
    (n.reserve setting who active).Sound setting := by
  have hbuilds : ∀ {m : Node}, m.peers = none → m.answers = [] → m.permits = 0 →
      m.connectionStates ≠ none → m.phase = n.phase → (m.go who .permitting).Sound setting := by
    intro m hpeers hanswers hpermits hstates hphase
    refine .builds who ⟨hpeers, hanswers, ?_, hstates, ?_, ?_, ?_⟩
    · rw [go_phase_self]
      exact hpermits
    · rw [go_phase_self]
      rfl
    · rw [go_phase_other who.other_ne, hphase]
      exact hother
    · rw [go_phase_self]
      nofun
  unfold reserve
  split
  · split
    · refine .before ⟨hpeers, hanswers, hpermits, (forall_caller who).mpr ⟨?_, ?_⟩⟩
      · rw [go_phase_self]
        rfl
      · rw [go_phase_other who.other_ne]
        exact hother
    · exact hbuilds hpeers hanswers hpermits nofun rfl
  · next hstates => exact hbuilds hpeers hanswers hpermits hstates rfl

theorem Before.step (h : n.Before) (hturn : n.turn setting who seen (n.phase who) = some n') :
    n'.Sound setting := by
  have hidle := h.phase who
  cases hphase : n.phase who with
  | called =>
    rw [hphase] at hturn
    simp only [turn, h.peers] at hturn
    cases hturn
    exact reserve_sound h.peers h.answers h.permits (h.phase _) _
  | returned ok =>
    rw [hphase] at hturn
    cases hturn
  | _ =>
    rw [hphase] at hidle
    cases hidle

/-- The call that builds a peer goes on, or registers it. -/
theorem Builds.step (h : n.Builds owner) (hturn : n.turn setting owner seen (n.phase owner) = some n') :
    n'.Sound setting := by
  have hbuilds := h.builds
  have hpermits := h.permits
  have hother : ∀ {m : Node} {phase : Phase}, m.phase = n.phase →
      ((m.go owner phase).phase owner.other).idle = true := by
    intro m phase hphase
    rw [go_phase_other owner.other_ne, hphase]
    exact h.other
  cases hphase : n.phase owner with
  | permitting =>
    rw [hphase] at hturn hpermits
    simp only [turn, if_neg h.reserved] at hturn
    cases hturn
    refine .builds owner ⟨h.peers, h.answers, ?_, h.reserved, ?_, hother rfl, ?_⟩
    · rw [go_phase_self]
      show n.permits + 1 = 1
      rw [hpermits]
      rfl
    · rw [go_phase_self]
      rfl
    · rw [go_phase_self]
      nofun
  | creating =>
    rw [hphase] at hturn hpermits
    cases hturn
    refine .builds owner ⟨h.peers, h.answers, ?_, h.reserved, ?_, hother rfl, ?_⟩
    · rw [go_phase_self]
      exact hpermits
    · rw [go_phase_self]
      rfl
    · rw [go_phase_self]
      rintro peer ⟨⟩
      exact Function.update_self ..
  | inserting peer =>
    rw [hphase] at hturn hpermits
    have hfresh := h.fresh peer hphase
    simp only [turn, h.peers] at hturn
    cases hturn
    refine .registered peer owner ⟨rfl, ?_, hpermits, ?_, visits_of_idle (hother rfl), ?_, ?_, fun _ => ?_⟩
    · show ∀ p ∈ n.answers, p = peer
      rw [h.answers]
      nofun
    · rw [go_phase_self]
      exact rfl
    · show (n.connections peer).Copied setting
      rw [hfresh]
      exact .new
    · refine (forall_caller owner).mpr ⟨?_, expects_of_idle (hother rfl) _⟩
      rw [go_phase_self]
      trivial
    · show (n.connections peer).Rests
      rw [hfresh]
      exact fun _ => rfl
  | _ =>
    rw [hphase] at hbuilds
    cases hbuilds

/-- Each step apart leaves the copies one peer. -/
theorem Sound.step (h : n.Sound setting) {input : Input} (hapart : n.Apart input)
    (hstep : n.step setting input = some n') : n'.Sound setting := by
  obtain ⟨who, seen⟩ := input
  cases h with
  | before h => exact h.step hstep
  | builds owner h =>
    obtain rfl | rfl := owner.eq_or_eq who
    · exact h.step hstep
    · have hidle := h.other
      have hbuilds := h.builds
      cases hphase : n.phase owner.other with
      | called =>
        have hnot := hapart hphase h.peers
        rw [Caller.other_other, hbuilds] at hnot
        cases hnot
      | returned ok =>
        rw [Node.step, hphase] at hstep
        cases hstep
      | _ =>
        rw [hphase] at hidle
        cases hidle
  | registered peer owner h =>
    obtain rfl | rfl := owner.eq_or_eq who
    · exact .registered peer _ (h.ownTurn hstep)
    · exact .registered peer _ (h.visit hstep)

/-- Copies that are told apart have one connection. -/
theorem Sound.oneConnection (h : n.Sound setting) : n.OneConnection := by
  have hnone : n.answers = [] → n.permits ≤ 1 → n.OneConnection := by
    intro hanswers hpermits
    refine ⟨?_, fun _ => ?_, hpermits⟩
    · rw [hanswers]
      nofun
    · rw [hanswers]
      nofun
  cases h with
  | before h => exact hnone h.answers (h.permits ▸ Nat.zero_le _)
  | builds owner h =>
    refine hnone h.answers ?_
    rw [h.permits]
    split <;> decide
  | registered peer owner h =>
    refine ⟨fun p hp p' hp' => (h.answers p hp).trans (h.answers p' hp').symm, fun _ p hp => ?_, h.permits.le⟩
    rw [h.answers p hp]
    exact h.peers

end Node

/-- Where no call looks for a peer while the other one is on its way from finding
none to registering its own, the copies build one connection. -/
theorem copies_build_one {setting : Setting} {states : Option ConnectionState} {permits : Bool}
    {moves : List (Move Node Input)} {n : Node} (run : Run (Node.step setting) (.start states permits) moves n)
    (hapart : ∀ move ∈ moves, move.before.Apart move.input) : n.OneConnection := by
  have hsound : n.Sound setting :=
    run.keepsUnder (.start states permits) (fun _ _ _ h happart hstep => h.step happart hstep) hapart
  exact hsound.oneConnection

/-- A remote node with the lower id, and room for its connection. -/
def plain : Setting := ⟨⟨"b"⟩, ⟨"a"⟩, 4, "v=0"⟩

def calm : Seen := ⟨0, true, none, none, none, false, true⟩

def turns (who : Caller) (n : Nat) : List Input := List.replicate n ⟨who, calm⟩

/-- The copy comes when the first call has registered its peer. -/
def later : List Input := turns .bootstrap 4 ++ turns .overlay 2 ++ turns .bootstrap 7 ++ turns .overlay 4

theorem copies_build_one_later :
    (play (Node.step plain) (.start none false) later.reverse).2.answers = [0, 0] ∧
      (play (Node.step plain) (.start none false) later.reverse).2.OneConnection := by
  refine ⟨by decide +kernel, ?_⟩
  exact copies_build_one (run_play _ _ _) (by decide +kernel)

/-- Both calls look before one of them has registered its peer. -/
def overlapping : List Input :=
  turns .bootstrap 1 ++ turns .overlay 1 ++ turns .bootstrap 10 ++ turns .overlay 12

/-- The initiator has the answers of two connections, of which the first is closed. -/
theorem copies_build_two : ¬ ∀ (setting : Setting) (states : Option ConnectionState) (permits : Bool)
    (moves : List (Move Node Input)) (n : Node),
    Run (Node.step setting) (.start states permits) moves n → n.OneConnection := by
  intro h
  have hone := h plain none false _ _ (run_play _ _ overlapping.reverse)
  have hanswers : (play (Node.step plain) (.start none false) overlapping.reverse).2.answers = [1, 0] := by
    decide +kernel
  have hsame := hone.source 1 (by rw [hanswers]; decide) 0 (by rw [hanswers]; decide)
  cases hsame

end Mistlib.Transport.OfferCopies
