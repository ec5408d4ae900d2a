import Mistlib.Async.Calls
import Mistlib.Async.Reactive
import Mistlib.Types

/-!
# The books on a session

What the transport keeps about one remote node is in several maps under locks of their own.
`connect_inner` and the brand-new-peer path of `handle_decoded_offer` enter a peer in them, and
the teardowns remove it: `cleanup_session_impl`, with and without an expected peer, and the
handlers of a failed connection and of a closed channel. Each access to a map is one step.

The local node has the lower id, so that it is the one to offer. What `create_pc`, the data
channels and the negotiation come to, the limit on connections and the times that are compared
are arbitrary, and a wait for a permit or a cooldown ends at any later time. A peer is known by
when it was created.
-/

open Reactive

namespace Mistlib.Transport.SessionBooks

abbrev PeerId := Nat

inductive Path where
  | connectInner
  | handleOffer
deriving DecidableEq, Repr

inductive Phase where
  | connecting
  | connectReserving
  /-- It waits for its permit, and looks for its reservation then. -/
  | connectPermitted
  | connectCreating
  | connectAttempting (peer : PeerId)
  | connectChannels (peer : PeerId)
  | offerArrived
  | offerReserving
  | offerPermitted (newlyReserved : Bool)
  | offerCreating (newlyReserved : Bool)
  | inserting (peer : PeerId) (path : Path)
  /-- The peer is in `peers`, and its queue is to be entered. -/
  | queueing (peer : PeerId) (path : Path)
  | offerAttempting (peer : PeerId)
  | negotiating (peer : PeerId)
  /-- A teardown, of the expected peer only if there is one. `stateFirst` is the
  order of the handler of a failed connection. -/
  | removingPeer (expected : Option PeerId) (stateFirst : Bool)
  | removingQueue (expected : Option PeerId) (stateFirst : Bool)
  | removingAttempt (expected : Option PeerId) (stateFirst : Bool)
  | removingState (expected : Option PeerId) (stateFirst : Bool)
  /-- The connection watchdog of an attempt. -/
  | watchdog (attempt : Nat)
  | watchdogState
  | watchdogPeer (stillConnecting : Bool)
  /-- The sweeper, which goes through the nodes that have a state. -/
  | sweeping
  | sweepingPeer
  | reaping
  | returned
deriving DecidableEq, Repr

/-- A watchdog is in progress once its time has come. -/
def Phase.inProgress : Phase → Bool
  | .watchdog _ | .returned => false
  | _ => true

structure Books where
  peers : Option PeerId
  sendQueues : Option PeerId
  connectionStates : Option ConnectionState
  connectionAttemptIds : Option Nat
  nextConnectionAttemptId : Nat
  created : Nat
  calls : List Phase
deriving DecidableEq, Repr

inductive Input where
  | connect
  | offer
  | disconnect
  | sweep
  /-- The connection of a peer is failed or closed. -/
  | pcEnded (peer : PeerId)
  | channelClosed (peer : PeerId)
  | channelOpened
  | call (i : Nat) (ok : Bool)
deriving DecidableEq, Repr

namespace Books

def new : Books where
  peers := none
  sendQueues := none
  connectionStates := none
  connectionAttemptIds := none
  nextConnectionAttemptId := 0
  created := 0
  calls := []

def reserve (b : Books) : Books := { b with connectionStates := some .connecting }

/-- `create_pc` has made another peer. -/
def create (b : Books) : Books := { b with created := b.created + 1 }

def reserveConnectionAttempt (b : Books) : Books :=
  { b with
    connectionAttemptIds := some (b.nextConnectionAttemptId + 1)
    nextConnectionAttemptId := b.nextConnectionAttemptId + 1 }

/-- The next step of a call: the maps after it, its next phase, and the calls it begins. -/
def turn (b : Books) (ok : Bool) : Phase → Option (Books × Phase × List Phase)
  | .connecting => some (b, if b.peers.isSome then .returned else .connectReserving, [])
  | .connectReserving =>
    if b.connectionStates.isSome ∨ ok = false then some (b, .returned, [])
    else some (b.reserve, .connectPermitted, [])
  | .connectPermitted => some (b, if b.connectionStates.isSome then .connectCreating else .returned, [])
  | .connectCreating =>
    if ok then some (b.create, .connectAttempting b.created, [])
    else some (b, .removingPeer none false, [])
  | .connectAttempting peer =>
    some (b.reserveConnectionAttempt, .connectChannels peer, [.watchdog (b.nextConnectionAttemptId + 1)])
  | .connectChannels peer =>
    some (b, if ok then .inserting peer .connectInner else .removingPeer (some peer) false, [])
  -- the offer of a node that has a peer takes another path
  | .offerArrived => some (b, if b.peers.isSome then .returned else .offerReserving, [])
  | .offerReserving =>
    if b.connectionStates.isSome then some (b, .offerPermitted false, [])
    else if ok then some (b.reserve, .offerPermitted true, [])
    else some (b, .returned, [])
  | .offerPermitted newlyReserved =>
    some (b, if b.connectionStates.isSome then .offerCreating newlyReserved else .returned, [])
  | .offerCreating newlyReserved =>
    if ok then some (b.create, .inserting b.created .handleOffer, [])
    else if newlyReserved then some ({ b with connectionStates := none }, .returned, [])
    else some (b, .returned, [])
  | .inserting peer path => some ({ b with peers := some peer }, .queueing peer path, [])
  | .queueing peer .connectInner => some ({ b with sendQueues := some peer }, .negotiating peer, [])
  | .queueing peer .handleOffer => some ({ b with sendQueues := some peer }, .offerAttempting peer, [])
  | .offerAttempting peer =>
    some (b.reserveConnectionAttempt, .negotiating peer, [.watchdog (b.nextConnectionAttemptId + 1)])
  | .negotiating peer => some (b, if ok then .returned else .removingPeer (some peer) false, [])
  | .removingPeer expected stateFirst =>
    if expected = none ∨ expected = b.peers then
      some ({ b with peers := none }, .removingQueue expected stateFirst, [])
    else some (b, .returned, [])
  | .removingQueue expected stateFirst =>
    some ({ b with sendQueues := none },
      if stateFirst then .removingState expected stateFirst else .removingAttempt expected stateFirst, [])
  | .removingAttempt expected stateFirst =>
    some ({ b with connectionAttemptIds := none },
      if stateFirst then .returned else .removingState expected stateFirst, [])
  | .removingState expected stateFirst =>
    some ({ b with connectionStates := none },
      if stateFirst then .removingAttempt expected stateFirst else .returned, [])
  | .watchdog attempt =>
    some (b, if b.connectionAttemptIds = some attempt then .watchdogState else .returned, [])
  | .watchdogState => some (b, .watchdogPeer (b.connectionStates = some .connecting), [])
  -- without a peer the cleanup is unconditional
  | .watchdogPeer stillConnecting =>
    some (b, if stillConnecting ∧ ok then .removingPeer b.peers false else .returned, [])
  | .sweeping => some (b, if b.connectionStates.isSome then .sweepingPeer else .returned, [])
  | .sweepingPeer =>
    if ok then some (b, b.peers.elim .reaping fun peer => .removingPeer (some peer) false, [])
    else some (b, .returned, [])
  | .reaping => some ({ b with connectionStates := none }, .returned, [])
  | .returned => none

def begin (b : Books) (phase : Phase) : Books := { b with calls := b.calls ++ [phase] }

def step (b : Books) : Input → Option Books
  | .connect => some (b.begin .connecting)
  | .offer => some (b.begin .offerArrived)
  | .disconnect => some (b.begin (.removingPeer none false))
  | .sweep => some (b.begin .sweeping)
  | .pcEnded peer => if peer < b.created then some (b.begin (.removingPeer (some peer) true)) else none
  | .channelClosed peer =>
    if peer < b.created then some (b.begin (.removingPeer (some peer) false)) else none
  | .channelOpened => some { b with connectionStates := b.connectionStates.map fun _ => .connected }
  | .call i ok =>
    b.calls[i]?.bind fun phase =>
      (b.turn ok phase).map fun (after, phase, begun) => { after with calls := b.calls.set i phase ++ begun }

/-- No call is in progress. Watchdogs may wait for their time. -/
def Quiescent (b : Books) : Prop := ∀ phase ∈ b.calls, phase.inProgress = false
deriving Decidable

structure Agree (b : Books) : Prop where
  queue : b.sendQueues = b.peers
  state : b.peers.isSome = true → b.connectionStates.isSome = true

end Books

/-- The peer is in `peers` and its queue is not yet in `send_queues`. -/
def Phase.halfRegistered : Phase → Option PeerId
  | .queueing peer _ => some peer
  | _ => none

/-- A teardown has its peer out of `peers` and still a queue or a state to remove. -/
def Phase.halfTorn : Phase → Bool
  | .removingQueue _ _ => true
  | .removingAttempt _ stateFirst => !stateFirst
  | .removingState _ _ => true
  | _ => false

namespace Books

def NoneHalfRegistered (b : Books) : Prop := ∀ phase ∈ b.calls, phase.halfRegistered = none
deriving Decidable

def NoneHalfTorn (b : Books) : Prop := ∀ phase ∈ b.calls, phase.halfTorn = false
deriving Decidable

/-- Registrations and teardowns do not overlap, a peer is registered while the
node has a state, and a reservation is given up while it has no peer. -/
def Orderly (b : Books) (ok : Bool) : Phase → Prop
  | .inserting _ _ => b.connectionStates.isSome = true ∧ b.NoneHalfRegistered ∧ b.NoneHalfTorn
  | .removingPeer expected _ => expected = none ∨ expected = b.peers → b.NoneHalfRegistered
  | .offerCreating newlyReserved => newlyReserved = true → ok = false → b.peers = none
  | .reaping => b.peers = none
  | _ => True

instance (b : Books) (ok : Bool) : DecidablePred (b.Orderly ok) := fun phase => by
  cases phase <;> dsimp only [Orderly] <;> infer_instance

def Turn (P : Books → Bool → Phase → Prop) (b : Books) : Input → Prop
  | .call i ok => ∀ phase ∈ b.calls[i]?, P b ok phase
  | _ => True

instance {P : Books → Bool → Phase → Prop} [∀ b ok, DecidablePred (P b ok)] (b : Books) :
    DecidablePred (b.Turn P)
  | .call i ok => inferInstanceAs (Decidable (∀ phase ∈ b.calls[i]?, P b ok phase))
  | .connect | .offer | .disconnect | .sweep | .pcEnded _ | .channelClosed _
  | .channelOpened => .isTrue trivial

/-- A teardown that is aimed at a peer finds no entry of another one. -/
def Spares (b : Books) : Phase → Prop
  | .removingQueue (some peer) _ => b.sendQueues = none ∨ b.sendQueues = some peer
  | .removingState (some _) _ => b.peers = none
  | _ => True

end Books

/-! ## Turns -/

/-- Neither half registered nor half torn down. -/
structure Phase.Whole (phase : Phase) : Prop where
  registered : phase.halfRegistered = none
  torn : phase.halfTorn = false

namespace Books

variable {b b' : Books} {ok : Bool} {phase phase' : Phase} {begun : List Phase} {i : Nat}
  {input : Input}

/-- What a turn does to the three maps. -/
inductive Turns (b : Books) (ok : Bool) : Phase → Books → Phase → Prop where
  | passes {phase phase' : Phase} {b' : Books} : phase.Whole → phase'.Whole → b'.peers = b.peers →
      b'.sendQueues = b.sendQueues →
      (b.connectionStates.isSome = true → b'.connectionStates.isSome = true) →
      Turns b ok phase b' phase'
  | inserts (peer : PeerId) (path : Path) :
      Turns b ok (.inserting peer path) { b with peers := some peer } (.queueing peer path)
  | queues (peer : PeerId) (path : Path) {phase' : Phase} : phase'.Whole →
      Turns b ok (.queueing peer path) { b with sendQueues := some peer } phase'
  | removes (expected : Option PeerId) (stateFirst : Bool) : expected = none ∨ expected = b.peers →
      Turns b ok (.removingPeer expected stateFirst) { b with peers := none }
        (.removingQueue expected stateFirst)
  | dequeues (expected : Option PeerId) (stateFirst : Bool) {phase' : Phase} :
      phase'.halfRegistered = none → phase'.halfTorn = true →
      phase' = .removingState expected stateFirst ∨ phase' = .removingAttempt expected stateFirst →
      Turns b ok (.removingQueue expected stateFirst) { b with sendQueues := none } phase'
  | lingers (expected : Option PeerId) :
      Turns b ok (.removingAttempt expected false) { b with connectionAttemptIds := none }
        (.removingState expected false)
  | forgets (expected : Option PeerId) (stateFirst : Bool) {phase' : Phase} : phase'.Whole →
      Turns b ok (.removingState expected stateFirst) { b with connectionStates := none } phase'
  | gives {phase phase' : Phase} : phase.Whole → phase'.Whole → (b.Orderly ok phase → b.peers = none) →
      Turns b ok phase { b with connectionStates := none } phase'

theorem whole_of_ite {c : Prop} [Decidable c] {p q : Phase} (hp : p.Whole) (hq : q.Whole) :
    (if c then p else q).Whole := by
  split
  · exact hp
  · exact hq

theorem turn_cases (h : b.turn ok phase = some (b', phase', begun)) :
    b.Turns ok phase b' phase' ∧ ∀ other ∈ begun, other.Whole := by
  have hnone : ∀ other ∈ ([] : List Phase), other.Whole := nofun
  have hwatch : ∀ n, ∀ other ∈ [Phase.watchdog n], other.Whole := by
    intro n other hother
    rw [List.mem_singleton.mp hother]
    exact ⟨rfl, rfl⟩
  have hpasses : ∀ {p q : Phase}, p.Whole → q.Whole → b.Turns ok p b q := fun hp hq =>
    .passes hp hq rfl rfl id
  cases phase with
  | connecting | connectPermitted | connectChannels peer | offerArrived
  | offerPermitted newlyReserved | negotiating peer | watchdog attempt
  | watchdogPeer stillConnecting | sweeping =>
    cases h
    exact ⟨hpasses ⟨rfl, rfl⟩ (whole_of_ite ⟨rfl, rfl⟩ ⟨rfl, rfl⟩), hnone⟩
  | connectReserving =>
    simp only [turn] at h
    split at h
    · cases h
      exact ⟨hpasses ⟨rfl, rfl⟩ ⟨rfl, rfl⟩, hnone⟩
    · cases h
      exact ⟨.passes ⟨rfl, rfl⟩ ⟨rfl, rfl⟩ rfl rfl fun _ => rfl, hnone⟩
  | connectCreating =>
    simp only [turn] at h
    split at h
    · cases h
      exact ⟨.passes ⟨rfl, rfl⟩ ⟨rfl, rfl⟩ rfl rfl id, hnone⟩
    · cases h
      exact ⟨hpasses ⟨rfl, rfl⟩ ⟨rfl, rfl⟩, hnone⟩
  | connectAttempting peer | offerAttempting peer =>
    cases h
    exact ⟨.passes ⟨rfl, rfl⟩ ⟨rfl, rfl⟩ rfl rfl id, hwatch _⟩
  | offerReserving =>
    simp only [turn] at h
    split at h
    · cases h
      exact ⟨hpasses ⟨rfl, rfl⟩ ⟨rfl, rfl⟩, hnone⟩
    · split at h
      · cases h
        exact ⟨.passes ⟨rfl, rfl⟩ ⟨rfl, rfl⟩ rfl rfl fun _ => rfl, hnone⟩
      · cases h
        exact ⟨hpasses ⟨rfl, rfl⟩ ⟨rfl, rfl⟩, hnone⟩
  | offerCreating newlyReserved =>
    simp only [turn] at h
    split at h
    · cases h
      exact ⟨.passes ⟨rfl, rfl⟩ ⟨rfl, rfl⟩ rfl rfl id, hnone⟩
    · next hfailed =>
      split at h
      · next hnewly =>
        cases h
        exact ⟨.gives ⟨rfl, rfl⟩ ⟨rfl, rfl⟩ fun horderly => horderly hnewly (by simpa using hfailed), hnone⟩
      · cases h
        exact ⟨hpasses ⟨rfl, rfl⟩ ⟨rfl, rfl⟩, hnone⟩
  | inserting peer path =>
    cases h
    exact ⟨.inserts peer path, hnone⟩
  | queueing peer path =>
    cases path with
    | connectInner | handleOffer =>
      cases h
      exact ⟨.queues peer _ ⟨rfl, rfl⟩, hnone⟩
  | removingPeer expected stateFirst =>
    simp only [turn] at h
    split at h
    · next haimed =>
      cases h
      exact ⟨.removes expected stateFirst haimed, hnone⟩
    · cases h
      exact ⟨hpasses ⟨rfl, rfl⟩ ⟨rfl, rfl⟩, hnone⟩
  | removingQueue expected stateFirst =>
    cases stateFirst with
    | true =>
      cases h
      exact ⟨.dequeues expected true rfl rfl (.inl rfl), hnone⟩
    | false =>
      cases h
      exact ⟨.dequeues expected false rfl rfl (.inr rfl), hnone⟩
  | removingAttempt expected stateFirst =>
    cases stateFirst with
    | true =>
      cases h
      exact ⟨.passes ⟨rfl, rfl⟩ ⟨rfl, rfl⟩ rfl rfl id, hnone⟩
    | false =>
      cases h
      exact ⟨.lingers expected, hnone⟩
  | removingState expected stateFirst =>
    cases stateFirst with
    | true =>
      cases h
      exact ⟨.forgets expected true ⟨rfl, rfl⟩, hnone⟩
    | false =>
      cases h
      exact ⟨.forgets expected false ⟨rfl, rfl⟩, hnone⟩
  | watchdogState =>
    cases h
    exact ⟨hpasses ⟨rfl, rfl⟩ ⟨rfl, rfl⟩, hnone⟩
  | sweepingPeer =>
    simp only [turn] at h
    split at h
    · cases h
      refine ⟨hpasses ⟨rfl, rfl⟩ ?_, hnone⟩
      cases b.peers with
      | none | some peer => exact ⟨rfl, rfl⟩
    · cases h
      exact ⟨hpasses ⟨rfl, rfl⟩ ⟨rfl, rfl⟩, hnone⟩
  | reaping =>
    cases h
    exact ⟨.gives ⟨rfl, rfl⟩ ⟨rfl, rfl⟩ id, hnone⟩
  | returned => cases h

/-! ## Orderly runs -/

/-- What orderly steps keep: a peer in `peers` has a state and its queue, unless
the latter is about to be entered; without a peer the queue is gone, or about to
be removed by a teardown, which finds there the queue of its own peer. -/
structure Sound (b : Books) : Prop where
  registering : ∀ phase ∈ b.calls, ∀ peer, phase.halfRegistered = some peer →
    b.peers = some peer ∧ b.NoneHalfTorn
  torn : ∀ phase ∈ b.calls, phase.halfTorn = true → b.peers = none
  reserved : b.peers.isSome = true → b.connectionStates.isSome = true
  queued : ∀ peer, b.peers = some peer → b.sendQueues = some peer ∨
    ∃ phase ∈ b.calls, phase.halfRegistered = some peer
  dequeued : b.peers = none → b.sendQueues = none ∨
    ∃ expected stateFirst, .removingQueue expected stateFirst ∈ b.calls
  aimed : ∀ peer stateFirst, .removingQueue (some peer) stateFirst ∈ b.calls →
    b.sendQueues = none ∨ b.sendQueues = some peer

theorem Sound.new : Sound .new := by
  constructor <;> simp [Books.new]

theorem mem_self (hcall : b.calls[i]? = some phase) : phase' ∈ b.calls.set i phase' :=
  List.mem_set (List.getElem?_eq_some_iff.mp hcall).1 phase'

theorem mem_kept {other : Phase} (hcall : b.calls[i]? = some phase) (hother : other ∈ b.calls)
    (hne : other ≠ phase) : other ∈ b.calls.set i phase' := by
  obtain ⟨j, hj⟩ := List.getElem?_of_mem hother
  refine List.mem_of_getElem? (i := j) ((List.getElem?_set_ne ?_).trans hj)
  rintro rfl
  exact hne (Option.some.inj (hj.symm.trans hcall))

/-- Calls that begin leave things as they are. -/
theorem Sound.begins (h : b.Sound) (hbegun : ∀ other ∈ begun, other.Whole) :
    { b with calls := b.calls ++ begun }.Sound := by
  have hregistered : ∀ other ∈ b.calls ++ begun, ∀ peer, other.halfRegistered = some peer →
      other ∈ b.calls := by
    intro other hother peer hhalf
    refine (List.mem_append.mp hother).resolve_right fun hnew => ?_
    cases (hbegun other hnew).registered.symm.trans hhalf
  have htorn : ∀ other ∈ b.calls ++ begun, other.halfTorn = true → other ∈ b.calls := by
    intro other hother hhalf
    refine (List.mem_append.mp hother).resolve_right fun hnew => ?_
    cases (hbegun other hnew).torn.symm.trans hhalf
  constructor
  · intro other hother peer hhalf
    obtain ⟨hpeer, hnone⟩ := h.registering other (hregistered other hother peer hhalf) peer hhalf
    refine ⟨hpeer, fun other hother => Bool.eq_false_iff.mpr fun hhalf => ?_⟩
    exact Bool.false_ne_true ((hnone other (htorn other hother hhalf)).symm.trans hhalf)
  · exact fun other hother hhalf => h.torn other (htorn other hother hhalf) hhalf
  · exact h.reserved
  · intro peer hpeer
    refine (h.queued peer hpeer).imp_right ?_
    rintro ⟨other, hother, hhalf⟩
    exact ⟨other, List.mem_append_left _ hother, hhalf⟩
  · intro hnone
    refine (h.dequeued hnone).imp_right ?_
    rintro ⟨expected, stateFirst, hother⟩
    exact ⟨expected, stateFirst, List.mem_append_left _ hother⟩
  · exact fun peer stateFirst hother => h.aimed peer stateFirst (htorn _ hother rfl)

theorem Sound.begin (h : b.Sound) (hphase : phase.Whole) : (b.begin phase).Sound :=
  h.begins fun other hother => by
    rw [List.mem_singleton.mp hother]
    exact hphase

theorem Sound.passes (h : b.Sound) (hcall : b.calls[i]? = some phase) (hwhole : phase.Whole)
    (hwhole' : phase'.Whole) (hpeers : b'.peers = b.peers) (hqueues : b'.sendQueues = b.sendQueues)
    (hreserved : b.peers.isSome = true → b'.connectionStates.isSome = true) :
    { b' with calls := b.calls.set i phase' }.Sound := by
  have hregistered : ∀ other ∈ b.calls.set i phase', ∀ peer,
      other.halfRegistered = some peer → other ∈ b.calls := by
    intro other hother peer hhalf
    rcases List.mem_or_eq_of_mem_set hother with hold | rfl
    · exact hold
    · cases hwhole'.registered.symm.trans hhalf
  have htorn : ∀ other ∈ b.calls.set i phase', other.halfTorn = true → other ∈ b.calls := by
    intro other hother hhalf
    rcases List.mem_or_eq_of_mem_set hother with hold | rfl
    · exact hold
    · cases hwhole'.torn.symm.trans hhalf
  constructor
  · intro other hother peer hhalf
    obtain ⟨hpeer, hnone⟩ := h.registering other (hregistered other hother peer hhalf) peer hhalf
    refine ⟨hpeers.trans hpeer, fun other hother => Bool.eq_false_iff.mpr fun hhalf => ?_⟩
    exact Bool.false_ne_true ((hnone other (htorn other hother hhalf)).symm.trans hhalf)
  · exact fun other hother hhalf => hpeers.trans (h.torn other (htorn other hother hhalf) hhalf)
  · exact fun hsome => hreserved (hpeers ▸ hsome)
  · intro peer hpeer
    rcases h.queued peer (hpeers.symm.trans hpeer) with hqueue | ⟨other, hother, hhalf⟩
    · exact .inl (hqueues.trans hqueue)
    · refine .inr ⟨other, mem_kept hcall hother ?_, hhalf⟩
      rintro rfl
      cases hwhole.registered.symm.trans hhalf
  · intro hnone
    rcases h.dequeued (hpeers.symm.trans hnone) with hqueue | ⟨expected, stateFirst, hother⟩
    · exact .inl (hqueues.trans hqueue)
    · refine .inr ⟨expected, stateFirst, mem_kept hcall hother ?_⟩
      rintro rfl
      cases hwhole.torn
  · intro peer stateFirst hother
    rw [show b'.sendQueues = b.sendQueues from hqueues]
    exact h.aimed peer stateFirst (htorn _ hother rfl)

theorem Sound.of_torn (h : b.Sound) (hcall : b.calls[i]? = some phase) (hhalf : phase.halfTorn = true) :
    b.peers = none ∧ b.NoneHalfRegistered := by
  have hmem := List.mem_of_getElem? hcall
  refine ⟨h.torn phase hmem hhalf, fun other hother => ?_⟩
  cases hregistered : other.halfRegistered with
  | none => rfl
  | some peer =>
    have hnone := (h.registering other hother peer hregistered).2 phase hmem
    cases hnone.symm.trans hhalf

theorem Sound.tears (h : b.Sound) (hcall : b.calls[i]? = some phase) (hhalf : phase.halfTorn = true)
    (hphase' : phase'.halfRegistered = none) (hpeers : b'.peers = b.peers)
    (hqueues : b'.sendQueues = none ∨ b'.sendQueues = b.sendQueues ∧
      ∀ expected stateFirst, .removingQueue expected stateFirst ≠ phase ∧
        .removingQueue expected stateFirst ≠ phase') :
    { b' with calls := b.calls.set i phase' }.Sound := by
  obtain ⟨hnone, hregistered⟩ := h.of_torn hcall hhalf
  have hnone' := hpeers.trans hnone
  constructor
  · intro other hother peer hhalf
    rcases List.mem_or_eq_of_mem_set hother with hold | rfl
    · cases (hregistered other hold).symm.trans hhalf
    · cases hphase'.symm.trans hhalf
  · exact fun _ _ _ => hnone'
  · intro hsome
    rw [show b'.peers = none from hnone'] at hsome
    cases hsome
  · intro peer hpeer
    cases hnone'.symm.trans hpeer
  · intro _
    rcases hqueues with hgone | ⟨hsame, hother⟩
    · exact .inl hgone
    · rcases h.dequeued hnone with hqueue | ⟨expected, stateFirst, hmem⟩
      · exact .inl (hsame.trans hqueue)
      · exact .inr ⟨expected, stateFirst, mem_kept hcall hmem (hother expected stateFirst).1⟩
  · intro peer stateFirst hmem
    rcases hqueues with hgone | ⟨hsame, hother⟩
    · exact .inl hgone
    · rw [show b'.sendQueues = b.sendQueues from hsame]
      refine h.aimed peer stateFirst ((List.mem_or_eq_of_mem_set hmem).resolve_right ?_)
      exact (hother _ _).2

theorem Sound.inserts {peer : PeerId} {path : Path} (hcall : b.calls[i]? = some (.inserting peer path))
    (hreserved : b.connectionStates.isSome = true) (hregistered : b.NoneHalfRegistered)
    (htorn : b.NoneHalfTorn) :
    { b with peers := some peer, calls := b.calls.set i (.queueing peer path) }.Sound := by
  have hnone : ∀ other ∈ b.calls.set i (.queueing peer path), other.halfTorn = false := by
    intro other hother
    rcases List.mem_or_eq_of_mem_set hother with hold | rfl
    · exact htorn other hold
    · rfl
  constructor
  · intro other hother peer' hhalf
    refine ⟨?_, hnone⟩
    rcases List.mem_or_eq_of_mem_set hother with hold | rfl
    · cases (hregistered other hold).symm.trans hhalf
    · exact hhalf
  · intro other hother hhalf
    cases (hnone other hother).symm.trans hhalf
  · exact fun _ => hreserved
  · intro peer' hpeer
    exact .inr ⟨_, mem_self hcall, hpeer⟩
  · nofun
  · intro peer' stateFirst hother
    cases (hnone _ hother)

theorem Sound.queues {peer : PeerId} {path : Path} (h : b.Sound)
    (hcall : b.calls[i]? = some (.queueing peer path)) (hphase' : phase'.Whole) :
    { b with sendQueues := some peer, calls := b.calls.set i phase' }.Sound := by
  obtain ⟨hpeer, htorn⟩ := h.registering _ (List.mem_of_getElem? hcall) peer rfl
  have hnone : ∀ other ∈ b.calls.set i phase', other.halfTorn = false := by
    intro other hother
    rcases List.mem_or_eq_of_mem_set hother with hold | rfl
    · exact htorn other hold
    · exact hphase'.torn
  constructor
  · intro other hother peer' hhalf
    refine ⟨?_, hnone⟩
    rcases List.mem_or_eq_of_mem_set hother with hold | rfl
    · exact (h.registering other hold peer' hhalf).1
    · cases hphase'.registered.symm.trans hhalf
  · intro other hother hhalf
    cases (hnone other hother).symm.trans hhalf
  · exact h.reserved
  · intro peer' hpeer'
    exact .inl (hpeer.symm.trans hpeer')
  · intro hgone
    cases hpeer.symm.trans hgone
  · intro peer' stateFirst hother
    cases (hnone _ hother)

theorem Sound.removes {expected : Option PeerId} {stateFirst : Bool} (h : b.Sound)
    (hcall : b.calls[i]? = some (.removingPeer expected stateFirst))
    (haimed : expected = none ∨ expected = b.peers) (hregistered : b.NoneHalfRegistered) :
    { b with
      peers := none
      calls := b.calls.set i (.removingQueue expected stateFirst) }.Sound := by
  constructor
  · intro other hother peer hhalf
    rcases List.mem_or_eq_of_mem_set hother with hold | rfl
    · cases (hregistered other hold).symm.trans hhalf
    · cases hhalf
  · exact fun _ _ _ => rfl
  · nofun
  · nofun
  · exact fun _ => .inr ⟨expected, stateFirst, mem_self hcall⟩
  · intro peer stateFirst' hother
    rcases List.mem_or_eq_of_mem_set hother with hold | hself
    · exact h.aimed peer stateFirst' hold
    · cases hself
      have hpeer := haimed.resolve_left nofun
      rcases h.queued peer hpeer.symm with hqueue | ⟨other, hother, hhalf⟩
      · exact .inr hqueue
      · cases (hregistered other hother).symm.trans hhalf

/-- An orderly turn keeps the books. -/
theorem Sound.turn (h : b.Sound) (hcall : b.calls[i]? = some phase) (horderly : b.Orderly ok phase)
    (hturn : b.Turns ok phase b' phase') : { b' with calls := b.calls.set i phase' }.Sound := by
  cases hturn with
  | passes hwhole hwhole' hpeers hqueues hstates =>
    exact h.passes hcall hwhole hwhole' hpeers hqueues fun hsome => hstates (h.reserved hsome)
  | inserts peer path => exact Sound.inserts hcall horderly.1 horderly.2.1 horderly.2.2
  | queues peer path hphase' => exact h.queues hcall hphase'
  | removes expected stateFirst haimed => exact h.removes hcall haimed (horderly haimed)
  | dequeues expected stateFirst hregistered _ _ =>
    exact h.tears hcall rfl hregistered rfl (.inl rfl)
  | lingers expected =>
    exact h.tears hcall rfl rfl rfl (.inr ⟨rfl, fun _ _ => ⟨nofun, nofun⟩⟩)
  | forgets expected stateFirst hphase' =>
    refine h.tears hcall rfl hphase'.registered rfl (.inr ⟨rfl, fun _ _ => ⟨nofun, ?_⟩⟩)
    rintro rfl
    cases hphase'.torn
  | gives hwhole hwhole' hnone =>
    refine h.passes hcall hwhole hwhole' rfl rfl fun hsome => ?_
    rw [hnone horderly] at hsome
    cases hsome

/-- Each orderly step keeps the books. -/
theorem Sound.step (h : b.Sound) (horderly : b.Turn Orderly input) (hstep : b.step input = some b') :
    b'.Sound := by
  cases input with
  | connect | offer | disconnect | sweep =>
    cases hstep
    exact h.begin ⟨rfl, rfl⟩
  | pcEnded peer | channelClosed peer =>
    obtain ⟨_, ⟨⟩⟩ := Option.ite_none_right_eq_some.mp hstep
    exact h.begin ⟨rfl, rfl⟩
  | channelOpened =>
    cases hstep
    refine ⟨h.registering, h.torn, fun hsome => ?_, h.queued, h.dequeued, h.aimed⟩
    exact (Option.isSome_map ..).trans (h.reserved hsome)
  | call i ok =>
    obtain ⟨phase, hcall, hturn⟩ := Option.bind_eq_some_iff.mp hstep
    obtain ⟨⟨after, phase', begun⟩, hafter, rfl⟩ := Option.map_eq_some_iff.mp hturn
    obtain ⟨hcases, hbegun⟩ := turn_cases hafter
    exact (h.turn hcall (horderly phase hcall) hcases).begins hbegun

theorem Sound.agree (h : b.Sound) (hquiet : b.Quiescent) : b.Agree := by
  refine ⟨?_, h.reserved⟩
  cases hpeers : b.peers with
  | none =>
    refine (h.dequeued hpeers).resolve_right ?_
    rintro ⟨expected, stateFirst, hmem⟩
    cases hquiet _ hmem
  | some peer =>
    refine (h.queued peer hpeers).resolve_right ?_
    rintro ⟨phase, hmem, hhalf⟩
    have hidle := hquiet phase hmem
    cases phase with
    | queueing peer path => cases hidle
    | _ => cases hhalf

theorem Sound.spares (h : b.Sound) (input : Input) : b.Turn (fun b _ => b.Spares) input := by
  cases input with
  | call i ok =>
    intro phase hcall
    have hmem := List.mem_of_getElem? hcall
    cases phase with
    | removingQueue expected stateFirst =>
      cases expected with
      | none => trivial
      | some peer => exact h.aimed peer stateFirst hmem
    | removingState expected stateFirst =>
      cases expected with
      | none => trivial
      | some peer => exact h.torn _ hmem rfl
    | _ => trivial
  | _ => trivial

/-- In an orderly run the books agree whenever nothing is in progress, and no
teardown removes what belongs to another peer than its own. -/
theorem agree_of_orderly {moves : List (Move Books Input)} (run : Run step .new moves b)
    (horderly : ∀ m ∈ moves, m.before.Turn Orderly m.input) :
    (b.Quiescent → b.Agree) ∧ ∀ m ∈ moves, m.before.Turn (fun b _ => b.Spares) m.input := by
  have hsound : b.Sound ∧ ∀ m ∈ moves, m.before.Turn (fun b _ => b.Spares) m.input := by
    induction run with
    | nil => exact ⟨.new, by simp⟩
    | @snoc past b b' input _ move ih =>
      obtain ⟨hlatest, hpast⟩ := List.forall_mem_cons.mp horderly
      obtain ⟨hbefore, hspared⟩ := ih hpast
      exact ⟨hbefore.step hlatest move, List.forall_mem_cons.mpr ⟨hbefore.spares input, hspared⟩⟩
  exact ⟨hsound.1.agree, hsound.2⟩

end Books

section Runs

def after (inputs : List Input) : List (Move Books Input) × Books := play Books.step .new inputs.reverse

def offered : List Input := .offer :: List.replicate 8 (.call 0 true)

/-- Its channel closes, and the node connects again after the teardown. -/
def reconnected : List Input :=
  offered ++ [Input.channelClosed 0] ++ List.replicate 4 (Input.call 2 true) ++ [Input.connect] ++
    List.replicate 10 (Input.call 3 true) ++ [Input.call 1 true] ++ List.replicate 3 (Input.call 4 false)

/-- An offer comes when the teardown of the old peer has taken it out of `peers`
and its queue and its state are still to be removed. -/
def overtaken : List Input :=
  offered ++ [Input.channelClosed 0, .call 2 true, .offer] ++ List.replicate 8 (Input.call 3 true) ++
    List.replicate 3 (Input.call 2 true) ++ [Input.call 1 true, .call 4 true]

theorem reconnected_agree : (after reconnected).2.Agree ∧ (after reconnected).2.peers = some 1 := by
  have horderly : ∀ m ∈ (after reconnected).1, m.before.Turn Books.Orderly m.input := by decide +kernel
  have hquiet : (after reconnected).2.Quiescent := by decide +kernel
  exact ⟨(Books.agree_of_orderly (run_play _ _ _) horderly).1 hquiet, by decide +kernel⟩

/-- The teardown removes the queue and the state of the new peer. -/
theorem overtaken_disagree :
    ∃ moves b, Run Books.step .new moves b ∧ b.Quiescent ∧ b.peers = some 1 ∧ b.sendQueues = none ∧
      b.connectionStates = none ∧ ¬ b.Agree := by
  have hpeers : (after overtaken).2.peers = some 1 := by decide +kernel
  have hqueues : (after overtaken).2.sendQueues = none := by decide +kernel
  refine ⟨_, (after overtaken).2, run_play _ _ _, by decide +kernel, hpeers, hqueues, by decide +kernel,
    fun h => ?_⟩
  cases hqueues.symm.trans (h.queue.trans hpeers)

end Runs

end Mistlib.Transport.SessionBooks
