import Mistlib.Browser.PeerNotices

/-!
# What the host is told of a remote node

The native transport tells the host of a node when the reliable channel of a peer opens, and when
a session goes that it thinks the host knows of: a clean-up if it finds any entry, the handler
of a failed or closed connection if it finds a state, the handler of a closed channel always. The
notice is given by a task of its own, which also edits the routing table. Each access to a map
is one step, and handlers and tasks take theirs in any order.

A state entry is reserved, then connected, then removed; what a grace or the connection puts in
its place is no part of this.
-/

open Reactive

namespace Mistlib.Transport.HostNotices

open Browser (Notice alternates)

abbrev PeerId := Nat

inductive Teardown where
  /-- `cleanup_session_impl`, of the expected peer only if there is one. -/
  | cleanUp (expected : Option PeerId)
  /-- The handler of a connection that is failed or closed. -/
  | ended (peer : PeerId)
  | channelClosed (peer : PeerId)
deriving DecidableEq, Repr

/-- What a teardown does next. It has taken `peer` out of `peers`, and `notifies`
says whether it will tell the host. -/
inductive Stage where
  /-- It looks at the cancel token of its peer. -/
  | checking
  | removingPeer
  | removingAttempt (peer : Option PeerId) (notifies : Bool)
  | removingRequest (peer : Option PeerId) (notifies : Bool)
  | removingState (peer : Option PeerId) (notifies : Bool)
  | removingCandidates (peer : Option PeerId) (notifies : Bool)
  | closing (peer : Option PeerId) (notifies : Bool)
  | notifying (notifies : Bool)
deriving DecidableEq, Repr

inductive Phase where
  /-- A channel of the peer has opened. -/
  | opening (peer : PeerId) (method : DeliveryMethod)
  | marking
  | announcing
  | tearingDown (teardown : Teardown) (stage : Stage)
  /-- A peer was replaced; its routes are reset, and then it is closed. -/
  | replacing (old : PeerId)
  | closingOld (old : PeerId)
  | returned
deriving DecidableEq, Repr

/-- The entries of the node, the handlers, and the tasks that were spawned and
have not run, the oldest first. -/
structure Node where
  peers : Option PeerId
  connectionStates : Option ConnectionState
  connectionAttemptIds : Bool
  connectRequestAttemptIds : Bool
  pendingCandidates : Bool
  created : Nat
  cancelled : List PeerId
  handlers : List Phase
  tasks : List Notice
  /-- Whether the node is in the connected set of the routing table. -/
  routed : Bool
  /-- What the host was told, the latest first. -/
  notices : List Notice
deriving DecidableEq, Repr

inductive Input where
  /-- `connect` or an offer reserves a connection. -/
  | reserve
  /-- The reservation is given up: no connection could be made, or none was in time. -/
  | giveUp
  /-- Attempts and candidates come and go. -/
  | entries (attempt request candidates : Bool)
  /-- A new peer is registered, in the place of the one there was. -/
  | register
  | channelOpen (peer : PeerId) (method : DeliveryMethod)
  | cleanUp (expected : Option PeerId)
  | pcEnded (peer : PeerId)
  | channelClose (peer : PeerId)
  | handler (i : Nat)
  /-- `reset_storage_after_teardown` of a peer that was replaced finds the session of the room
  or not. -/
  | reset (i : Nat) (found : Bool)
  /-- A task runs, and finds the session of the room or not. -/
  | task (i : Nat) (found : Bool)
deriving DecidableEq, Repr

namespace Teardown

def expected : Teardown → Option PeerId
  | .cleanUp expected => expected
  | .ended peer | .channelClosed peer => some peer

def isEnded : Teardown → Bool
  | .ended _ => true
  | _ => false

/-- Whether the host will be told, by the peer that was registered. -/
def notifiesAt : Teardown → Option PeerId → Bool
  | .cleanUp _, peer => peer.isSome
  | .ended _, _ => false
  | .channelClosed _, _ => true

/-- A clean-up also counts the other entries it finds. -/
def counts : Teardown → Bool → Bool → Bool
  | .cleanUp _, had, notifies => notifies || had
  | _, _, notifies => notifies

/-- Whether the host will be told, by the state that was there. -/
def countsState : Teardown → Bool → Bool → Bool
  | .cleanUp _, had, notifies => notifies || had
  | .ended _, had, _ => had
  | .channelClosed _, _, _ => true

end Teardown

namespace Node

def new : Node where
  peers := none
  connectionStates := none
  connectionAttemptIds := false
  connectRequestAttemptIds := false
  pendingCandidates := false
  created := 0
  cancelled := []
  handlers := []
  tasks := []
  routed := false
  notices := []

variable (n : Node)

def spawn (notice : Notice) : Node := { n with tasks := n.tasks ++ [notice] }

/-- The next step of a teardown. The handler of a failed connection removes the
state before the attempts. -/
def tearDown (t : Teardown) : Stage → Node × Phase
  | .checking =>
    (n, if t.expected.any fun peer => decide (peer ∈ n.cancelled) then .returned
      else .tearingDown t .removingPeer)
  | .removingPeer =>
    if t.expected = none ∨ t.expected = n.peers then
      ({ n with peers := none }, .tearingDown t (if t.isEnded then .removingState n.peers (t.notifiesAt n.peers)
        else .removingAttempt n.peers (t.notifiesAt n.peers)))
    else (n, .returned)
  | .removingAttempt peer notifies =>
    ({ n with connectionAttemptIds := false },
      .tearingDown t (.removingRequest peer (t.counts n.connectionAttemptIds notifies)))
  | .removingRequest peer notifies =>
    let notifies := t.counts n.connectRequestAttemptIds notifies
    ({ n with connectRequestAttemptIds := false },
      .tearingDown t (if t.isEnded then .removingCandidates peer notifies else .removingState peer notifies))
  | .removingState peer notifies =>
    let notifies := t.countsState n.connectionStates.isSome notifies
    ({ n with connectionStates := none },
      .tearingDown t (if t.isEnded then .removingAttempt peer notifies else .removingCandidates peer notifies))
  | .removingCandidates peer notifies =>
    ({ n with pendingCandidates := false },
      .tearingDown t (.closing peer (t.counts n.pendingCandidates notifies)))
  | .closing peer notifies =>
    ({ n with cancelled := peer.toList ++ n.cancelled }, .tearingDown t (.notifying notifies))
  | .notifying notifies => (if notifies then n.spawn .disconnected else n, .returned)

def turn : Phase → Option (Node × Phase)
  | .opening peer method =>
    some (n, if peer ∈ n.cancelled ∨ method ≠ .reliableOrdered then .returned else .marking)
  | .marking =>
    match n.connectionStates with
    | none | some .connected => some (n, .returned)
    | some _ => some ({ n with connectionStates := some .connected }, .announcing)
  | .announcing => some (n.spawn .connected, .returned)
  | .tearingDown t stage => some (n.tearDown t stage)
  | .replacing _ => none
  | .closingOld old => some ({ n with cancelled := old :: n.cancelled }, .returned)
  | .returned => none

/-- What the reset of a replaced peer's routes does next. -/
def reset (found : Bool) : Phase → Option (Node × Phase)
  | .replacing old => some ({ n with routed := if found then false else n.routed }, .closingOld old)
  | _ => none

/-- A task gives its notice. Without a session there is none of a connection, and
no table to edit. -/
def notify (notice : Notice) (found : Bool) : Node :=
  match notice with
  | .connected =>
    if found then { n with routed := true, notices := .connected :: n.notices } else n
  | .disconnected =>
    { n with routed := if found then false else n.routed, notices := .disconnected :: n.notices }

def begin (phase : Phase) : Node := { n with handlers := n.handlers ++ [phase] }

def step (n : Node) : Input → Option Node
  | .reserve =>
    some (if n.connectionStates = none then { n with connectionStates := some .connecting } else n)
  | .giveUp => some { n with connectionStates := none }
  | .entries attempt request candidates =>
    some { n with
      connectionAttemptIds := attempt
      connectRequestAttemptIds := request
      pendingCandidates := candidates }
  | .register =>
    some { n with
      peers := some n.created
      created := n.created + 1
      handlers := n.handlers ++ n.peers.toList.map .replacing }
  | .channelOpen peer method => if peer < n.created then some (n.begin (.opening peer method)) else none
  | .cleanUp expected => some (n.begin (.tearingDown (.cleanUp expected) .removingPeer))
  | .pcEnded peer =>
    if peer < n.created then some (n.begin (.tearingDown (.ended peer) .checking)) else none
  | .channelClose peer =>
    if peer < n.created then some (n.begin (.tearingDown (.channelClosed peer) .checking)) else none
  | .handler i =>
    n.handlers[i]?.bind fun phase =>
      (n.turn phase).map fun (after, phase) => { after with handlers := n.handlers.set i phase }
  | .reset i found =>
    n.handlers[i]?.bind fun phase =>
      (n.reset found phase).map fun (after, phase) => { after with handlers := n.handlers.set i phase }
  | .task i found =>
    n.tasks[i]?.map fun notice => { n with tasks := n.tasks.eraseIdx i }.notify notice found

end Node

/-! ## What is still to be told -/

/-- The state is removed, in the order in which this teardown removes things. -/
def Stage.stateGone (t : Teardown) : Stage → Bool
  | .removingAttempt _ _ | .removingRequest _ _ => t.isEnded
  | .removingCandidates _ _ | .closing _ _ | .notifying _ => true
  | _ => false

def Stage.notifies : Stage → Bool
  | .removingAttempt _ notifies | .removingRequest _ notifies | .removingState _ notifies
  | .removingCandidates _ notifies | .closing _ notifies | .notifying notifies => notifies
  | _ => false

/-- The notice that a handler owes the host: the state is already the one it tells of. -/
def Phase.owes : Phase → Option Notice
  | .announcing => some .connected
  | .tearingDown t stage => if stage.stateGone t && stage.notifies then some .disconnected else none
  | _ => none

namespace Node

def owed (n : Node) : List Notice := n.handlers.filterMap Phase.owes

/-- The notices there are going to be, the latest first. -/
def due (n : Node) : List Notice := n.owed ++ (n.tasks.reverse ++ n.notices)

/-- A notice is still to be given. -/
def Pending (n : Node) : Prop := n.owed ≠ [] ∨ n.tasks ≠ []

/-- No handler runs, and no task is left. -/
def Quiescent (n : Node) : Prop := (∀ phase ∈ n.handlers, phase = .returned) ∧ n.tasks = []
deriving Decidable

/-- The notices alternate, and where all is done the last one agrees with the
state and with the routing table. -/
structure WellTold (n : Node) : Prop where
  alternates : alternates n.notices = true
  state : n.Quiescent → (n.notices.head? = some .connected ↔ n.connectionStates = some .connected)
  table : n.Quiescent → (n.routed = true ↔ n.connectionStates = some .connected)

/-- A handler's step is accounted for: one that makes the state connected, or that
removes it and will tell the host, finds no other handler with a notice to give,
and what is removed with a notice was connected. -/
def Accounted (n : Node) : Phase → Prop
  | .marking => n.connectionStates ≠ none → n.connectionStates ≠ some .connected → n.owed = []
  | .tearingDown t (.removingState _ notifies) =>
    t.countsState n.connectionStates.isSome notifies = true →
      n.connectionStates = some .connected ∧ n.owed = []
  | .tearingDown t (.removingCandidates _ notifies) => t.counts n.pendingCandidates notifies = notifies
  | _ => True

instance (n : Node) : DecidablePred n.Accounted
  | .marking => inferInstanceAs (Decidable (_ → _ → _))
  | .tearingDown _ .checking | .tearingDown _ .removingPeer
  | .tearingDown _ (.removingAttempt _ _)
  | .tearingDown _ (.removingRequest _ _) => .isTrue trivial
  | .tearingDown _ (.removingState _ _) => inferInstanceAs (Decidable (_ → _))
  | .tearingDown _ (.removingCandidates _ _) => inferInstanceAs (Decidable (_ = _))
  | .tearingDown _ (.closing _ _) | .tearingDown _ (.notifying _) | .opening _ _ | .announcing
  | .replacing _ | .closingOld _ | .returned => .isTrue trivial

/-- Handlers are accounted for, no connected node's reservation is given up, a replaced peer's
routes are reset while the node has none or a notice is still to be given, and the tasks run in
the order in which they were spawned and find the session. -/
def Orderly (n : Node) : Input → Prop
  | .giveUp => n.connectionStates ≠ some .connected
  | .handler i => ∀ phase ∈ n.handlers[i]?, n.Accounted phase
  | .reset _ found => found = true → n.routed = true → n.Pending
  | .task i found => i = 0 ∧ found = true
  | _ => True

instance (n : Node) : DecidablePred n.Orderly
  | .giveUp => inferInstanceAs (Decidable (_ ≠ _))
  | .handler i => inferInstanceAs (Decidable (∀ phase ∈ n.handlers[i]?, _))
  | .reset _ _ => inferInstanceAs (Decidable (_ → _ → _ ∨ _))
  | .task _ _ => inferInstanceAs (Decidable (_ ∧ _))
  | .reserve | .entries _ _ _ | .register | .channelOpen _ _ | .cleanUp _ | .pcEnded _
  | .channelClose _ => .isTrue trivial

/-- The notices there are going to be alternate, the latest of them agrees with the state, and the
table with the latest one given, once none is pending. -/
structure Told (n : Node) : Prop where
  alternates : alternates n.due = true
  last : n.due.head? = some .connected ↔ n.connectionStates = some .connected
  owed : n.owed.length ≤ 1
  routed : n.routed = true → n.notices.head? = some .connected
  table : n.notices.head? = some .connected → n.routed = true ∨ n.Pending

end Node

/-! ## Steps -/

section Notices

variable {notice : Notice} {past newer : List Notice}

theorem alternates_connected (h : alternates past = true) (hlast : past.head? ≠ some .connected) :
    alternates (.connected :: past) = true := by
  rw [alternates, h, Bool.and_true]
  simpa using hlast

theorem alternates_disconnected (h : alternates past = true) (hlast : past.head? = some .connected) :
    alternates (.disconnected :: past) = true := by
  rw [alternates, h, hlast]
  rfl

theorem alternates_of_append (h : alternates (newer ++ past) = true) : alternates past = true := by
  induction newer with
  | nil => exact h
  | cons notice newer ih =>
    cases notice with
    | connected | disconnected => exact ih (Bool.and_eq_true_iff.mp h).2

end Notices

namespace Node

variable {n n' : Node} {phase phase' : Phase} {i : Nat}

theorem owes_cons (phase : Phase) (rest : List Phase) :
    (phase :: rest).filterMap Phase.owes = phase.owes.toList ++ rest.filterMap Phase.owes := by
  rw [List.filterMap_cons]
  cases phase.owes <;> rfl

theorem owed_around (h : n.handlers[i]? = some phase) (phase' : Phase) :
    ∃ before after, n.owed = before ++ (phase.owes.toList ++ after) ∧
      (n.handlers.set i phase').filterMap Phase.owes = before ++ (phase'.owes.toList ++ after) := by
  obtain ⟨before, after, hhandlers, hset, -⟩ := Calls.split h
  refine ⟨before.filterMap Phase.owes, after.filterMap Phase.owes, ?_, ?_⟩
  · rw [owed, hhandlers, List.filterMap_append, owes_cons]
  · rw [hset, List.filterMap_append, owes_cons]

/-- A handler's step with nothing to tell. -/
structure Silent (n after : Node) : Prop where
  states : after.connectionStates = some .connected ↔ n.connectionStates = some .connected
  tasks : after.tasks = n.tasks
  notices : after.notices = n.notices
  routed : after.routed = n.routed

namespace Told

theorem new : Told .new where
  alternates := rfl
  last := ⟨nofun, nofun⟩
  owed := Nat.zero_le _
  routed := nofun
  table := nofun

theorem silent (h : Told n) (hsilent : n.Silent n') (howed : n'.owed = n.owed) : Told n' := by
  have hdue : n'.due = n.due := by rw [due, due, howed, hsilent.tasks, hsilent.notices]
  refine ⟨?_, ?_, howed ▸ h.owed, ?_, ?_⟩
  · rw [hdue]
    exact h.alternates
  · rw [hdue, hsilent.states]
    exact h.last
  · rw [hsilent.routed, hsilent.notices]
    exact h.routed
  · rw [hsilent.routed, hsilent.notices, Pending, howed, hsilent.tasks]
    exact h.table

variable {notice : Notice}

theorem owes (h : Told n) (hi : n.handlers[i]? = some phase) (hnone : n.owed = []) (after : Node)
    (howes : phase'.owes = some notice) (htasks : after.tasks = n.tasks)
    (hnotices : after.notices = n.notices) (hrouted : after.routed = n.routed)
    (halternates : Browser.alternates (notice :: n.due) = true)
    (hstate : notice = .connected ↔ after.connectionStates = some .connected) :
    Told { after with handlers := n.handlers.set i phase' } := by
  obtain ⟨before, rest, hbefore, hafter⟩ := owed_around hi phase'
  rw [hnone] at hbefore
  obtain ⟨rfl, hrest⟩ := List.append_eq_nil_iff.mp hbefore.symm
  obtain ⟨-, rfl⟩ := List.append_eq_nil_iff.mp hrest
  rw [howes] at hafter
  have howed : Node.owed { after with handlers := n.handlers.set i phase' } = [notice] := hafter
  have hdue : due { after with handlers := n.handlers.set i phase' } = notice :: n.due := by
    rw [due, due, howed, hnone, htasks, hnotices]
    rfl
  refine ⟨?_, ?_, ?_, ?_, fun _ => .inr (.inl ?_)⟩
  · rw [hdue]
    exact halternates
  · rw [hdue]
    simpa using hstate
  · rw [howed]
    exact le_rfl
  · show after.routed = true → after.notices.head? = some .connected
    rw [hrouted, hnotices]
    exact h.routed
  · rw [howed]
    exact List.cons_ne_nil _ _

theorem spawns (h : Told n) (hi : n.handlers[i]? = some phase) (howes : phase.owes = some notice)
    (hpaid : phase'.owes = none) :
    Told { n.spawn notice with handlers := n.handlers.set i phase' } := by
  obtain ⟨before, rest, hbefore, hafter⟩ := owed_around hi phase'
  rw [howes] at hbefore
  rw [hpaid] at hafter
  have hlength := h.owed
  rw [hbefore, List.length_append, List.length_append] at hlength
  obtain ⟨rfl, rfl⟩ : before = [] ∧ rest = [] := by
    rw [← List.length_eq_zero_iff, ← List.length_eq_zero_iff]
    have hone : (some notice).toList.length = 1 := rfl
    omega
  have howed : Node.owed { n.spawn notice with handlers := n.handlers.set i phase' } = [] := hafter
  have hdue : due { n.spawn notice with handlers := n.handlers.set i phase' } = n.due := by
    rw [due, due, howed, hbefore]
    show [] ++ ((n.tasks ++ [notice]).reverse ++ n.notices) = _
    rw [List.reverse_append]
    rfl
  refine ⟨?_, ?_, ?_, h.routed, fun _ => .inr (.inr ?_)⟩
  · rw [hdue]
    exact h.alternates
  · rw [hdue]
    exact h.last
  · rw [howed]
    exact Nat.zero_le _
  · exact List.append_ne_nil_of_right_ne_nil _ (List.cons_ne_nil _ _)

variable {after : Node}

section

variable (h : Told n)
include h

theorem passes (hi : n.handlers[i]? = some phase) (hsilent : n.Silent after)
    (howes : phase'.owes = phase.owes) :
    Told { after with handlers := n.handlers.set i phase' } := by
  obtain ⟨before, rest, hbefore, hafter⟩ := owed_around hi phase'
  refine h.silent { hsilent with } ?_
  rw [hbefore, ← howes]
  exact hafter

theorem removesState {t : Teardown} {peer : Option PeerId} {notifies : Bool}
    (hi : n.handlers[i]? = some (.tearingDown t (.removingState peer notifies)))
    (haccounted : n.Accounted (.tearingDown t (.removingState peer notifies)))
    (howes : phase'.owes = if t.countsState n.connectionStates.isSome notifies then some .disconnected else none) :
    Told { n with connectionStates := none, handlers := n.handlers.set i phase' } := by
  cases hnotifies : t.countsState n.connectionStates.isSome notifies with
  | true =>
    obtain ⟨hstate, hnone⟩ := haccounted hnotifies
    rw [hnotifies, if_pos rfl] at howes
    exact h.owes hi hnone { n with connectionStates := none } howes rfl rfl rfl
      (alternates_disconnected h.alternates (h.last.mpr hstate)) ⟨nofun, nofun⟩
  | false =>
    rw [hnotifies, if_neg Bool.false_ne_true] at howes
    have hstate : n.connectionStates = none := by
      cases hstates : n.connectionStates with
      | none => rfl
      | some state =>
        rw [hstates] at hnotifies
        cases t <;> simp [Teardown.countsState] at hnotifies
    have hsilent : n.Silent { n with connectionStates := none } := ⟨by rw [hstate], rfl, rfl, rfl⟩
    exact h.passes hi hsilent howes

theorem tearDown {t : Teardown} {stage : Stage} (hi : n.handlers[i]? = some (.tearingDown t stage))
    (haccounted : n.Accounted (.tearingDown t stage)) :
    Told { (n.tearDown t stage).1 with handlers := n.handlers.set i (n.tearDown t stage).2 } := by
  have hsilent : ∀ {after : Node}, after.connectionStates = n.connectionStates → after.tasks = n.tasks →
      after.notices = n.notices → after.routed = n.routed → n.Silent after :=
    fun hstates htasks hnotices hrouted => ⟨by rw [hstates], htasks, hnotices, hrouted⟩
  cases stage with
  | checking =>
    refine h.passes hi (hsilent rfl rfl rfl rfl) ?_
    dsimp only [Node.tearDown]
    split <;> rfl
  | removingPeer =>
    dsimp only [Node.tearDown]
    split
    · refine h.passes hi (hsilent rfl rfl rfl rfl) ?_
      cases t <;> rfl
    · exact h.passes hi (hsilent rfl rfl rfl rfl) rfl
  | removingAttempt peer notifies | removingRequest peer notifies =>
    refine h.passes hi (hsilent rfl rfl rfl rfl) ?_
    cases t <;> rfl
  | removingState peer notifies =>
    refine h.removesState hi haccounted ?_
    cases t <;> simp [Node.tearDown, Phase.owes, Stage.stateGone, Stage.notifies, Teardown.isEnded]
  | removingCandidates peer notifies =>
    refine h.passes hi (hsilent rfl rfl rfl rfl) ?_
    have hcounts : t.counts n.pendingCandidates notifies = notifies := haccounted
    dsimp only [Node.tearDown]
    rw [hcounts]
    rfl
  | closing peer notifies => exact h.passes hi (hsilent rfl rfl rfl rfl) rfl
  | notifying notifies =>
    cases notifies with
    | true => exact h.spawns hi rfl rfl
    | false => exact h.passes hi (hsilent rfl rfl rfl rfl) rfl

/-- A turn that is accounted for keeps notices and state in agreement. -/
theorem turn (hi : n.handlers[i]? = some phase) (haccounted : n.Accounted phase)
    (hturn : n.turn phase = some (after, phase')) :
    Told { after with handlers := n.handlers.set i phase' } := by
  have hsame : n.Silent n := ⟨Iff.rfl, rfl, rfl, rfl⟩
  cases phase with
  | opening peer method =>
    cases hturn
    refine h.passes hi hsame ?_
    split <;> rfl
  | marking =>
    simp only [Node.turn] at hturn
    split at hturn
    · cases hturn
      exact h.passes hi hsame rfl
    · cases hturn
      exact h.passes hi hsame rfl
    · next state hconnected hstate =>
      cases hturn
      have hnot : n.connectionStates ≠ some .connected := by
        rw [hstate]
        rintro ⟨⟩
        exact hconnected rfl
      have hnone : Node.owed n = [] := haccounted (by rw [hstate]; nofun) hnot
      exact h.owes hi hnone { n with connectionStates := some .connected } rfl rfl rfl rfl
        (alternates_connected h.alternates (mt h.last.mp hnot)) ⟨fun _ => rfl, fun _ => rfl⟩
  | announcing =>
    cases hturn
    exact h.spawns hi rfl rfl
  | tearingDown t stage =>
    have htorn : n.tearDown t stage = (after, phase') := Option.some.inj hturn
    have htold := h.tearDown hi haccounted
    rwa [htorn] at htold
  | closingOld old =>
    cases hturn
    exact h.passes hi ⟨Iff.rfl, rfl, rfl, rfl⟩ rfl
  | replacing old | returned => cases hturn

theorem reset {found : Bool} (hi : n.handlers[i]? = some phase)
    (horderly : found = true → n.routed = true → n.Pending)
    (hreset : n.reset found phase = some (after, phase')) :
    Told { after with handlers := n.handlers.set i phase' } := by
  cases phase with
  | replacing old =>
    cases hreset
    by_cases hresets : found = true ∧ n.routed = true
    · obtain ⟨rfl, hrouted⟩ := hresets
      obtain ⟨before, rest, hbefore, hafter⟩ := owed_around hi (.closingOld old)
      have howed : Node.owed { n with handlers := n.handlers.set i (.closingOld old) } = n.owed := by
        rw [hbefore]
        exact hafter
      have hkept : Told { n with handlers := n.handlers.set i (.closingOld old) } :=
        h.silent ⟨Iff.rfl, rfl, rfl, rfl⟩ howed
      refine ⟨hkept.alternates, hkept.last, hkept.owed, by rintro ⟨⟩, fun _ => .inr ?_⟩
      exact (horderly rfl hrouted).imp (fun hne => ne_of_eq_of_ne howed hne) id
    · refine h.passes hi ⟨Iff.rfl, rfl, rfl, ?_⟩ rfl
      show (if found = true then false else n.routed) = n.routed
      split
      · next hfound =>
        cases hrouted : n.routed with
        | false => rfl
        | true => exact absurd ⟨hfound, hrouted⟩ hresets
      · rfl
  | _ => cases hreset

theorem begins {phases : List Phase} (hsilent : n.Silent after)
    (hphases : ∀ phase ∈ phases, phase.owes = none)
    (hhandlers : after.handlers = n.handlers ++ phases) : Told after := by
  refine h.silent hsilent ?_
  have hnone : phases.filterMap Phase.owes = [] := List.filterMap_eq_nil_iff.mpr hphases
  rw [Node.owed, hhandlers, List.filterMap_append, hnone, List.append_nil]
  rfl

theorem notify {rest : List Notice} (htasks : n.tasks = notice :: rest) :
    Told ({ n with tasks := rest }.notify notice true) := by
  have hdue : n.owed ++ (rest.reverse ++ notice :: n.notices) = n.due := by
    rw [due, htasks, List.reverse_cons, List.append_assoc]
    rfl
  have hlast := h.last
  have halternates := h.alternates
  rw [← hdue] at hlast halternates
  cases notice with
  | connected => exact ⟨halternates, hlast, h.owed, fun _ => rfl, fun _ => .inl rfl⟩
  | disconnected => exact ⟨halternates, hlast, h.owed, by rintro ⟨⟩, by rintro ⟨⟩⟩

/-- Each orderly step keeps notices, state and routes in agreement. -/
theorem step {input : Input} (horderly : n.Orderly input) (hstep : n.step input = some n') :
    Told n' := by
  have hbegins : ∀ {phase : Phase}, phase.owes = none → Told (n.begin phase) := by
    intro phase howes
    refine h.begins ⟨Iff.rfl, rfl, rfl, rfl⟩ ?_ rfl
    exact fun other hother => List.mem_singleton.mp hother ▸ howes
  cases input with
  | reserve =>
    cases hstep
    split
    · next hnone =>
      refine h.silent ⟨?_, rfl, rfl, rfl⟩ rfl
      rw [hnone]
      exact ⟨nofun, nofun⟩
    · exact h
  | giveUp =>
    cases hstep
    exact h.silent ⟨iff_of_false nofun horderly, rfl, rfl, rfl⟩ rfl
  | entries attempt request candidates =>
    cases hstep
    exact h.silent ⟨Iff.rfl, rfl, rfl, rfl⟩ rfl
  | register =>
    cases hstep
    refine h.begins ⟨Iff.rfl, rfl, rfl, rfl⟩ ?_ rfl
    intro phase hphase
    obtain ⟨old, -, rfl⟩ := List.mem_map.mp hphase
    rfl
  | channelOpen peer method | pcEnded peer | channelClose peer =>
    obtain ⟨-, hstep⟩ := Option.ite_none_right_eq_some.mp hstep
    cases hstep
    exact hbegins rfl
  | cleanUp expected =>
    cases hstep
    exact hbegins rfl
  | handler i =>
    obtain ⟨phase, hi, hnext⟩ := Option.bind_eq_some_iff.mp hstep
    obtain ⟨⟨after, phase'⟩, hturn, rfl⟩ := Option.map_eq_some_iff.mp hnext
    exact h.turn hi (horderly phase hi) hturn
  | reset i found =>
    obtain ⟨phase, hi, hnext⟩ := Option.bind_eq_some_iff.mp hstep
    obtain ⟨⟨after, phase'⟩, hreset, rfl⟩ := Option.map_eq_some_iff.mp hnext
    exact h.reset hi horderly hreset
  | task i found =>
    obtain ⟨notice, hi, rfl⟩ := Option.map_eq_some_iff.mp hstep
    obtain ⟨rfl, rfl⟩ := horderly
    cases htasks : n.tasks with
    | nil =>
      rw [htasks] at hi
      cases hi
    | cons first rest =>
      rw [htasks] at hi
      cases hi
      exact h.notify htasks

theorem wellTold : n.WellTold := by
  have hquiet : n.Quiescent → n.due = n.notices := by
    rintro ⟨hreturned, htasks⟩
    have howed : Node.owed n = [] := List.filterMap_eq_nil_iff.mpr fun phase hphase => by
      rw [hreturned phase hphase]
      rfl
    rw [due, howed, htasks]
    rfl
  have hstate : n.Quiescent → (n.notices.head? = some .connected ↔ n.connectionStates = some .connected) := by
    intro hquiescent
    rw [← h.last, hquiet hquiescent]
  have htable : n.Quiescent → (n.routed = true ↔ n.notices.head? = some .connected) := by
    intro hquiescent
    refine ⟨h.routed, fun hlast => (h.table hlast).resolve_right ?_⟩
    rintro (howes | htasks)
    · refine howes (List.filterMap_eq_nil_iff.mpr fun phase hphase => ?_)
      rw [hquiescent.1 phase hphase]
      rfl
    · exact htasks hquiescent.2
  refine ⟨?_, hstate, fun hquiescent => (htable hquiescent).trans (hstate hquiescent)⟩
  have halternates := h.alternates
  rw [due] at halternates
  exact alternates_of_append (alternates_of_append halternates)

end

end Told

end Node

/-- In a run whose steps are all accounted for, the host is told of the node's
connections in turns. -/
theorem wellTold_of_orderly {moves : List (Move Node Input)} {n : Node} (run : Run Node.step .new moves n)
    (horderly : ∀ move ∈ moves, move.before.Orderly move.input) : n.WellTold := by
  have htold : n.Told :=
    run.keepsUnder Node.Told.new (fun _ _ _ h horderly hstep => h.step horderly hstep) horderly
  exact htold.wellTold

/-! ### An attempt that fails -/

/-- The steps of the handler that was begun as the `i`th. -/
def handled (i steps : Nat) : List Input := List.replicate steps (.handler i)

/-- The reliable channel opens, the session is cleaned up, the next peer is replaced, and the
channel of the one after it opens and closes; the first input first. -/
def reconnected : List Input :=
  [Input.reserve, .register, .channelOpen 0 .reliableOrdered] ++ handled 0 3 ++
    [Input.task 0 true, .cleanUp (some 0)] ++ handled 1 7 ++
    [Input.task 0 true, .reserve, .register, .register, .reset 2 true] ++ handled 2 1 ++
    [Input.channelOpen 2 .reliableOrdered] ++ handled 3 3 ++
    [Input.task 0 true, .channelClose 2] ++ handled 4 8 ++ [Input.task 0 true]

theorem reconnected_wellTold :
    (play Node.step .new reconnected.reverse).2.notices =
        [.disconnected, .connected, .disconnected, .connected] ∧
      (play Node.step .new reconnected.reverse).2.Quiescent ∧
      (play Node.step .new reconnected.reverse).2.WellTold := by
  refine ⟨by decide +kernel, by decide +kernel, ?_⟩
  exact wellTold_of_orderly (run_play _ _ _) (by decide +kernel)

/-- A peer whose channel never opened is cleaned up; the first input first. -/
def unopened : List Input := [Input.reserve, .register, .cleanUp (some 0)] ++ handled 0 7 ++ [Input.task 0 true]

theorem unopened_told : ¬ ∀ (moves : List (Move Node Input)) (n : Node),
    Run Node.step .new moves n → n.WellTold := by
  intro h
  have halternates := (h _ _ (run_play Node.step .new unopened.reverse)).alternates
  have hnotices : (play Node.step .new unopened.reverse).2.notices = [.disconnected] := by decide +kernel
  rw [hnotices] at halternates
  cases halternates

end Mistlib.Transport.HostNotices
