import Mistlib.Browser.NodeEntries

/-!
# Trickled candidates of a node

A candidate that comes before the registered peer has a remote description waits in
`pending_candidates`, and the handler that settles a description drains the buffer. Whether it
is buffered depends on the node's connection state. `remember_received` marks it before that.

An answer that is delivered again with candidates of its own is left out, and a text that
`JSON.parse` rejects is no candidate.
-/

namespace Mistlib.Browser

def MAX_PENDING_CANDIDATES_PER_NODE : Nat := 64

def MAX_PENDING_CANDIDATE_NODES : Nat := 256

def MAX_TRACKED_CANDIDATES_PER_NODE : Nat := 64

def MAX_TRACKED_CANDIDATE_NODES : Nat := 256

/-- The payload of a candidate message. -/
inductive CandidateSignal where
  | envelope (generation sequence : Nat) (candidate : String)
  /-- The text of a candidate, from a remote without envelopes. -/
  | raw (candidate : String)
deriving DecidableEq, Repr

def CandidateSignal.isOf (generation : Nat) : CandidateSignal → Bool
  | .envelope g _ _ => g == generation
  | .raw _ => false

def isActiveForPending : Option ConnectionState → Bool
  | some .connecting | some .connected | some .reconnecting => true
  | _ => false

def shouldBufferCandidate (state : Option ConnectionState) (bufferEarlyCandidates : Bool) : Bool :=
  isActiveForPending state || (bufferEarlyCandidates && state.isNone)

def pushCandidate (list : List CandidateSignal) (c : CandidateSignal) : List CandidateSignal :=
  let list := list ++ [c]
  if MAX_PENDING_CANDIDATES_PER_NODE < list.length then list.drop 1 else list

/-! ## What a step does to the descriptions -/

/-- What the end of a wait tells of a peer's remote description. -/
inductive Effect where
  /-- A remote offer is set. -/
  | offered
  /-- The answer is set, and the candidates that wait are applied. -/
  | settled
  | rolledBack
deriving DecidableEq, Repr

namespace Call

def effect : Call → Outcome → Option (PeerId × Effect)
  | .applying peer .setRemoteOffer, .fulfilled
  | .answering peer _ .setRemoteOffer, .fulfilled => some (peer, .offered)
  | .applying peer .setLocal, .fulfilled
  | .answering peer _ .setLocal, .fulfilled => some (peer, .settled)
  | .applying peer .rollback, .fulfilled
  | .applying peer (.rollbackOffer _), .fulfilled => some (peer, .rolledBack)
  | _, _ => none

/-- The peer whose remote offer a call still has to answer or roll back. -/
def owes : Call → Option PeerId
  | .applying peer .createAnswer | .applying peer .setLocal | .applying peer .rollback
  | .answering peer _ .createAnswer | .answering peer _ .setLocal => some peer
  | _ => none

/-- The call returns in an error and leaves the remote offer where it is. -/
def abandons : Call → Outcome → Option PeerId
  | .applying peer .createAnswer, .malformed | .applying peer .setLocal, .malformed
  | .applying peer .rollback, .rejected _ | .applying peer .rollback, .malformed => some peer
  | _, _ => none

end Call

namespace Transport

def resumed (t : Transport) : Input → Option (Call × Outcome)
  | .resume i _ outcome => t.calls[i]?.map fun c => (c, outcome)
  | _ => none

def effect (t : Transport) (input : Input) : Option (PeerId × Effect) :=
  (t.resumed input).bind fun (c, outcome) => c.effect outcome

def abandons (t : Transport) (input : Input) : Option PeerId :=
  (t.resumed input).bind fun (c, outcome) => c.abandons outcome

/-- `handle_offer` has created the peer it builds in another's place. -/
def rebuilt (t : Transport) : Input → Bool
  | .resume i around outcome => t.rebuilds (.resume i around outcome) && around.created
  | _ => false

/-- The registered peer is the same before and after. -/
def keepsPeer (t t' : Transport) : Bool :=
  t.peers.isSome && t'.peers == t.peers && t'.registered == t.registered

end Transport

/-- The step clears the node's pending candidates. -/
def Node.clears (n : Node) : NodeInput → Bool
  | .call input => n.transport.cleansUp input
  | .iceStateChange peer ice _ => n.isCurrent peer && ice.terminal
  | .channelOpen _ _ => false
  | .channelClose peer channel => n.isCurrent peer && decide (channel ≠ .bulk)
  | .watchdog peer attemptId phase healthy =>
    decide (n.transport.connectionAttemptIds = some attemptId) && n.isCurrent peer &&
      shouldTimeout (n.transport.connectionStates.getD .disconnected) healthy phase
  | .sweep failing => n.transport.connectionStates.isSome && (n.transport.peers.isNone || failing)

/-- Of the clean-ups, only `onclose` leaves `candidate_delivery` alone. -/
def NodeInput.forgets : NodeInput → Bool
  | .channelClose _ _ => false
  | _ => true

/-! ## The candidates of a node -/

/-- What the registered peer has of the remote. -/
structure Remote where
  /-- Its current remote description is set. -/
  current : Bool
  /-- Its pending remote description is set. -/
  offered : Bool
  /-- The candidates passed to its `addIceCandidate`. -/
  passed : List CandidateSignal
deriving DecidableEq, Repr

def Remote.none : Remote where
  current := false
  offered := false
  passed := []

/-- A call for an answer of the node's. -/
inductive AnswerCall where
  | waiting (peer : PeerId)
  | setting (peer : PeerId)
  | rollingBack (peer : PeerId)
  | returned
deriving DecidableEq, Repr

structure Trickle where
  node : Node
  remote : Remote
  answers : List AnswerCall
  pending : List CandidateSignal
  /-- The sequences of each generation that were received. -/
  received : List (Nat × Nat)
  /-- What `remember_received` has reported as new. -/
  news : List CandidateSignal
deriving DecidableEq, Repr

inductive TrickleInput where
  | node (input : NodeInput)
  | answer
  /-- The lock is `fulfilled` if the answer is one to the peer's local offer. -/
  | resumeAnswer (call : Nat) (outcome : Outcome)
  /-- With how many keys the table of received candidates holds for all nodes, and
  how many nodes have candidates that wait. -/
  | candidate (c : CandidateSignal) (keys nodes : Nat)
deriving DecidableEq, Repr

namespace Trickle

def new : Trickle where
  node := .new
  remote := .none
  answers := []
  pending := []
  received := []
  news := []

/-- `remote_description` of the registered peer. -/
def hasRemote (s : Trickle) : Bool :=
  s.node.transport.peers.isSome && (s.remote.current || s.remote.offered)

/-- `apply_pending_candidates`, over a peer that may be a registered one no more. -/
def applyPendingCandidates (s : Trickle) (peer : PeerId) : Trickle :=
  { s with
    pending := []
    remote :=
      if s.node.isCurrent peer then { s.remote with passed := s.remote.passed ++ s.pending }
      else s.remote }

/-- The browser settles a peer's remote description. -/
def settle (s : Trickle) (peer : PeerId) : Trickle :=
  { s with
    remote := if s.node.isCurrent peer then { s.remote with current := true, offered := false } else s.remote }

def describe (s : Trickle) : PeerId × Effect → Trickle
  | (peer, .offered) =>
    { s with remote := if s.node.isCurrent peer then { s.remote with offered := true } else s.remote }
  | (peer, .settled) => (s.settle peer).applyPendingCandidates peer
  | (peer, .rolledBack) =>
    { s with remote := if s.node.isCurrent peer then { s.remote with offered := false } else s.remote }

/-- What an input tells of a peer's remote description. -/
def effect (s : Trickle) : NodeInput → Option (PeerId × Effect)
  | .call input => s.node.transport.effect input
  | _ => Option.none

def described (s : Trickle) (input : NodeInput) : Trickle := (s.effect input).elim s s.describe

def rebuilt (s : Trickle) : NodeInput → Bool
  | .call input => s.node.transport.rebuilt input
  | _ => false

/-- What the clean-up of a step leaves: a rebuilt peer takes the candidates over
that wait. -/
def clear (s : Trickle) (input : NodeInput) : Trickle :=
  if s.node.clears input then
    { s with
      pending := if s.rebuilt input then s.pending else []
      received := if input.forgets then [] else s.received }
  else s

def follow (s : Trickle) (node : Node) : Trickle :=
  { s with
    node
    remote := if s.node.transport.keepsPeer node.transport then s.remote else .none }

def remembers (s : Trickle) : CandidateSignal → Bool
  | .envelope generation sequence _ => decide ((generation, sequence) ∈ s.received)
  | .raw _ => false

/-- `remember_received` of a sequence that is not in the table. -/
def remember (s : Trickle) (c : CandidateSignal) (keys : Nat) : Trickle :=
  match c with
  | .envelope generation sequence _ =>
    let tracked := s.received.any fun entry => entry.1 == generation
    { s with
      news := c :: s.news
      received :=
        if sequence < MAX_TRACKED_CANDIDATES_PER_NODE ∧ (tracked ∨ keys < MAX_TRACKED_CANDIDATE_NODES) then
          (generation, sequence) :: s.received
        else s.received }
  | .raw _ => s

def bufferCandidateIfAllowed (s : Trickle) (bufferEarly : Bool) (c : CandidateSignal) (nodes : Nat) : Trickle :=
  if !shouldBufferCandidate s.node.transport.connectionStates bufferEarly then s
  else if s.pending = [] ∧ MAX_PENDING_CANDIDATE_NODES ≤ nodes then s
  else { s with pending := pushCandidate s.pending c }

def handleCandidatePayload (s : Trickle) (bufferEarly : Bool) (c : CandidateSignal) (nodes : Nat) : Trickle :=
  if s.hasRemote then { s with remote := { s.remote with passed := s.remote.passed ++ [c] } }
  else s.bufferCandidateIfAllowed bufferEarly c nodes

def handleCandidateSignal (s : Trickle) (bufferEarly : Bool) (c : CandidateSignal) (keys nodes : Nat) :
    Trickle :=
  if s.remembers c then s
  else (s.remember c keys).handleCandidatePayload bufferEarly c nodes

def answerTurn (s : Trickle) (outcome : Outcome) : AnswerCall → Option (Trickle × AnswerCall)
  | .waiting peer => some (s, if outcome = .fulfilled then .setting peer else .returned)
  | .setting peer =>
    if outcome = .fulfilled then some ((s.settle peer).applyPendingCandidates peer, .returned)
    else some (s, .rollingBack peer)
  | .rollingBack _ => some (s, .returned)
  | .returned => Option.none

/-- A step of the node's, with `buffer_early_ice_candidates` on. -/
def step (s : Trickle) : TrickleInput → Option Trickle
  | .node input =>
    (s.node.step input).map fun node => ((s.described input).clear input).follow node
  | .answer =>
    some { s with answers := s.answers ++ s.node.transport.peers.toList.map .waiting }
  | .resumeAnswer i outcome =>
    (s.answers[i]?.bind (s.answerTurn outcome)).map fun (after, call) =>
      { after with answers := s.answers.set i call }
  | .candidate c keys nodes => some (s.handleCandidateSignal true c keys nodes)

def Quiescent (s : Trickle) : Prop :=
  (∀ c ∈ s.node.transport.calls, c = .returned) ∧ ∀ c ∈ s.answers, c = .returned
deriving Decidable

end Trickle

/-! ## Calls that owe an answer -/

namespace Transport

variable {t t' : Transport} {around : Surroundings} {input : Input} {outcome : Outcome} {p : PeerId}

theorem buildForOffer_calls (t : Transport) (around : Surroundings) (epoch : Option Nat)
    (newlyReserved : Bool) : (t.buildForOffer around epoch newlyReserved).1.calls = t.calls := by
  unfold buildForOffer
  split
  · rfl
  · rfl

theorem connect_calls : (t.connect around).1.calls = t.calls := by
  unfold connect
  split
  · rfl
  · split
    · rfl
    · simp only
      split
      · rfl
      · rfl

theorem handleOffer_calls : (t.handleOffer around).1.calls = t.calls := by
  unfold handleOffer
  simp only
  split
  · rfl
  · rfl
  · exact buildForOffer_calls _ _ _ _
  · exact buildForOffer_calls _ _ _ _
  · exact buildForOffer_calls _ _ _ _
  · rfl

theorem rebuild_calls (peer : PeerId) : (t.rebuild around peer).1.calls = t.calls := by
  unfold rebuild
  split
  · exact buildForOffer_calls _ _ _ _
  · rfl

theorem resume_calls {c : Call} {turn : Turn} (h : t.resume around outcome c = some turn) :
    turn.1.calls = t.calls := by
  cases resume_cases h with
  | still _ _ | answered peer epoch _ | fails peer _ => rfl
  | rebuilds peer _ => exact rebuild_calls peer

theorem step_calls (hstep : t.step input = some t') :
    (t.resumed input = none ∧ ∃ more, t'.calls = t.calls ++ more) ∨
      ∃ i around outcome c turn, input = .resume i around outcome ∧ t.calls[i]? = some c ∧
        t.resume around outcome c = some turn ∧ t'.calls = t.calls.set i turn.2 ∧ t'.peers = turn.1.peers := by
  cases input with
  | connect around =>
    cases hstep
    exact .inl ⟨rfl, _, congrArg (· ++ _) connect_calls⟩
  | offer around =>
    cases hstep
    exact .inl ⟨rfl, _, congrArg (· ++ _) handleOffer_calls⟩
  | disconnect =>
    cases hstep
    exact .inl ⟨rfl, [], (List.append_nil _).symm⟩
  | rejoin epoch =>
    cases hstep
    refine .inl ⟨rfl, [], ?_⟩
    rw [(registered_rejoin epoch).2, List.append_nil]
  | resume i around outcome =>
    obtain ⟨turn, hturn, rfl⟩ := Option.map_eq_some_iff.mp hstep
    obtain ⟨c, hc, hresume⟩ := Option.bind_eq_some_iff.mp hturn
    refine .inr ⟨i, around, outcome, c, turn, rfl, hc, hresume, ?_, rfl⟩
    rw [setCall, resume_calls hresume]

theorem owes_of_resume {c : Call} {turn : Turn} (h : t.resume around outcome c = some turn)
    (howes : c.owes = some p) :
    turn.2.owes = some p ∨ c.effect outcome = some (p, .settled) ∨ c.effect outcome = some (p, .rolledBack) ∨
      c.abandons outcome = some p ∨ turn.1.peers = none := by
  cases c with
  | applying peer await =>
    cases await with
    | createAnswer =>
      cases howes
      cases outcome with
      | fulfilled | rejected roleError =>
        cases h
        exact .inl rfl
      | malformed => exact .inr (.inr (.inr (.inl rfl)))
    | setLocal =>
      cases howes
      cases outcome with
      | fulfilled => exact .inr (.inl rfl)
      | rejected roleError =>
        cases h
        exact .inl rfl
      | malformed => exact .inr (.inr (.inr (.inl rfl)))
    | rollback =>
      cases howes
      cases outcome with
      | fulfilled => exact .inr (.inr (.inl rfl))
      | rejected roleError | malformed => exact .inr (.inr (.inr (.inl rfl)))
    | _ => cases howes
  | answering peer epoch await =>
    cases await with
    | createAnswer =>
      cases howes
      cases outcome with
      | fulfilled =>
        cases h
        exact .inl rfl
      | _ =>
        cases h
        exact .inr (.inr (.inr (.inr rfl)))
    | setLocal =>
      cases howes
      cases outcome with
      | fulfilled => exact .inr (.inl rfl)
      | _ =>
        cases h
        exact .inr (.inr (.inr (.inr rfl)))
    | _ => cases howes
  | connecting peer await | offeringTracks peer await | returned => cases howes

theorem owes_of_step (hstep : t.step input = some t') (howes : ∃ c ∈ t.calls, c.owes = some p)
    (hpeers : t'.peers ≠ none) :
    (∃ c ∈ t'.calls, c.owes = some p) ∨ t.effect input = some (p, .settled) ∨
      t.effect input = some (p, .rolledBack) ∨ t.abandons input = some p := by
  rcases step_calls hstep with
    ⟨-, more, hcalls⟩ | ⟨i, around, outcome, c, turn, rfl, hc, hresume, hcalls, hturn⟩
  · obtain ⟨d, hd, howes⟩ := howes
    rw [hcalls]
    exact .inl ⟨d, List.mem_append_left _ hd, howes⟩
  · have heffect : t.effect (.resume i around outcome) = c.effect outcome := by
      simp [effect, resumed, hc]
    have habandons : t.abandons (.resume i around outcome) = c.abandons outcome := by
      simp [abandons, resumed, hc]
    rw [heffect, habandons, hcalls]
    by_cases hown : c.owes = some p
    · rcases owes_of_resume hresume hown with hgoes | hsettled | hback | habandoned | hnone
      · exact .inl (Calls.exists_self hc hgoes)
      · exact .inr (.inl hsettled)
      · exact .inr (.inr (.inl hback))
      · exact .inr (.inr (.inr habandoned))
      · exact absurd (hturn.trans hnone) hpeers
    · exact .inl (Calls.exists_set hc (fun howes => absurd howes hown) howes)

theorem owes_of_offered (hstep : t.step input = some t') (h : t.effect input = some (p, .offered)) :
    ∃ c ∈ t'.calls, c.owes = some p := by
  rcases step_calls hstep with
    ⟨hresumed, -⟩ | ⟨i, around, outcome, c, turn, rfl, hc, hresume, hcalls, -⟩
  · rw [effect, hresumed] at h
    cases h
  · have heffect : c.effect outcome = some (p, .offered) := by
      simpa [effect, resumed, hc] using h
    rw [hcalls]
    refine Calls.exists_self hc ?_
    unfold Call.effect at heffect
    split at heffect
    all_goals cases heffect
    all_goals cases hresume; rfl

theorem effect_of_rebuilds (h : t.rebuilds input = true) : t.effect input = none := by
  cases input with
  | resume i around outcome =>
    simp only [rebuilds] at h
    split at h
    · next peer await hc =>
      have hprogress := eq_of_beq (Bool.and_eq_true_iff.mp h).1
      have heffect : t.effect (.resume i around outcome) = (Call.applying peer await).effect outcome := by
        simp [effect, resumed, hc]
      rw [heffect]
      unfold applyOfferInPlace at hprogress
      split at hprogress
      all_goals cases hprogress
      rfl
    · cases h
  | _ => cases h

end Transport

namespace Node

variable {n n' : Node} {input : NodeInput}

/-- `handle_offer` puts a new peer in the place of the registered one. -/
def replacesPeer (n : Node) : NodeInput → Bool
  | .call (.offer around) => n.transport.cleansUp (.offer around)
  | .call (.resume i around outcome) => n.transport.rebuilds (.resume i around outcome)
  | _ => false

def displaces (n : Node) : NodeInput → Bool
  | .call input => n.transport.displaces input
  | _ => false

theorem tellIfAnnounced_peers (n : Node) (peer : PeerId) :
    (n.tellIfAnnounced peer).transport.peers = n.transport.peers := by
  unfold tellIfAnnounced
  split
  · rfl
  · rfl

/-- What a step does to the node's peer: a callback, a watchdog or the sweeper
leaves it or clears the node, and begins no call. -/
inductive Does (n : Node) : NodeInput → Node → Prop
  | call {input : Input} {n' : Node} (hstep : n.transport.step input = some n'.transport) :
      Does n (.call input) n'
  | still {input : NodeInput} {n' : Node} (hother : ∀ call, input ≠ .call call)
      (hpeers : n'.transport.peers = n.transport.peers)
      (hregistered : n'.transport.registered = n.transport.registered)
      (hcalls : n'.transport.calls = n.transport.calls) : Does n input n'
  | ends {input : NodeInput} {n' : Node} (hother : ∀ call, input ≠ .call call)
      (hclears : n.clears input = true) (hpeers : n'.transport.peers = none) : Does n input n'

/-- What a step does to the node's peer. -/
theorem step_does (hstep : n.step input = some n') : n.Does input n' := by
  cases input with
  | call input =>
    obtain ⟨t, hcall, rfl⟩ := Option.map_eq_some_iff.mp hstep
    exact .call hcall
  | iceStateChange peer ice hasOpenChannel =>
    cases hstep
    split
    · next hcurrent =>
      unfold onIceStateChange
      split
      · exact .still nofun rfl rfl rfl
      · simp only
        split
        · next hterminal => exact .ends nofun (Bool.and_eq_true_iff.mpr ⟨hcurrent, hterminal⟩) rfl
        · exact .still nofun rfl rfl rfl
    · exact .still nofun rfl rfl rfl
  | channelOpen peer channel =>
    cases hstep
    split
    · unfold onOpen
      simp only
      split
      · exact .still nofun rfl rfl rfl
      · exact .still nofun rfl rfl rfl
    · exact .still nofun rfl rfl rfl
  | channelClose peer channel =>
    cases hstep
    split
    · next hclose =>
      exact .ends nofun (Bool.and_eq_true_iff.mpr ⟨hclose.2, decide_eq_true hclose.1⟩) rfl
    · exact .still nofun rfl rfl rfl
  | watchdog peer attemptId phase healthy =>
    cases hstep
    split
    · next hfires =>
      refine .ends nofun ?_ (tellIfAnnounced_peers _ peer)
      simp only [clears, hfires.1, hfires.2.1, hfires.2.2, decide_true, Bool.and_self]
    · exact .still nofun rfl rfl rfl
  | sweep failing =>
    cases hstep
    unfold sweep
    split
    · exact .still nofun rfl rfl rfl
    · next hstate =>
      split
      · exact .still nofun rfl rfl rfl
      · next peer hpeer =>
        split
        · next hfailing =>
          refine .ends nofun ?_ (tellIfAnnounced_peers _ peer)
          rw [clears, Option.isSome_iff_ne_none.mpr hstate, hfailing, Bool.or_true]
          rfl
        · exact .still nofun rfl rfl rfl

/-- A step keeps the peer unless it clears or displaces it. -/
theorem step_keepsPeer (hstep : n.step input = some n') :
    n.transport.keepsPeer n'.transport = true ∨ n.transport.peers = none ∨ n.clears input = true ∨
      n.displaces input = true := by
  have hsame : n'.transport.peers = n.transport.peers →
      n'.transport.registered = n.transport.registered →
      n.transport.keepsPeer n'.transport = true ∨ n.transport.peers = none ∨ n.clears input = true ∨
        n.displaces input = true := by
    intro hpeers hregistered
    cases hpeer : n.transport.peers with
    | none => exact .inr (.inl rfl)
    | some peer =>
      refine .inl ?_
      rw [Transport.keepsPeer, hpeers, hregistered, hpeer]
      simp
  cases step_does hstep with
  | call hcall =>
    cases Transport.step_does hcall with
    | same hpeers _ _ hregistered => exact hsame hpeers hregistered
    | cleans hcleans => exact .inr (.inr (.inl hcleans))
    | reserves _ _ _ _ hpeers =>
      rcases hpeers with ⟨-, -, hnone | hdisplaces⟩ | ⟨hpeers, hregistered, -⟩
      · exact .inr (.inl hnone)
      · exact .inr (.inr (.inr hdisplaces))
      · exact hsame hpeers hregistered
    | builds _ _ hstates _ =>
      rcases hstates with ⟨-, hnone⟩ | ⟨-, hcleans⟩
      · exact .inr (.inl hnone)
      · exact .inr (.inr (.inl hcleans))
  | still _ hpeers hregistered _ => exact hsame hpeers hregistered
  | ends _ hclears _ => exact .inr (.inr (.inl hclears))

end Node

/-! ## A generation of candidates -/

namespace Trickle

def Without (generation : Nat) (list : List CandidateSignal) : Prop := ∀ c ∈ list, c.isOf generation = false

instance (generation : Nat) (list : List CandidateSignal) : Decidable (Without generation list) :=
  List.decidableBAll (fun c : CandidateSignal => c.isOf generation = false) list

/-- The candidate is pushed to those that wait. -/
def pushes (s : Trickle) (c : CandidateSignal) : Bool :=
  !s.remembers c && !s.hasRemote && shouldBufferCandidate s.node.transport.connectionStates true

/-- Once candidates of the generation have come, the node is not cleaned up but
by `handle_offer` for a peer it replaces, and there is room for what is buffered. -/
def Within (generation : Nat) (s : Trickle) : TrickleInput → Prop
  | .node input =>
    s.node.clears input = true → s.node.replacesPeer input = true ∨ Without generation s.news
  | .candidate c _ nodes =>
    s.pushes c = true → s.pending.length < MAX_PENDING_CANDIDATES_PER_NODE ∧
      (s.pending = [] → nodes < MAX_PENDING_CANDIDATE_NODES)
  | _ => True

instance (generation : Nat) (s : Trickle) : DecidablePred (Within generation s)
  | .node _ | .candidate _ _ _ => inferInstanceAs (Decidable (_ → _))
  | .answer | .resumeAnswer _ _ => .isTrue trivial

/-- The peer to which a step applies the candidates that wait. -/
def drains (s : Trickle) : TrickleInput → Option PeerId
  | .node input => (s.effect input).bind fun effect => if effect.2 = .settled then some effect.1 else Option.none
  | .resumeAnswer i outcome =>
    s.answers[i]?.bind fun
      | .setting peer => if outcome = .fulfilled then some peer else Option.none
      | _ => Option.none
  | _ => Option.none

/-- The peer whose remote offer a step leaves unanswered for good. -/
def abandons (s : Trickle) : TrickleInput → Option PeerId
  | .node (.call input) => s.node.transport.abandons input
  | _ => Option.none

/-- The candidates that wait are applied to the registered peer, and it is not
left with an offer while some wait. -/
def Applies (generation : Nat) (s : Trickle) (input : TrickleInput) : Prop :=
  (∀ peer ∈ s.drains input, s.node.isCurrent peer = false → Without generation s.pending) ∧
    ∀ peer ∈ s.abandons input, s.node.isCurrent peer = true → s.remote.offered = true →
      Without generation s.pending
deriving Decidable

/-- A peer is replaced before candidates come, or rebuilt or displaced while none
of them was passed to it. -/
def Retains (generation : Nat) (s : Trickle) (input : NodeInput) : Prop :=
  (s.node.replacesPeer input = true →
      Without generation s.news ∨ s.rebuilt input = true ∧ Without generation s.remote.passed) ∧
    (s.node.displaces input = true → Without generation s.remote.passed)
deriving Decidable

/-- A candidate that came before is remembered, and a new one meets a remote
description or a state in which it is buffered. -/
def Welcome (generation : Nat) (s : Trickle) (c : CandidateSignal) : Prop :=
  c.isOf generation = true → (c ∈ s.news → s.remembers c = true) ∧
    (s.remembers c = true ∨ s.hasRemote = true ∨
      shouldBufferCandidate s.node.transport.connectionStates true = true)
deriving Decidable

def Kept (generation : Nat) (s : Trickle) (input : TrickleInput) : Prop :=
  s.Applies generation input ∧
    match input with
    | .node input => s.Retains generation input
    | .candidate c _ _ => s.Welcome generation c
    | _ => True

instance (generation : Nat) (s : Trickle) : DecidablePred (Kept generation s)
  | .node _ | .candidate _ _ _ => inferInstanceAs (Decidable (_ ∧ _))
  | .answer | .resumeAnswer _ _ => inferInstanceAs (Decidable (_ ∧ True))

/-- A call owes the registered peer's offer an answer. -/
def Owed (s : Trickle) (calls : List Call) : Prop :=
  ∃ peer, s.node.transport.peers = some peer ∧ ∃ c ∈ calls, c.owes = some peer

/-- Each candidate that is new waits or was passed to the registered peer. -/
structure Tallied (generation : Nat) (s : Trickle) : Prop where
  once : ∀ c, c.isOf generation = true → s.news.count c ≤ 1
  parted : ∀ c, c.isOf generation = true →
    s.news.count c = s.pending.count c + s.remote.passed.count c
  current : s.remote.current = true → Without generation s.pending
  idle : s.node.transport.peers = Option.none → s.remote = .none

structure Sound (generation : Nat) (s : Trickle) : Prop extends Tallied generation s where
  offered : s.remote.offered = true → Without generation s.pending ∨ s.Owed s.node.transport.calls

variable {generation : Nat} {s s' : Trickle} {input : NodeInput} {c d : CandidateSignal}
  {list : List CandidateSignal} {peer : PeerId} {node : Node}

theorem count_of_without (h : Without generation list) (hc : c.isOf generation = true) : list.count c = 0 := by
  refine List.count_eq_zero.mpr fun hmem => ?_
  rw [h c hmem] at hc
  cases hc

theorem without_of_count (h : ∀ c, c.isOf generation = true → list.count c = 0) : Without generation list := by
  intro c hc
  cases hof : c.isOf generation with
  | false => rfl
  | true => exact absurd hc (List.count_eq_zero.mp (h c hof))

theorem without_nil : Without generation [] := nofun

namespace Tallied

section

variable (h : Tallied generation s)
include h

theorem passed_of_news (hnews : Without generation s.news) :
    Without generation s.remote.passed := by
  refine without_of_count fun c hc => ?_
  have hparted := h.parted c hc
  rw [count_of_without hnews hc] at hparted
  omega

theorem describes (current offered : Bool)
    (hcurrent : current = true → Without generation s.pending)
    (hpeer : s.node.transport.peers ≠ Option.none) :
    Tallied generation { s with remote := { s.remote with current, offered } } where
  once := h.once
  parted := h.parted
  current := hcurrent
  idle := fun hnone => absurd hnone hpeer

theorem settled (hstale : s.node.isCurrent peer = false → Without generation s.pending) :
    Tallied generation (s.describe (peer, .settled)) := by
  unfold describe
  cases hcurrent : s.node.isCurrent peer with
  | false =>
    have hpending := hstale hcurrent
    refine ⟨h.once, fun c hc => ?_, fun _ => without_nil, ?_⟩
    · have hparted := h.parted c hc
      rw [count_of_without hpending hc] at hparted
      simpa [applyPendingCandidates, settle, hcurrent] using hparted
    · simpa [applyPendingCandidates, settle, hcurrent] using h.idle
  | true =>
    refine ⟨h.once, fun c hc => ?_, fun _ => without_nil, ?_⟩
    · have hparted := h.parted c hc
      simp only [applyPendingCandidates, settle, hcurrent, if_true, List.count_append, List.count_nil]
      omega
    · intro hnone
      have hpeer : s.node.transport.peers = some peer := eq_of_beq hcurrent
      cases hpeer.symm.trans hnone

theorem describe (effect : PeerId × Effect)
    (hstale : effect.2 = .settled → s.node.isCurrent effect.1 = false → Without generation s.pending) :
    Tallied generation (s.describe effect) := by
  obtain ⟨peer, effect⟩ := effect
  have hregistered : s.node.isCurrent peer = true → s.node.transport.peers ≠ Option.none := by
    intro hcurrent hnone
    have hpeer : s.node.transport.peers = some peer := eq_of_beq hcurrent
    cases hpeer.symm.trans hnone
  cases effect with
  | settled => exact h.settled (hstale rfl)
  | offered =>
    unfold Trickle.describe
    simp only
    split
    · next hcurrent => exact h.describes _ true h.current (hregistered hcurrent)
    · exact h
  | rolledBack =>
    unfold Trickle.describe
    simp only
    split
    · next hcurrent => exact h.describes _ false h.current (hregistered hcurrent)
    · exact h

theorem clear
    (hclears : s.node.clears input = true → s.rebuilt input = true ∨ Without generation s.news) :
    Tallied generation (s.clear input) := by
  unfold Trickle.clear
  split
  · next hcleared =>
    cases hrebuilt : s.rebuilt input with
    | true => exact { h with }
    | false =>
      have hnews : Without generation s.news := by
        refine (hclears hcleared).resolve_left ?_
        rw [hrebuilt]
        nofun
      refine ⟨h.once, fun c hc => ?_, fun _ => without_nil, h.idle⟩
      rw [count_of_without hnews hc, count_of_without (h.passed_of_news hnews) hc]
      rfl
  · exact h

theorem follow (node : Node)
    (hlost : s.node.transport.keepsPeer node.transport = false → Without generation s.remote.passed) :
    Tallied generation (s.follow node) := by
  unfold Trickle.follow
  cases hkeeps : s.node.transport.keepsPeer node.transport with
  | true =>
    refine ⟨h.once, h.parted, h.current, fun hnone => ?_⟩
    simp only [Transport.keepsPeer, Bool.and_eq_true, beq_iff_eq] at hkeeps
    rw [← hkeeps.1.2] at hkeeps
    rw [show node.transport.peers = Option.none from hnone] at hkeeps
    cases hkeeps.1.1
  | false =>
    refine ⟨h.once, fun c hc => ?_, nofun, fun _ => rfl⟩
    have hparted := h.parted c hc
    rw [count_of_without (hlost hkeeps) hc] at hparted
    exact hparted

end

end Tallied

theorem count_remember (s : Trickle) (c : CandidateSignal) (keys : Nat) (hd : d.isOf generation = true) :
    (s.remember c keys).news.count d = s.news.count d + [c].count d := by
  cases c with
  | envelope g sequence text =>
    show ((CandidateSignal.envelope g sequence text) :: s.news).count d = _
    rw [← List.singleton_append, List.count_append, Nat.add_comm]
  | raw text =>
    have hne : d ≠ .raw text := by
      rintro rfl
      cases hd
    have hcount : [CandidateSignal.raw text].count d = 0 := List.count_eq_zero.mpr (by simpa using hne)
    rw [hcount]
    rfl

theorem remember_rest (s : Trickle) (c : CandidateSignal) (keys : Nat) :
    (s.remember c keys).node = s.node ∧ (s.remember c keys).remote = s.remote ∧
      (s.remember c keys).pending = s.pending := by
  cases c with
  | envelope g sequence text | raw text => exact ⟨rfl, rfl, rfl⟩

theorem Owed.step (howed : s.Owed s.node.transport.calls) (hstep : s.node.step input = some node)
    (hsame : node.transport.peers = s.node.transport.peers) :
    s.Owed node.transport.calls ∨ ∃ peer, s.node.isCurrent peer = true ∧
      (s.effect input = some (peer, .settled) ∨ s.effect input = some (peer, .rolledBack) ∨
        s.abandons (.node input) = some peer) := by
  obtain ⟨peer, hpeer, howes⟩ := howed
  have hleft : node.transport.peers ≠ Option.none := by
    rw [hsame, hpeer]
    nofun
  cases Node.step_does hstep with
  | call hcall =>
    rcases Transport.owes_of_step hcall howes hleft with hstill | hpaid
    · exact .inl ⟨peer, hpeer, hstill⟩
    · exact .inr ⟨peer, beq_iff_eq.mpr hpeer, hpaid⟩
  | still _ _ _ hcalls =>
    rw [hcalls]
    exact .inl ⟨peer, hpeer, howes⟩
  | ends _ _ hnone => exact absurd hnone hleft

theorem described_rest (s : Trickle) (input : NodeInput) :
    (s.described input).node = s.node ∧ (s.described input).news = s.news := by
  unfold described
  cases s.effect input with
  | none => exact ⟨rfl, rfl⟩
  | some effect =>
    obtain ⟨peer, effect⟩ := effect
    cases effect with
    | _ => exact ⟨rfl, rfl⟩

theorem described_of_rebuilt (h : s.rebuilt input = true) : s.described input = s := by
  cases input with
  | call input =>
    have hrebuilds : s.node.transport.rebuilds input = true := by
      cases input with
      | resume i around outcome => exact (Bool.and_eq_true_iff.mp h).1
      | _ => cases h
    have heffect : s.effect (.call input) = Option.none := Transport.effect_of_rebuilds hrebuilds
    rw [described, heffect]
    rfl
  | _ => cases h

theorem described_of_displaces (h : s.node.displaces input = true) : s.described input = s := by
  cases input with
  | call input =>
    cases input with
    | connect around => rfl
    | _ => cases h
  | _ => cases h

theorem clear_rest (s : Trickle) (input : NodeInput) :
    (s.clear input).node = s.node ∧ (s.clear input).remote = s.remote ∧
      ∀ c ∈ (s.clear input).pending, c ∈ s.pending := by
  unfold clear
  split
  · refine ⟨rfl, rfl, fun c hc => ?_⟩
    simp only at hc
    split at hc
    · exact hc
    · cases hc
  · exact ⟨rfl, rfl, fun _ hc => hc⟩

namespace Sound

theorem new (generation : Nat) : Sound generation .new where
  once := fun _ _ => Nat.zero_le _
  parted := fun _ _ => rfl
  current := nofun
  idle := fun _ => rfl
  offered := nofun

theorem bare (h : Sound generation s) (hnone : s.hasRemote = false) :
    s.remote.current = false ∧ s.remote.offered = false := by
  cases hpeer : s.node.transport.peers with
  | none =>
    rw [h.idle hpeer]
    exact ⟨rfl, rfl⟩
  | some peer =>
    rw [hasRemote, hpeer] at hnone
    exact Bool.or_eq_false_iff.mp hnone

theorem described (h : Sound generation s) (hkept : Kept generation s (.node input)) :
    Tallied generation (s.described input) := by
  unfold Trickle.described
  cases heffect : s.effect input with
  | none => exact h.toTallied
  | some effect =>
    refine h.toTallied.describe effect fun hsettled => hkept.1.1 effect.1 ?_
    simp [drains, heffect, hsettled]

theorem clears_cases (hwithin : Within generation s (.node input)) (hkept : Kept generation s (.node input))
    (hclears : s.node.clears input = true) :
    Without generation s.news ∨ s.rebuilt input = true ∧ Without generation s.remote.passed := by
  rcases hwithin hclears with hreplaces | hnews
  · exact hkept.2.1 hreplaces
  · exact .inl hnews

section

variable (h : Sound generation s)
include h

theorem lost (hwithin : Within generation s (.node input)) (hkept : Kept generation s (.node input))
    (hstep : s.node.step input = some node)
    (hgone : s.node.transport.keepsPeer node.transport = false) :
    Without generation (s.described input).remote.passed := by
  have hdescribed := h.described hkept
  rcases Node.step_keepsPeer hstep with hkeeps | hnone | hclears | hdisplaces
  · rw [hkeeps] at hgone
    cases hgone
  · rw [hdescribed.idle ((described_rest s input).1 ▸ hnone)]
    exact without_nil
  · rcases clears_cases hwithin hkept hclears with hnews | ⟨hrebuilt, hpassed⟩
    · exact hdescribed.passed_of_news ((described_rest s input).2 ▸ hnews)
    · rw [described_of_rebuilt hrebuilt]
      exact hpassed
  · rw [described_of_displaces hdisplaces]
    exact hkept.2.2 hdisplaces

theorem offered_described (hkept : Kept generation s (.node input))
    (hstep : s.node.step input = some node) (hsame : node.transport.peers = s.node.transport.peers)
    (hoffered : (s.described input).remote.offered = true) :
    Without generation (s.described input).pending ∨ s.Owed node.transport.calls := by
  have hold : s.remote.offered = true → Without generation s.pending ∨ s.Owed node.transport.calls ∨
      ∃ peer, s.node.isCurrent peer = true ∧
        (s.effect input = some (peer, .settled) ∨ s.effect input = some (peer, .rolledBack)) := by
    intro hold
    rcases h.offered hold with hpending | howed
    · exact .inl hpending
    · rcases howed.step hstep hsame with hstill | ⟨peer, hcurrent, hsettled | hback | habandons⟩
      · exact .inr (.inl hstill)
      · exact .inr (.inr ⟨peer, hcurrent, .inl hsettled⟩)
      · exact .inr (.inr ⟨peer, hcurrent, .inr hback⟩)
      · exact .inl (hkept.1.2 peer habandons hcurrent hold)
  unfold Trickle.described at hoffered ⊢
  cases heffect : s.effect input with
  | none =>
    rw [heffect] at hoffered hold
    rcases hold hoffered with hpending | howed | ⟨peer, -, hpaid | hpaid⟩
    · exact .inl hpending
    · exact .inr howed
    · cases hpaid
    · cases hpaid
  | some effect =>
    obtain ⟨peer, effect⟩ := effect
    rw [heffect] at hoffered hold
    simp only [Option.elim_some] at hoffered ⊢
    cases effect with
    | settled => exact .inl without_nil
    | offered =>
      cases hcurrent : s.node.isCurrent peer with
      | true =>
        refine .inr ⟨peer, eq_of_beq hcurrent, ?_⟩
        cases input with
        | call input =>
          obtain ⟨t, hcall, rfl⟩ := Option.map_eq_some_iff.mp hstep
          exact Transport.owes_of_offered hcall heffect
        | _ => cases heffect
      | false =>
        simp only [describe, hcurrent] at hoffered ⊢
        rcases hold hoffered with hpending | howed | ⟨other, -, hpaid | hpaid⟩
        · exact .inl hpending
        · exact .inr howed
        · cases hpaid
        · cases hpaid
    | rolledBack =>
      cases hcurrent : s.node.isCurrent peer with
      | true =>
        simp only [describe, hcurrent] at hoffered
        cases hoffered
      | false =>
        simp only [describe, hcurrent] at hoffered ⊢
        rcases hold hoffered with hpending | howed | ⟨other, hother, hpaid | hpaid⟩
        · exact .inl hpending
        · exact .inr howed
        · cases hpaid
        · cases hpaid
          rw [hother] at hcurrent
          cases hcurrent

/-- A step of the node keeps the account of the candidates. -/
theorem nodeStep (hwithin : Within generation s (.node input))
    (hkept : Kept generation s (.node input)) (hstep : s.step (.node input) = some s') :
    Sound generation s' := by
  obtain ⟨node, hnode, rfl⟩ := Option.map_eq_some_iff.mp hstep
  have hrest := described_rest s input
  have hcleared : Tallied generation ((s.described input).clear input) := by
    refine (h.described hkept).clear fun hclears => ?_
    rw [hrest.1] at hclears
    rcases clears_cases hwithin hkept hclears with hnews | ⟨hrebuilt, -⟩
    · exact .inr (hrest.2 ▸ hnews)
    · exact .inl ((described_of_rebuilt hrebuilt).symm ▸ hrebuilt)
  obtain ⟨hnode', hremote, hpending⟩ := clear_rest (s.described input) input
  refine ⟨hcleared.follow node fun hgone => ?_, fun hoffered => ?_⟩
  · rw [hremote]
    rw [hnode', hrest.1] at hgone
    exact h.lost hwithin hkept hnode hgone
  · cases hkeeps : s.node.transport.keepsPeer node.transport with
    | false =>
      simp only [follow, hnode', hrest.1, hkeeps] at hoffered
      cases hoffered
    | true =>
      simp only [follow, hnode', hrest.1, hkeeps, if_true, hremote] at hoffered
      simp only [Transport.keepsPeer, Bool.and_eq_true, beq_iff_eq] at hkeeps
      rcases h.offered_described hkept hnode hkeeps.1.2 hoffered with hnone | ⟨peer, hpeer, howes⟩
      · exact .inl fun c hc => hnone c (hpending c hc)
      · exact .inr ⟨peer, hkeeps.1.2.trans hpeer, howes⟩

theorem remember (hnew : c.isOf generation = true → c ∉ s.news) (keys : Nat)
    (pending : List CandidateSignal) (remote : Remote)
    (hcurrent : remote.current = s.remote.current) (hoffered : remote.offered = s.remote.offered)
    (hnone : s.node.transport.peers = Option.none → remote = .none)
    (hparted : ∀ d, d.isOf generation = true →
      pending.count d + remote.passed.count d = s.pending.count d + s.remote.passed.count d + [c].count d)
    (hwaits : s.hasRemote = true → pending = s.pending) :
    Sound generation { s.remember c keys with pending, remote } := by
  obtain ⟨hnode, -, -⟩ := remember_rest s c keys
  have hwithout : s.remote.current = true ∨ s.remote.offered = true → pending = s.pending := by
    intro hdescribed
    refine hwaits (Bool.eq_false_or_eq_true _ |>.resolve_right fun hnone => ?_)
    obtain ⟨hcurrent, hoffered⟩ := h.bare hnone
    rw [hcurrent, hoffered] at hdescribed
    exact hdescribed.elim nofun nofun
  refine ⟨⟨fun d hd => ?_, fun d hd => ?_, fun hset => ?_, ?_⟩, fun hset => ?_⟩
  · rw [count_remember s c keys hd]
    by_cases heq : d = c
    · subst heq
      rw [List.count_eq_zero.mpr (hnew hd)]
      simp
    · have hother : [c].count d = 0 := List.count_eq_zero.mpr (by simpa using heq)
      rw [hother]
      exact h.once d hd
  · rw [count_remember s c keys hd, h.parted d hd]
    exact (hparted d hd).symm
  · have hset : s.remote.current = true := hcurrent.symm.trans hset
    rw [hwithout (.inl hset)]
    exact h.current hset
  · simp only [hnode]
    exact hnone
  · have hset : s.remote.offered = true := hoffered.symm.trans hset
    simp only [Owed, hnode, hwithout (.inr hset)]
    exact h.offered hset

/-- A candidate that comes keeps the account. -/
theorem candidateStep {keys nodes : Nat} (hwithin : Within generation s (.candidate c keys nodes))
    (hkept : Kept generation s (.candidate c keys nodes)) :
    Sound generation (s.handleCandidateSignal true c keys nodes) := by
  unfold handleCandidateSignal
  split
  · exact h
  · next hnot =>
    have hnot : s.remembers c = false := Bool.eq_false_iff.mpr hnot
    obtain ⟨hnode, hremote, hpending⟩ := remember_rest s c keys
    have hnew : c.isOf generation = true → c ∉ s.news := by
      intro hof hold
      have hremembers := (hkept.2 hof).1 hold
      rw [hnot] at hremembers
      cases hremembers
    have hsame : (s.remember c keys).hasRemote = s.hasRemote := by
      rw [hasRemote, hnode, hremote]
      rfl
    unfold handleCandidatePayload
    rw [hsame]
    split
    · next hhas =>
      have hpeers : s.node.transport.peers ≠ Option.none := by
        intro hnone
        rw [hasRemote, hnone] at hhas
        cases hhas
      have hpassed := h.remember hnew keys s.pending
        { s.remote with passed := s.remote.passed ++ [c] } rfl rfl
        (fun hnone => absurd hnone hpeers)
        (fun d _ => by simp only [List.count_append]; omega) (fun _ => rfl)
      rw [hremote]
      exact hpending.symm ▸ hpassed
    · next hhas =>
      have hhas : s.hasRemote = false := Bool.eq_false_iff.mpr hhas
      have hwaits : s.hasRemote = true → s.pending ++ [c] = s.pending := by
        rw [hhas]
        nofun
      unfold bufferCandidateIfAllowed
      rw [hnode, hpending]
      cases hbuffers : shouldBufferCandidate s.node.transport.connectionStates true with
      | false =>
        have hother : c.isOf generation = false := by
          cases hof : c.isOf generation with
          | false => rfl
          | true =>
            have hwelcome := (hkept.2 hof).2
            rw [hnot, hhas, hbuffers] at hwelcome
            exact hwelcome.elim nofun (Or.elim · nofun nofun)
        have hdropped := h.remember hnew keys s.pending s.remote rfl rfl h.idle
          (fun d hd => by
            have hne : [c].count d = 0 := by
              refine List.count_eq_zero.mpr fun hmem => ?_
              rw [List.mem_singleton.mp hmem, hother] at hd
              cases hd
            rw [hne, Nat.add_zero])
          (fun _ => rfl)
        rw [← hpending, ← hremote] at hdropped
        exact hdropped
      | true =>
        have hpushes : s.pushes c = true := by
          rw [pushes, hnot, hhas, hbuffers]
          rfl
        obtain ⟨hroom, hnodes⟩ := hwithin hpushes
        rw [if_neg (by simp), if_neg fun hrefused => absurd (hnodes hrefused.1) (Nat.not_lt.mpr hrefused.2)]
        have hpushed : pushCandidate s.pending c = s.pending ++ [c] := by
          simp only [pushCandidate, List.length_append, List.length_singleton]
          exact if_neg (Nat.not_lt.mpr hroom)
        have hbuffered := h.remember hnew keys (s.pending ++ [c]) s.remote rfl rfl h.idle
          (fun d _ => by rw [List.count_append]; omega) hwaits
        rw [← hremote] at hbuffered
        rw [hpushed, ← hnode]
        exact hbuffered

theorem settle {peer : PeerId}
    (hstale : s.node.isCurrent peer = false → Without generation s.pending) :
    Sound generation ((s.settle peer).applyPendingCandidates peer) :=
  ⟨h.toTallied.settled hstale, fun _ => .inl without_nil⟩

theorem withAnswers (answers : List AnswerCall) : Sound generation { s with answers } :=
  ⟨{ h with }, h.offered⟩

/-- A step within the generation keeps the account of its candidates. -/
theorem step {input : TrickleInput} (hwithin : Within generation s input)
    (hkept : Kept generation s input) (hstep : s.step input = some s') : Sound generation s' := by
  cases input with
  | node input => exact h.nodeStep hwithin hkept hstep
  | answer =>
    cases hstep
    exact h.withAnswers _
  | resumeAnswer i outcome =>
    obtain ⟨turn, hturn, rfl⟩ := Option.map_eq_some_iff.mp hstep
    obtain ⟨call, hcall, hturn⟩ := Option.bind_eq_some_iff.mp hturn
    refine withAnswers ?_ _
    cases call with
    | waiting peer | rollingBack peer =>
      cases hturn
      exact h
    | setting peer =>
      simp only [answerTurn] at hturn
      split at hturn
      · next hfulfilled =>
        cases hturn
        refine h.settle fun hstale => hkept.1.1 peer ?_ hstale
        simp [drains, hcall, hfulfilled]
      · cases hturn
        exact h
    | returned => cases hturn
  | candidate c keys nodes =>
    cases hstep
    exact h.candidateStep hwithin hkept

end

end Sound

end Trickle

open Reactive Trickle

/-- In a run whose steps all keep the generation's candidates, each one that was
new has been passed once to the registered peer, where that has its remote
description and all handlers have returned. -/
theorem passedOnce_of_kept (generation : Nat) {moves : List (Move Trickle TrickleInput)} {s : Trickle}
    (run : Run Trickle.step .new moves s)
    (hwithin : ∀ m ∈ moves, Within generation m.before m.input)
    (hkept : ∀ m ∈ moves, Kept generation m.before m.input)
    (hquiescent : s.Quiescent) (hremote : s.hasRemote = true) :
    ∀ c ∈ s.news, c.isOf generation = true → s.remote.passed.count c = 1 := by
  have hsound : Sound generation s := by
    refine run.keepsUnder (P := Sound generation)
      (C := fun s input => Within generation s input ∧ Kept generation s input) (.new generation) ?_
      fun m hm => ⟨hwithin m hm, hkept m hm⟩
    exact fun s input s' hs hin hstep => hs.step hin.1 hin.2 hstep
  have hpending : Without generation s.pending := by
    rcases Bool.or_eq_true_iff.mp (Bool.and_eq_true_iff.mp hremote).2 with hcurrent | hoffered
    · exact hsound.current hcurrent
    · rcases hsound.offered hoffered with hnone | ⟨peer, -, c, hc, howes⟩
      · exact hnone
      · rw [hquiescent.1 c hc] at howes
        cases howes
  intro c hc hof
  have hpositive := List.count_pos_iff.mpr hc
  have honce := hsound.once c hof
  have hparted := hsound.parted c hof
  rw [count_of_without hpending hof] at hparted
  omega

/-! ### Before the answer and after a rejoin -/

section Runs

/-- An attempt whose answer comes between two candidates, the first of which comes
twice; the latest input first. -/
def trickledAroundAnswer : List TrickleInput :=
  [.candidate (.envelope 7 1 "b") 1 0, .resumeAnswer 0 .fulfilled, .candidate (.envelope 7 0 "a") 1 1,
    .resumeAnswer 0 .fulfilled, .answer, .candidate (.envelope 7 0 "a") 0 0,
    .node (.call (.resume 0 calm .fulfilled)), .node (.call (.resume 0 calm .fulfilled)),
    .node (.call (.resume 0 calm .fulfilled)), .node (.call (.resume 0 calm .fulfilled)),
    .node (.call (.connect calm))]

theorem trickledAroundAnswer_passedOnce :
    (play Trickle.step .new trickledAroundAnswer).1.length = 11 ∧
      (play Trickle.step .new trickledAroundAnswer).2.news = [.envelope 7 1 "b", .envelope 7 0 "a"] ∧
      ∀ c ∈ (play Trickle.step .new trickledAroundAnswer).2.news, c.isOf 7 = true →
        (play Trickle.step .new trickledAroundAnswer).2.remote.passed.count c = 1 :=
  ⟨by decide, by decide, passedOnce_of_kept 7 (run_play Trickle.step .new trickledAroundAnswer) (by decide)
    (by decide) (by decide) (by decide)⟩

/-- A node rejoins, and its first candidate comes while its offer is set over the
peer built for it, and once more when all is done. -/
def trickledIntoOffer : List TrickleInput :=
  [.candidate (.envelope 7 0 "a") 1 0,
    .node (.call (.resume 0 calm .fulfilled)), .node (.call (.resume 0 calm .fulfilled)),
    .node (.call (.resume 0 calm .fulfilled)), .node (.call (.resume 0 calm .fulfilled)),
    .candidate (.envelope 7 0 "a") 0 0, .node (.call (.resume 0 calm .fulfilled)),
    .node (.call (.offer calm)), .node (.call (.rejoin 0))]

/-- The node is disconnected yet when the candidate comes: it is dropped, but received. -/
theorem trickledIntoOffer_lost :
    ∃ moves s, Run Trickle.step .new moves s ∧ (∀ m ∈ moves, Within 7 m.before m.input) ∧ s.Quiescent ∧
      s.hasRemote = true ∧ s.news = [.envelope 7 0 "a"] ∧ s.remote.passed.count (.envelope 7 0 "a") = 0 :=
  ⟨_, _, run_play Trickle.step .new trickledIntoOffer, by decide, by decide, by decide, by decide, by decide⟩

end Runs

end Mistlib.Browser
