import Mistlib.Data.Table
import Mistlib.Transport.Glare
import Mistlib.Types

/-!
# Trickled candidates

What one node's ICE candidates go through while its offers and answers are handled. A candidate
that comes before there is a remote description waits in `pending_candidates`, and the handler
that sets the description drains the buffer after it. Calls interleave at their awaits.

The node's peer stays registered once it is, and the calls on its connection succeed. Handlers of
other nodes buffer and drain in the same map. `parse` is what `serde_json` makes of a text.
-/

open Reactive

namespace Mistlib.Transport.Candidates

open Glare (Signaling)

inductive SdpType where
  | offer
  | answer
deriving DecidableEq, Repr

inductive Phase where
  /-- `handle_candidate` is about to look the peer up. -/
  | candidateArrived (cand : String)
  | readingRemote (cand : String)
  | adding (cand : String)
  | buffering (cand : String)
  /-- `apply_offer` waits for the lock. -/
  | offerArrived (parses : Bool)
  /-- `handle_decoded_answer` is about to look the peer up. -/
  | answerArrived (parses : Bool)
  | answerWaiting (parses : Bool)
  | settingRemote (kind : SdpType)
  | creatingAnswer
  | settingLocalAnswer
  | openingUnordered
  | draining (kind : SdpType)
  | applying (kind : SdpType) (cands : List String)
  | sendingAnswer
  | returned
deriving DecidableEq, Repr

/-- The node's connection and the buffer, with what has been asked of either. -/
structure Handles (Init : Type) where
  registered : Bool
  signaling : Signaling
  remoteDescription : Option SdpType
  /-- The call that holds the peer's lock. -/
  negotiating : Option Nat
  pendingCandidates : Table NodeId (List String)
  calls : List Phase
  /-- The candidates `handle_candidate` has been called with. -/
  received : List String
  /-- The calls of `add_ice_candidate`. -/
  handed : List Init

inductive Input where
  | register
  | candidate (cand : String)
  | offer (parses : Bool)
  | answer (parses : Bool)
  /-- An offer of this side's is set, under the lock. -/
  | localOffer
  /-- Handlers of another node's messages. -/
  | bufferOther (n : NodeId) (cand : String)
  | drainOther (n : NodeId)
  | call (i : Nat)
deriving DecidableEq, Repr

def MAX_PENDING_CANDIDATES_PER_NODE : Nat := 64

def MAX_PENDING_CANDIDATE_NODES : Nat := 128

/-- The list after the push, and whether the oldest entry was evicted. -/
def pushPendingCandidate (list : List String) (candidate : String) : List String × Bool :=
  let list := list ++ [candidate]
  if list.length > MAX_PENDING_CANDIDATES_PER_NODE then (list.drop 1, true) else (list, false)

/-- The critical section of `handle_candidate` on the buffer. -/
def bufferCandidate (pending : Table NodeId (List String)) (n : NodeId) (cand : String) :
    Table NodeId (List String) :=
  if !pending.contains n && pending.size ≥ MAX_PENDING_CANDIDATE_NODES then pending
  else pending.insert n (pushPendingCandidate ((pending.get n).getD []) cand).1

def Phase.buffers : Phase → Bool
  | .buffering _ => true
  | _ => false

def Input.resumes : Input → Option Nat
  | .call i => some i
  | _ => none

namespace Handles

variable {Init : Type}

def new : Handles Init where
  registered := false
  signaling := .stable
  remoteDescription := none
  negotiating := none
  pendingCandidates := ∅
  calls := []
  received := []
  handed := []

/-- The candidates that wait for a node. -/
def waiting (h : Handles Init) (node : NodeId) : List String := (h.pendingCandidates.get node).getD []

variable (parse : String → Option Init) (node : NodeId)

def hand (h : Handles Init) (cand : String) : Handles Init :=
  { h with handed := h.handed ++ (parse cand).toList }

/-- The next step of the call `i`: what it makes of the state, and its next phase. -/
def turn (h : Handles Init) (i : Nat) : Phase → Option (Handles Init × Phase)
  | .candidateArrived cand => some (h, if h.registered then .readingRemote cand else .buffering cand)
  | .readingRemote cand =>
    some (h, if h.remoteDescription.isSome then .adding cand else .buffering cand)
  | .adding cand => some (h.hand parse cand, .returned)
  | .buffering cand =>
    some ({ h with pendingCandidates := bufferCandidate h.pendingCandidates node cand }, .returned)
  | .offerArrived parses =>
    if h.negotiating ≠ none then none
    else if h.signaling ≠ .stable ∨ parses = false then some (h, .returned)
    else some ({ h with negotiating := some i }, .settingRemote .offer)
  | .answerArrived parses => some (h, if h.registered then .answerWaiting parses else .returned)
  | .answerWaiting parses =>
    if h.negotiating ≠ none then none
    -- an answer that is re-delivered gives its own candidates only
    else if parses = false ∨ h.signaling ≠ .haveLocalOffer then some (h, .returned)
    else some ({ h with negotiating := some i }, .settingRemote .answer)
  | .settingRemote .offer =>
    some ({ h with remoteDescription := some .offer, signaling := .haveRemoteOffer }, .creatingAnswer)
  | .settingRemote .answer =>
    some ({ h with remoteDescription := some .answer, signaling := .stable }, .openingUnordered)
  | .creatingAnswer => some (h, .settingLocalAnswer)
  | .settingLocalAnswer => some ({ h with signaling := .stable }, .draining .offer)
  | .openingUnordered => some (h, .draining .answer)
  | .draining kind =>
    some ({ h with pendingCandidates := h.pendingCandidates.erase node },
      .applying kind (h.waiting node))
  | .applying kind (cand :: cands) => some (h.hand parse cand, .applying kind cands)
  | .applying .offer [] => some (h, .sendingAnswer)
  | .applying .answer [] | .sendingAnswer => some ({ h with negotiating := none }, .returned)
  | .returned => none

def begin (h : Handles Init) (phase : Phase) : Handles Init := { h with calls := h.calls ++ [phase] }

def step (h : Handles Init) : Input → Option (Handles Init)
  | .register => some { h with registered := true }
  | .candidate cand => some { h.begin (.candidateArrived cand) with received := h.received ++ [cand] }
  | .offer parses => if h.registered then some (h.begin (.offerArrived parses)) else none
  | .answer parses => some (h.begin (.answerArrived parses))
  | .localOffer =>
    if h.registered ∧ h.negotiating = none ∧ h.signaling = .stable then
      some { h with signaling := .haveLocalOffer }
    else none
  | .bufferOther n cand =>
    if n = node then none
    else some { h with pendingCandidates := bufferCandidate h.pendingCandidates n cand }
  | .drainOther n =>
    if n = node then none else some { h with pendingCandidates := h.pendingCandidates.erase n }
  | .call i =>
    h.calls[i]?.bind fun phase =>
      (h.turn parse node i phase).map fun (after, phase) => { after with calls := h.calls.set i phase }

def Quiescent (h : Handles Init) : Prop := ∀ phase ∈ h.calls, phase = .returned
deriving Decidable

/-- The step pushes a candidate of the node's. -/
def Pushes (h : Handles Init) (input : Input) : Prop :=
  ∃ i ∈ input.resumes, ∃ phase ∈ h.calls[i]?, phase.buffers = true
deriving Decidable

def Roomy (h : Handles Init) : Prop :=
  (h.waiting node).length < MAX_PENDING_CANDIDATES_PER_NODE ∧
    h.pendingCandidates.size < MAX_PENDING_CANDIDATE_NODES
deriving Decidable

end Handles

/-- The handler has set the remote description and is still to drain the buffer. -/
def Phase.drainsLater : Phase → Bool
  | .creatingAnswer | .settingLocalAnswer | .openingUnordered | .draining _ => true
  | _ => false

def Phase.cands : Phase → List String
  | .candidateArrived cand | .readingRemote cand | .adding cand | .buffering cand => [cand]
  | .applying _ cands => cands
  | _ => []

namespace Handles

variable {Init : Type}

/-- What is in the buffer is drained by a handler to come. -/
def DrainComes (h : Handles Init) : Prop :=
  h.remoteDescription = none ∨ ∃ phase ∈ h.calls, phase.drainsLater = true
deriving Decidable

/-! ## The buffer -/

section Buffer

variable {h : Handles Init} {node n : NodeId} {cand : String}

theorem waiting_buffered (hlength : (h.waiting node).length < MAX_PENDING_CANDIDATES_PER_NODE)
    (hsize : h.pendingCandidates.size < MAX_PENDING_CANDIDATE_NODES) :
    ((bufferCandidate h.pendingCandidates node cand).get node).getD [] = h.waiting node ++ [cand] := by
  have hroom : ¬ ((!h.pendingCandidates.contains node &&
      decide (h.pendingCandidates.size ≥ MAX_PENDING_CANDIDATE_NODES)) = true) := by
    simp [hsize]
  have hpush : ¬ (h.waiting node ++ [cand]).length > MAX_PENDING_CANDIDATES_PER_NODE := by
    rw [List.length_append, List.length_singleton]
    omega
  have hlist : (pushPendingCandidate (h.waiting node) cand).1 = h.waiting node ++ [cand] := by
    simp only [pushPendingCandidate]
    rw [if_neg hpush]
  rw [bufferCandidate, if_neg hroom, Table.get_insert_self]
  exact hlist

theorem get_bufferOther (hn : n ≠ node) :
    (bufferCandidate h.pendingCandidates n cand).get node = h.pendingCandidates.get node := by
  unfold bufferCandidate
  split
  · rfl
  · rw [Table.get_insert, if_neg hn.symm]

end Buffer

/-! ## What a turn does -/

section Turns

variable {parse : String → Option Init} {node : NodeId} {h h' : Handles Init} {i : Nat}
  {phase phase' : Phase} {input : Input}

inductive Moves (parse : String → Option Init) (node : NodeId) (h : Handles Init)
    (phase : Phase) (h' : Handles Init) (phase' : Phase) : Prop where
  | keeps : h'.received = h.received → h'.handed = h.handed →
      h'.pendingCandidates = h.pendingCandidates →
      phase'.cands = phase.cands →
      h'.remoteDescription = h.remoteDescription ∨ phase'.drainsLater = true →
      (phase.drainsLater = true → phase'.drainsLater = true) → Moves parse node h phase h' phase'
  | hands (cand : String) : h' = h.hand parse cand → phase.cands = cand :: phase'.cands →
      phase.drainsLater = false → Moves parse node h phase h' phase'
  | buffers (cand : String) : phase = .buffering cand → phase' = .returned →
      h' = { h with pendingCandidates := bufferCandidate h.pendingCandidates node cand } →
      Moves parse node h phase h' phase'
  | drains (kind : SdpType) : phase = .draining kind → phase' = .applying kind (h.waiting node) →
      h' = { h with pendingCandidates := h.pendingCandidates.erase node } →
      Moves parse node h phase h' phase'

/-- What a turn of a handler moves. -/
theorem turn_moves (hturn : h.turn parse node i phase = some (h', phase')) :
    h.Moves parse node phase h' phase' := by
  cases phase with
  | candidateArrived cand | readingRemote cand | answerArrived parses =>
    cases hturn
    exact .keeps rfl rfl rfl (by split <;> rfl) (.inl rfl) nofun
  | adding cand =>
    cases hturn
    exact .hands cand rfl rfl rfl
  | buffering cand =>
    cases hturn
    exact .buffers cand rfl rfl rfl
  | offerArrived parses | answerWaiting parses =>
    simp only [turn] at hturn
    split at hturn
    · cases hturn
    · split at hturn
      all_goals
        cases hturn
        exact .keeps rfl rfl rfl rfl (.inl rfl) nofun
  | settingRemote kind =>
    cases kind with
    | offer | answer =>
      cases hturn
      exact .keeps rfl rfl rfl rfl (.inr rfl) nofun
  | creatingAnswer | settingLocalAnswer | openingUnordered =>
    cases hturn
    exact .keeps rfl rfl rfl rfl (.inl rfl) fun _ => rfl
  | draining kind =>
    cases hturn
    exact .drains kind rfl rfl rfl
  | applying kind cands =>
    cases cands with
    | cons cand cands =>
      cases hturn
      exact .hands cand rfl rfl rfl
    | nil =>
      cases kind with
      | offer | answer =>
        cases hturn
        exact .keeps rfl rfl rfl rfl (.inl rfl) nofun
  | sendingAnswer =>
    cases hturn
    exact .keeps rfl rfl rfl rfl (.inl rfl) nofun
  | returned => cases hturn

theorem Moves.received (hmoves : h.Moves parse node phase h' phase') : h'.received = h.received := by
  cases hmoves with
  | keeps hreceived _ _ _ _ _ => exact hreceived
  | hands cand hafter _ _ => rw [hafter, hand]
  | buffers cand _ _ hafter | drains kind _ _ hafter => rw [hafter]

theorem step_call (hstep : h.step parse node (.call i) = some h') :
    ∃ phase after phase', h.calls[i]? = some phase ∧ h.Moves parse node phase after phase' ∧
      h' = { after with calls := h.calls.set i phase' } := by
  obtain ⟨phase, hcall, hturn⟩ := Option.bind_eq_some_iff.mp hstep
  obtain ⟨⟨after, phase'⟩, hafter, rfl⟩ := Option.map_eq_some_iff.mp hturn
  exact ⟨phase, after, phase', hcall, turn_moves hafter, rfl⟩

/-! ## A drain is to come -/

/-- While the node has an entry in the buffer, it will be drained. -/
def Covered (node : NodeId) (h : Handles Init) : Prop :=
  h.pendingCandidates.get node ≠ none → h.DrainComes

theorem DrainComes.begin (hcomes : h.DrainComes) (phase : Phase) : (h.begin phase).DrainComes := by
  rcases hcomes with hnone | ⟨phase', hmem, hlater⟩
  · exact .inl hnone
  · exact .inr ⟨phase', List.mem_append_left _ hmem, hlater⟩

/-- A turn leaves a drain to come for what is left. -/
theorem DrainComes.turn (hcomes : h.DrainComes) (hcall : h.calls[i]? = some phase)
    (hmoves : h.Moves parse node phase h' phase') (hleft : h'.pendingCandidates.get node ≠ none) :
    { h' with calls := h.calls.set i phase' }.DrainComes := by
  have hself : phase' ∈ h.calls.set i phase' :=
    List.mem_of_getElem? (by rw [Calls.get_set hcall, if_pos rfl])
  have hremote : h'.remoteDescription = h.remoteDescription ∨ phase'.drainsLater = true := by
    cases hmoves with
    | keeps _ _ _ _ hremote _ => exact hremote
    | hands cand hafter _ _ => exact .inl (by rw [hafter, hand])
    | buffers cand _ _ hafter | drains kind _ _ hafter => exact .inl (by rw [hafter])
  have hlater : phase.drainsLater = true → phase'.drainsLater = true := by
    intro hbefore
    cases hmoves with
    | keeps _ _ _ _ _ hkeeps => exact hkeeps hbefore
    | hands cand _ _ hnot =>
      rw [hnot] at hbefore
      cases hbefore
    | buffers cand hphase _ _ =>
      subst hphase
      cases hbefore
    | drains kind _ _ hafter =>
      refine absurd ?_ hleft
      rw [hafter, Table.get_erase, if_pos rfl]
  rcases hcomes with hnone | ⟨other, hmem, hother⟩
  · exact hremote.imp (·.trans hnone) fun hnow => ⟨phase', hself, hnow⟩
  · obtain ⟨j, hj⟩ := List.getElem?_of_mem hmem
    by_cases hji : j = i
    · subst hji
      cases hcall.symm.trans hj
      exact .inr ⟨phase', hself, hlater hother⟩
    · refine .inr ⟨other, List.mem_of_getElem? (i := j) ?_, hother⟩
      rw [Calls.get_set hcall, if_neg hji, hj]

/-- A timely step leaves a drain to come for what is buffered. -/
theorem Covered.step (hcovered : h.Covered node) (htimely : h.Pushes input → h.DrainComes)
    (hstep : h.step parse node input = some h') : h'.Covered node := by
  intro hleft
  cases input with
  | register =>
    cases hstep
    exact hcovered hleft
  | candidate cand | answer parses =>
    cases hstep
    exact (hcovered hleft).begin _
  | offer parses =>
    obtain ⟨_, ⟨⟩⟩ := Option.ite_none_right_eq_some.mp hstep
    exact (hcovered hleft).begin _
  | localOffer =>
    obtain ⟨_, ⟨⟩⟩ := Option.ite_none_right_eq_some.mp hstep
    exact hcovered hleft
  | bufferOther n cand =>
    obtain ⟨hn, ⟨⟩⟩ := Option.ite_none_left_eq_some.mp hstep
    exact hcovered (get_bufferOther hn ▸ hleft)
  | drainOther n =>
    obtain ⟨hn, ⟨⟩⟩ := Option.ite_none_left_eq_some.mp hstep
    refine hcovered ?_
    rwa [Table.get_erase, if_neg (Ne.symm hn)] at hleft
  | call i =>
    obtain ⟨phase, after, phase', hcall, hmoves, rfl⟩ := step_call hstep
    refine DrainComes.turn ?_ hcall hmoves hleft
    cases hmoves with
    | keeps _ _ hpending _ _ _ => exact hcovered (hpending ▸ hleft)
    | hands cand hafter _ _ =>
      subst hafter
      exact hcovered hleft
    | buffers cand hphase _ _ => exact htimely ⟨i, rfl, phase, hcall, hphase ▸ rfl⟩
    | drains kind _ _ hafter =>
      subst hafter
      refine absurd ?_ hleft
      rw [Table.get_erase, if_pos rfl]

end Turns

/-! ## Where the candidates are -/

section Tally

variable [DecidableEq Init] (parse : String → Option Init) (c : Init)

/-- How often a candidate is among the texts. -/
def tally (texts : List String) : Nat := (texts.filterMap parse).count c

theorem tally_append (texts more : List String) :
    tally parse c (texts ++ more) = tally parse c texts + tally parse c more := by
  rw [tally, List.filterMap_append, List.count_append]
  rfl

theorem tally_cons (cand : String) (texts : List String) :
    tally parse c (cand :: texts) = tally parse c [cand] + tally parse c texts :=
  tally_append parse c [cand] texts

theorem tally_nil : tally parse c [] = 0 := rfl

theorem count_hand (h : Handles Init) (cand : String) :
    (h.hand parse cand).handed.count c = h.handed.count c + tally parse c [cand] := by
  rw [hand, List.count_append, tally]
  cases hp : parse cand with
  | none | some init => simp [hp]

end Tally

section Ledger

variable [DecidableEq Init] {parse : String → Option Init} {node : NodeId} {h h' : Handles Init}
  {i : Nat} {phase phase' : Phase} {input : Input}

theorem Moves.tally (hmoves : h.Moves parse node phase h' phase')
    (hroomy : phase.buffers = true → h.Roomy node) (c : Init) :
    h'.handed.count c + tally parse c phase'.cands + tally parse c (h'.waiting node) =
      h.handed.count c + tally parse c phase.cands + tally parse c (h.waiting node) := by
  cases hmoves with
  | keeps _ hhanded hpending hcands _ _ => rw [hhanded, hcands, waiting, hpending, waiting]
  | hands cand hafter hcands _ =>
    rw [hafter, count_hand, hcands, tally_cons parse c cand phase'.cands]
    simp only [waiting, hand]
    omega
  | buffers cand hphase hphase' hafter =>
    obtain ⟨hlength, hsize⟩ := hroomy (hphase ▸ rfl)
    rw [hafter, hphase, hphase', waiting, waiting_buffered hlength hsize, tally_append]
    simp only [Phase.cands, tally_nil]
    omega
  | drains kind hphase hphase' hafter =>
    have hgone : (h.pendingCandidates.erase node).get node = none := by
      rw [Table.get_erase, if_pos rfl]
    rw [hafter, hphase, hphase']
    simp only [waiting, hgone, Phase.cands, tally_nil, Option.getD_none]
    omega

/-- Every candidate received is handed over, with a call, or in the buffer, and
so often as it was received. -/
def Ledger (parse : String → Option Init) (node : NodeId) (h : Handles Init) : Prop :=
  ∀ c, h.handed.count c + (h.calls.map fun phase => tally parse c phase.cands).sum +
    tally parse c (h.waiting node) = tally parse c h.received

theorem Ledger.begin (hledger : h.Ledger parse node) (hcands : phase.cands = []) :
    (h.begin phase).Ledger parse node := by
  intro c
  have hbefore := hledger c
  simp only [Handles.begin, Calls.sum_begin, hcands, tally_nil]
  exact hbefore

/-- Each step with room left keeps the ledger. -/
theorem Ledger.step (hledger : h.Ledger parse node) (hroomy : h.Pushes input → h.Roomy node)
    (hstep : h.step parse node input = some h') : h'.Ledger parse node := by
  cases input with
  | register =>
    cases hstep
    exact hledger
  | candidate cand =>
    cases hstep
    intro c
    have hbefore := hledger c
    have hcands : (Phase.candidateArrived cand).cands = [cand] := rfl
    simp only [Handles.begin, Calls.sum_begin, tally_append, hcands]
    simp only [waiting] at hbefore ⊢
    omega
  | offer parses =>
    obtain ⟨_, ⟨⟩⟩ := Option.ite_none_right_eq_some.mp hstep
    exact hledger.begin rfl
  | answer parses =>
    cases hstep
    exact hledger.begin rfl
  | localOffer =>
    obtain ⟨_, ⟨⟩⟩ := Option.ite_none_right_eq_some.mp hstep
    exact hledger
  | bufferOther n cand =>
    obtain ⟨hn, ⟨⟩⟩ := Option.ite_none_left_eq_some.mp hstep
    intro c
    have hbefore := hledger c
    simp only [waiting, get_bufferOther hn]
    exact hbefore
  | drainOther n =>
    obtain ⟨hn, ⟨⟩⟩ := Option.ite_none_left_eq_some.mp hstep
    intro c
    have hbefore := hledger c
    simp only [waiting, Table.get_erase, if_neg (Ne.symm hn)]
    exact hbefore
  | call i =>
    obtain ⟨phase, after, phase', hcall, hmoves, rfl⟩ := step_call hstep
    intro c
    have hbefore := hledger c
    have hturn := hmoves.tally (fun hbuffers => hroomy ⟨i, rfl, phase, hcall, hbuffers⟩) c
    have hcalls := Calls.sum_set hcall phase' fun phase => Handles.tally parse c phase.cands
    have hreceived := hmoves.received
    simp only [waiting] at hbefore hturn ⊢
    rw [hreceived]
    omega

/-- A run in which no limit of the buffer takes effect and no candidate goes
into it too late strands none: once all calls have returned and there is a
remote description, every candidate received has been handed to
`add_ice_candidate` exactly once. -/
theorem handed_of_timely {moves : List (Move (Handles Init) Input)}
    (run : Run (step parse node) new moves h)
    (hroomy : ∀ m ∈ moves, m.before.Pushes m.input → m.before.Roomy node)
    (htimely : ∀ m ∈ moves, m.before.Pushes m.input → m.before.DrainComes) (hquiet : h.Quiescent)
    (hremote : h.remoteDescription ≠ none) :
    h.handed.Perm (h.received.filterMap parse) ∧ h.pendingCandidates.get node = none := by
  have hinv : h.Covered node ∧ h.Ledger parse node := by
    refine run.keepsUnder (P := fun h => h.Covered node ∧ h.Ledger parse node)
      (C := fun h input => (h.Pushes input → h.Roomy node) ∧ (h.Pushes input → h.DrainComes)) ?_ ?_ ?_
    · exact ⟨fun hsome => absurd (Table.get_empty node) hsome, fun c => rfl⟩
    · rintro h input h' ⟨hcovered, hledger⟩ ⟨hroomy, htimely⟩ hstep
      exact ⟨hcovered.step htimely hstep, hledger.step hroomy hstep⟩
    · exact fun m hm => ⟨hroomy m hm, htimely m hm⟩
  obtain ⟨hcovered, hledger⟩ := hinv
  have hempty : h.pendingCandidates.get node = none := by
    by_contra hsome
    rcases hcovered hsome with hnone | ⟨phase, hmem, hlater⟩
    · exact hremote hnone
    · cases hquiet phase hmem
      cases hlater
  refine ⟨List.perm_iff_count.mpr fun c => ?_, hempty⟩
  have hbalance := hledger c
  have hidle : (h.calls.map fun phase => tally parse c phase.cands).sum = 0 := by
    refine List.sum_eq_zero fun n hn => ?_
    obtain ⟨phase, hmem, rfl⟩ := List.mem_map.mp hn
    cases hquiet phase hmem
    rfl
  rw [hidle, waiting, hempty, Option.getD_none, tally_nil] at hbalance
  exact hbalance

end Ledger

end Handles

/-! ## Runs -/

section Runs

def remote : NodeId := ⟨"remote"⟩

/-- A candidate is buffered before the offer, and another one comes after it. -/
def buffered : List Input :=
  [Input.candidate "a", .call 0, .call 0, .register, .offer true] ++ List.replicate 8 (Input.call 1) ++
    [Input.candidate "b"] ++ List.replicate 3 (Input.call 2)

/-- The offer is handled between the look at the remote description and the push. -/
def overtaken : List Input :=
  [Input.register, .candidate "a", .call 0, .call 0, .offer true] ++ List.replicate 7 (Input.call 1) ++ [Input.call 0]

def after (inputs : List Input) : List (Move (Handles String) Input) × Handles String :=
  play (Handles.step some remote) .new inputs.reverse

theorem buffered_handed :
    (after buffered).2.handed.Perm ["a", "b"] ∧ (after buffered).2.pendingCandidates.get remote = none :=
  Handles.handed_of_timely (run_play _ _ _) (by decide +kernel) (by decide +kernel)
    (by decide : (after buffered).2.Quiescent) (by decide : (after buffered).2.remoteDescription ≠ none)

/-- The candidate stays in the buffer. -/
theorem overtaken_stranded :
    ∃ moves h, Run (Handles.step some remote) .new moves h ∧
      (∀ m ∈ moves, m.before.Pushes m.input → m.before.Roomy remote) ∧ h.Quiescent ∧
      h.remoteDescription ≠ none ∧ h.received = ["a"] ∧ h.handed = [] ∧
      h.pendingCandidates.get remote = some ["a"] :=
  ⟨(after overtaken).1, (after overtaken).2, run_play _ _ _, by decide +kernel, by decide, by decide,
    by decide, by decide, by decide +kernel⟩

end Runs

end Mistlib.Transport.Candidates
