import Mistlib.Async.Calls
import Mistlib.Async.Reactive

/-!
# The supervisors of the signaling websocket

`connect` and `reset_session` of `WebSocketSignaler` start a supervisor each, which keeps a
socket open until its token is cancelled. All supervisors share the slot of the sender. What one
does between two awaits, or between two locks, is one step.

A call starts at most one supervisor, and its place in the list of calls stands for the
supervisor's token. A channel is named by its supervisor and by how many sockets this one had
opened before. What the calls answer, what goes through the channels, and delays are left out.
-/

namespace Mistlib.Signaling.WebSocket

inductive CallPhase where
  /-- `connect`: puts the channel for incoming messages in its slot. -/
  | storingIncoming
  /-- `reset_session`: looks for a reset in flight, twice. -/
  | checking
  | claiming
  | joining (call : Nat)
  /-- `reset_session_once`: takes the channel for incoming messages from its slot. -/
  | reading
  /-- `start_supervisor`, for a reset or for `connect`: puts a new token in the slot. -/
  | swapping (reset : Bool)
  /-- Clears the slot of the sender and starts the supervisor. -/
  | emptying (reset : Bool)
  /-- Waits for the supervisor's first report. -/
  | awaiting (reset : Bool)
  /-- The result of the reset is out. Its entry is taken away. -/
  | forgetting
  /-- `close`: clears the three slots. -/
  | dropping
  | taking
  | closing
  | returned
  | closed
deriving DecidableEq, Repr

structure Channel where
  supervisor : Nat
  opened : Nat
deriving DecidableEq, Repr

inductive Phase where
  | connecting
  /-- The lock of the sender's slot, to store its channel. -/
  | storing (tx : Channel)
  /-- The lock of the hook, to call it. -/
  | hooking (tx : Channel)
  /-- The end of the socket, or its cancellation. -/
  | serving (tx : Channel)
  /-- The lock of the sender's slot, to clear it, after its cancellation or not. -/
  | clearing (tx : Channel) (cancelled : Bool)
  | waiting
  | finished
deriving DecidableEq, Repr

structure Supervisor where
  notifyInitialReestablished : Bool
  continueAfterInitialFailure : Bool
  /-- Its first report is out. -/
  reported : Bool
  reconnected : Bool
  opened : Nat
  phase : Phase
deriving DecidableEq, Repr

inductive Event where
  | connected
  | failed
  /-- It gets the lock it waits for. -/
  | goOn
  /-- It sees that its token is cancelled. -/
  | cancelled
  | ended
  | woken
deriving DecidableEq, Repr

structure Call where
  phase : CallPhase
  supervisor : Option Supervisor
deriving DecidableEq, Repr

/-- The slots of the signaler, the tokens that are cancelled, the supervisors that
have called the hook, and the calls. -/
structure WebSocketSignaler where
  cancel : Option Nat
  cancelled : List Nat
  sender : Option Channel
  incomingTx : Bool
  resetInflight : Option Nat
  hooks : List Nat
  calls : List Call
deriving DecidableEq, Repr

inductive Kind where
  | connect
  | resetSession
  | close
deriving DecidableEq, Repr

inductive Input where
  | call (kind : Kind)
  | goOn (call : Nat)
  | supervisor (call : Nat) (event : Event)
deriving DecidableEq, Repr

def Kind.start : Kind → CallPhase
  | .connect => .storingIncoming
  | .resetSession => .checking
  | .close => .dropping

/-- The supervisor that `start_supervisor` starts. -/
def Supervisor.new (reset : Bool) : Supervisor where
  notifyInitialReestablished := reset
  continueAfterInitialFailure := reset
  reported := false
  reconnected := false
  opened := 0
  phase := .connecting

namespace WebSocketSignaler

def new : WebSocketSignaler where
  cancel := none
  cancelled := []
  sender := none
  incomingTx := false
  resetInflight := none
  hooks := []
  calls := []

variable (s : WebSocketSignaler)

/-- The supervisor of a call goes on to `phase`. -/
def enter (sup : Supervisor) (phase : Phase) : WebSocketSignaler × Supervisor := (s, { sup with phase })

/-- A step of the supervisor of the call `i` (`WebSocketSupervisor::run`). -/
def run (i : Nat) (sup : Supervisor) : Event → Option (WebSocketSignaler × Supervisor)
  | .connected =>
    match sup.phase with
    | .connecting =>
      some (s, { sup with phase := .storing ⟨i, sup.opened⟩, opened := sup.opened + 1 })
    | _ => none
  | .failed =>
    match sup.phase with
    | .connecting =>
      let stops := !sup.reported && !sup.continueAfterInitialFailure
      some (s, { sup with reported := true, phase := if stops then .finished else .waiting })
    | _ => none
  | .goOn =>
    match sup.phase with
    | .storing tx =>
      let reestablished := if sup.reported then sup.reconnected else sup.notifyInitialReestablished
      some ({ s with sender := some tx },
        { sup with
          reported := true
          reconnected := true
          phase := if reestablished then .hooking tx else .serving tx })
    | .hooking tx => some (({ s with hooks := s.hooks ++ [i] } : WebSocketSignaler).enter sup (.serving tx))
    | .clearing _ cancelled =>
      some (({ s with sender := none } : WebSocketSignaler).enter sup
        (if cancelled then .finished else .waiting))
    | _ => none
  | .cancelled =>
    if s.cancelled.contains i then
      match sup.phase with
      | .serving tx => some (s.enter sup (.clearing tx true))
      | .waiting => some (s.enter sup .finished)
      | _ => none
    else none
  | .ended =>
    match sup.phase with
    | .serving tx => some (s.enter sup (.clearing tx false))
    | _ => none
  | .woken =>
    match sup.phase with
    | .waiting => some (s.enter sup .connecting)
    | _ => none

/-- The token in the slot is cancelled, and another one or none takes its place. -/
def replaceToken (token : Option Nat) : WebSocketSignaler :=
  { s with cancelled := s.cancelled ++ s.cancel.toList, cancel := token }

def published (call : Nat) : Bool :=
  s.calls[call]?.any fun c => c.phase == .forgetting || c.phase == .returned

def callTurn (i : Nat) (c : Call) : Option (WebSocketSignaler × Call) :=
  match c.phase with
  | .storingIncoming => some ({ s with incomingTx := true }, { c with phase := .swapping false })
  | .checking =>
    match s.resetInflight with
    | some call => some (s, { c with phase := .joining call })
    | none => some (s, { c with phase := .claiming })
  | .claiming =>
    match s.resetInflight with
    | some call => some (s, { c with phase := .joining call })
    | none => some ({ s with resetInflight := some i }, { c with phase := .reading })
  | .joining call => if s.published call then some (s, { c with phase := .returned }) else none
  | .reading => some (s, { c with phase := if s.incomingTx then .swapping true else .forgetting })
  | .swapping reset => some (s.replaceToken (some i), { c with phase := .emptying reset })
  | .emptying reset =>
    some ({ s with sender := none }, ⟨.awaiting reset, some (.new reset)⟩)
  | .awaiting reset =>
    if c.supervisor.any Supervisor.reported then
      some (s, { c with phase := if reset then .forgetting else .returned })
    else none
  | .forgetting => some ({ s with resetInflight := none }, { c with phase := .returned })
  | .dropping => some ({ s with incomingTx := false }, { c with phase := .taking })
  | .taking => some (s.replaceToken none, { c with phase := .closing })
  | .closing => some ({ s with sender := none }, { c with phase := .closed })
  | .returned | .closed => none

def step : Input → Option WebSocketSignaler
  | .call kind => some { s with calls := s.calls ++ [⟨kind.start, none⟩] }
  | .goOn i =>
    s.calls[i]?.bind fun c =>
      (s.callTurn i c).map fun (after, c) => { after with calls := s.calls.set i c }
  | .supervisor i event =>
    s.calls[i]?.bind fun c =>
      c.supervisor.bind fun sup =>
        (s.run i sup event).map fun (after, sup) =>
          { after with calls := s.calls.set i { c with supervisor := some sup } }

end WebSocketSignaler

/-! ## What is claimed of the slots -/

/-- The channel that stands for the supervisor's open socket: from when it is stored
until it is cleared. -/
def Phase.channel : Phase → Option Channel
  | .hooking tx | .serving tx | .clearing tx _ => some tx
  | _ => none

/-- Whether the supervisor has a socket that it does not serve yet. -/
def Phase.opening : Phase → Bool
  | .storing _ | .hooking _ => true
  | _ => false

def Phase.isStoring : Phase → Bool
  | .storing _ => true
  | _ => false

def CallPhase.isSwapping : CallPhase → Bool
  | .swapping _ => true
  | _ => false

def CallPhase.replaces : CallPhase → Bool
  | .swapping _ | .taking => true
  | _ => false

def CallPhase.clears : CallPhase → Bool
  | .emptying _ | .closing => true
  | _ => false

def CallPhase.finished : CallPhase → Bool
  | .returned | .closed => true
  | _ => false

namespace WebSocketSignaler

variable (s : WebSocketSignaler)

/-- Where the supervisor of the call `i` stands, if there is one. -/
def phaseOf (i : Nat) : Option Phase :=
  (s.calls[i]?.bind Call.supervisor).map Supervisor.phase

def channelOf (i : Nat) : Option Channel := (s.phaseOf i).bind Phase.channel

/-- No call is in progress, and every cancelled supervisor is finished. -/
def Quiescent : Prop :=
  (∀ c ∈ s.calls, c.phase.finished = true) ∧
    ∀ i ∈ s.cancelled, ∀ phase ∈ s.phaseOf i, phase = .finished
deriving Decidable

/-- The sender is the channel of the supervisor whose token is in the slot. -/
def InPlace : Prop :=
  ∀ tx, s.sender = some tx ↔ ∃ i, s.cancel = some i ∧ i ∉ s.cancelled ∧ s.channelOf i = some tx

/-- A cancelled supervisor calls no hook and leaves another one's sender alone. -/
def Undisturbed (s' : WebSocketSignaler) : Input → Prop
  | .supervisor i _ => i ∈ s.cancelled →
      s'.hooks = s.hooks ∧ ∀ tx, s.sender = some tx → tx.supervisor ≠ i → s'.sender = s.sender
  | _ => True

/-- Once a `close` has returned, the supervisors of earlier calls are cancelled. -/
def Closed : Prop :=
  ∀ (j : Nat) (c : Call), s.calls[j]? = some c → c.phase = .closed →
    ∀ i < j, s.phaseOf i ≠ none → i ∈ s.cancelled

/-- Whether the call `i` is overtaken by a `close` that has taken the token. -/
def overtaken (i : Nat) : Bool :=
  (s.calls.drop i).any fun c => c.phase == .closing || c.phase == .closed

/-- The token in the slot is not that of a supervisor with a socket that it does not
serve yet. -/
def NoneOpening : Prop := ∀ i ∈ s.cancel, ∀ phase ∈ s.phaseOf i, phase.opening = false
deriving Decidable

/-- A call clears the sender's slot when it holds no channel of an uncancelled
supervisor. -/
def NoneLive : Prop := ∀ tx ∈ s.sender, tx.supervisor ∈ s.cancelled
deriving Decidable

/-- No token is cancelled between the opening of a socket and its service, no socket
opens for a cancelled supervisor, and no channel is stored while a cancelled
supervisor has to clear the slot. A call that clears the slot is not overtaken by a
supervisor of a later token, and one that sets a token not by a later `close`. -/
def Orderly : Input → Prop
  | .call _ => True
  | .goOn i => ∀ c ∈ s.calls[i]?,
      (c.phase.replaces = true → s.NoneOpening) ∧
        (c.phase.isSwapping = true → s.overtaken i = false) ∧ (c.phase.clears = true → s.NoneLive)
  | .supervisor i event => ∀ phase ∈ s.phaseOf i,
      (phase = .connecting ∧ event = .connected → i ∉ s.cancelled) ∧
        (phase.isStoring = true ∧ event = .goOn → ∀ j ∈ s.cancelled, s.channelOf j = none)

instance : DecidablePred s.Orderly
  | .call _ => .isTrue trivial
  | .goOn i => inferInstanceAs (Decidable (∀ c ∈ s.calls[i]?, _))
  | .supervisor i _ => inferInstanceAs (Decidable (∀ phase ∈ s.phaseOf i, _))

end WebSocketSignaler

/-! ## What a step does -/

/-- Before the call has set a token or taken one. -/
def CallPhase.early : CallPhase → Bool
  | .emptying _ | .awaiting _ | .forgetting | .closing | .returned | .closed => false
  | _ => true

def CallPhase.isEmptying : CallPhase → Bool
  | .emptying _ => true
  | _ => false

/-- Whether a `close` has taken the token. -/
def CallPhase.pastTaking : CallPhase → Bool
  | .closing | .closed => true
  | _ => false

/-- Whether the call cannot have a supervisor. -/
def CallPhase.bare : CallPhase → Bool
  | .awaiting _ | .forgetting | .returned => false
  | _ => true

theorem CallPhase.bare_of_pastTaking {phase : CallPhase} (h : phase.pastTaking = true) :
    phase.bare = true := by
  cases phase with
  | closing | closed => rfl
  | _ => cases h

def Call.tokened (c : Call) : Bool := c.phase.isEmptying || c.supervisor.isSome

/-- The channel of the socket that the supervisor has opened last, until it clears the slot. -/
def Phase.socket : Phase → Option Channel
  | .storing tx => some tx
  | phase => phase.channel

namespace WebSocketSignaler

variable {s s' : WebSocketSignaler} {i j : Nat} {c c' : Call} {sup sup' : Supervisor}
  {event : Event} {input : Input}

/-- What a step of a call does to the slots that the supervisors share. -/
inductive CallTurns (s : WebSocketSignaler) (i : Nat) (c : Call) (s' : WebSocketSignaler) (c' : Call) :
    Prop where
  | quiet (hcancel : s'.cancel = s.cancel) (hcancelled : s'.cancelled = s.cancelled)
      (hsender : s'.sender = s.sender) (hhooks : s'.hooks = s.hooks)
      (hsupervisor : c'.supervisor = c.supervisor)
      (hemptying : c.phase.isEmptying = false ∧ c'.phase.isEmptying = false)
      (hearly : c'.phase.early = true → c.phase.early = true)
      (hbare : c'.phase.bare = true → c.phase.bare = true)
      (hpast : c'.phase.pastTaking = true → c.phase.pastTaking = true)
  | swap (reset : Bool) (hphase : c.phase = .swapping reset) (hs : s' = s.replaceToken (some i))
      (hc : c' = { c with phase := .emptying reset })
  | start (reset : Bool) (hphase : c.phase = .emptying reset) (hs : s' = { s with sender := none })
      (hc : c' = ⟨.awaiting reset, some (.new reset)⟩)
  | take (hphase : c.phase = .taking) (hs : s' = s.replaceToken none)
      (hc : c' = { c with phase := .closing })
  | clear (hphase : c.phase = .closing) (hs : s' = { s with sender := none })
      (hc : c' = { c with phase := .closed })

/-- What a step of a call does to the shared slots. -/
theorem callTurns (h : s.callTurn i c = some (s', c')) : CallTurns s i c s' c' := by
  obtain ⟨phase, supervisor⟩ := c
  cases phase with
  | storingIncoming | dropping =>
    cases h
    exact .quiet rfl rfl rfl rfl rfl ⟨rfl, rfl⟩ (fun _ => rfl) (fun _ => rfl) nofun
  | checking | claiming =>
    simp only [callTurn] at h
    split at h
    all_goals
      cases h
      exact .quiet rfl rfl rfl rfl rfl ⟨rfl, rfl⟩ (fun _ => rfl) (fun _ => rfl) nofun
  | joining call =>
    simp only [callTurn] at h
    split at h
    · cases h
      exact .quiet rfl rfl rfl rfl rfl ⟨rfl, rfl⟩ (fun _ => rfl) (fun _ => rfl) nofun
    · cases h
  | reading =>
    cases h
    cases s.incomingTx with
    | true => exact .quiet rfl rfl rfl rfl rfl ⟨rfl, rfl⟩ (fun _ => rfl) (fun _ => rfl) nofun
    | false => exact .quiet rfl rfl rfl rfl rfl ⟨rfl, rfl⟩ nofun nofun nofun
  | swapping reset =>
    cases h
    exact .swap reset rfl rfl rfl
  | emptying reset =>
    cases h
    exact .start reset rfl rfl rfl
  | awaiting reset =>
    simp only [callTurn] at h
    split at h
    · cases h
      cases reset with
      | true | false => exact .quiet rfl rfl rfl rfl rfl ⟨rfl, rfl⟩ nofun nofun nofun
    · cases h
  | forgetting =>
    cases h
    exact .quiet rfl rfl rfl rfl rfl ⟨rfl, rfl⟩ nofun nofun nofun
  | taking =>
    cases h
    exact .take rfl rfl rfl
  | closing =>
    cases h
    exact .clear rfl rfl rfl
  | returned | closed => cases h

/-- What a step of a supervisor does to the slots. -/
inductive Runs (s : WebSocketSignaler) (i : Nat) (sup : Supervisor) (event : Event) :
    WebSocketSignaler → Supervisor → Prop where
  | quiet (sup' : Supervisor) (hchannel : sup'.phase.channel = sup.phase.channel)
      (hsocket : ∀ tx, sup'.phase.socket = some tx → sup.phase.socket = some tx ∨ tx.supervisor = i)
      (hopening : sup'.phase.opening = true → sup.phase = .connecting ∧ event = .connected) :
      Runs s i sup event s sup'
  | store (tx : Channel) (sup' : Supervisor) (hphase : sup.phase = .storing tx) (hevent : event = .goOn)
      (hchannel : sup'.phase.channel = some tx) : Runs s i sup event { s with sender := some tx } sup'
  | hook (tx : Channel) (sup' : Supervisor) (hphase : sup.phase = .hooking tx)
      (hafter : sup'.phase = .serving tx) :
      Runs s i sup event { s with hooks := s.hooks ++ [i] } sup'
  | clear (tx : Channel) (sup' : Supervisor) (hphase : sup.phase.channel = some tx)
      (hafter : sup'.phase.socket = none) (hchannel : sup'.phase.channel = none)
      (hopening : sup'.phase.opening = false) :
      Runs s i sup event { s with sender := none } sup'

/-- What a step of a supervisor does to the slots. -/
theorem runs (h : s.run i sup event = some (s', sup')) : Runs s i sup event s' sup' := by
  obtain ⟨notify, continues, reported, reconnected, opened, phase⟩ := sup
  cases event with
  | connected =>
    cases phase with
    | connecting =>
      cases h
      refine .quiet _ rfl (fun tx htx => .inr ?_) fun _ => ⟨rfl, rfl⟩
      cases htx
      rfl
    | _ => cases h
  | failed =>
    cases phase with
    | connecting =>
      cases h
      cases hstops : !reported && !continues with
      | true | false => exact .quiet _ rfl nofun nofun
    | _ => cases h
  | goOn =>
    cases phase with
    | storing tx =>
      cases h
      refine .store tx _ rfl rfl ?_
      cases hhook : if reported then reconnected else notify with
      | true | false => rfl
    | hooking tx =>
      cases h
      exact .hook tx _ rfl rfl
    | clearing tx cancelled =>
      cases h
      cases cancelled with
      | true | false => exact .clear tx _ rfl rfl rfl rfl
    | _ => cases h
  | cancelled =>
    simp only [run] at h
    split at h
    · cases phase with
      | serving tx =>
        cases h
        exact .quiet _ rfl (fun _ => .inl) nofun
      | waiting =>
        cases h
        exact .quiet _ rfl nofun nofun
      | _ => cases h
    · cases h
  | ended =>
    cases phase with
    | serving tx =>
      cases h
      exact .quiet _ rfl (fun _ => .inl) nofun
    | _ => cases h
  | woken =>
    cases phase with
    | waiting =>
      cases h
      exact .quiet _ rfl nofun nofun
    | _ => cases h

/-- The state after a step of the call `i`, or of its supervisor. -/
def put (s after : WebSocketSignaler) (i : Nat) (c : Call) : WebSocketSignaler :=
  { after with calls := s.calls.set i c }

theorem phaseOf_of_get (hc : s.calls[i]? = some c) :
    s.phaseOf i = c.supervisor.map Supervisor.phase := by
  rw [phaseOf, hc, Option.bind_some]

theorem phaseOf_put (after : WebSocketSignaler) (hc : s.calls[i]? = some c) (c' : Call) (j : Nat) :
    (put s after i c').phaseOf j =
      if j = i then c'.supervisor.map Supervisor.phase else s.phaseOf j := by
  rw [phaseOf, put, Calls.get_set hc]
  split
  · rfl
  · rfl

/-! ## The tokens -/

/-- The tokens that calls have set: the one in the slot is not cancelled, all others
are, and a `close` that has taken the token has left none of an earlier call. -/
structure Books (s : WebSocketSignaler) : Prop where
  live : ∀ i, s.cancel = some i → i ∉ s.cancelled
  begun : ∀ i, s.cancel = some i ∨ i ∈ s.cancelled →
    ∃ c, s.calls[i]? = some c ∧ c.phase.early = false
  started : ∀ (i : Nat) (c : Call), s.calls[i]? = some c → c.tokened = true →
    s.cancel = some i ∨ i ∈ s.cancelled
  fresh : ∀ (i : Nat) (c : Call), s.calls[i]? = some c → c.phase.bare = true → c.supervisor = none
  closed : ∀ (j : Nat) (c : Call), s.calls[j]? = some c → c.phase.pastTaking = true →
    ∀ i < j, ∀ d : Call, s.calls[i]? = some d → d.tokened = true → i ∈ s.cancelled

theorem Books.new : WebSocketSignaler.new.Books where
  live := nofun
  begun := by
    rintro i (h | h)
    · cases h
    · cases h
  started := fun _ _ h => by cases h
  fresh := fun _ _ h => by cases h
  closed := fun _ _ h => by cases h

theorem Kind.start_early (kind : Kind) :
    kind.start.early = true ∧ kind.start.isEmptying = false ∧ kind.start.pastTaking = false := by
  cases kind with
  | connect | resetSession | close => exact ⟨rfl, rfl, rfl⟩

theorem Books.call (h : s.Books) (kind : Kind) :
    Books { s with calls := s.calls ++ [⟨kind.start, none⟩] } := by
  obtain ⟨hearly, hemptying, hpast⟩ := Kind.start_early kind
  have hnew : Call.tokened ⟨kind.start, none⟩ = false := by simp [Call.tokened, hemptying]
  -- the call that begins has neither a token nor taken one
  have hold {i : Nat} {c : Call} (hc : (s.calls ++ [⟨kind.start, none⟩])[i]? = some c) :
      s.calls[i]? = some c ∨ c = ⟨kind.start, none⟩ := by
    rw [Calls.get_begin] at hc
    split at hc
    · exact .inr (Option.some.inj hc).symm
    · exact .inl hc
  refine ⟨h.live, fun i hi => ?_, fun i c hc htoken => ?_, fun i c hc hphase => ?_,
    fun j c hc htaken i hi d hd htoken => ?_⟩
  · obtain ⟨c, hc, hphase⟩ := h.begun i hi
    exact ⟨c, Calls.get_before hc _, hphase⟩
  · rcases hold hc with hc | rfl
    · exact h.started i c hc htoken
    · rw [hnew] at htoken
      cases htoken
  · rcases hold hc with hc | rfl
    · exact h.fresh i c hc hphase
    · rfl
  · rcases hold hc with hc | rfl
    · rcases hold hd with hd | rfl
      · exact h.closed j c hc htaken i hi d hd htoken
      · rw [hnew] at htoken
        cases htoken
    · rw [hpast] at htaken
      cases htaken

def HasToken (s : WebSocketSignaler) (i : Nat) : Prop := s.cancel = some i ∨ i ∈ s.cancelled

theorem Books.put (h : s.Books) (hc : s.calls[i]? = some c)
    (hlive : ∀ j, s'.cancel = some j → j ∉ s'.cancelled)
    (htokens : ∀ j, s'.HasToken j ↔ s.HasToken j ∨ j = i ∧ c'.tokened = true)
    (hcancelled : ∀ j ∈ s.cancelled, j ∈ s'.cancelled)
    (hlater : c'.tokened = true → c'.phase.early = false)
    (hkept : c.phase.early = false → c'.phase.early = false)
    (hfresh : c'.phase.bare = true → c'.supervisor = none)
    (hset : c'.tokened = true → c.tokened = true ∨
      ∀ (j : Nat) (d : Call), s.calls[j]? = some d → d.phase.pastTaking = true → ¬ i < j)
    (htaken : c'.phase.pastTaking = true → c'.tokened = false ∧
      (c.phase.pastTaking = true ∨ ∀ j, s.HasToken j → j ∈ s'.cancelled)) :
    (put s s' i c').Books where
  live := hlive
  begun j hj := by
    rw [WebSocketSignaler.put, Calls.get_set hc]
    split
    · next heq =>
      refine ⟨c', rfl, ?_⟩
      rcases (htokens j).mp hj with hold | ⟨_, htoken⟩
      · obtain ⟨d, hd, hphase⟩ := h.begun j hold
        rw [heq, hc] at hd
        cases hd
        exact hkept hphase
      · exact hlater htoken
    · next hne =>
      rcases (htokens j).mp hj with hold | ⟨heq, _⟩
      · exact h.begun j hold
      · exact absurd heq hne
  started j d hd htoken := by
    rw [WebSocketSignaler.put, Calls.get_set hc] at hd
    split at hd
    · next heq =>
      cases hd
      exact (htokens j).mpr (.inr ⟨heq, htoken⟩)
    · exact (htokens j).mpr (.inl (h.started j d hd htoken))
  fresh j d hd hphase := by
    rw [WebSocketSignaler.put, Calls.get_set hc] at hd
    split at hd
    · cases hd
      exact hfresh hphase
    · exact h.fresh j d hd hphase
  closed k d hd hpast j hj d' hd' htoken := by
    change j ∈ s'.cancelled
    rw [WebSocketSignaler.put, Calls.get_set hc] at hd hd'
    split at hd
    · cases hd
      obtain ⟨hnone, hpast⟩ := htaken hpast
      split at hd'
      · cases hd'
        rw [hnone] at htoken
        cases htoken
      · rcases hpast with hpast | hall
        · next hk _ _ =>
          rw [hk] at hj
          exact hcancelled j (h.closed i c hc hpast j hj d' hd' htoken)
        · exact hall j (h.started j d' hd' htoken)
    · split at hd'
      · next hji =>
        cases hd'
        rw [hji] at hj ⊢
        rcases hset htoken with hold | hnone
        · exact hcancelled i (h.closed k d hd hpast i hj c hc hold)
        · exact absurd hj (hnone k d hd hpast)
      · exact hcancelled j (h.closed k d hd hpast j hj d' hd' htoken)

theorem Books.quiet (h : s.Books) (hc : s.calls[i]? = some c) (hcancel : s'.cancel = s.cancel)
    (hcancelled : s'.cancelled = s.cancelled) (htoken : c'.tokened = c.tokened)
    (hkept : c.phase.early = false → c'.phase.early = false)
    (hfresh : c'.phase.bare = true → c'.supervisor = none)
    (hpast : c'.phase.pastTaking = true → c'.tokened = false ∧ c.phase.pastTaking = true) :
    (WebSocketSignaler.put s s' i c').Books := by
  have hsame (j : Nat) : s'.HasToken j ↔ s.HasToken j := by
    rw [HasToken, HasToken, hcancel, hcancelled]
  have hhas : c'.tokened = true → s.HasToken i := fun ht => h.started i c hc (htoken ▸ ht)
  refine h.put hc ?_ (fun j => ?_) (fun j hj => hcancelled ▸ hj) (fun ht => ?_) hkept hfresh
    (fun ht => .inl (htoken ▸ ht)) fun hp => ?_
  · rw [hcancel, hcancelled]
    exact h.live
  · rw [hsame j]
    constructor
    · exact .inl
    · rintro (hj | ⟨rfl, ht⟩)
      · exact hj
      · exact hhas ht
  · obtain ⟨d, hd, hphase⟩ := h.begun i (hhas ht)
    rw [hc] at hd
    cases hd
    exact hkept hphase
  · obtain ⟨hnone, hpast⟩ := hpast hp
    exact ⟨hnone, .inl hpast⟩

theorem hasToken_replaceToken (token : Option Nat) :
    (s.replaceToken token).HasToken j ↔ s.HasToken j ∨ token = some j := by
  simp only [HasToken, replaceToken, List.mem_append, Option.mem_toList]
  constructor
  · rintro (h | h | h)
    · exact .inr h
    · exact .inl (.inr h)
    · exact .inl (.inl h)
  · rintro ((h | h) | h)
    · exact .inr (.inr h)
    · exact .inr (.inl h)
    · exact .inl h

theorem Books.not_hasToken (h : s.Books) (hc : s.calls[i]? = some c) (hearly : c.phase.early = true) :
    ¬ s.HasToken i := by
  intro htoken
  obtain ⟨d, hd, hphase⟩ := h.begun i htoken
  rw [hc] at hd
  cases hd
  rw [hearly] at hphase
  cases hphase

theorem live_replaceToken {token : Option Nat} (hnew : ∀ i ∈ token, ¬ s.HasToken i) :
    ∀ j, (s.replaceToken token).cancel = some j → j ∉ (s.replaceToken token).cancelled := by
  intro j hj hmem
  have hnone := hnew j hj
  rcases List.mem_append.mp hmem with hmem | hmem
  · exact hnone (.inr hmem)
  · exact hnone (.inl (Option.mem_toList.mp hmem))

theorem not_lt_of_not_overtaken (h : s.overtaken i = false) (hd : s.calls[j]? = some c)
    (hpast : c.phase.pastTaking = true) : ¬ i < j := by
  intro hlt
  have hmem : c ∈ s.calls.drop i := by
    refine List.mem_of_getElem? (i := j - i) ?_
    rw [List.getElem?_drop, show i + (j - i) = j by omega, hd]
  have hnot := List.any_eq_false.mp h c hmem
  cases hphase : c.phase with
  | closing | closed => simp [hphase] at hnot
  | _ =>
    rw [hphase] at hpast
    cases hpast

theorem Books.goOn (h : s.Books) (hc : s.calls[i]? = some c) (hturns : CallTurns s i c s' c')
    (hok : s.Orderly (.goOn i)) : (WebSocketSignaler.put s s' i c').Books := by
  have hok := hok c hc
  cases hturns with
  | quiet hcancel hcancelled _ _ hsupervisor hemptying hearly hbare hpast =>
    have htoken : c'.tokened = c.tokened := by
      rw [Call.tokened, Call.tokened, hemptying.1, hemptying.2, hsupervisor]
    refine h.quiet hc hcancel hcancelled htoken (fun hlate => ?_) (fun hp => ?_) fun hp => ?_
    · refine Bool.eq_false_iff.mpr fun hsoon => ?_
      rw [hearly hsoon] at hlate
      cases hlate
    · rw [hsupervisor]
      exact h.fresh i c hc (hbare hp)
    · have hnone := h.fresh i c hc (CallPhase.bare_of_pastTaking (hpast hp))
      refine ⟨?_, hpast hp⟩
      rw [htoken, Call.tokened, hemptying.1, hnone]
      rfl
  | swap reset hphase hs hcall =>
    subst hs hcall
    have hnew := h.not_hasToken hc (by rw [hphase]; rfl)
    refine h.put hc (live_replaceToken fun j hj => ?_) (fun j => ?_)
      (fun j hj => List.mem_append_left _ hj) (fun _ => rfl) (fun _ => rfl)
      (fun _ => h.fresh i c hc (by rw [hphase]; rfl)) (fun _ => .inr fun j d hd hpast => ?_) nofun
    · cases hj
      exact hnew
    · rw [hasToken_replaceToken]
      simp [Call.tokened, CallPhase.isEmptying, eq_comm]
    · exact not_lt_of_not_overtaken (hok.2.1 (by rw [hphase]; rfl)) hd hpast
  | start reset hphase hs hcall =>
    subst hs hcall
    refine h.quiet hc rfl rfl ?_ (fun _ => rfl) nofun nofun
    simp [Call.tokened, hphase, CallPhase.isEmptying]
  | take hphase hs hcall =>
    subst hs hcall
    have hnone := h.fresh i c hc (by rw [hphase]; rfl)
    have htoken : Call.tokened { c with phase := .closing } = false := by
      rw [Call.tokened, hnone]
      rfl
    refine h.put hc (live_replaceToken nofun) (fun j => ?_) (fun j hj => List.mem_append_left _ hj)
      (fun ht => ?_) (fun _ => rfl) (fun _ => hnone) (fun ht => ?_) fun _ => ⟨htoken, .inr fun j hj => ?_⟩
    · rw [hasToken_replaceToken, htoken]
      simp
    · rw [htoken] at ht
      cases ht
    · rw [htoken] at ht
      cases ht
    · have hafter := (hasToken_replaceToken (s := s) (j := j) none).mpr (.inl hj)
      rcases hafter with hafter | hafter
      · cases hafter
      · exact hafter
  | clear hphase hs hcall =>
    subst hs hcall
    have hnone := h.fresh i c hc (by rw [hphase]; rfl)
    refine h.quiet hc rfl rfl ?_ (fun _ => rfl) (fun _ => hnone) fun _ => ⟨?_, ?_⟩
    · simp [Call.tokened, hphase, CallPhase.isEmptying]
    · rw [Call.tokened, hnone]
      rfl
    · rw [hphase]
      rfl

theorem Books.run (h : s.Books) (hc : s.calls[i]? = some c) (hsup : c.supervisor = some sup)
    (hruns : Runs s i sup event s' sup') :
    (WebSocketSignaler.put s s' i { c with supervisor := some sup' }).Books := by
  have hsame : s'.cancel = s.cancel ∧ s'.cancelled = s.cancelled := by
    cases hruns with
    | quiet | store | hook | clear => exact ⟨rfl, rfl⟩
  have hnot : c.phase.bare = false := by
    refine Bool.eq_false_iff.mpr fun hbare => ?_
    rw [h.fresh i c hc hbare] at hsup
    cases hsup
  refine h.quiet hc hsame.1 hsame.2 ?_ id (fun hbare => ?_) fun hpast => ?_
  · simp [Call.tokened, hsup]
  · rw [show c.phase.bare = true from hbare] at hnot
    cases hnot
  · rw [CallPhase.bare_of_pastTaking hpast] at hnot
    cases hnot

/-! ## The sender's slot -/

/-- One supervisor at most has a channel that stands for its socket. What is in the
slot is such a channel, and an uncancelled supervisor's is in the slot. -/
structure Slots (s : WebSocketSignaler) : Prop where
  own : ∀ i, ∀ phase ∈ s.phaseOf i, ∀ tx ∈ phase.socket, tx.supervisor = i
  owner : ∀ tx, s.sender = some tx → s.channelOf tx.supervisor = some tx
  single : ∀ i j, s.channelOf i ≠ none → s.channelOf j ≠ none → i = j
  held : ∀ i tx, s.channelOf i = some tx → i ∉ s.cancelled → s.sender = some tx
  opening : ∀ i, ∀ phase ∈ s.phaseOf i, phase.opening = true → i ∉ s.cancelled

theorem Slots.new : WebSocketSignaler.new.Slots where
  own := nofun
  owner := nofun
  single := nofun
  held := nofun
  opening := nofun

theorem Slots.call (h : s.Slots) (kind : Kind) :
    Slots { s with calls := s.calls ++ [⟨kind.start, none⟩] } := by
  have hsame (i : Nat) :
      phaseOf { s with calls := s.calls ++ [⟨kind.start, none⟩] } i = s.phaseOf i := by
    rw [phaseOf, Calls.get_begin]
    split
    · next heq =>
      rw [phaseOf, heq, List.getElem?_eq_none le_rfl]
      rfl
    · rfl
  have hchannel (i : Nat) :
      channelOf { s with calls := s.calls ++ [⟨kind.start, none⟩] } i = s.channelOf i :=
    congrArg (Option.bind · Phase.channel) (hsame i)
  refine ⟨fun i => hsame i ▸ h.own i, fun tx htx => hchannel _ ▸ h.owner tx htx,
    fun i j hi hj => h.single i j (hchannel i ▸ hi) (hchannel j ▸ hj),
    fun i tx htx => h.held i tx (hchannel i ▸ htx), fun i => hsame i ▸ h.opening i⟩

theorem Phase.socket_of_channel {phase : Phase} {tx : Channel} (h : phase.channel = some tx) :
    phase.socket = some tx := by
  cases phase with
  | storing tx => cases h
  | _ => exact h

theorem Slots.supervisor_eq (h : s.Slots) {tx : Channel} (htx : s.channelOf i = some tx) :
    tx.supervisor = i := by
  obtain ⟨phase, hp, hch⟩ := Option.bind_eq_some_iff.mp htx
  exact h.own i phase hp tx (Phase.socket_of_channel hch)

/-- A step of a call: the supervisors stand where they stood, or a new one begins. It may
cancel tokens and clear the slot. -/
theorem Slots.calls (h : s.Slots)
    (hphase : ∀ i, s'.phaseOf i = s.phaseOf i ∨ s.phaseOf i = none ∧ s'.phaseOf i = some .connecting)
    (hsender : s'.sender = s.sender ∨ s'.sender = none ∧ s.NoneLive)
    (hcancelled : ∀ i ∈ s.cancelled, i ∈ s'.cancelled)
    (hopening : ∀ i ∈ s'.cancelled, i ∉ s.cancelled → ∀ phase ∈ s.phaseOf i, phase.opening = false) :
    s'.Slots := by
  have hchannel (i : Nat) : s'.channelOf i = s.channelOf i := by
    unfold channelOf
    rcases hphase i with hsame | ⟨hnone, hnew⟩
    · rw [hsame]
    · rw [hnone, hnew]
      rfl
  have hold {i : Nat} {phase : Phase} (hp : phase ∈ s'.phaseOf i) :
      phase ∈ s.phaseOf i ∨ phase = .connecting := by
    rcases hphase i with hsame | ⟨_, hnew⟩
    · exact .inl (hsame ▸ hp)
    · rw [hnew] at hp
      exact .inr (Option.some.inj hp).symm
  refine ⟨fun i phase hp tx htx => ?_, fun tx htx => ?_,
    fun i j hi hj => h.single i j (hchannel i ▸ hi) (hchannel j ▸ hj), fun i tx htx hlive => ?_,
    fun i phase hp ho hmem => ?_⟩
  · rcases hold hp with hp | rfl
    · exact h.own i phase hp tx htx
    · cases htx
  · rw [hchannel]
    rcases hsender with hsame | ⟨hnone, _⟩
    · exact h.owner tx (hsame ▸ htx)
    · rw [hnone] at htx
      cases htx
  · rw [hchannel] at htx
    have hheld := h.held i tx htx fun hmem => hlive (hcancelled i hmem)
    rcases hsender with hsame | ⟨_, hnone⟩
    · exact hsame ▸ hheld
    · -- the channel in the slot is that of a live supervisor
      exact absurd (hcancelled i (h.supervisor_eq htx ▸ hnone tx hheld)) hlive
  · rcases hold hp with hp | rfl
    · by_cases hbefore : i ∈ s.cancelled
      · exact h.opening i phase hp ho hbefore
      · rw [hopening i hmem hbefore phase hp] at ho
        cases ho
    · cases ho

theorem not_opening_of_replaceToken (token : Option Nat) (h : s.NoneOpening) :
    ∀ i ∈ (s.replaceToken token).cancelled, i ∉ s.cancelled →
      ∀ phase ∈ s.phaseOf i, phase.opening = false := by
  intro i hi hnot
  rcases List.mem_append.mp hi with hi | hi
  · exact absurd hi hnot
  · exact h i (Option.mem_toList.mp hi)

theorem Slots.goOn (h : s.Slots) (hbooks : s.Books) (hc : s.calls[i]? = some c)
    (hturns : CallTurns s i c s' c') (hok : s.Orderly (.goOn i)) : (put s s' i c').Slots := by
  have hok := hok c hc
  have hstand (after : WebSocketSignaler) (hsup : c'.supervisor = c.supervisor) (j : Nat) :
      (put s after i c').phaseOf j = s.phaseOf j := by
    rw [phaseOf_put after hc]
    split
    · next heq => rw [heq, phaseOf_of_get hc, hsup]
    · rfl
  cases hturns with
  | quiet hcancel hcancelled hsender _ hsupervisor _ _ _ _ =>
    refine h.calls (fun j => .inl (hstand s' hsupervisor j)) (.inl hsender) (fun j hj => ?_) ?_
    · exact hcancelled.symm ▸ hj
    · intro j hj hnot
      exact absurd (hcancelled ▸ hj) hnot
  | swap reset hphase hs hcall =>
    subst hs
    refine h.calls (fun j => .inl (hstand _ (by rw [hcall]) j)) (.inl rfl)
      (fun j hj => List.mem_append_left _ hj) ?_
    exact not_opening_of_replaceToken (some i) (hok.1 (by rw [hphase]; rfl))
  | start reset hphase hs hcall =>
    subst hs
    have hlive := hok.2.2 (by rw [hphase]; rfl)
    refine h.calls (fun j => ?_) (.inr ⟨rfl, hlive⟩) (fun j hj => hj) fun j hj hnot => absurd hj hnot
    rw [phaseOf_put _ hc]
    split
    · next heq =>
      refine .inr ⟨?_, by rw [hcall]; rfl⟩
      rw [heq, phaseOf_of_get hc, hbooks.fresh i c hc (by rw [hphase]; rfl)]
      rfl
    · exact .inl rfl
  | take hphase hs hcall =>
    subst hs
    refine h.calls (fun j => .inl (hstand _ (by rw [hcall]) j)) (.inl rfl)
      (fun j hj => List.mem_append_left _ hj) ?_
    exact not_opening_of_replaceToken none (hok.1 (by rw [hphase]; rfl))
  | clear hphase hs hcall =>
    subst hs
    have hlive := hok.2.2 (by rw [hphase]; rfl)
    exact h.calls (fun j => .inl (hstand _ (by rw [hcall]) j)) (.inr ⟨rfl, hlive⟩) (fun j hj => hj)
      fun j hj hnot => absurd hj hnot

theorem Books.hasToken_of_phase (h : s.Books) {phase : Phase} (hp : s.phaseOf i = some phase) :
    s.HasToken i := by
  obtain ⟨sup, hsup, _⟩ := Option.map_eq_some_iff.mp hp
  obtain ⟨c, hc, hsup⟩ := Option.bind_eq_some_iff.mp hsup
  exact h.started i c hc (by simp [Call.tokened, hsup])

/-- Where a supervisor that is not cancelled is about to store its channel and no
cancelled one has to clear the slot, no other one has a channel. -/
theorem Books.channelOf_eq_none (h : s.Books) (hbefore : s.phaseOf i ≠ none) (hlive : i ∉ s.cancelled)
    (hnone : ∀ j ∈ s.cancelled, s.channelOf j = none) (hj : j ≠ i) : s.channelOf j = none := by
  obtain ⟨phase, hi⟩ := Option.ne_none_iff_exists'.mp hbefore
  have htoken := (h.hasToken_of_phase hi).resolve_right hlive
  cases hp : s.phaseOf j with
  | none => rw [channelOf, hp, Option.bind_none]
  | some phase =>
    rcases h.hasToken_of_phase hp with hset | hcancelled
    · rw [htoken] at hset
      exact absurd (Option.some.inj hset).symm hj
    · exact hnone j hcancelled

/-- A step of a supervisor keeps the slots. -/
theorem Slots.run (h : s.Slots) (hbooks : s.Books) (hc : s.calls[i]? = some c)
    (hsup : c.supervisor = some sup) (hruns : Runs s i sup event s' sup')
    (hok : s.Orderly (.supervisor i event)) :
    (put s s' i { c with supervisor := some sup' }).Slots := by
  have hbefore : s.phaseOf i = some sup.phase := by
    rw [phaseOf_of_get hc, hsup]
    rfl
  have hafter (j : Nat) : (put s s' i { c with supervisor := some sup' }).phaseOf j =
      if j = i then some sup'.phase else s.phaseOf j := phaseOf_put s' hc _ j
  have hchannel (j : Nat) : (put s s' i { c with supervisor := some sup' }).channelOf j =
      if j = i then sup'.phase.channel else s.channelOf j := by
    rw [channelOf, hafter]
    split
    · rfl
    · rfl
  have hown (hsocket : ∀ tx, sup'.phase.socket = some tx →
      sup.phase.socket = some tx ∨ tx.supervisor = i) (j : Nat) :
      ∀ phase ∈ (put s s' i { c with supervisor := some sup' }).phaseOf j,
        ∀ tx ∈ phase.socket, tx.supervisor = j := by
    intro phase hp tx htx
    rw [hafter] at hp
    split at hp
    · next heq =>
      cases hp
      rcases hsocket tx htx with hold | hnew
      · rw [heq]
        exact h.own i _ hbefore tx hold
      · rw [heq, hnew]
    · exact h.own j phase hp tx htx
  have hopens (hopening : sup'.phase.opening = true → i ∉ s.cancelled) (j : Nat) :
      ∀ phase ∈ (put s s' i { c with supervisor := some sup' }).phaseOf j,
        phase.opening = true → j ∉ s.cancelled := by
    intro phase hp ho
    rw [hafter] at hp
    split at hp
    · next heq =>
      cases hp
      rw [heq]
      exact hopening ho
    · exact h.opening j phase hp ho
  have hkept (hsame : sup'.phase.channel = sup.phase.channel) (j : Nat) :
      (put s s' i { c with supervisor := some sup' }).channelOf j = s.channelOf j := by
    rw [hchannel]
    split
    · next heq => rw [hsame, heq, channelOf, hbefore, Option.bind_some]
    · rfl
  cases hruns with
  | quiet sup' hsame hsocket hopening =>
    have hkept := hkept hsame
    refine ⟨hown hsocket, fun tx htx => ?_, fun j k hj hk => ?_, fun j tx htx => ?_,
      hopens fun ho => ?_⟩
    · rw [hkept]
      exact h.owner tx htx
    · exact h.single j k (hkept j ▸ hj) (hkept k ▸ hk)
    · exact h.held j tx (hkept j ▸ htx)
    · exact (hok sup.phase hbefore).1 (hopening ho)
  | store tx sup' hphase hevent hstored =>
    have hnone := (hok sup.phase hbefore).2 ⟨by rw [hphase]; rfl, hevent⟩
    have hlive : i ∉ s.cancelled := h.opening i sup.phase hbefore (by rw [hphase]; rfl)
    have htx : tx.supervisor = i := h.own i sup.phase hbefore tx (by rw [hphase]; rfl)
    have hothers {j : Nat} (hj : j ≠ i) : s.channelOf j = none :=
      hbooks.channelOf_eq_none (by simp [hbefore]) hlive hnone hj
    have honly {j : Nat} (hj : (put s { s with sender := some tx } i
        { c with supervisor := some sup' }).channelOf j ≠ none) : j = i := by
      by_contra hne
      rw [hchannel, if_neg hne] at hj
      exact hj (hothers hne)
    refine ⟨hown fun t ht => ?_, fun t ht => ?_, fun j k hj hk => (honly hj).trans (honly hk).symm,
      fun j t ht _ => ?_, hopens fun _ => hlive⟩
    · rw [hphase]
      have hsocket := Phase.socket_of_channel hstored
      rw [ht] at hsocket
      exact .inl hsocket.symm
    · cases ht
      rw [hchannel, if_pos htx, hstored]
    · have heq := honly (by rw [ht]; simp)
      rw [hchannel, if_pos heq, hstored] at ht
      exact ht
  | hook tx sup' hphase hserving =>
    have hkept := hkept (by rw [hserving, hphase]; rfl)
    refine ⟨hown fun t ht => ?_, fun t ht => ?_, fun j k hj hk => ?_, fun j t ht => ?_, hopens ?_⟩
    · rw [hserving] at ht
      rw [hphase]
      exact .inl ht
    · rw [hkept]
      exact h.owner t ht
    · exact h.single j k (hkept j ▸ hj) (hkept k ▸ hk)
    · exact h.held j t (hkept j ▸ ht)
    · rw [hserving]
      nofun
  | clear tx sup' hphase hnone hcleared hopening =>
    have hmine : s.channelOf i ≠ none := by
      rw [channelOf, hbefore, Option.bind_some, hphase]
      simp
    have hothers {j : Nat} {t : Channel} (ht : (put s { s with sender := none } i
        { c with supervisor := some sup' }).channelOf j = some t) : j ≠ i ∧ s.channelOf j = some t := by
      rw [hchannel] at ht
      split at ht
      · rw [hcleared] at ht
        cases ht
      · next hne => exact ⟨hne, ht⟩
    have hgone {j : Nat} (hj : (put s { s with sender := none } i
        { c with supervisor := some sup' }).channelOf j ≠ none) : False := by
      obtain ⟨t, ht⟩ := Option.ne_none_iff_exists'.mp hj
      obtain ⟨hne, hch⟩ := hothers ht
      exact hne (h.single j i (by rw [hch]; simp) hmine)
    refine ⟨hown fun t ht => ?_, nofun, fun j k hj _ => (hgone hj).elim, fun j t ht _ => ?_,
      hopens fun ho => ?_⟩
    · rw [hnone] at ht
      cases ht
    · exact (hgone (by rw [ht]; simp)).elim
    · rw [hopening] at ho
      cases ho

/-! ## Runs -/

theorem Slots.undisturbed (h : s.Slots) (hbefore : s.phaseOf i = some sup.phase)
    (hruns : Runs s i sup event s' sup') (hcancelled : i ∈ s.cancelled) :
    s'.hooks = s.hooks ∧ ∀ tx, s.sender = some tx → tx.supervisor ≠ i → s'.sender = s.sender := by
  cases hruns with
  | quiet => exact ⟨rfl, fun _ _ _ => rfl⟩
  | store tx sup' hphase | hook tx sup' hphase =>
    exact absurd hcancelled (h.opening i _ hbefore (by rw [hphase]; rfl))
  | clear tx sup' hphase =>
    refine ⟨rfl, fun t ht hne => ?_⟩
    have hmine : s.channelOf i ≠ none := by
      rw [channelOf, hbefore, Option.bind_some, hphase]
      simp
    exact absurd (h.single _ i (by rw [h.owner t ht]; simp) hmine) hne

theorem Slots.inPlace (h : s.Slots) (hbooks : s.Books) (hq : s.Quiescent) : s.InPlace := by
  intro tx
  constructor
  · intro htx
    have hch := h.owner tx htx
    obtain ⟨phase, hp, hchannel⟩ := Option.bind_eq_some_iff.mp hch
    have hlive : tx.supervisor ∉ s.cancelled := by
      intro hcancelled
      rw [hq.2 _ hcancelled phase hp] at hchannel
      cases hchannel
    exact ⟨_, (hbooks.hasToken_of_phase hp).resolve_right hlive, hlive, hch⟩
  · rintro ⟨i, _, hlive, hch⟩
    exact h.held i tx hch hlive

theorem Books.closedFor (h : s.Books) : s.Closed := by
  intro j c hc hphase i hi hsup
  obtain ⟨phase, hp⟩ := Option.ne_none_iff_exists'.mp hsup
  obtain ⟨sup, hsup, _⟩ := Option.map_eq_some_iff.mp hp
  obtain ⟨d, hd, hsup⟩ := Option.bind_eq_some_iff.mp hsup
  exact h.closed j c hc (by rw [hphase]; rfl) i hi d hd (by simp [Call.tokened, hsup])

/-- Each orderly step keeps the books, and disturbs no other socket. -/
theorem sound_step (hbooks : s.Books) (hslots : s.Slots) (hok : s.Orderly input)
    (hstep : s.step input = some s') : s'.Books ∧ s'.Slots ∧ s.Undisturbed s' input := by
  cases input with
  | call kind =>
    cases hstep
    exact ⟨hbooks.call kind, hslots.call kind, trivial⟩
  | goOn i =>
    obtain ⟨c, hc, hstep⟩ := Option.bind_eq_some_iff.mp hstep
    obtain ⟨⟨after, c'⟩, hturn, rfl⟩ := Option.map_eq_some_iff.mp hstep
    have hturns := callTurns hturn
    exact ⟨hbooks.goOn hc hturns hok, hslots.goOn hbooks hc hturns hok, trivial⟩
  | supervisor i event =>
    obtain ⟨c, hc, hstep⟩ := Option.bind_eq_some_iff.mp hstep
    obtain ⟨sup, hsup, hstep⟩ := Option.bind_eq_some_iff.mp hstep
    obtain ⟨⟨after, sup'⟩, hrun, rfl⟩ := Option.map_eq_some_iff.mp hstep
    have hruns := runs hrun
    have hbefore : s.phaseOf i = some sup.phase := by
      rw [phaseOf_of_get hc, hsup]
      rfl
    refine ⟨hbooks.run hc hsup hruns, hslots.run hbooks hc hsup hruns hok, fun hcancelled => ?_⟩
    obtain ⟨hhooks, hsender⟩ := hslots.undisturbed hbefore hruns hcancelled
    exact ⟨hhooks, hsender⟩

open Reactive

/-- Where every step is orderly, the sender is in its place in every quiescent state,
no cancelled supervisor disturbs another one, and a `close` leaves no earlier
supervisor behind. -/
theorem undisturbed_of_orderly {moves : List (Move WebSocketSignaler Input)}
    (run : Run step new moves s) (hok : ∀ m ∈ moves, m.before.Orderly m.input) :
    (s.Quiescent → s.InPlace) ∧ s.Closed ∧
      ∀ m ∈ moves, ∀ s', m.before.step m.input = some s' → m.before.Undisturbed s' m.input := by
  have hinv : (s.Books ∧ s.Slots) ∧ ∀ m ∈ moves, ∀ s', m.before.step m.input = some s' →
      m.before.Undisturbed s' m.input := by
    induction run with
    | nil => exact ⟨⟨.new, .new⟩, nofun⟩
    | @snoc past s after input _ hmove ih =>
      obtain ⟨hlatest, hbefore⟩ := List.forall_mem_cons.mp hok
      obtain ⟨⟨hbooks, hslots⟩, hpast⟩ := ih hbefore
      obtain ⟨hbooks', hslots', _⟩ := sound_step hbooks hslots hlatest hmove
      refine ⟨⟨hbooks', hslots'⟩, List.forall_mem_cons.mpr ⟨fun s' hs' => ?_, hpast⟩⟩
      exact (sound_step hbooks hslots hlatest hs').2.2
  exact ⟨hinv.1.2.inPlace hinv.1.1, hinv.1.1.closedFor, hinv.2⟩

/-! ### A reset that overtakes a slow reconnect -/

section Examples

def after (inputs : List Input) : List (Move WebSocketSignaler Input) × WebSocketSignaler :=
  play step new inputs

/-- `connect` starts a supervisor that serves its socket. -/
def connected : List Input :=
  [.goOn 0, .supervisor 0 .goOn, .supervisor 0 .connected, .goOn 0, .goOn 0, .goOn 0, .call .connect]

/-- A reset sets a new token and starts a supervisor of its own. -/
def restarted : List Input := List.replicate 5 (Input.goOn 1) ++ [Input.call .resetSession]

/-- The new supervisor opens its socket and calls the hook, and the reset returns. -/
def reestablished : List Input :=
  [.goOn 1, .goOn 1, .supervisor 1 .goOn, .supervisor 1 .goOn, .supervisor 1 .connected]

/-- The old supervisor has cleared the slot before the new one connects. -/
def reset : List Input :=
  reestablished ++ [Input.supervisor 0 .goOn, .supervisor 0 .cancelled] ++ restarted ++ connected

theorem reset_undisturbed :
    (after reset).2.Quiescent ∧ (after reset).2.sender = some ⟨1, 0⟩ ∧ (after reset).2.InPlace := by
  have hquiet : (after reset).2.Quiescent := by decide +kernel
  refine ⟨hquiet, by decide +kernel, ?_⟩
  exact (undisturbed_of_orderly (run_play step new reset) (by decide +kernel)).1 hquiet

/-- The first socket has ended, and the reset overtakes the slow reconnect. The old
supervisor connects when the new one already serves, and ends when it sees that it
is cancelled. -/
def overtakenReconnect : List Input :=
  [Input.supervisor 0 .goOn, .supervisor 0 .cancelled, .supervisor 0 .goOn, .supervisor 0 .goOn,
    .supervisor 0 .connected] ++ reestablished ++ restarted ++
    [Input.supervisor 0 .woken, .supervisor 0 .goOn, .supervisor 0 .ended] ++ connected

/-- The old supervisor has called the hook after its cancellation, and has cleared the
slot of the new one, which still serves its socket. -/
theorem overtakenReconnect_clears :
    ∃ moves s, Run step new moves s ∧ s.Quiescent ∧ s.cancel = some 1 ∧ s.cancelled = [0] ∧
      s.phaseOf 1 = some (.serving ⟨1, 0⟩) ∧ s.hooks = [1, 0] ∧ s.sender = none ∧ ¬ s.InPlace := by
  have hserves : (after overtakenReconnect).2.phaseOf 1 = some (.serving ⟨1, 0⟩) := by decide +kernel
  have hnone : (after overtakenReconnect).2.sender = none := by decide +kernel
  refine ⟨_, _, run_play step new overtakenReconnect, by decide +kernel, by decide +kernel,
    by decide +kernel, hserves, by decide +kernel, hnone, fun h => ?_⟩
  have hsender := (h ⟨1, 0⟩).mpr ⟨1, by decide +kernel, by decide +kernel, by decide +kernel⟩
  rw [show (play step new overtakenReconnect).2.sender = none from hnone] at hsender
  cases hsender

end Examples

end WebSocketSignaler

end Mistlib.Signaling.WebSocket
