import Mistlib.Signaling.NativeSession

/-!
# What the steps of a session do

What a step of a call, of a pacing worker and of a change of the session leaves as it
is, which call holds the lock of the outbox, and what a change has yet to do when it
has counted the epoch up.
-/

namespace Mistlib.Signaling.Native

/-! ## What a call carries and holds -/

/-- The epoch that a call has read for a request, or was given with it. -/
def Phase.carried : Phase → Option Nat
  | .discovering _ (.reserving epoch) | .processing _ (.promoting epoch)
  | .processing _ (.reserving epoch) => some epoch
  | .queueing request _ _ => some request.epoch
  | _ => none

/-- Where a call stands in `queue_request`. -/
def Phase.queueStage : Phase → Option QueueStage
  | .queueing _ stage _ => some stage
  | _ => none

theorem Phase.queueStage_of_carried {phase : Phase} (h : phase.carried = none) :
    phase.queueStage = none := by
  cases phase with
  | queueing request stage after => cases h
  | _ => rfl

/-- Where an event begins once its kind is known. -/
def Phase.first : Phase → Bool
  | .discovering _ .checking | .processing _ .checking | .overhearing .observing | .ignoring
  | .returned => true
  | _ => false

theorem Phase.carried_of_first {phase : Phase} (h : phase.first = true) : phase.carried = none := by
  unfold Phase.first at h
  split at h
  all_goals first | rfl | cases h

/-- A call carries the epoch that it has read first. -/
def Call.Consistent (c : Call) : Prop := ∀ epoch ∈ c.phase.carried, epoch = c.epoch

namespace NostrSignaler

variable {config : NostrConfig} {s s' : NostrSignaler} {c c' : Call} {clock : Clock}
  {jitter : Duration} {phase' : Phase} {i : Nat}

/-- What a step outside `queue_request` leaves of what the workers, the changes and the
calls have in common. -/
structure Quiet (s s' : NostrSignaler) (phase' : Phase) (epoch : Nat) : Prop where
  state : ∃ dedupe tables outbox, s' = { s with dedupe, tables, outbox } ∧
    outbox.workerEpoch = s.outbox.workerEpoch ∧ (s.outbox.queue = [] → outbox.queue = [])
  queueing : ∀ stage ∈ phase'.queueStage, stage = .identifying
  carried : ∀ e ∈ phase'.carried, e = epoch

variable {epoch : Nat}

theorem quiet_same {dedupe : DedupeCache} {tables : Tables} (hstate : s' = { s with dedupe, tables })
    (hqueueing : ∀ stage ∈ phase'.queueStage, stage = .identifying)
    (hcarried : ∀ e ∈ phase'.carried, e = epoch) : Quiet s s' phase' epoch :=
  ⟨⟨dedupe, tables, s.outbox, hstate, rfl, id⟩, hqueueing, hcarried⟩

theorem quiet_plain {dedupe : DedupeCache} {tables : Tables} (hstate : s' = { s with dedupe, tables })
    (hcarried : phase'.carried = none) :
    Quiet s s' phase' epoch := by
  refine quiet_same hstate (fun stage hstage => ?_) fun e he => ?_
  · rw [Phase.queueStage_of_carried hcarried] at hstage
    cases hstage
  · rw [hcarried] at he
    cases he

theorem carried_ite {p : Prop} [Decidable p] {a b : Phase} (ha : a.carried = none)
    (hb : b.carried = none) : (if p then a else b).carried = none := by
  split
  · exact ha
  · exact hb

theorem quiet_discover {decoded : DecodedDiscovery} {stage : DiscoveryStage}
    (hcarried : ∀ e ∈ (Phase.discovering decoded stage).carried, e = c.epoch)
    (h : s.discover config c clock jitter decoded stage = (s', phase')) :
    Quiet s s' phase' c.epoch := by
  cases stage with
  | checking | deduping =>
    cases h
    exact quiet_plain rfl (carried_ite rfl rfl)
  | observing | advertising =>
    cases h
    exact quiet_plain rfl rfl
  | recording =>
    simp only [discover] at h
    split at h
    all_goals
      cases h
      exact quiet_plain rfl rfl
  | requesting shouldRequest =>
    simp only [discover] at h
    split at h
    · split at h
      all_goals
        cases h
        exact quiet_plain rfl rfl
    · cases h
      exact quiet_plain rfl rfl
  | rechecking =>
    cases h
    split
    · next hstill =>
      have hcurrent := (Bool.and_eq_true_iff.mp hstill).2
      refine quiet_same rfl nofun fun e he => ?_
      cases he
      exact of_decide_eq_true hcurrent
    · exact quiet_plain rfl rfl
  | reserving epoch =>
    simp only [discover] at h
    split at h
    · cases h
      split
      · exact quiet_same rfl (fun _ hstage => (Option.some.inj hstage).symm) hcarried
      · exact quiet_plain rfl rfl
    · cases h
      exact quiet_plain rfl rfl

theorem quiet_overhear {stage : MailboxStage} (h : s.overhear config c clock stage = (s', phase')) :
    Quiet s s' phase' epoch := by
  cases stage with
  | observing | observingExchange | deduping =>
    cases h
    exact quiet_plain rfl rfl

theorem carried_afterProgress (decoded : DecodedMessage) (reboundFrom : Option String) :
    (afterProgress decoded reboundFrom).carried = none := by
  cases reboundFrom <;> rfl

theorem queue_promoteReply (o : DiscoveryOutbox) (pubkey : String) (h : o.queue = []) :
    (o.promoteReply pubkey).2.queue = [] := by
  rw [DiscoveryOutbox.promoteReply, h]
  exact h

theorem workerEpoch_promoteReply (o : DiscoveryOutbox) (pubkey : String) :
    (o.promoteReply pubkey).2.workerEpoch = o.workerEpoch := by
  unfold DiscoveryOutbox.promoteReply
  split <;> rfl

theorem quiet_processMessage {decoded : DecodedMessage} {stage : MessageStage}
    (hcarried : ∀ e ∈ (Phase.processing decoded stage).carried, e = c.epoch)
    (h : s.processMessage config c clock decoded stage = some (s', phase')) :
    Quiet s s' phase' c.epoch := by
  cases stage with
  | checking | deduping | admitting wasRequested requested | ordering wasRequested | notifying
  | forwarding | replied =>
    cases h
    exact quiet_plain rfl (carried_ite rfl rfl)
  | binding wasRequested =>
    simp only [processMessage] at h
    split at h
    · split at h
      all_goals
        cases h
        exact quiet_plain rfl rfl
    · cases h
      exact quiet_plain rfl rfl
  | observing reboundFrom =>
    cases h
    exact quiet_plain rfl (carried_ite rfl (carried_afterProgress _ _))
  | progressing reboundFrom =>
    cases h
    exact quiet_plain rfl (carried_afterProgress _ _)
  | rechecking =>
    cases h
    split
    · next hstill =>
      have hcurrent := (Bool.and_eq_true_iff.mp hstill).2
      refine quiet_same rfl nofun fun e he => ?_
      cases he
      exact of_decide_eq_true hcurrent
    · exact quiet_plain rfl rfl
  | promoting epoch =>
    simp only [processMessage] at h
    split at h
    · cases h
    · split at h
      · cases h
        refine ⟨⟨s.dedupe, s.tables, _, rfl, workerEpoch_promoteReply _ _,
          queue_promoteReply _ _⟩, nofun, ?_⟩
        split
        · exact nofun
        · exact hcarried
      · cases h
        exact quiet_plain rfl rfl
  | reserving epoch =>
    simp only [processMessage] at h
    split at h
    · cases h
      split
      · exact quiet_same rfl (fun _ hstage => (Option.some.inj hstage).symm) hcarried
      · exact quiet_plain rfl rfl
    · cases h
      exact quiet_plain rfl rfl
  | _ =>
    cases h
    exact quiet_plain rfl rfl

theorem queue_stopProbes (o : DiscoveryOutbox) (h : o.queue = []) : o.stopProbes.2.queue = [] := by
  rw [DiscoveryOutbox.stopProbes, h]
  rfl

theorem quiet_maintain {connectedPeers : Nat} {stage : MaintainStage}
    (h : s.maintain config c connectedPeers clock stage = some (s', c')) :
    Quiet s s' c'.phase c'.epoch ∧ c'.dropped = c.dropped := by
  cases stage with
  | entering =>
    simp only [maintain] at h
    split at h
    all_goals
      cases h
      exact ⟨quiet_plain rfl rfl, rfl⟩
  | identifying | stopping | polling | choosing =>
    cases h
    exact ⟨quiet_plain rfl rfl, rfl⟩
  | stoppingProbes =>
    simp only [maintain] at h
    split at h
    · cases h
    · cases h
      have hnone {α : Type} {P : α → Prop} : ∀ a ∈ (none : Option α), P a :=
        nofun
      exact ⟨⟨⟨s.dedupe, s.tables, _, rfl, rfl, queue_stopProbes _⟩, hnone, hnone⟩, rfl⟩
  | releasing dropped =>
    cases dropped with
    | nil | cons pubkey dropped =>
      cases h
      exact ⟨quiet_plain rfl rfl, rfl⟩
  | retrying retries =>
    cases retries with
    | nil =>
      cases h
      exact ⟨quiet_plain rfl rfl, rfl⟩
    | cons pubkey retries =>
      cases h
      exact ⟨quiet_plain rfl (carried_ite rfl rfl), rfl⟩
  | retryingIn pubkey retries | reserving pubkey candidates =>
    simp only [maintain, Option.some.injEq, Prod.mk.injEq] at h
    obtain ⟨rfl, rfl⟩ := h
    refine ⟨?_, rfl⟩
    dsimp only
    split
    · exact quiet_same rfl (fun _ hstage => (Option.some.inj hstage).symm)
        fun _ he => (Option.some.inj he).symm
    · exact quiet_plain rfl rfl
  | probing candidates =>
    cases candidates with
    | nil =>
      cases h
      exact ⟨quiet_plain rfl rfl, rfl⟩
    | cons pubkey candidates =>
      cases h
      exact ⟨quiet_plain rfl (carried_ite rfl rfl), rfl⟩
  | probingIn pubkey candidates | probingAs pubkey candidates =>
    cases h
    exact ⟨quiet_plain rfl (carried_ite rfl rfl), rfl⟩

/-- What a step of a call is, one case for each phase. -/
inductive Goes (config : NostrConfig) (s : NostrSignaler) (i : Nat) (c : Call) (clock : Clock)
    (jitter : Duration) : NostrSignaler → Call → Prop
  | starts {phase : Phase} (hphase : c.phase = .identifying)
      (hnext : phase = .entering ∨ phase = .returned) :
      Goes config s i c clock jitter s { c with identity := s.currentIdentity config, phase }
  | enters {phase : Phase} {room : String} (hphase : c.phase = .entering)
      (hroom : s.roomId = some room ∨ phase = .returned) (hfirst : phase.first = true) :
      Goes config s i c clock jitter s { c with room, phase }
  | discovers {decoded : DecodedDiscovery} {stage : DiscoveryStage} {t : NostrSignaler} {phase : Phase}
      (hphase : c.phase = .discovering decoded stage)
      (h : s.discover config c clock jitter decoded stage = (t, phase)) :
      Goes config s i c clock jitter t { c with phase }
  | overhears {stage : MailboxStage} {t : NostrSignaler} {phase : Phase} (hphase : c.phase = .overhearing stage)
      (h : s.overhear config c clock stage = (t, phase)) :
      Goes config s i c clock jitter t { c with phase }
  | ignores (hphase : c.phase = .ignoring) :
      Goes config s i c clock jitter
        { s with dedupe := (s.dedupe.checkAndInsert c.event clock.instant).2 }
        { c with phase := .returned }
  | processes {decoded : DecodedMessage} {stage : MessageStage} {t : NostrSignaler} {phase : Phase}
      (hphase : c.phase = .processing decoded stage)
      (h : s.processMessage config c clock decoded stage = some (t, phase)) :
      Goes config s i c clock jitter t { c with phase }
  | maintains {connectedPeers : Nat} {stage : MaintainStage} {t : NostrSignaler} {d : Call}
      (hphase : c.phase = .maintaining stage)
      (h : s.maintain config c connectedPeers clock stage = some (t, d)) :
      Goes config s i c clock jitter t d
  | queues {request : QueueRequest} {stage : QueueStage} {after : After} {t : NostrSignaler}
      {phase : Phase} (hphase : c.phase = .queueing request stage after)
      (h : s.queueRequest config i clock request after stage = some (t, phase)) :
      Goes config s i c clock jitter t { c with phase }

theorem processCall_goes (h : s.processCall config i c clock jitter = some (s', c')) :
    Goes config s i c clock jitter s' c' := by
  cases hphase : c.phase with
  | identifying =>
    simp only [processCall, hphase] at h
    cases h
    refine .starts hphase ?_
    split
    · exact .inl rfl
    · exact .inr rfl
  | entering =>
    simp only [processCall, hphase] at h
    split at h
    · cases h
      exact .enters hphase (.inr rfl) rfl
    · next room hroom =>
      split at h
      · split at h
        all_goals
          cases h
          exact .enters hphase (.inl hroom) rfl
      · split at h
        all_goals
          cases h
          exact .enters hphase (.inl hroom) rfl
      · cases h
        exact .enters hphase (.inr rfl) rfl
  | discovering decoded stage =>
    simp only [processCall, hphase] at h
    cases h
    exact .discovers hphase rfl
  | overhearing stage =>
    simp only [processCall, hphase] at h
    cases h
    exact .overhears hphase rfl
  | ignoring =>
    simp only [processCall, hphase] at h
    cases h
    exact .ignores hphase
  | processing decoded stage =>
    simp only [processCall, hphase, Option.map_eq_some_iff] at h
    obtain ⟨⟨after, phase'⟩, hmessage, heq⟩ := h
    cases heq
    exact .processes hphase hmessage
  | maintaining stage =>
    simp only [processCall, hphase] at h
    split at h
    · exact .maintains hphase h
    · cases h
  | queueing request stage after =>
    simp only [processCall, hphase, Option.map_eq_some_iff] at h
    obtain ⟨⟨after', phase'⟩, hqueue, heq⟩ := h
    cases heq
    exact .queues hphase hqueue
  | returned =>
    simp only [processCall, hphase] at h
    cases h

theorem processCall_cases (hconsistent : c.Consistent)
    (h : s.processCall config i c clock jitter = some (s', c')) :
    (∃ request stage after phase', c.phase = .queueing request stage after ∧
      s.queueRequest config i clock request after stage = some (s', phase') ∧
      c' = { c with phase := phase' }) ∨
    c.phase.queueStage = none ∧
      Quiet s s' c'.phase c'.epoch ∧ c'.dropped = c.dropped := by
  have hcarried {phase : Phase} (hphase : c.phase = phase) : ∀ e ∈ phase.carried, e = c.epoch := by
    rw [← hphase]
    exact hconsistent
  cases processCall_goes h with
  | starts hphase hnext =>
    refine .inr ⟨by rw [hphase]; rfl, quiet_plain rfl ?_, rfl⟩
    rcases hnext with rfl | rfl <;> rfl
  | enters hphase hroom hfirst =>
    exact .inr ⟨by rw [hphase]; rfl, quiet_plain rfl (Phase.carried_of_first hfirst), rfl⟩
  | discovers hphase hdiscover =>
    have hquiet : Quiet s s' _ c.epoch := quiet_discover (hcarried hphase) hdiscover
    exact .inr ⟨by rw [hphase]; rfl, hquiet, rfl⟩
  | overhears hphase hoverhear =>
    have hquiet : Quiet s s' _ c.epoch := quiet_overhear hoverhear
    exact .inr ⟨by rw [hphase]; rfl, hquiet, rfl⟩
  | ignores hphase => exact .inr ⟨by rw [hphase]; rfl, quiet_plain rfl rfl, rfl⟩
  | processes hphase hmessage =>
    exact .inr ⟨by rw [hphase]; rfl, quiet_processMessage (hcarried hphase) hmessage, rfl⟩
  | maintains hphase hmaintain => exact .inr ⟨by rw [hphase]; rfl, quiet_maintain hmaintain⟩
  | queues hphase hqueue => exact .inl ⟨_, _, _, _, hphase, hqueue, rfl⟩

/-! ### What steps leave as it is -/

/-- What a step of a call or of a worker leaves as it is. -/
def Frame (s s' : NostrSignaler) : Prop :=
  ∃ dedupe tables outbox outboxHolder more,
    s' = { s with dedupe, tables, outbox, outboxHolder, workers := s.workers ++ more }

theorem Quiet.frame (h : Quiet s s' phase' epoch) : Frame s s' := by
  obtain ⟨dedupe, tables, outbox, rfl, -, -⟩ := h.state
  exact ⟨dedupe, tables, outbox, s.outboxHolder, [], by rw [List.append_nil]⟩

theorem frame_queueRequest {request : QueueRequest} {after : After} {stage : QueueStage}
    (h : s.queueRequest config i clock request after stage = some (s', phase')) : Frame s s' := by
  have hsame : Frame s s := ⟨_, _, _, _, [], by rw [List.append_nil]⟩
  cases stage with
  | identifying | evidencing identity =>
    cases h
    exact hsame
  | locking identity =>
    simp only [queueRequest] at h
    split at h
    · cases h
    · split at h
      · cases h
        exact ⟨_, _, _, _, [], by rw [List.append_nil]⟩
      · cases h
        exact hsame
  | pushing identity evidence =>
    simp only [queueRequest] at h
    split at h
    all_goals
      cases h
      exact ⟨_, _, _, _, [], by rw [List.append_nil]; rfl⟩
  | spawning identity =>
    cases h
    exact ⟨_, _, _, _, _, rfl⟩

theorem frame_processCall (hconsistent : c.Consistent)
    (h : s.processCall config i c clock jitter = some (s', c')) : Frame s s' := by
  rcases processCall_cases hconsistent h with ⟨_, _, _, _, _, hqueue, _⟩ | ⟨_, hquiet, _⟩
  · exact frame_queueRequest hqueue
  · exact hquiet.frame

theorem pace_frame {w : Worker} {published : Published} {phase phase' : WorkerPhase}
    (h : s.pace config w clock published phase = some (s', phase')) :
    ∃ exchanges outbox, s' = { s with tables := { s.tables with exchanges }, outbox } := by
  cases phase with
  | pacing | popping =>
    simp only [pace] at h
    split at h
    · cases h
    · split at h
      · split at h
        all_goals
          cases h
          exact ⟨_, _, rfl⟩
      · cases h
        exact ⟨_, _, rfl⟩
  | publishing item =>
    cases published with
    | sent | refused | failed =>
      cases h
      exact ⟨_, _, rfl⟩
  | finishing item =>
    simp only [pace] at h
    split at h
    · cases h
    · cases h
      exact ⟨_, _, rfl⟩
  | returned => cases h
  | _ =>
    cases h
    exact ⟨_, s.outbox, rfl⟩

end NostrSignaler

/-! ## The lock of the outbox -/

/-- The lock is taken over these awaits. -/
def QueueStage.holds : QueueStage → Bool
  | .evidencing _ | .pushing _ _ => true
  | _ => false

def Call.HoldsOutbox (c : Call) : Prop :=
  c.dropped = false ∧ ∃ stage ∈ c.phase.queueStage, stage.holds = true

namespace NostrSignaler

variable {config : NostrConfig} {s s' : NostrSignaler} {c c' : Call} {clock : Clock}
  {jitter : Duration} {phase' : Phase} {i : Nat}

theorem queueStage_after (after : After) : after.phase.queueStage = none := by
  cases after <;> rfl

theorem carried_after (after : After) : after.phase.carried = none := by
  cases after <;> rfl

section

variable {request : QueueRequest} {after : After} {stage : QueueStage}
  (h : s.queueRequest config i clock request after stage = some (s', phase'))
include h

theorem holds_queueRequest : (∀ stage' ∈ phase'.queueStage, stage'.holds = true →
      (s.sessionIsCurrent request.epoch = true ∧ s'.outboxHolder = some i) ∨
        stage.holds = true ∧ s'.outboxHolder = s.outboxHolder) ∧
    (s'.outboxHolder = s.outboxHolder ∨ s.outboxHolder = none ∨ stage.holds = true) := by
  have hafter {P : QueueStage → Prop} : ∀ stage' ∈ after.phase.queueStage, P stage' := by
    rw [queueStage_after]
    exact nofun
  cases stage with
  | identifying =>
    cases h
    exact ⟨fun _ hstage hholds => (by cases hstage; cases hholds), .inl rfl⟩
  | locking identity =>
    simp only [queueRequest] at h
    split at h
    · cases h
    · next hfree =>
      have hnone : s.outboxHolder = none := Option.not_isSome_iff_eq_none.mp hfree
      split at h
      · next hcurrent =>
        cases h
        exact ⟨fun _ _ _ => .inl ⟨hcurrent, rfl⟩, .inr (.inl hnone)⟩
      · cases h
        exact ⟨hafter, .inl rfl⟩
  | evidencing identity =>
    cases h
    exact ⟨fun _ _ _ => .inr ⟨rfl, rfl⟩, .inl rfl⟩
  | pushing identity evidence =>
    simp only [queueRequest] at h
    split at h
    · cases h
      exact ⟨hafter, .inr (.inr rfl)⟩
    · cases h
      exact ⟨fun _ hstage hholds => (by cases hstage; cases hholds), .inr (.inr rfl)⟩
  | spawning identity =>
    cases h
    exact ⟨hafter, .inl rfl⟩

theorem carried_queueRequest : ∀ epoch ∈ phase'.carried, epoch = request.epoch := by
  have hafter : ∀ epoch ∈ after.phase.carried, epoch = request.epoch := by
    rw [carried_after]
    exact nofun
  cases stage with
  | identifying | evidencing identity =>
    cases h
    exact fun _ he => (Option.some.inj he).symm
  | locking identity =>
    simp only [queueRequest] at h
    split at h
    · cases h
    · split at h
      · cases h
        exact fun _ he => (Option.some.inj he).symm
      · cases h
        exact hafter
  | pushing identity evidence =>
    simp only [queueRequest] at h
    split at h
    · cases h
      exact hafter
    · cases h
      exact fun _ he => (Option.some.inj he).symm
  | spawning identity =>
    cases h
    exact hafter

end

theorem consistent_processCall (hconsistent : c.Consistent)
    (h : s.processCall config i c clock jitter = some (s', c')) : c'.Consistent := by
  rcases processCall_cases hconsistent h with
    ⟨request, stage, after, phase', hphase, hqueue, rfl⟩ | ⟨_, hquiet, _⟩
  · intro epoch hepoch
    rw [carried_queueRequest hqueue epoch hepoch]
    exact hconsistent _ (by rw [hphase]; rfl)
  · exact hquiet.carried

theorem holds_processCall (hconsistent : c.Consistent) (hdropped : c.dropped = false)
    (h : s.processCall config i c clock jitter = some (s', c')) :
    (c'.HoldsOutbox → (s.sessionIsCurrent c'.epoch = true ∧ s'.outboxHolder = some i) ∨
      c.HoldsOutbox ∧ c'.epoch = c.epoch ∧ s'.outboxHolder = s.outboxHolder) ∧
    (s'.outboxHolder = s.outboxHolder ∨ s.outboxHolder = none ∨ c.HoldsOutbox) := by
  rcases processCall_cases hconsistent h with
    ⟨request, stage, after, phase', hphase, hqueue, rfl⟩ | ⟨_, hquiet, _⟩
  · have hstage : stage ∈ c.phase.queueStage := by
      rw [hphase]
      rfl
    have hepoch : request.epoch = c.epoch := hconsistent _ (by rw [hphase]; rfl)
    obtain ⟨htaken, hleft⟩ := holds_queueRequest hqueue
    constructor
    · rintro ⟨-, stage', hstage', hholds'⟩
      refine (htaken stage' hstage' hholds').imp (fun hnow => ⟨?_, hnow.2⟩) fun hkept => ?_
      · rw [← hepoch]
        exact hnow.1
      · exact ⟨⟨hdropped, stage, hstage, hkept.1⟩, rfl, hkept.2⟩
    · exact hleft.imp_right fun h => h.imp_right fun hholds => ⟨hdropped, stage, hstage, hholds⟩
  · constructor
    · rintro ⟨-, stage', hstage', hholds'⟩
      rw [hquiet.queueing stage' hstage'] at hholds'
      cases hholds'
    · obtain ⟨_, _, _, rfl, -, -⟩ := hquiet.state
      exact .inl rfl

end NostrSignaler

/-! ## What a change has yet to do -/

def SessionStep.begins : SessionStep → Bool
  | .enterRoom _ | .beginReset | .beginClose => true
  | _ => false

/-- The change has counted the epoch up. -/
def Change.Begun (ch : Change) : Prop := ∀ step ∈ ch.remaining, step.begins = false
deriving Decidable

theorem begins_clearSessionState : ∀ step ∈ clearSessionState, step.begins = false := by decide

theorem script_cases (kind : ChangeKind) :
    kind.script = [] ∨ ∃ first before last,
      kind.script = first :: (before ++ clearSessionState ++ last) ∧ first.begins = true ∧
        (∀ step ∈ before, step.begins = false) ∧ (last = [] ∨ last = [.dropIdentity]) := by
  cases kind with
  | setRoomId room =>
    simp only [ChangeKind.script]
    split
    · exact .inl rfl
    · exact .inr ⟨.enterRoom room, [], [], rfl, rfl, by simp, .inl rfl⟩
  | resetSession publicKey =>
    refine .inr ⟨.beginReset, [.rotateIdentity publicKey], [], rfl, rfl, ?_, .inl rfl⟩
    intro step hstep
    rw [List.mem_singleton.mp hstep]
    rfl
  | close =>
    exact .inr ⟨.beginClose, [.cancelPacing, .leaveRoom], [.dropIdentity], rfl, rfl, by decide,
      .inr rfl⟩

variable {kind : ChangeKind}

theorem begins_of_suffix {next : SessionStep} {rest : List SessionStep}
    (h : next :: rest <:+ kind.script) :
    (∀ step ∈ rest, step.begins = false) ∧
      (next.begins = true → ∀ step ∈ clearSessionState, step ∈ rest) := by
  rcases script_cases kind with hnil | ⟨first, before, last, hscript, -, hbefore, hlast⟩
  · rw [hnil] at h
    exact absurd (List.suffix_nil.mp h) (List.cons_ne_nil _ _)
  · have htail : ∀ step ∈ before ++ clearSessionState ++ last, step.begins = false := by
      intro step hstep
      rcases List.mem_append.mp hstep with hstep | hstep
      · rcases List.mem_append.mp hstep with hstep | hstep
        · exact hbefore step hstep
        · exact begins_clearSessionState step hstep
      · rcases hlast with rfl | rfl
        · cases hstep
        · rw [List.mem_singleton.mp hstep]
          rfl
    rw [hscript, List.suffix_cons_iff] at h
    rcases h with heq | hsuffix
    · cases heq
      exact ⟨htail, fun _ step hstep => List.mem_append_left _ (List.mem_append_right _ hstep)⟩
    · have hmem : ∀ step ∈ next :: rest, step.begins = false :=
        fun step hstep => htail step (hsuffix.subset hstep)
      obtain ⟨hnext, hrest⟩ := List.forall_mem_cons.mp hmem
      exact ⟨hrest, fun hbegins => by rw [hbegins] at hnext; cases hnext⟩

variable {remaining : List SessionStep}

theorem suffix_cases (h : remaining <:+ kind.script) :
    ∃ last, (last = [] ∨ last = [.dropIdentity]) ∧
      (clearSessionState ++ last <:+ remaining ∨ remaining <:+ clearSessionState ++ last) := by
  rcases script_cases kind with hnil | ⟨first, before, last, hscript, -, -, hlast⟩
  · rw [hnil, List.suffix_nil] at h
    exact ⟨[], .inl rfl, .inr (by rw [h]; exact List.nil_suffix)⟩
  · refine ⟨last, hlast, List.suffix_or_suffix_of_suffix ?_ h⟩
    rw [hscript]
    exact ⟨first :: before, by simp only [List.cons_append, List.append_assoc]⟩

theorem clear_of_clearOutbox (h : remaining <:+ kind.script) (hmem : .clearOutbox ∈ remaining) :
    ∀ step ∈ clearSessionState.tail, step ∈ remaining := by
  intro step hstep
  obtain ⟨last, hlast, hwhole | hpart⟩ := suffix_cases h
  · exact hwhole.subset (List.mem_append_left _ (List.mem_of_mem_tail hstep))
  · rcases List.suffix_cons_iff.mp hpart with rfl | hpart
    · exact List.mem_cons_of_mem _ (List.mem_append_left _ hstep)
    · rcases List.suffix_cons_iff.mp hpart with rfl | hpart
      · exact List.mem_append_left _ hstep
      · have hnot : SessionStep.clearOutbox ∉ clearSessionState.tail.tail ++ last := by
          rcases hlast with rfl | rfl <;> decide
        exact absurd (hpart.subset hmem) hnot

theorem late_of_suffix (h : remaining <:+ kind.script) (hdone : .clearOutbox ∉ remaining) :
    ∀ step ∈ remaining, step ∈ clearSessionState.tail.tail ∨ step = .dropIdentity := by
  intro step hstep
  obtain ⟨last, hlast, hwhole | hpart⟩ := suffix_cases h
  · exact absurd (hwhole.subset (List.mem_append_left _ (by decide))) hdone
  · rcases List.suffix_cons_iff.mp hpart with rfl | hpart
    · exact absurd (List.mem_cons_of_mem _ List.mem_cons_self) hdone
    · rcases List.suffix_cons_iff.mp hpart with rfl | hpart
      · exact absurd List.mem_cons_self hdone
      · rcases List.mem_append.mp (hpart.subset hstep) with hclear | hlaststep
        · exact .inl hclear
        · rcases hlast with rfl | rfl
          · cases hlaststep
          · exact .inr (List.mem_singleton.mp hlaststep)

/-- A change that has cancelled the pacing replaces it before it clears the outbox. -/
theorem replace_of_cancelPacing {rest : List SessionStep} (h : .cancelPacing :: rest <:+ kind.script) :
    .replacePacing ∈ rest := by
  obtain ⟨last, hlast, hwhole | hpart⟩ := suffix_cases h
  · rcases List.suffix_cons_iff.mp hwhole with heq | hwhole
    · cases heq
    · exact hwhole.subset List.mem_cons_self
  · have hnot : SessionStep.cancelPacing ∉ clearSessionState ++ last := by
      rcases hlast with rfl | rfl <;> decide
    exact absurd (hpart.subset List.mem_cons_self) hnot

namespace NostrSignaler

variable {config : NostrConfig} {s s' : NostrSignaler} {next task : SessionStep}
  {rest : List SessionStep} {goesOn : Bool} {i : Nat} {ch : Change}

/-- Some change that has begun has the step yet to take. -/
def ToDo (s : NostrSignaler) (step : SessionStep) : Prop :=
  ∃ ch ∈ s.changes, ch.Begun ∧ step ∈ ch.remaining
deriving Decidable

/-! ### One step of a change -/

/-- What a step of a change leaves as it is. -/
def ChangeFrame (s s' : NostrSignaler) : Prop :=
  ∃ sessionEpoch roomId rotatedIdentity dedupe tables outbox pacingCancel cancelled,
    s' = { s with sessionEpoch, roomId, rotatedIdentity, dedupe, tables, outbox, pacingCancel,
                  cancelled }

section

variable (h : s.changeSession config next = some (s', goesOn))
include h

theorem frame_changeSession : ChangeFrame s s' := by
  cases next with
  | enterRoom room | beginReset =>
    simp only [changeSession] at h
    split at h
    all_goals
      cases h
      exact ⟨_, _, _, _, _, _, _, _, rfl⟩
  | clearOutbox =>
    simp only [changeSession] at h
    split at h
    · cases h
    · cases h
      exact ⟨_, _, _, _, _, _, _, _, rfl⟩
  | _ =>
    cases h
    exact ⟨_, _, _, _, _, _, _, _, rfl⟩

theorem changeSession_begins (hbegins : next.begins = true) :
    (∃ roomId, s' = { s with roomId, sessionEpoch := s.sessionEpoch + 1 } ∧ goesOn = true) ∨
      s' = s ∧ goesOn = false := by
  cases next with
  | enterRoom room =>
    simp only [changeSession] at h
    split at h
    · cases h
      exact .inr ⟨rfl, rfl⟩
    · cases h
      exact .inl ⟨_, rfl, rfl⟩
  | beginReset =>
    simp only [changeSession] at h
    split at h
    · cases h
      exact .inl ⟨_, rfl, rfl⟩
    · cases h
      exact .inr ⟨rfl, rfl⟩
  | beginClose =>
    cases h
    exact .inl ⟨_, rfl, rfl⟩
  | _ => cases hbegins

theorem changeSession_goesOn (hbegins : next.begins = false) :
    goesOn = true ∧ s'.sessionEpoch = s.sessionEpoch := by
  cases next with
  | enterRoom room | beginReset | beginClose => cases hbegins
  | clearOutbox =>
    simp only [changeSession] at h
    split at h
    · cases h
    · cases h
      exact ⟨rfl, rfl⟩
  | _ =>
    cases h
    exact ⟨rfl, rfl⟩

end

theorem holder_of_clearOutbox (h : s.changeSession config .clearOutbox = some (s', goesOn)) :
    s.outboxHolder = none := by
  simp only [changeSession] at h
  split at h
  · cases h
  · next hfree => exact Option.not_isSome_iff_eq_none.mp hfree

/-! ### The steps of a machine -/

variable {clock : Clock}

theorem goOn_cases {jitter : Duration} (h : s.step config (.goOn i clock jitter) = some s') :
    ∃ c c' after, s.calls[i]? = some c ∧ c.dropped = false ∧
      s.processCall config i c clock jitter = some (after, c') ∧
      s' = { after with calls := after.calls.set i c' } := by
  obtain ⟨c, hc, h⟩ := Option.bind_eq_some_iff.mp h
  split at h
  · cases h
  · next hdropped =>
    obtain ⟨⟨after, c'⟩, hstep, rfl⟩ := Option.map_eq_some_iff.mp h
    exact ⟨c, c', after, hc, Bool.eq_false_iff.mpr hdropped, hstep, rfl⟩

theorem work_cases {published : Published} (h : s.step config (.work i clock published) = some s') :
    ∃ w phase after, s.workers[i]? = some w ∧
      s.pace config w clock published w.phase = some (after, phase) ∧
      s' = { after with workers := after.workers.set i { w with phase } } := by
  obtain ⟨w, hw, h⟩ := Option.bind_eq_some_iff.mp h
  obtain ⟨⟨after, phase⟩, hstep, rfl⟩ := Option.map_eq_some_iff.mp h
  exact ⟨w, phase, after, hw, hstep, rfl⟩

theorem cancelled_cases (h : s.step config (.cancelled i) = some s') :
    ∃ w, s.workers[i]? = some w ∧ w.cancel ∈ s.cancelled ∧
      s' = { s with workers := s.workers.set i { w with phase := .returned } } := by
  obtain ⟨w, hw, h⟩ := Option.bind_eq_some_iff.mp h
  split at h
  · next hcancelled => exact ⟨w, hw, hcancelled, (Option.some.inj h).symm⟩
  · cases h

theorem advance_cases (h : s.step config (.advance i) = some s') :
    ∃ ch next rest after goesOn, s.changes[i]? = some ch ∧ ch.remaining = next :: rest ∧
      s.changeSession config next = some (after, goesOn) ∧
      s' = { after with
        changes := after.changes.set i { ch with remaining := if goesOn then rest else [] } } := by
  obtain ⟨ch, hch, h⟩ := Option.bind_eq_some_iff.mp h
  split at h
  · cases h
  · next next rest hremaining =>
    obtain ⟨⟨after, goesOn⟩, hstep, rfl⟩ := Option.map_eq_some_iff.mp h
    exact ⟨ch, next, rest, after, goesOn, hch, hremaining, hstep, rfl⟩

theorem drop_cases (h : s.step config (.drop i) = some s') :
    ∃ c, s.calls[i]? = some c ∧
      s' = { s with
        calls := s.calls.set i { c with dropped := true }
        outboxHolder := if s.outboxHolder = some i then none else s.outboxHolder } := by
  obtain ⟨c, hc, rfl⟩ := Option.map_eq_some_iff.mp h
  exact ⟨c, hc, rfl⟩

theorem ToDo.of_changes (h : s.ToDo task) (hchanges : s.changes ⊆ s'.changes) : s'.ToDo task := by
  obtain ⟨ch, hch, hdo⟩ := h
  exact ⟨ch, hchanges hch, hdo⟩

theorem ToDo.advance {left : List SessionStep} (h : s.ToDo task) (hch : s.changes[i]? = some ch)
    (hremaining : ch.remaining = next :: rest) (hne : task ≠ next)
    (hleft : left = rest ∨ next.begins = true)
    (hchanges : s'.changes = s.changes.set i { ch with remaining := left }) : s'.ToDo task := by
  have hset : ∃ d ∈ s.changes.set i { ch with remaining := left },
      d.Begun ∧ task ∈ d.remaining := by
    refine Calls.exists_set (P := fun d : Change => d.Begun ∧ task ∈ d.remaining) hch ?_ h
    rintro ⟨hbegun, hmem⟩
    rw [Change.Begun, hremaining] at hbegun
    obtain ⟨hnext, hrest⟩ := List.forall_mem_cons.mp hbegun
    rcases hleft with rfl | hbegins
    · rw [hremaining] at hmem
      exact ⟨hrest, (List.mem_cons.mp hmem).resolve_left hne⟩
    · rw [hbegins] at hnext
      cases hnext
  unfold ToDo
  rw [hchanges]
  exact hset

theorem ToDo.of_advance {left : List SessionStep} (hch : s.changes[i]? = some ch)
    (hremaining : ch.remaining = next :: rest) (hleft : left = [] ∨ left = rest ∧ ch.Begun)
    (hchanges : s'.changes = s.changes.set i { ch with remaining := left })
    (h : s'.ToDo task) : s.ToDo task := by
  obtain ⟨d, hd, hbegund, hmem⟩ := h
  rw [hchanges] at hd
  rcases List.mem_or_eq_of_mem_set hd with hd | rfl
  · exact ⟨d, hd, hbegund, hmem⟩
  · rcases hleft with rfl | ⟨rfl, hbegun⟩
    · cases hmem
    · refine ⟨ch, List.mem_of_getElem? hch, hbegun, ?_⟩
      rw [hremaining]
      exact List.mem_cons_of_mem _ hmem

theorem ToDo.of_change {kind : ChangeKind}
    (hchanges : s'.changes = s.changes ++ [⟨kind, kind.script⟩]) (h : s'.ToDo task) : s.ToDo task := by
  obtain ⟨d, hd, hbegun, hmem⟩ := h
  rw [hchanges] at hd
  rcases List.mem_append.mp hd with hd | hd
  · exact ⟨d, hd, hbegun, hmem⟩
  · rw [List.mem_singleton.mp hd] at hbegun hmem
    rcases script_cases kind with hnil | ⟨first, before, last, hscript, hfirst, -, -⟩
    · dsimp only at hmem
      rw [hnil] at hmem
      cases hmem
    · have hnot := hbegun first (by dsimp only; rw [hscript]; exact List.mem_cons_self)
      rw [hfirst] at hnot
      cases hnot

/-! ## What holds throughout -/

/-- What holds of the calls and the changes in progress in any run. -/
structure Ordered (s : NostrSignaler) : Prop where
  scripts : ∀ ch ∈ s.changes, ch.remaining <:+ ch.kind.script
  consistent : ∀ c ∈ s.calls, c.Consistent
  locked : ∀ i c, s.calls[i]? = some c → c.HoldsOutbox → s.outboxHolder = some i
  /-- Who holds the outbox queues for this session, or the outbox is cleared after it. -/
  fresh : ∀ c ∈ s.calls, c.HoldsOutbox → c.epoch = s.sessionEpoch ∨ s.ToDo .clearOutbox

theorem Ordered.new (config : NostrConfig) (roomId : Option String) :
    (NostrSignaler.new config roomId).Ordered := by
  refine ⟨?_, ?_, ?_, ?_⟩ <;> simp [NostrSignaler.new]

theorem Ordered.begin {c : Call} (h : s.Ordered) (hcarried : c.phase.carried = none) :
    ({ s with calls := s.calls ++ [c] } : NostrSignaler).Ordered := by
  have hholds : ¬ c.HoldsOutbox := by
    rintro ⟨-, stage, hstage, -⟩
    rw [Phase.queueStage_of_carried hcarried] at hstage
    cases hstage
  refine ⟨h.scripts, Calls.forall_begin h.consistent fun epoch hepoch => ?_, fun j d hd hholdsd => ?_,
    Calls.forall_begin h.fresh fun hc => absurd hc hholds⟩
  · rw [hcarried] at hepoch
    cases hepoch
  · rw [Calls.get_begin] at hd
    split at hd
    · cases hd
      exact absurd hholdsd hholds
    · exact h.locked j d hd hholdsd

theorem Ordered.goOn {jitter : Duration} (h : s.Ordered)
    (hstep : s.step config (.goOn i clock jitter) = some s') : s'.Ordered := by
  obtain ⟨c, c', after, hc, hdropped, hcall, rfl⟩ := goOn_cases hstep
  have hconsistent := h.consistent c (List.mem_of_getElem? hc)
  have hconsistent' := consistent_processCall hconsistent hcall
  obtain ⟨htaken, hleft⟩ := holds_processCall hconsistent hdropped hcall
  obtain ⟨dedupe, tables, outbox, outboxHolder, more, rfl⟩ := frame_processCall hconsistent hcall
  refine ⟨h.scripts, Calls.forall_set h.consistent hconsistent', fun j d hd hholds => ?_,
    Calls.forall_set h.fresh fun hholds => ?_⟩
  · dsimp only at hd
    rw [Calls.get_set hc] at hd
    split at hd
    · next hj =>
      cases hd
      rw [hj]
      rcases htaken hholds with hnow | ⟨hbefore, -, hsame⟩
      · exact hnow.2
      · exact hsame.trans (h.locked i c hc hbefore)
    · next hj =>
      have hlock := h.locked j d hd hholds
      rcases hleft with hsame | hnone | hbefore
      · exact hsame.trans hlock
      · rw [hnone] at hlock
        cases hlock
      · have hmine := h.locked i c hc hbefore
        rw [hlock] at hmine
        exact absurd (Option.some.inj hmine) hj
  · rcases htaken hholds with hnow | ⟨hbefore, hsame, -⟩
    · exact .inl (of_decide_eq_true hnow.1).symm
    · rw [hsame]
      exact h.fresh c (List.mem_of_getElem? hc) hbefore

theorem Ordered.drop (h : s.Ordered) (hstep : s.step config (.drop i) = some s') : s'.Ordered := by
  obtain ⟨c, hc, rfl⟩ := drop_cases hstep
  refine ⟨h.scripts, Calls.forall_set h.consistent (h.consistent c (List.mem_of_getElem? hc)),
    fun j d hd hholds => ?_, Calls.forall_set h.fresh fun hholds => ?_⟩
  · dsimp only at hd
    rw [Calls.get_set hc] at hd
    split at hd
    · cases hd
      cases hholds.1
    · next hj =>
      have hlock := h.locked j d hd hholds
      simp only [hlock, Option.some.injEq, if_neg hj]
  · cases hholds.1

theorem Ordered.advance (h : s.Ordered) (hstep : s.step config (.advance i) = some s') :
    s'.Ordered := by
  obtain ⟨ch, next, rest, after, goesOn, hch, hremaining, hchange, rfl⟩ := advance_cases hstep
  have hsuffix : next :: rest <:+ ch.kind.script := by
    rw [← hremaining]
    exact h.scripts ch (List.mem_of_getElem? hch)
  have hbegins := begins_of_suffix hsuffix
  have hscripts : ∀ d ∈ s.changes.set i { ch with remaining := if goesOn then rest else [] },
      d.remaining <:+ d.kind.script := by
    refine Calls.forall_set h.scripts ?_
    dsimp only
    split
    · exact (List.suffix_cons next rest).trans hsuffix
    · exact List.nil_suffix
  cases hnext : next.begins with
  | true =>
    rcases changeSession_begins hchange hnext with ⟨roomId, rfl, rfl⟩ | ⟨rfl, rfl⟩
    · refine ⟨hscripts, h.consistent, h.locked, fun c hc hholds => .inr ?_⟩
      refine ⟨{ ch with remaining := rest }, List.mem_of_getElem? (i := i) ?_, hbegins.1,
        hbegins.2 hnext _ (by decide)⟩
      dsimp only
      rw [Calls.get_set hch, if_pos rfl]
      rfl
    · refine ⟨hscripts, h.consistent, h.locked, fun c hc hholds => ?_⟩
      refine (h.fresh c hc hholds).imp_right fun hdo => hdo.advance hch hremaining ?_ (.inr hnext) rfl
      rintro rfl
      cases hnext
  | false =>
    obtain ⟨rfl, hepoch⟩ := changeSession_goesOn hchange hnext
    have hheld : next = .clearOutbox → s.outboxHolder = none := by
      rintro rfl
      exact holder_of_clearOutbox hchange
    obtain ⟨_, _, _, _, _, _, _, _, rfl⟩ := frame_changeSession hchange
    dsimp only at hepoch
    subst hepoch
    refine ⟨hscripts, h.consistent, h.locked, fun c hc hholds => ?_⟩
    refine (h.fresh c hc hholds).imp_right fun hdo => hdo.advance hch hremaining ?_ (.inl rfl) rfl
    rintro rfl
    obtain ⟨j, hj⟩ := List.mem_iff_getElem?.mp hc
    have hlock := h.locked j c hj hholds
    rw [hheld rfl] at hlock
    cases hlock

/-- Each step keeps the sessions in order. -/
theorem Ordered.step {input : Input} (h : s.Ordered) (hstep : s.step config input = some s') :
    s'.Ordered := by
  cases input with
  | event id | maintain connectedPeers =>
    cases hstep
    exact h.begin rfl
  | goOn i clock jitter => exact h.goOn hstep
  | drop i => exact h.drop hstep
  | work i clock published =>
    obtain ⟨w, phase, after, -, hwork, rfl⟩ := work_cases hstep
    obtain ⟨_, _, rfl⟩ := pace_frame hwork
    exact { h with }
  | cancelled i =>
    obtain ⟨w, -, -, rfl⟩ := cancelled_cases hstep
    exact { h with }
  | change kind =>
    cases hstep
    refine ⟨Calls.forall_begin h.scripts (List.suffix_refl _), h.consistent, h.locked,
      fun c hc hholds => ?_⟩
    exact (h.fresh c hc hholds).imp_right fun hdo => hdo.of_changes (List.subset_append_left _ _)
  | advance i => exact h.advance hstep

end NostrSignaler

end Mistlib.Signaling.Native
