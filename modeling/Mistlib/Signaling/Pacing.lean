import Mistlib.Signaling.NativeSteps

/-!
# Who serves the outbox

`worker_epoch` keeps a second worker from starting. The call that sets it gives the outbox free
and waits for another lock before it starts the worker: if it is dropped there, nobody does. A
worker also ends when the room or the identity that it has captured are not the signaler's, and
the identity is read before the flag is taken.

Where neither happens (`Steady`), whenever nobody is queueing and no change of the session goes
on, what is in the outbox has a worker that will send it.
-/

namespace Mistlib.Signaling

theorem DiscoveryPriority.order_le (priority : DiscoveryPriority) : priority.order ≤ 2 := by
  cases priority <;> decide

namespace DiscoveryOutbox

variable {o : DiscoveryOutbox} {now : Instant}

theorem best_mem {item : DiscoveryRequest} {rest : List DiscoveryRequest}
    (h : o.queue = item :: rest) :
    ∃ next ∈ o.queue,
      next.priority.order = (o.queue.map fun item => item.priority.order).foldl min 2 := by
  let orders := o.queue.map fun item => item.priority.order
  obtain ⟨least, hleast⟩ : ∃ least, orders.min? = some least := by
    simp [orders, h, List.min?_cons]
  obtain ⟨next, hnext, horder⟩ := List.mem_map.mp (List.min?_mem hleast)
  refine ⟨next, hnext, horder.trans ?_⟩
  rw [List.foldl_min]
  change least = min 2 (orders.min?.getD 2)
  rw [hleast, Option.getD_some, Nat.min_eq_right]
  rw [← horder]
  exact next.priority.order_le

theorem queue_of_delay (h : o.delay now = none) : o.queue = [] := by
  cases hqueue : o.queue with
  | nil => rfl
  | cons item rest =>
    obtain ⟨next, hnext, horder⟩ := best_mem hqueue
    have hindex : o.nextIndex = some (o.queue.findIdx fun item =>
        decide (item.priority.order = (o.queue.map fun item => item.priority.order).foldl min 2)) := by
      rw [nextIndex, hqueue]
    have hlt := List.findIdx_lt_length_of_exists (p := fun item : DiscoveryRequest =>
      decide (item.priority.order = (o.queue.map fun item => item.priority.order).foldl min 2))
      ⟨next, hnext, decide_eq_true horder⟩
    rw [delay, hindex, Option.bind_some, List.getElem?_eq_getElem hlt] at h
    cases h

theorem workerEpoch_push (pubkey : String) (priority : DiscoveryPriority) (delay : Duration) :
    (o.push pubkey priority delay now).2.workerEpoch = o.workerEpoch := by
  simp only [push]
  split
  · split <;> rfl
  · rfl

theorem pop_keeps (o : DiscoveryOutbox) (now : Instant) : (o.pop now).2.workerEpoch = o.workerEpoch ∧
    ((o.pop now).2.queue ≠ [] → o.queue ≠ []) := by
  simp only [pop]
  split
  · split
    · refine ⟨rfl, fun h hnil => h ?_⟩
      rw [hnil]
      rfl
    · exact ⟨rfl, id⟩
  · exact ⟨rfl, id⟩

end DiscoveryOutbox

namespace Native

open Reactive

/-- What a call that is about to push will start a worker with. -/
def Phase.pushing : Phase → Option (QueueRequest × String)
  | .queueing request (.pushing identity _) _ => some (request, identity)
  | _ => none

/-- What a call has taken the flag for and is about to start a worker with. -/
def Phase.spawning : Phase → Option (QueueRequest × String)
  | .queueing request (.spawning identity) _ => some (request, identity)
  | _ => none

namespace NostrSignaler

/-! ## Workers that serve -/

def Fits (config : NostrConfig) (s : NostrSignaler) (epoch : Nat) (room identity : String) : Prop :=
  epoch = s.sessionEpoch ∧ s.roomId = some room ∧ identity = s.currentIdentity config

/-- The call is about to start a worker that will serve. -/
def Spawns (config : NostrConfig) (s : NostrSignaler) (c : Call) : Prop :=
  c.dropped = false ∧ ∃ request identity, c.phase.spawning = some (request, identity) ∧
    s.Fits config request.epoch request.room identity

/-- The worker is there, it is not cancelled, and it has captured what is current. -/
def Serves (config : NostrConfig) (s : NostrSignaler) (w : Worker) : Prop :=
  w.phase ≠ .returned ∧ w.cancel ∉ s.cancelled ∧ s.Fits config w.epoch w.room w.identity

instance (config : NostrConfig) (s : NostrSignaler) : DecidablePred (s.Serves config) :=
  fun _ => inferInstanceAs (Decidable (_ ∧ _ ∧ _ ∧ _ ∧ _))

/-- No call of `queue_request` is in progress, and no change of the session. -/
def Idle (s : NostrSignaler) : Prop :=
  (∀ ch ∈ s.changes, ch.remaining = []) ∧
    ∀ c ∈ s.calls, c.dropped = false → c.phase.queueStage = none
deriving Decidable

/-- Whatever waits in the outbox, and whoever is said to serve it, is served. -/
def Attended (config : NostrConfig) (s : NostrSignaler) : Prop :=
  s.outbox.queue ≠ [] ∨ s.outbox.workerEpoch ≠ none → ∃ w ∈ s.workers, s.Serves config w

instance (config : NostrConfig) (s : NostrSignaler) : Decidable (s.Attended config) :=
  inferInstanceAs (Decidable (_ → _))

/-- No `close` is about to give the identity up. -/
def KeepsIdentity (s : NostrSignaler) : Prop :=
  s.rotatedIdentity = none ∨ ¬ s.ToDo .dropIdentity
deriving Decidable

/-- A call takes the flag with a room and an identity that are current and stay it, or
before a change clears it, and is not dropped before it has started the worker. -/
def Steady (config : NostrConfig) (s : NostrSignaler) : Input → Prop
  | .goOn i _ _ => ∀ c ∈ s.calls[i]?, ∀ p ∈ c.phase.pushing, s.outbox.workerEpoch = none →
    s.ToDo .clearOutbox ∨
      s.roomId = some p.1.room ∧ p.2 = s.currentIdentity config ∧ s.KeepsIdentity
  | .drop i => ∀ c ∈ s.calls[i]?, c.dropped = false → ∀ p ∈ c.phase.spawning,
    p.1.epoch = s.sessionEpoch → s.ToDo .clearOutbox
  | _ => True

instance (config : NostrConfig) (s : NostrSignaler) : DecidablePred (s.Steady config)
  | .goOn i _ _ | .drop i => inferInstanceAs (Decidable (∀ c ∈ s.calls[i]?, _))
  | .event _ | .maintain _ | .work _ _ _ | .cancelled _ | .change _
  | .advance _ => .isTrue trivial

/-! ## What the steps do to the flag -/

variable {config : NostrConfig} {s s' : NostrSignaler} {c c' : Call} {clock : Clock}
  {jitter : Duration} {phase' : Phase} {i : Nat}

/-- What a call that is not in `queue_request` leaves of the flag and of the queue. -/
def KeepsFlag (s s' : NostrSignaler) : Prop :=
  s'.outbox.workerEpoch = s.outbox.workerEpoch ∧ (s'.outbox.queue ≠ [] → s.outbox.queue ≠ [])

theorem queueRequest_cases {request : QueueRequest} {after : After} {stage : QueueStage}
    (h : s.queueRequest config i clock request after stage = some (s', phase')) :
    (s'.outbox = s.outbox ∧ s'.workers = s.workers ∧ (∀ identity, stage ≠ .spawning identity) ∧
      phase'.spawning = none) ∨
    (∃ identity evidence, stage = .pushing identity evidence ∧ s'.workers = s.workers ∧
      ((s.outbox.workerEpoch ≠ none ∧ s'.outbox.workerEpoch = s.outbox.workerEpoch ∧
          phase' = after.phase) ∨
        (s.outbox.workerEpoch = none ∧ s'.outbox.workerEpoch = some request.epoch ∧
          phase' = .queueing request (.spawning identity) after))) ∨
    ∃ identity, stage = .spawning identity ∧ phase' = after.phase ∧
      s' = { s with workers := s.workers ++
        [⟨request.epoch, request.room, identity, s.pacingCancel, .starting⟩] } := by
  have hafter : after.phase.spawning = none := by cases after <;> rfl
  cases stage with
  | identifying | evidencing identity =>
    cases h
    exact .inl ⟨rfl, rfl, (by simp), rfl⟩
  | locking identity =>
    simp only [queueRequest] at h
    split at h
    · cases h
    · split at h
      · cases h
        exact .inl ⟨rfl, rfl, (by simp), rfl⟩
      · cases h
        exact .inl ⟨rfl, rfl, (by simp), hafter⟩
  | pushing identity evidence =>
    refine .inr (.inl ⟨identity, evidence, rfl, ?_⟩)
    simp only [queueRequest] at h
    split at h
    · next hflag =>
      cases h
      refine ⟨rfl, .inl ⟨Option.isSome_iff_ne_none.mp hflag, ?_, rfl⟩⟩
      exact DiscoveryOutbox.workerEpoch_push _ _ _
    · next hflag =>
      cases h
      exact ⟨rfl, .inr ⟨Option.not_isSome_iff_eq_none.mp hflag, rfl, rfl⟩⟩
  | spawning identity =>
    cases h
    exact .inr (.inr ⟨identity, rfl, rfl, rfl⟩)

theorem flag_pace {w : Worker} {published : Published} {phase phase' : WorkerPhase}
    (h : s.pace config w clock published phase = some (s', phase')) :
    s.KeepsFlag s' ∨ s'.outbox.workerEpoch = none ∧ s'.outbox.queue = [] := by
  cases phase with
  | pacing =>
    simp only [pace] at h
    split at h
    · cases h
    · split at h
      · split at h
        · cases h
          exact .inl ⟨rfl, id⟩
        · next hdelay =>
          cases h
          exact .inr ⟨rfl, DiscoveryOutbox.queue_of_delay hdelay⟩
      · cases h
        exact .inl ⟨rfl, id⟩
  | popping =>
    simp only [pace] at h
    split at h
    · cases h
    · split at h
      · have hkeeps := DiscoveryOutbox.pop_keeps s.outbox clock.instant
        split at h
        all_goals
          next hpop =>
          cases h
          rw [hpop] at hkeeps
          exact .inl hkeeps
      · cases h
        exact .inl ⟨rfl, id⟩
  | publishing item =>
    cases published with
    | sent | refused | failed =>
      cases h
      exact .inl ⟨rfl, id⟩
  | finishing item =>
    simp only [pace] at h
    split at h
    · cases h
    · cases h
      exact .inl ⟨rfl, id⟩
  | returned => cases h
  | _ =>
    cases h
    exact .inl ⟨rfl, id⟩

/-- A worker that has captured what is current ends only with the flag that it gives
back, or where the flag is not its own. -/
theorem returned_pace {w : Worker} {published : Published} {phase phase' : WorkerPhase}
    (hfits : s.Fits config w.epoch w.room w.identity)
    (h : s.pace config w clock published phase = some (s', phase')) (hreturned : phase' = .returned) :
    s'.outbox.workerEpoch = none ∨ s.outbox.workerEpoch ≠ some w.epoch := by
  obtain ⟨hepoch, hroom, hidentity⟩ := hfits
  have hcurrent : s.sessionIsCurrent w.epoch = true := decide_eq_true hepoch.symm
  subst hreturned
  cases phase with
  | starting | sleeping | logging item =>
    simp only [pace, hcurrent] at h
    cases h
  | pacing =>
    simp only [pace] at h
    split at h
    · cases h
    · split at h
      · split at h
        · cases h
        · cases h
          exact .inl rfl
      · next hflag => exact .inr hflag
  | entering =>
    simp only [pace, if_pos hroom] at h
    cases h
  | identifying =>
    simp only [pace, if_pos hidentity.symm] at h
    cases h
  | popping =>
    simp only [pace] at h
    split at h
    · cases h
    · split at h
      · split at h
        · cases h
        · cases h
      · next hflag => exact .inr hflag
  | asking item | finishing item =>
    simp only [pace] at h
    split at h
    · cases h
    · cases h
  | publishing item =>
    cases published with
    | sent => cases h
    | refused | failed =>
      simp only [pace, hcurrent] at h
      cases h
  | releasing item | sent item | returned => cases h

/-! ## What the steps of a change do -/

section Changes

variable {next : SessionStep} {goesOn : Bool}

theorem outbox_changeSession (h : s.changeSession config next = some (s', goesOn))
    (hne : next ≠ .clearOutbox) : s'.outbox = s.outbox := by
  cases next with
  | enterRoom room | beginReset =>
    simp only [changeSession] at h
    split at h
    all_goals
      cases h
      rfl
  | clearOutbox => exact absurd rfl hne
  | _ =>
    cases h
    rfl

theorem outbox_cleared (h : s.changeSession config .clearOutbox = some (s', goesOn)) :
    s'.outbox = .new := by
  simp only [changeSession] at h
  split at h
  · cases h
  · cases h
    rfl

theorem tokens_changeSession (h : s.changeSession config next = some (s', goesOn)) :
    (next ≠ .replacePacing ∧ s'.cancelled = s.cancelled ∧ s'.pacingCancel = s.pacingCancel) ∨
      (next = .cancelPacing ∧ s'.cancelled = s.pacingCancel :: s.cancelled ∧
        s'.pacingCancel = s.pacingCancel) ∨
      (next = .replacePacing ∧ s'.cancelled = s.pacingCancel :: s.cancelled ∧
        s'.pacingCancel = s.pacingCancel + 1) := by
  cases next with
  | enterRoom room | beginReset =>
    simp only [changeSession] at h
    split at h
    all_goals
      cases h
      exact .inl ⟨(by simp), rfl, rfl⟩
  | clearOutbox =>
    simp only [changeSession] at h
    split at h
    · cases h
    · cases h
      exact .inl ⟨(by simp), rfl, rfl⟩
  | cancelPacing =>
    cases h
    exact .inr (.inl ⟨rfl, rfl, rfl⟩)
  | replacePacing =>
    cases h
    exact .inr (.inr ⟨rfl, rfl, rfl⟩)
  | _ =>
    cases h
    exact .inl ⟨(by simp), rfl, rfl⟩

/-- The steps of a change after it has cleared the outbox are about the tables, and the
last one of `close` is about the identity. -/
theorem changeSession_late (h : s.changeSession config next = some (s', goesOn))
    (hlate : next ∈ clearSessionState.tail.tail ∨ next = .dropIdentity) :
    (∃ dedupe tables, s' = { s with dedupe, tables }) ∨
      next = .dropIdentity ∧ s' = { s with rotatedIdentity := none } := by
  cases next with
  | clearExchanges | clearDiscoveryTable | clearBootstrap | clearDedupe | clearMessageDedupe
  | clearIncomingSequences | clearRequestedPubkeys =>
    cases h
    exact .inl ⟨_, _, rfl⟩
  | dropIdentity =>
    cases h
    exact .inr ⟨rfl, rfl⟩
  | _ => simp [clearSessionState] at hlate

end Changes

/-! ## Attendance -/

/-- A worker serves, or a call is about to start one that will. -/
def Served (config : NostrConfig) (s : NostrSignaler) : Prop :=
  (∃ c ∈ s.calls, s.Spawns config c) ∨ ∃ w ∈ s.workers, s.Serves config w

/-- What the flag says: it is of the session, or will be cleared, and whoever has it is
there to serve. -/
structure Paced (config : NostrConfig) (s : NostrSignaler) : Prop where
  ordered : s.Ordered
  flagged : s.outbox.queue ≠ [] → s.outbox.workerEpoch ≠ none
  current : ∀ e, s.outbox.workerEpoch = some e → e = s.sessionEpoch ∨ s.ToDo .clearOutbox
  tokens : ∀ token ∈ s.cancelled, token ≤ s.pacingCancel
  token : s.pacingCancel ∈ s.cancelled → s.ToDo .replacePacing
  served : s.ToDo .clearOutbox ∨ s.outbox.workerEpoch = none ∨ s.Served config ∧ s.KeepsIdentity

theorem Paced.new (config : NostrConfig) (roomId : Option String) :
    (NostrSignaler.new config roomId).Paced config where
  ordered := .new config roomId
  flagged h := absurd rfl h
  current := nofun
  tokens := nofun
  token := nofun
  served := .inr (.inl rfl)

theorem Paced.not_cancelled (h : s.Paced config) (hdone : ¬ s.ToDo .clearOutbox) :
    s.pacingCancel ∉ s.cancelled := by
  intro hcancelled
  obtain ⟨ch, hch, hbegun, hreplace⟩ := h.token hcancelled
  refine hdone ⟨ch, hch, hbegun, ?_⟩
  by_contra hnot
  rcases late_of_suffix (h.ordered.scripts ch hch) hnot _ hreplace with hlate | hlate
  · revert hlate
    decide
  · cases hlate

theorem Paced.begin (h : s.Paced config) (hcarried : c.phase.carried = none) :
    ({ s with calls := s.calls ++ [c] } : NostrSignaler).Paced config where
  ordered := h.ordered.begin hcarried
  flagged := h.flagged
  current := h.current
  tokens := h.tokens
  token := h.token
  served := by
    refine h.served.imp_right fun h => h.imp_right fun ⟨hserved, hkeeps⟩ => ⟨?_, hkeeps⟩
    refine hserved.imp_left ?_
    rintro ⟨d, hd, hspawns⟩
    exact ⟨d, List.mem_append_left _ hd, hspawns⟩

theorem Served.set_call (h : s.Served config) (hc : s.calls[i]? = some c)
    (hspawning : c.phase.spawning = none) {dedupe : DedupeCache} {tables : Tables}
    {outbox : DiscoveryOutbox} {outboxHolder : Option Nat} {more : List Worker} :
    ({ s with dedupe, tables, outbox, outboxHolder,
              calls := s.calls.set i c', workers := s.workers ++ more } : NostrSignaler).Served
      config := by
  rcases h with hspawns | ⟨w, hw, hserves⟩
  · refine .inl (Calls.exists_set (P := s.Spawns config) hc ?_ hspawns)
    rintro ⟨-, request, identity, hphase, -⟩
    rw [hspawning] at hphase
    cases hphase
  · exact .inr ⟨w, List.mem_append_left _ hw, hserves⟩

theorem spawning_of_queueStage {phase : Phase} (h : phase.queueStage = none) :
    phase.spawning = none := by
  cases phase with
  | queueing request stage after => cases h
  | _ => rfl

theorem Paced.goOn (h : s.Paced config) (hsteady : s.Steady config (.goOn i clock jitter))
    (hstep : s.step config (.goOn i clock jitter) = some s') : s'.Paced config := by
  have hordered := h.ordered.goOn hstep
  obtain ⟨c, c', after, hc, hdropped, hcall, rfl⟩ := goOn_cases hstep
  have hmem := List.mem_of_getElem? hc
  have hconsistent := h.ordered.consistent c hmem
  rcases processCall_cases hconsistent hcall with
    ⟨request, stage, back, phase', hphase, hqueue, rfl⟩ | ⟨hstage, hquiet, -⟩
  · have hrequest : request.epoch = c.epoch := hconsistent _ (by rw [hphase]; rfl)
    rcases queueRequest_cases hqueue with
      ⟨houtbox, hworkers, hstage, -⟩ | ⟨identity, evidence, rfl, hworkers, hflag⟩ |
      ⟨identity, rfl, rfl, rfl⟩
    · have hspawning : c.phase.spawning = none := by
        rw [hphase]
        cases stage with
        | spawning identity => exact absurd rfl (hstage identity)
        | _ => rfl
      obtain ⟨_, _, outbox, _, more, rfl⟩ := frame_queueRequest hqueue
      dsimp only at houtbox
      subst houtbox
      refine ⟨hordered, h.flagged, h.current, h.tokens, h.token, ?_⟩
      exact h.served.imp_right fun h => h.imp_right fun h => ⟨h.1.set_call hc hspawning, h.2⟩
    · have hspawning : c.phase.spawning = none := by rw [hphase]; rfl
      have hfresh := h.ordered.fresh c hmem ⟨hdropped, _, by rw [hphase]; rfl, rfl⟩
      obtain ⟨_, _, outbox, _, more, rfl⟩ := frame_queueRequest hqueue
      dsimp only at hflag hworkers
      rcases hflag with ⟨hset, hsame, rfl⟩ | ⟨hnone, hnew, rfl⟩
      · refine ⟨hordered, fun _ => ?_, fun e he => h.current e (hsame.symm.trans he), h.tokens,
          h.token, ?_⟩
        · dsimp only
          rw [hsame]
          exact hset
        · refine h.served.imp_right fun h => .inr ?_
          have hserved := h.resolve_left hset
          exact ⟨hserved.1.set_call hc hspawning, hserved.2⟩
      · refine ⟨hordered, fun _ => ?_, fun e he => ?_, h.tokens, h.token, ?_⟩
        · dsimp only
          rw [hnew]
          exact Option.some_ne_none _
        · dsimp only at he
          rw [hnew] at he
          cases he
          rw [hrequest]
          exact hfresh
        · have hwell := hsteady c hc (request, identity) (by rw [hphase]; rfl) hnone
          rcases hfresh with hepoch | hdo
          · refine hwell.imp_right fun ⟨hroom, hidentity, hkeeps⟩ => .inr ⟨.inl ?_, hkeeps⟩
            exact ⟨_, List.mem_of_getElem? (Calls.get_set hc _ i |>.trans (if_pos rfl)), hdropped,
              request, identity, rfl, hrequest.trans hepoch, hroom, hidentity⟩
          · exact .inl hdo
    · refine ⟨hordered, h.flagged, h.current, h.tokens, h.token, ?_⟩
      by_cases hdo : s.ToDo .clearOutbox
      · exact .inl hdo
      · refine .inr ((h.served.resolve_left hdo).imp_right fun ⟨hserved, hkeeps⟩ => ⟨?_, hkeeps⟩)
        rcases hserved with ⟨d, hd, hspawns⟩ | ⟨w, hw, hserves⟩
        · rcases Calls.mem_set hc { c with phase := back.phase } hd with rfl | hd
          · obtain ⟨-, request', identity', hphase', hfits⟩ := hspawns
            rw [hphase] at hphase'
            cases hphase'
            exact .inr ⟨_, List.mem_append_right _ List.mem_cons_self, nofun, h.not_cancelled hdo,
              hfits⟩
          · exact .inl ⟨d, hd, hspawns⟩
        · exact .inr ⟨w, List.mem_append_left _ hw, hserves⟩
  · have hspawning := spawning_of_queueStage hstage
    obtain ⟨dedupe, tables, outbox, rfl, hflag, hempty⟩ := hquiet.state
    refine ⟨hordered, fun hqueue => ?_, fun e he => h.current e (hflag.symm.trans he), h.tokens,
      h.token, ?_⟩
    · dsimp only
      rw [hflag]
      exact h.flagged fun hnil => hqueue (hempty hnil)
    · refine h.served.imp_right fun h => h.imp (fun hnone => hflag.trans hnone) fun h => ⟨?_, h.2⟩
      have hset : Served config { s with dedupe, tables, outbox, calls := s.calls.set i c',
                                         workers := s.workers ++ [] } :=
        h.1.set_call hc hspawning
      rw [List.append_nil] at hset
      exact hset

theorem Paced.drop (h : s.Paced config) (hsteady : s.Steady config (.drop i))
    (hstep : s.step config (.drop i) = some s') : s'.Paced config := by
  have hordered := h.ordered.drop hstep
  obtain ⟨c, hc, rfl⟩ := drop_cases hstep
  refine ⟨hordered, h.flagged, h.current, h.tokens, h.token, ?_⟩
  by_cases hdo : s.ToDo .clearOutbox
  · exact .inl hdo
  · refine .inr ((h.served.resolve_left hdo).imp_right fun ⟨hserved, hkeeps⟩ => ⟨?_, hkeeps⟩)
    refine hserved.imp_left fun hspawns => Calls.exists_set (P := s.Spawns config) hc ?_ hspawns
    rintro ⟨hlive, request, identity, hphase, hfits⟩
    exact absurd (hsteady c hc hlive _ hphase hfits.1) hdo

theorem Paced.work {published : Published} (h : s.Paced config)
    (hstep : s.step config (.work i clock published) = some s') : s'.Paced config := by
  have hordered := h.ordered.step hstep
  obtain ⟨w, phase, after, hw, hwork, rfl⟩ := work_cases hstep
  have hflag := flag_pace hwork
  have hreturned (hfits : s.Fits config w.epoch w.room w.identity) := returned_pace hfits hwork
  obtain ⟨exchanges, outbox, rfl⟩ := pace_frame hwork
  rcases hflag with ⟨hsame, hqueue⟩ | ⟨hnone, hempty⟩
  · dsimp only at hsame hqueue
    refine ⟨hordered, fun hne => ?_, fun e he => h.current e (hsame.symm.trans he), h.tokens,
      h.token, ?_⟩
    · dsimp only
      rw [hsame]
      exact h.flagged (hqueue hne)
    · by_cases hdo : s.ToDo .clearOutbox
      · exact .inl hdo
      · refine .inr ?_
        rcases h.served.resolve_left hdo with hnone | ⟨hserved, hkeeps⟩
        · exact .inl (hsame.trans hnone)
        · by_cases hnone : s.outbox.workerEpoch = none
          · exact .inl (hsame.trans hnone)
          · refine .inr ⟨hserved.imp_right fun hserves => ?_, hkeeps⟩
            refine Calls.exists_set (P := s.Serves config) hw ?_ hserves
            rintro ⟨-, hcancel, hfits⟩
            refine ⟨fun hgone => ?_, hcancel, hfits⟩
            rcases hreturned hfits hgone with hgave | hother
            · exact hnone (hsame.symm.trans hgave)
            · obtain ⟨e, he⟩ := Option.ne_none_iff_exists'.mp hnone
              have hepoch := (h.current e he).resolve_right hdo
              exact hother (by rw [he, hepoch, hfits.1])
  · dsimp only at hnone hempty
    refine ⟨hordered, fun hne => absurd hempty hne, fun e he => ?_, h.tokens, h.token,
      .inr (.inl hnone)⟩
    dsimp only at he
    rw [hnone] at he
    cases he

theorem Paced.cancelled (h : s.Paced config) (hstep : s.step config (.cancelled i) = some s') :
    s'.Paced config := by
  have hordered := h.ordered.step hstep
  obtain ⟨w, hw, hcancelled, rfl⟩ := cancelled_cases hstep
  refine ⟨hordered, h.flagged, h.current, h.tokens, h.token, ?_⟩
  refine h.served.imp_right fun h => h.imp_right fun ⟨hserved, hkeeps⟩ => ⟨?_, hkeeps⟩
  refine hserved.imp_right fun hserves => Calls.exists_set (P := s.Serves config) hw ?_ hserves
  exact fun hserves => absurd hcancelled hserves.2.1

theorem Paced.change {kind : ChangeKind} (h : s.Paced config)
    (hstep : s.step config (.change kind) = some s') : s'.Paced config := by
  have hordered := h.ordered.step hstep
  cases hstep
  refine ⟨hordered, h.flagged, fun e he => (h.current e he).imp_right fun hdo => hdo.of_changes (List.subset_append_left _ _),
    h.tokens, fun hcancelled => (h.token hcancelled).of_changes (List.subset_append_left _ _), ?_⟩
  refine h.served.imp (fun hdo => hdo.of_changes (List.subset_append_left _ _)) fun h => h.imp_right fun ⟨hserved, hkeeps⟩ => ?_
  exact ⟨hserved, hkeeps.imp_right fun hnot hdo => hnot (hdo.of_change rfl)⟩

section Advance

variable {next : SessionStep} {rest : List SessionStep} {after : NostrSignaler} {ch : Change}

theorem Paced.advance_begins {goesOn : Bool} (h : s.Paced config) (hordered : s'.Ordered)
    (hch : s.changes[i]? = some ch) (hremaining : ch.remaining = next :: rest)
    (hchange : s.changeSession config next = some (after, goesOn)) (hnext : next.begins = true)
    (hs' : s' = { after with
      changes := after.changes.set i { ch with remaining := if goesOn then rest else [] } }) :
    s'.Paced config := by
  have hsuffix : next :: rest <:+ ch.kind.script := by
    rw [← hremaining]
    exact h.ordered.scripts ch (List.mem_of_getElem? hch)
  obtain ⟨hrest, hall⟩ := begins_of_suffix hsuffix
  rcases changeSession_begins hchange hnext with ⟨roomId, rfl, rfl⟩ | ⟨hsame, rfl⟩
  · -- all that the change clears is to do then
    have hdo {task : SessionStep} (htask : task ∈ clearSessionState) : s'.ToDo task := by
      refine ⟨{ ch with remaining := rest }, List.mem_of_getElem? (i := i) ?_, hrest,
        hall hnext _ htask⟩
      rw [hs']
      dsimp only
      rw [Calls.get_set hch, if_pos rfl]
      rfl
    subst hs'
    exact ⟨hordered, h.flagged, fun _ _ => .inr (hdo (by decide)), h.tokens,
      fun _ => hdo (by decide), .inl (hdo (by decide))⟩
  · rw [hsame] at hs'
    have hon {task : SessionStep} (htask : task.begins = false) (hdo : s.ToDo task) :
        s'.ToDo task := by
      refine hdo.advance hch hremaining ?_ (.inr hnext) (by rw [hs'])
      rintro rfl
      rw [hnext] at htask
      cases htask
    have hback (hdo : s'.ToDo .dropIdentity) : s.ToDo .dropIdentity :=
      hdo.of_advance hch hremaining (.inl rfl) (by rw [hs']; rfl)
    subst hs'
    refine ⟨hordered, h.flagged, fun e he => (h.current e he).imp_right (hon rfl), h.tokens,
      fun hcancelled => hon rfl (h.token hcancelled), ?_⟩
    refine h.served.imp (hon rfl) fun h => h.imp_right fun ⟨hserved, hkeeps⟩ => ⟨hserved, ?_⟩
    exact hkeeps.imp_right fun hnot hdo => hnot (hback hdo)

theorem Paced.advance_on (h : s.Paced config) (hordered : s'.Ordered)
    (hch : s.changes[i]? = some ch) (hremaining : ch.remaining = next :: rest)
    (hchange : s.changeSession config next = some (after, true)) (hnext : next.begins = false)
    (hs' : s' = { after with changes := after.changes.set i { ch with remaining := rest } }) :
    s'.Paced config := by
  have hsuffix : next :: rest <:+ ch.kind.script := by
    rw [← hremaining]
    exact h.ordered.scripts ch (List.mem_of_getElem? hch)
  obtain ⟨hrest, -⟩ := begins_of_suffix hsuffix
  obtain ⟨-, hepoch⟩ := changeSession_goesOn hchange hnext
  have hbegun : ch.Begun := by
    rw [Change.Begun, hremaining]
    exact List.forall_mem_cons.mpr ⟨hnext, hrest⟩
  have hchanges : s'.changes = s.changes.set i { ch with remaining := rest } := by
    obtain ⟨_, _, _, _, _, _, _, _, rfl⟩ := frame_changeSession hchange
    rw [hs']
  have hon {task : SessionStep} (hne : task ≠ next) (hdo : s.ToDo task) : s'.ToDo task :=
    hdo.advance hch hremaining hne (.inl rfl) hchanges
  have hback (hdo : s'.ToDo .dropIdentity) : s.ToDo .dropIdentity :=
    hdo.of_advance hch hremaining (.inr ⟨rfl, hbegun⟩) hchanges
  have htokens : (∀ token ∈ after.cancelled, token ≤ after.pacingCancel) ∧
      (after.pacingCancel ∈ after.cancelled → s'.ToDo .replacePacing) := by
    rcases tokens_changeSession hchange with
      ⟨hne, hsame, hcancel⟩ | ⟨rfl, hmore, hcancel⟩ | ⟨rfl, hmore, hcancel⟩
    · rw [hsame, hcancel]
      exact ⟨h.tokens, fun hcancelled => hon hne.symm (h.token hcancelled)⟩
    · rw [hmore, hcancel]
      refine ⟨List.forall_mem_cons.mpr ⟨le_rfl, h.tokens⟩, fun _ => ?_⟩
      refine ⟨{ ch with remaining := rest }, List.mem_of_getElem? (i := i) ?_, hrest,
        replace_of_cancelPacing hsuffix⟩
      rw [hchanges, Calls.get_set hch, if_pos rfl]
    · rw [hmore, hcancel]
      have hle : ∀ token ∈ s.pacingCancel :: s.cancelled, token ≤ s.pacingCancel :=
        List.forall_mem_cons.mpr ⟨le_rfl, h.tokens⟩
      exact ⟨fun token htoken => (hle token htoken).trans (Nat.le_succ _),
        fun hcancelled => absurd (hle _ hcancelled) (Nat.not_succ_le_self _)⟩
  by_cases hclear : next = .clearOutbox
  · have hnew : s'.outbox = .new := by
      rw [hs']
      rw [hclear] at hchange
      exact (outbox_cleared hchange :)
    refine ⟨hordered, fun hne => absurd (by rw [hnew]; rfl) hne, fun e he => ?_, ?_, ?_,
      .inr (.inl (by rw [hnew]; rfl))⟩
    · rw [hnew] at he
      cases he
    · rw [hs']
      exact htokens.1
    · intro hcancelled
      rw [hs'] at hcancelled
      exact htokens.2 hcancelled
  · have houtbox : s'.outbox = s.outbox := by
      rw [hs']
      exact (outbox_changeSession hchange hclear :)
    refine ⟨hordered, ?_, fun e he => ?_, ?_, ?_, ?_⟩
    · rw [houtbox]
      exact h.flagged
    · rw [houtbox] at he
      refine (h.current e he).imp (fun hsame => ?_) (hon (Ne.symm hclear))
      rw [hs']
      exact hsame.trans hepoch.symm
    · rw [hs']
      exact htokens.1
    · intro hcancelled
      rw [hs'] at hcancelled
      exact htokens.2 hcancelled
    · by_cases hdo : s.ToDo .clearOutbox
      · exact .inl (hon (Ne.symm hclear) hdo)
      · rw [houtbox]
        refine .inr ((h.served.resolve_left hdo).imp_right fun hserved => ?_)
        obtain ⟨hserved, hkeeps⟩ := hserved
        -- the change has cleared the outbox before
        have hdone : SessionStep.clearOutbox ∉ ch.remaining :=
          fun hmem => hdo ⟨ch, List.mem_of_getElem? hch, hbegun, hmem⟩
        have hlate := late_of_suffix (h.ordered.scripts ch (List.mem_of_getElem? hch)) hdone next
          (by rw [hremaining]; exact List.mem_cons_self)
        rcases changeSession_late hchange hlate with ⟨dedupe, tables, rfl⟩ | ⟨rfl, rfl⟩
        · subst hs'
          exact ⟨hserved, hkeeps.imp_right fun hnot hdo => hnot (hback hdo)⟩
        · have hnone : s.rotatedIdentity = none := by
            refine hkeeps.resolve_right fun hnot => hnot ⟨ch, List.mem_of_getElem? hch, hbegun, ?_⟩
            rw [hremaining]
            exact List.mem_cons_self
          subst hs'
          refine ⟨?_, .inl rfl⟩
          have hsame : ({ s with rotatedIdentity := none } : NostrSignaler) = s := by
            rw [← hnone]
          rw [← hsame] at hserved
          exact hserved

theorem Paced.advance (h : s.Paced config) (hstep : s.step config (.advance i) = some s') :
    s'.Paced config := by
  have hordered := h.ordered.advance hstep
  obtain ⟨ch, next, rest, after, goesOn, hch, hremaining, hchange, hs'⟩ := advance_cases hstep
  cases hnext : next.begins with
  | true => exact h.advance_begins hordered hch hremaining hchange hnext hs'
  | false =>
    obtain ⟨rfl, -⟩ := changeSession_goesOn hchange hnext
    exact h.advance_on hordered hch hremaining hchange hnext hs'

end Advance

/-- Each steady step keeps the flag to its session. -/
theorem Paced.step {input : Input} (h : s.Paced config) (hsteady : s.Steady config input)
    (hstep : s.step config input = some s') : s'.Paced config := by
  cases input with
  | event id | maintain connectedPeers =>
    cases hstep
    exact h.begin rfl
  | goOn i clock jitter => exact h.goOn hsteady hstep
  | drop i => exact h.drop hsteady hstep
  | work i clock published => exact h.work hstep
  | cancelled i => exact h.cancelled hstep
  | change kind => exact h.change hstep
  | advance i => exact h.advance hstep

/-- Where the flag is always taken with what is current, and no call is dropped between
the flag and its worker, the outbox is attended whenever nobody is about to change that. -/
theorem attended_of_steady {roomId : Option String} {moves : List (Move NostrSignaler Input)}
    (run : Run (NostrSignaler.step config) (.new config roomId) moves s)
    (hsteady : ∀ m ∈ moves, m.before.Steady config m.input) (hidle : s.Idle) :
    s.Attended config := by
  have h : s.Paced config := run.keepsUnder (C := Steady config) (.new config roomId)
    (fun _ _ _ h hsteady hstep => h.step hsteady hstep) hsteady
  intro hwaiting
  have hset : s.outbox.workerEpoch ≠ none := hwaiting.elim h.flagged id
  rcases h.served with ⟨ch, hch, -, hdo⟩ | hnone | ⟨⟨c, hc, hlive, _, _, hphase, -⟩ | hserves, -⟩
  · rw [hidle.1 ch hch] at hdo
    cases hdo
  · exact absurd hnone hset
  · rw [spawning_of_queueStage (hidle.2 c hc hlive)] at hphase
    cases hphase
  · exact hserves

/-! ### A request that is to be answered -/

section Runs

def asked : NostrConfig := listening ⟨""⟩

/-- The reply is queued, and a worker is started for it. The latest input is the first. -/
def queued : List Input := goOns 0 22 ++ [Input.event "six"]

theorem attended_queued :
    (runOf asked queued).2.outbox.queue ≠ [] ∧
      ∃ w ∈ (runOf asked queued).2.workers, (runOf asked queued).2.Serves asked w := by
  have hwaiting : (runOf asked queued).2.outbox.queue ≠ [] := by decide +kernel
  refine ⟨hwaiting, ?_⟩
  exact attended_of_steady (run_play _ _ queued) (by decide +kernel) (by decide +kernel)
    (.inl hwaiting)

/-- The relay reader is cancelled when its call has taken the flag. -/
def cut : List Input := Input.drop 0 :: goOns 0 19 ++ [Input.event "six"]

theorem unattended_cut :
    ∃ moves s, Run (NostrSignaler.step asked) (.new asked (some "r")) moves s ∧ s.Idle ∧
      s.outbox.queue ≠ [] ∧ ¬ ∃ w ∈ s.workers, s.Serves asked w :=
  ⟨_, _, run_play _ _ cut, by decide +kernel, by decide +kernel, by decide +kernel⟩

/-! ### Who holds the outbox -/

/-- The step with which the change `k` has counted the epoch up from this one. -/
def Ended (config : NostrConfig) (epoch k : Nat) (m : Move NostrSignaler Input) : Prop :=
  m.input = .advance k ∧ m.before.sessionEpoch = epoch ∧
    ∃ after, m.before.step config m.input = some after ∧ after.sessionEpoch = epoch + 1

/-- The change has begun, and has yet to clear the outbox. -/
def YetToClear (s : NostrSignaler) (k : Nat) : Prop :=
  ∃ ch, s.changes[k]? = some ch ∧ ch.Begun ∧ .clearOutbox ∈ ch.remaining

/-- The epoch is that of the session, or the change that ended it has yet to clear the outbox. -/
def Current (config : NostrConfig) (moves : List (Move NostrSignaler Input)) (s : NostrSignaler)
    (epoch : Nat) : Prop :=
  epoch = s.sessionEpoch ∨ ∃ k, (∃ m ∈ moves, Ended config epoch k m) ∧ s.YetToClear k

section Current

variable {moves : List (Move NostrSignaler Input)} {m : Move NostrSignaler Input} {epoch : Nat}

theorem Current.keep (h : Current config moves s epoch) (hepoch : s'.sessionEpoch = s.sessionEpoch)
    (hchanges : ∀ k, s.YetToClear k → s'.YetToClear k) : Current config (m :: moves) s' epoch := by
  rcases h with hnow | ⟨k, ⟨ended, hended, hk⟩, hclear⟩
  · exact .inl (hnow.trans hepoch.symm)
  · exact .inr ⟨k, ⟨ended, List.mem_cons_of_mem _ hended, hk⟩, hchanges k hclear⟩

theorem Current.advance {c : Call} (hordered : s.Ordered) (hc : c ∈ s.calls) (hholds : c.HoldsOutbox)
    (h : Current config moves s c.epoch) (hstep : s.step config (.advance i) = some s') :
    Current config (⟨s, .advance i⟩ :: moves) s' c.epoch := by
  obtain ⟨ch, next, rest, after, goesOn, hch, hremaining, hchange, hs'⟩ := advance_cases hstep
  have hsuffix : next :: rest <:+ ch.kind.script := by
    rw [← hremaining]
    exact hordered.scripts ch (List.mem_of_getElem? hch)
  have hget : ∀ k, s'.changes[k]? =
      if k = i then some { ch with remaining := if goesOn then rest else [] } else s.changes[k]? := by
    intro k
    obtain ⟨_, _, _, _, _, _, _, _, rfl⟩ := frame_changeSession hchange
    rw [hs']
    exact Calls.get_set hch _ k
  -- a change that has yet to clear the outbox still has, as the call holds the lock it waits for
  have hchanges : ∀ k, s.YetToClear k → s'.YetToClear k := by
    rintro k ⟨d, hd, hbegun, hmem⟩
    by_cases hk : k = i
    · subst hk
      cases hch.symm.trans hd
      rw [Change.Begun, hremaining] at hbegun
      obtain ⟨hnext, hrest⟩ := List.forall_mem_cons.mp hbegun
      obtain ⟨rfl, -⟩ := changeSession_goesOn hchange hnext
      refine ⟨_, (hget k).trans (if_pos rfl), hrest, ?_⟩
      rw [hremaining] at hmem
      refine (List.mem_cons.mp hmem).resolve_left ?_
      rintro rfl
      obtain ⟨j, hj⟩ := List.mem_iff_getElem?.mp hc
      have hlock := hordered.locked j c hj hholds
      rw [holder_of_clearOutbox hchange] at hlock
      cases hlock
    · exact ⟨d, (hget k).trans ((if_neg hk).trans hd), hbegun, hmem⟩
  cases hnext : next.begins with
  | false =>
    obtain ⟨-, hepoch⟩ := changeSession_goesOn hchange hnext
    refine h.keep ?_ hchanges
    rw [hs']
    exact hepoch
  | true =>
    rcases changeSession_begins hchange hnext with ⟨roomId, hafter, rfl⟩ | ⟨hafter, -⟩
    · have hcounted : s'.sessionEpoch = s.sessionEpoch + 1 := by
        rw [hs', hafter]
      rcases h with hnow | hended
      · obtain ⟨hrest, hclear⟩ := begins_of_suffix hsuffix
        refine .inr ⟨i, ⟨_, List.mem_cons_self, rfl, hnow.symm, s', hstep, ?_⟩,
          _, (hget i).trans (if_pos rfl), hrest, hclear hnext _ (by decide)⟩
        rw [hcounted, hnow]
      · obtain ⟨k, ⟨ended, hmem, hk⟩, hclear⟩ := hended
        exact .inr ⟨k, ⟨ended, List.mem_cons_of_mem _ hmem, hk⟩, hchanges k hclear⟩
    · refine h.keep ?_ hchanges
      rw [hs', hafter]

/-- Whoever holds the outbox is of the session, or about to be cleared. -/
theorem current_step {input : Input} (hordered : s.Ordered)
    (h : ∀ c ∈ s.calls, c.HoldsOutbox → Current config moves s c.epoch)
    (hstep : s.step config input = some s') :
    ∀ c ∈ s'.calls, c.HoldsOutbox → Current config (⟨s, input⟩ :: moves) s' c.epoch := by
  cases input with
  | event id | maintain connectedPeers =>
    cases hstep
    refine Calls.forall_begin (fun c hc hholds => (h c hc hholds).keep rfl fun _ hclear => hclear) ?_
    rintro ⟨-, stage, hstage, -⟩
    cases hstage
  | goOn i clock jitter =>
    obtain ⟨c, c', after, hc, hdropped, hcall, rfl⟩ := goOn_cases hstep
    have hconsistent := hordered.consistent c (List.mem_of_getElem? hc)
    obtain ⟨htaken, -⟩ := holds_processCall hconsistent hdropped hcall
    obtain ⟨_, _, _, _, _, rfl⟩ := frame_processCall hconsistent hcall
    refine Calls.forall_set (fun d hd hholds => (h d hd hholds).keep rfl fun _ => id) fun hholds => ?_
    rcases htaken hholds with hnow | ⟨hbefore, hsame, -⟩
    · exact .inl (of_decide_eq_true hnow.1).symm
    · rw [hsame]
      exact (h c (List.mem_of_getElem? hc) hbefore).keep rfl fun _ => id
  | drop i =>
    obtain ⟨c, -, rfl⟩ := drop_cases hstep
    refine Calls.forall_set (fun d hd hholds => (h d hd hholds).keep rfl fun _ => id) fun hholds => ?_
    cases hholds.1
  | work i clock published =>
    obtain ⟨w, phase, after, -, hwork, rfl⟩ := work_cases hstep
    obtain ⟨_, _, rfl⟩ := pace_frame hwork
    exact fun c hc hholds => (h c hc hholds).keep rfl fun _ => id
  | cancelled i =>
    obtain ⟨w, -, -, rfl⟩ := cancelled_cases hstep
    exact fun c hc hholds => (h c hc hholds).keep rfl fun _ => id
  | change kind =>
    cases hstep
    refine fun c hc hholds => (h c hc hholds).keep rfl fun k => ?_
    rintro ⟨ch, hch, hdo⟩
    exact ⟨ch, List.getElem?_append_left (List.getElem?_eq_some_iff.mp hch).1 ▸ hch, hdo⟩
  | advance i =>
    have hcalls : s'.calls = s.calls := by
      obtain ⟨_, _, _, _, _, _, _, hchange, rfl⟩ := advance_cases hstep
      obtain ⟨_, _, _, _, _, _, _, _, rfl⟩ := frame_changeSession hchange
      rfl
    rw [hcalls]
    exact fun c hc hholds => (h c hc hholds).advance hordered hc hholds hstep

end Current

/-- However calls and changes interleave, at most one call holds the outbox, and its epoch is that of
the session, or the change that ended it has yet to clear the outbox. -/
theorem outbox_exclusive {roomId : Option String} {moves : List (Move NostrSignaler Input)}
    {s : NostrSignaler} (run : Run (step config) (new config roomId) moves s) {i j : Nat} {c d : Call}
    (hc : s.calls[i]? = some c) (hd : s.calls[j]? = some d) (hheld : c.HoldsOutbox)
    (hheld' : d.HoldsOutbox) : i = j ∧ Current config moves s c.epoch := by
  obtain ⟨hordered, hcurrent⟩ : s.Ordered ∧ ∀ c ∈ s.calls, c.HoldsOutbox → Current config moves s c.epoch := by
    refine run.keeps (P := fun moves s => s.Ordered ∧
      ∀ c ∈ s.calls, c.HoldsOutbox → Current config moves s c.epoch) ?_ fun _ _ _ _ h hstep => ?_
    · exact ⟨.new config roomId, List.forall_mem_nil _⟩
    · exact ⟨h.1.step hstep, current_step h.1 h.2 hstep⟩
  have hfirst := hordered.locked i c hc hheld
  have hsecond := hordered.locked j d hd hheld'
  exact ⟨Option.some.inj (hfirst.symm.trans hsecond), hcurrent c (List.mem_of_getElem? hc) hheld⟩

/-- A call holds the outbox and another one waits for it when the room is changed. The latest input is
the first. -/
def pushing : List Input :=
  .advance 0 :: .change (.setRoomId "q") :: goOns 1 16 ++ .event "six" :: goOns 0 18 ++ [.event "five"]

theorem pushing_exclusive : ∃ s c d, s.calls[0]? = some c ∧ c.HoldsOutbox ∧ s.calls[1]? = some d ∧
    d.dropped = false ∧ s.step asked (.goOn 1 ⟨0, 10⟩ 0) = none ∧ c.epoch ≠ s.sessionEpoch ∧
    Current asked (runOf asked pushing).1 s c.epoch := by
  obtain ⟨c, hc, hheld, hended⟩ : ∃ c ∈ (runOf asked pushing).2.calls[0]?,
      c.HoldsOutbox ∧ c.epoch ≠ (runOf asked pushing).2.sessionEpoch := by
    unfold Call.HoldsOutbox
    decide +kernel
  obtain ⟨d, hd, hlive⟩ : ∃ d ∈ (runOf asked pushing).2.calls[1]?, d.dropped = false := by decide +kernel
  have hwaits : (runOf asked pushing).2.step asked (.goOn 1 ⟨0, 10⟩ 0) = none := by
    rw [← Option.isNone_iff_eq_none]
    decide +kernel
  have hrun : Run (step asked) (new asked (some "r")) (runOf asked pushing).1 (runOf asked pushing).2 :=
    run_play _ _ pushing
  exact ⟨_, c, d, hc, hheld, hd, hlive, hwaits, hended, (outbox_exclusive hrun hc hc hheld hheld).2⟩

end Runs

end NostrSignaler

end Native

end Mistlib.Signaling
