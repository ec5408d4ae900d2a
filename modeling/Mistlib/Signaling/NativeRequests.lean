import Mistlib.Signaling.NativeSteps

/-!
# Requested peers of the native signaler

A key is marked as requested first and gets its reservation later, over several awaits. Within
one session every call that has marked a key goes on to reserve it: epoch, room and identity stay
as it has read them. What loses a reservation for good is `release`, which forgets a peer that
was never retried, and a call that is dropped between the mark and the reservation.
-/

namespace Mistlib.Signaling.Native

open Reactive

/-- The keys that a call has marked as requested and has yet to reserve. -/
def Phase.owed : Phase → List String
  | .discovering decoded .rechecking
  | .discovering decoded (.reserving _) => [decoded.signalingPubkey]
  | .processing decoded .rechecking | .processing decoded (.promoting _)
  | .processing decoded (.reserving _) => [decoded.senderPubkey]
  | .maintaining (.probing candidates) => candidates
  | .maintaining (.probingIn pubkey candidates) | .maintaining (.probingAs pubkey candidates)
  | .maintaining (.reserving pubkey candidates) => pubkey :: candidates
  | .queueing _ _ (.probing candidates) => candidates
  | _ => []

/-- The keys that a call has reserved and is about to queue. -/
def Phase.reserved : Phase → List String
  | .queueing request _ (.retrying retries) => request.pubkey :: retries
  | .queueing request _ _ => [request.pubkey]
  | .maintaining (.retrying retries) => retries
  | .maintaining (.retryingIn pubkey retries) => pubkey :: retries
  | _ => []

theorem Phase.reserved_of_first {phase : Phase} (h : phase.first = true) : phase.reserved = [] := by
  unfold Phase.first at h
  split at h
  all_goals first | rfl | cases h

def Phase.entered : Phase → Bool
  | .identifying | .entering | .maintaining .entering | .returned => false
  | _ => true

/-- A call in it has read the identity. -/
def Phase.identified : Phase → Bool
  | .identifying | .maintaining .entering | .maintaining .identifying | .returned => false
  | _ => true

def WorkerPhase.releases : WorkerPhase → Option String
  | .releasing item => some item.pubkey
  | _ => none

def Input.isChange : Input → Bool
  | .change _ => true
  | _ => false

namespace NostrSignaler

variable (config : NostrConfig) (s : NostrSignaler)

def Has (pubkey : String) : Prop := s.tables.exchanges.Has pubkey
deriving Decidable

/-- What has been read of the session is what it is. -/
structure Reads (c : Call) : Prop where
  epoch : c.epoch = s.sessionEpoch
  room : c.phase.entered = true → s.roomId = some c.room
  identity : c.phase.identified = true → c.identity = s.currentIdentity config

/-- The key that a step of a call gives back. -/
def releases (clock : Clock) : Phase → Option String
  | .maintaining (.releasing (pubkey :: _)) => some pubkey
  | .queueing request (.pushing _ _) _ =>
    (s.outbox.push request.pubkey request.priority request.delay clock.instant).1
  | _ => none

/-- No step gives a reservation back that was never retried and whose peer has not
answered, and no call is dropped that has yet to reserve what it has marked. -/
def Faithful : Input → Prop
  | .goOn i clock _ => ∀ c ∈ s.calls[i]?, ∀ pubkey ∈ s.releases clock c.phase,
    s.tables.exchanges.Spares pubkey
  | .drop i => ∀ c ∈ s.calls[i]?, c.dropped = false → ∀ pubkey ∈ c.phase.owed,
    pubkey ∈ s.tables.requestedPubkeys → s.Has pubkey
  | .work i _ _ => ∀ w ∈ s.workers[i]?, ∀ pubkey ∈ w.phase.releases,
    s.tables.exchanges.Spares pubkey
  | _ => True

instance : DecidablePred s.Faithful
  | .goOn i _ _ | .drop i => inferInstanceAs (Decidable (∀ c ∈ s.calls[i]?, _))
  | .work i _ _ => inferInstanceAs (Decidable (∀ w ∈ s.workers[i]?, _))
  | .event _ | .maintain _ | .cancelled _ | .change _ | .advance _ => .isTrue trivial

/-- A session begins: nothing is requested or queued, and no call goes on. -/
structure Begins : Prop where
  calls : s.calls = []
  changes : s.changes = []
  queue : s.outbox.queue = []
  requested : s.tables.requestedPubkeys = []

/-- Every call has returned or was dropped. -/
def Quiescent : Prop := ∀ c ∈ s.calls, c.phase = .returned ∨ c.dropped = true
deriving Decidable

def KeepsRequests : Prop := ∀ pubkey ∈ s.tables.requestedPubkeys, s.Has pubkey
deriving Decidable

/-! ## What a step does to the marks and the reservations -/

variable {config} {s} {s' : NostrSignaler} {c c' : Call} {clock : Clock} {jitter : Duration}
  {phase phase' : Phase} {i : Nat}

/-- A step of a call from one phase to the next: what it marks it owes, what it owed it
owes or has reserved, and what it queues has been reserved. -/
structure Onward (s s' : NostrSignaler) (phase phase' : Phase) : Prop where
  marks : ∀ key ∈ s'.tables.requestedPubkeys,
    key ∈ s.tables.requestedPubkeys ∨ key ∈ phase'.owed
  owes : ∀ key ∈ phase.owed, key ∈ phase'.owed ∨ s'.Has key
  reserves : ∀ key ∈ phase'.reserved, key ∈ phase.reserved ∨ s'.Has key
  keeps : ∀ key, s.Has key → s'.Has key
  queues : ∀ key ∈ s'.outbox.keys, key ∈ s.outbox.keys ∨ key ∈ phase.reserved

theorem onward_plain (hmarks : s'.tables.requestedPubkeys ⊆ s.tables.requestedPubkeys)
    (hkeeps : ∀ key, s.Has key → s'.Has key) (hkeys : s'.outbox.keys ⊆ s.outbox.keys)
    (howed : phase.owed ⊆ phase'.owed) (hreserved : phase'.reserved ⊆ phase.reserved) :
    Onward s s' phase phase' :=
  ⟨fun _ h => .inl (hmarks h), fun _ h => .inl (howed h), fun _ h => .inl (hreserved h), hkeeps,
    fun _ h => .inl (hkeys h)⟩

theorem onward_still {dedupe : DedupeCache} {tables : Tables}
    (hrequested : tables.requestedPubkeys = s.tables.requestedPubkeys)
    (hexchanges : tables.exchanges = s.tables.exchanges)
    (howed : phase.owed ⊆ phase'.owed) (hreserved : phase'.reserved ⊆ phase.reserved) :
    Onward s { s with dedupe, tables } phase phase' := by
  refine onward_plain ?_ (fun key h => ?_) (List.Subset.refl _) howed hreserved
  · dsimp only
    rw [hrequested]
    exact List.Subset.refl _
  · dsimp only [Has]
    rw [hexchanges]
    exact h

theorem reserved_ite {p : Prop} [Decidable p] {a b : Phase} (ha : a.reserved = [])
    (hb : b.reserved = []) : (if p then a else b).reserved ⊆ phase.reserved := by
  split
  · rw [ha]
    exact List.nil_subset _
  · rw [hb]
    exact List.nil_subset _

theorem nil_owed (h : phase.owed = []) : phase.owed ⊆ phase'.owed := by
  rw [h]
  exact List.nil_subset _

theorem nil_reserved (h : phase'.reserved = []) : phase'.reserved ⊆ phase.reserved := by
  rw [h]
  exact List.nil_subset _

theorem onward_exchanges {exchanges : DiscoveryExchanges}
    (hkeeps : ∀ key, s.Has key → exchanges.Has key) (howed : phase.owed ⊆ phase'.owed)
    (hreserved : phase'.reserved ⊆ phase.reserved) :
    Onward s (s.withExchanges exchanges) phase phase' :=
  onward_plain (List.Subset.refl _) hkeeps (List.Subset.refl _) howed hreserved

theorem owed_queueing (request : QueueRequest) (stage : QueueStage) (after : After) :
    (Phase.queueing request stage after).owed = after.phase.owed := by
  cases after <;> rfl

theorem reserved_queueing (request : QueueRequest) (stage : QueueStage) (after : After) :
    (Phase.queueing request stage after).reserved = request.pubkey :: after.phase.reserved := by
  cases after <;> rfl

theorem onward_reserve {pubkey room : String} {epoch : Nat} {priority : DiscoveryPriority}
    {delay : Duration} {after : After} {free : Bool}
    (howed : ∀ key ∈ phase.owed, key = pubkey ∨ key ∈ after.phase.owed ∧ key ∈ phase'.owed)
    (hafter : after.phase.reserved = []) (hreserved : phase'.reserved = []) :
    Onward s (s.withExchanges (s.tables.exchanges.request pubkey clock.instant).2) phase
      (if free then .queueing ⟨pubkey, room, epoch, priority, delay⟩ .identifying after
        else phase') where
  marks _ h := .inl h
  owes key hkey := by
    rcases howed key hkey with rfl | ⟨hthen, helse⟩
    · exact .inr (DiscoveryExchanges.has_requested _ _ _)
    · refine .inl ?_
      split
      · rw [owed_queueing]
        exact hthen
      · exact helse
  reserves key hkey := by
    split at hkey
    · rw [reserved_queueing, hafter] at hkey
      rw [List.mem_singleton.mp hkey]
      exact .inr (DiscoveryExchanges.has_requested _ _ _)
    · rw [hreserved] at hkey
      cases hkey
  keeps _ h := DiscoveryExchanges.has_request h
  queues _ h := .inl h

theorem current_of_reads {epoch : Nat} (hreads : s.Reads config c) (h : epoch = c.epoch) :
    s.sessionIsCurrent epoch = true := by
  rw [h]
  exact decide_eq_true hreads.epoch.symm

theorem stillIn_of_reads (hreads : s.Reads config c) (hentered : c.phase.entered = true) :
    s.stillIn c.room c.epoch = true := by
  rw [stillIn, decide_eq_true (hreads.room hentered), current_of_reads hreads rfl]
  rfl

theorem onward_discover {decoded : DecodedDiscovery} {stage : DiscoveryStage}
    (hreads : s.Reads config c) (hphase : c.phase = .discovering decoded stage)
    (hconsistent : c.Consistent)
    (h : s.discover config c clock jitter decoded stage = (s', phase')) :
    Onward s s' (.discovering decoded stage) phase' := by
  have hentered : c.phase.entered = true := by
    rw [hphase]
    rfl
  cases stage with
  | checking | deduping =>
    cases h
    exact onward_still rfl rfl (nil_owed rfl) (reserved_ite rfl rfl)
  | observing =>
    cases h
    exact onward_still rfl rfl (nil_owed rfl) (nil_reserved rfl)
  | recording =>
    simp only [discover] at h
    split at h
    all_goals
      cases h
      exact onward_still rfl rfl (nil_owed rfl) (nil_reserved rfl)
  | requesting shouldRequest =>
    simp only [discover] at h
    split at h
    · split at h
      · cases h
        refine ⟨fun key hkey => ?_, (by rintro _ ⟨⟩), (by rintro _ ⟨⟩), fun _ h => h, fun _ h => .inl h⟩
        rcases List.mem_insert_iff.mp hkey with rfl | hkey
        · exact .inr List.mem_cons_self
        · exact .inl hkey
      · cases h
        exact onward_still rfl rfl (nil_owed rfl) (nil_reserved rfl)
    · cases h
      exact onward_still rfl rfl (nil_owed rfl) (nil_reserved rfl)
  | rechecking =>
    simp only [discover, stillIn_of_reads hreads hentered] at h
    cases h
    exact onward_still rfl rfl (List.Subset.refl _) (nil_reserved rfl)
  | reserving epoch =>
    have hepoch : epoch = c.epoch := hconsistent epoch (by rw [hphase]; rfl)
    simp only [discover, current_of_reads hreads hepoch] at h
    cases h
    refine onward_reserve ?_ rfl rfl
    exact fun _ h => .inl (List.mem_singleton.mp h)
  | advertising =>
    cases h
    exact onward_exchanges (fun _ h => DiscoveryExchanges.has_modify.mpr h) (nil_owed rfl)
      (nil_reserved rfl)

theorem onward_overhear {stage : MailboxStage}
    (h : s.overhear config c clock stage = (s', phase')) :
    Onward s s' (.overhearing stage) phase' := by
  cases stage with
  | observing | deduping =>
    cases h
    exact onward_still rfl rfl (nil_owed rfl) (nil_reserved rfl)
  | observingExchange =>
    cases h
    exact onward_exchanges (fun _ h => DiscoveryExchanges.has_modify.mpr h) (nil_owed rfl)
      (nil_reserved rfl)

theorem reserved_afterProgress (decoded : DecodedMessage) (reboundFrom : Option String) :
    (afterProgress decoded reboundFrom).reserved = [] := by
  cases reboundFrom <;> rfl

theorem onward_processMessage {decoded : DecodedMessage} {stage : MessageStage}
    (hreads : s.Reads config c) (hphase : c.phase = .processing decoded stage)
    (hconsistent : c.Consistent) (hqueued : ∀ key ∈ s.outbox.keys, s.Has key)
    (h : s.processMessage config c clock decoded stage = some (s', phase')) :
    Onward s s' (.processing decoded stage) phase' := by
  have hentered : c.phase.entered = true := by
    rw [hphase]
    rfl
  cases stage with
  | checking | deduping | admitting wasRequested requested | ordering wasRequested | notifying
  | forwarding | replied =>
    cases h
    exact onward_still rfl rfl (nil_owed rfl) (reserved_ite rfl rfl)
  | binding wasRequested =>
    simp only [processMessage] at h
    split at h
    · split at h
      all_goals
        cases h
        exact onward_still rfl rfl (nil_owed rfl) (nil_reserved rfl)
    · cases h
      exact onward_still rfl rfl (nil_owed rfl) (nil_reserved rfl)
  | observing reboundFrom =>
    cases h
    exact onward_exchanges (fun _ h => DiscoveryExchanges.has_modify.mpr h) (nil_owed rfl)
      (reserved_ite rfl (reserved_afterProgress _ _))
  | progressing reboundFrom =>
    cases h
    exact onward_exchanges (fun _ h => DiscoveryExchanges.has_progress h) (nil_owed rfl)
      (nil_reserved (reserved_afterProgress _ _))
  | purgingExchange previousPubkey =>
    cases h
    exact onward_exchanges (fun _ h => DiscoveryExchanges.has_progress h) (nil_owed rfl)
      (nil_reserved rfl)
  | purgingRequested previousPubkey =>
    cases h
    exact onward_plain (List.erase_subset) (fun _ h => h) (List.Subset.refl _) (nil_owed rfl)
      (nil_reserved rfl)
  | replying =>
    cases h
    refine ⟨fun key hkey => ?_, (by rintro _ ⟨⟩), (by rintro _ ⟨⟩), fun _ h => h, fun _ h => .inl h⟩
    rcases List.mem_insert_iff.mp hkey with rfl | hkey
    · exact .inr List.mem_cons_self
    · exact .inl hkey
  | rechecking =>
    simp only [processMessage, stillIn_of_reads hreads hentered] at h
    cases h
    exact onward_still rfl rfl (List.Subset.refl _) (nil_reserved rfl)
  | promoting epoch =>
    have hepoch : epoch = c.epoch := hconsistent epoch (by rw [hphase]; rfl)
    simp only [processMessage, current_of_reads hreads hepoch, if_true] at h
    split at h
    · cases h
    · cases h
      refine ⟨fun _ h => .inl h, fun key hkey => ?_, fun key hkey => ?_, fun _ h => h,
        fun key hkey => .inl ?_⟩
      · rw [List.mem_singleton.mp hkey]
        split
        · next hpromoted => exact .inr (hqueued _ (DiscoveryOutbox.mem_of_promoteReply hpromoted))
        · exact .inl List.mem_cons_self
      · split at hkey
        · cases hkey
        · cases hkey
      · rw [← DiscoveryOutbox.keys_promoteReply s.outbox decoded.senderPubkey]
        exact hkey
  | reserving epoch =>
    have hepoch : epoch = c.epoch := hconsistent epoch (by rw [hphase]; rfl)
    simp only [processMessage, current_of_reads hreads hepoch] at h
    cases h
    refine onward_reserve ?_ rfl rfl
    exact fun _ h => .inl (List.mem_singleton.mp h)
  | noting =>
    cases h
    exact onward_exchanges (fun _ h => DiscoveryExchanges.has_modify.mpr h) (nil_owed rfl)
      (nil_reserved rfl)
  | _ =>
    cases h
    exact onward_still rfl rfl (nil_owed rfl) (nil_reserved rfl)

section

variable {connectedPeers : Nat} {stage : MaintainStage} (hreads : s.Reads config c)
  (hphase : c.phase = .maintaining stage)
include hreads hphase

/-- A pass reads the room, the identity and the epoch first, and keeps to them. -/
theorem reads_maintain (h : s.maintain config c connectedPeers clock stage = some (s', c')) :
    s.Reads config c' := by
  obtain ⟨hepoch, hroom, hidentity⟩ := hreads
  rw [hphase] at hroom hidentity
  cases stage with
  | entering =>
    simp only [maintain] at h
    split at h
    · next room hnow =>
      cases h
      exact ⟨hepoch, fun _ => hnow, (by rintro ⟨⟩)⟩
    · cases h
      exact ⟨hepoch, (by rintro ⟨⟩), (by rintro ⟨⟩)⟩
  | identifying =>
    cases h
    exact ⟨rfl, fun _ => hroom rfl, fun _ => rfl⟩
  | stoppingProbes =>
    simp only [maintain] at h
    split at h
    · cases h
    · cases h
      exact ⟨hepoch, fun _ => hroom rfl, fun _ => hidentity rfl⟩
  | releasing dropped =>
    cases dropped with
    | nil =>
      cases h
      exact ⟨hepoch, (by rintro ⟨⟩), (by rintro ⟨⟩)⟩
    | cons pubkey dropped =>
      cases h
      exact ⟨hepoch, fun _ => hroom rfl, fun _ => hidentity rfl⟩
  | retrying retries =>
    cases retries with
    | nil | cons pubkey retries =>
      cases h
      exact ⟨hepoch, fun _ => hroom rfl, fun _ => hidentity rfl⟩
  | probing candidates =>
    cases candidates with
    | nil =>
      cases h
      exact ⟨hepoch, (by rintro ⟨⟩), (by rintro ⟨⟩)⟩
    | cons pubkey candidates =>
      cases h
      exact ⟨hepoch, fun _ => hroom rfl, fun _ => hidentity rfl⟩
  | _ =>
    cases h
    exact ⟨hepoch, fun _ => hroom rfl, fun _ => hidentity rfl⟩

theorem onward_maintain (hspares : ∀ key ∈ s.releases clock c.phase, s.tables.exchanges.Spares key)
    (h : s.maintain config c connectedPeers clock stage = some (s', c')) :
    Onward s s' (.maintaining stage) c'.phase := by
  have hcurrent := current_of_reads hreads rfl
  cases stage with
  | entering =>
    simp only [maintain] at h
    split at h
    all_goals
      cases h
      exact onward_still rfl rfl (nil_owed rfl) (nil_reserved rfl)
  | identifying =>
    cases h
    refine onward_still rfl rfl (nil_owed rfl) (nil_reserved ?_)
    dsimp only
    split <;> rfl
  | stopping =>
    cases h
    exact onward_still rfl rfl (nil_owed rfl) (nil_reserved rfl)
  | stoppingProbes =>
    simp only [maintain] at h
    split at h
    · cases h
    · cases h
      exact onward_plain (List.Subset.refl _) (fun _ h => h)
        (fun _ hkey => DiscoveryOutbox.keys_stopProbes hkey) (nil_owed rfl) (nil_reserved rfl)
  | releasing dropped =>
    cases dropped with
    | nil =>
      cases h
      exact onward_still rfl rfl (nil_owed rfl) (nil_reserved rfl)
    | cons pubkey dropped =>
      cases h
      have hspare := hspares pubkey (by rw [hphase]; rfl)
      exact onward_exchanges (fun _ h => DiscoveryExchanges.has_release hspare h) (nil_owed rfl)
        (nil_reserved rfl)
  | polling =>
    cases h
    refine ⟨fun _ h => .inl h, (by rintro _ ⟨⟩), fun key hkey => .inr ?_,
      fun _ h => DiscoveryExchanges.has_poll _ h, fun _ h => .inl h⟩
    exact DiscoveryExchanges.has_retries _ _ _ key hkey
  | retrying retries =>
    cases retries with
    | nil =>
      cases h
      exact onward_still rfl rfl (nil_owed rfl) (nil_reserved rfl)
    | cons pubkey retries =>
      simp only [maintain, hcurrent] at h
      cases h
      exact onward_still rfl rfl (nil_owed rfl) (List.Subset.refl _)
  | retryingIn pubkey retries =>
    have hroom : s.roomId = some c.room := hreads.room (by rw [hphase]; rfl)
    simp only [maintain, if_pos hroom] at h
    cases h
    exact onward_still rfl rfl (nil_owed rfl) (List.Subset.refl _)
  | choosing =>
    cases h
    refine ⟨fun key hkey => ?_, (by rintro _ ⟨⟩), (by rintro _ ⟨⟩), fun _ h => h, fun _ h => .inl h⟩
    exact (List.mem_union_iff.mp hkey).imp_right id
  | probing candidates =>
    cases candidates with
    | nil =>
      cases h
      exact onward_still rfl rfl (nil_owed rfl) (nil_reserved rfl)
    | cons pubkey candidates =>
      simp only [maintain, hcurrent] at h
      cases h
      exact onward_still rfl rfl (List.Subset.refl _) (nil_reserved rfl)
  | probingIn pubkey candidates =>
    have hroom : s.roomId = some c.room := hreads.room (by rw [hphase]; rfl)
    simp only [maintain, if_pos hroom] at h
    cases h
    exact onward_still rfl rfl (List.Subset.refl _) (nil_reserved rfl)
  | probingAs pubkey candidates =>
    have hidentity : s.currentIdentity config = c.identity :=
      (hreads.identity (by rw [hphase]; rfl)).symm
    simp only [maintain, if_pos hidentity] at h
    cases h
    exact onward_still rfl rfl (List.Subset.refl _) (nil_reserved rfl)
  | reserving pubkey candidates =>
    simp only [maintain, Option.some.injEq, Prod.mk.injEq] at h
    obtain ⟨rfl, rfl⟩ := h
    refine onward_reserve ?_ rfl rfl
    exact fun _ h => (List.mem_cons.mp h).imp_right fun h => ⟨h, h⟩

end

theorem onward_queueRequest {request : QueueRequest} {after : After} {stage : QueueStage}
    (hcurrent : s.sessionIsCurrent request.epoch = true)
    (hspares : ∀ key ∈ s.releases clock (.queueing request stage after),
      s.tables.exchanges.Spares key)
    (h : s.queueRequest config i clock request after stage = some (s', phase')) :
    Onward s s' (.queueing request stage after) phase' := by
  have howed (stage' : QueueStage) : (Phase.queueing request stage after).owed ⊆
      (Phase.queueing request stage' after).owed := by
    rw [owed_queueing, owed_queueing]
    exact List.Subset.refl _
  have hreserved (stage' : QueueStage) : (Phase.queueing request stage' after).reserved ⊆
      (Phase.queueing request stage after).reserved := by
    rw [reserved_queueing, reserved_queueing]
    exact List.Subset.refl _
  have howedAfter : (Phase.queueing request stage after).owed ⊆ after.phase.owed := by
    rw [owed_queueing]
    exact List.Subset.refl _
  have hreservedAfter : after.phase.reserved ⊆ (Phase.queueing request stage after).reserved := by
    rw [reserved_queueing]
    exact List.subset_cons_self _ _
  cases stage with
  | identifying | evidencing identity =>
    cases h
    exact onward_still rfl rfl (howed _) (hreserved _)
  | locking identity =>
    simp only [queueRequest, hcurrent, if_true] at h
    split at h
    · cases h
    · cases h
      exact onward_plain (List.Subset.refl _) (fun _ h => h) (List.Subset.refl _) (howed _)
        (hreserved _)
  | pushing identity evidence =>
    have hqueued (key : String) (hkey : s.Has key) :
        ((s.tables.exchanges.observeEvidence request.pubkey evidence).queued request.pubkey).Has key :=
      DiscoveryExchanges.has_modify.mpr (DiscoveryExchanges.has_modify.mpr hkey)
    have hkeys (key : String)
        (hkey : key ∈ (s.outbox.push request.pubkey request.priority request.delay
          clock.instant).2.keys) :
        key ∈ s.outbox.keys ∨
          key ∈ (Phase.queueing request (.pushing identity evidence) after).reserved := by
      refine (DiscoveryOutbox.keys_push hkey).imp_right fun hnew => ?_
      rw [reserved_queueing, hnew]
      exact List.mem_cons_self
    simp only [queueRequest] at h
    split at h
    all_goals
      cases h
      refine ⟨fun _ h => .inl h, fun _ h => .inl ?_, fun _ h => .inl ?_, fun key hkey => ?_, hkeys⟩
      · first
        | exact howedAfter h
        | exact howed _ h
      · first
        | exact hreservedAfter h
        | exact hreserved _ h
      · split
        · next pubkey hdropped =>
          refine DiscoveryExchanges.has_release ?_ (hqueued key hkey)
          exact DiscoveryExchanges.spares_queued.mpr (hspares pubkey hdropped)
        · exact hqueued key hkey
  | spawning identity =>
    cases h
    exact onward_plain (List.Subset.refl _) (fun _ h => h) (List.Subset.refl _) howedAfter
      hreservedAfter

/-! ### The steps of a call -/

theorem Reads.goesOn (h : s.Reads config c) (hentered : c.phase.entered = true)
    (hidentified : c.phase.identified = true) (phase : Phase) :
    s.Reads config { c with phase } :=
  ⟨h.epoch, fun _ => h.room hentered, fun _ => h.identity hidentified⟩

theorem reads_processCall (hreads : s.Reads config c)
    (h : s.processCall config i c clock jitter = some (s', c')) : s.Reads config c' := by
  cases processCall_goes h with
  | starts hphase hnext =>
    refine ⟨hreads.epoch, fun hentered => ?_, fun _ => rfl⟩
    rcases hnext with rfl | rfl <;> cases hentered
  | enters hphase hroom hfirst =>
    refine ⟨hreads.epoch, fun hentered => hroom.resolve_right ?_,
      fun _ => hreads.identity (by rw [hphase]; rfl)⟩
    rintro rfl
    cases hentered
  | discovers hphase | overhears hphase | ignores hphase | processes hphase | queues hphase =>
    exact hreads.goesOn (by rw [hphase]; rfl) (by rw [hphase]; rfl) _
  | maintains hphase hmaintain => exact reads_maintain hreads hphase hmaintain

theorem onward_processCall (hreads : s.Reads config c) (hconsistent : c.Consistent)
    (hqueued : ∀ key ∈ s.outbox.keys, s.Has key)
    (hspares : ∀ key ∈ s.releases clock c.phase, s.tables.exchanges.Spares key)
    (h : s.processCall config i c clock jitter = some (s', c')) :
    Onward s s' c.phase c'.phase := by
  cases processCall_goes h with
  | starts hphase hnext =>
    rw [hphase]
    refine onward_still rfl rfl (nil_owed rfl) (nil_reserved ?_)
    rcases hnext with rfl | rfl <;> rfl
  | enters hphase hroom hfirst =>
    rw [hphase]
    exact onward_still rfl rfl (nil_owed rfl) (nil_reserved (Phase.reserved_of_first hfirst))
  | discovers hphase hdiscover =>
    rw [hphase]
    exact onward_discover hreads hphase hconsistent hdiscover
  | overhears hphase hoverhear =>
    rw [hphase]
    exact onward_overhear hoverhear
  | ignores hphase =>
    rw [hphase]
    exact onward_still rfl rfl (nil_owed rfl) (nil_reserved rfl)
  | processes hphase hmessage =>
    rw [hphase]
    exact onward_processMessage hreads hphase hconsistent hqueued hmessage
  | maintains hphase hmaintain => exact hphase ▸ onward_maintain hreads hphase hspares hmaintain
  | queues hphase hqueue =>
    have hrequest := hconsistent _ (by rw [hphase]; rfl)
    rw [hphase] at hspares ⊢
    exact onward_queueRequest (current_of_reads hreads hrequest) hspares hqueue

theorem onward_pace {w : Worker} {published : Published} {phase phase' : WorkerPhase}
    (hspares : ∀ key ∈ phase.releases, s.tables.exchanges.Spares key)
    (h : s.pace config w clock published phase = some (s', phase')) :
    (∀ key, s.Has key → s'.Has key) ∧ s'.outbox.keys ⊆ s.outbox.keys := by
  cases phase with
  | pacing =>
    simp only [pace] at h
    split at h
    · cases h
    · split at h
      · split at h
        all_goals
          cases h
          exact ⟨fun _ h => h, List.Subset.refl _⟩
      · cases h
        exact ⟨fun _ h => h, List.Subset.refl _⟩
  | popping =>
    have hpopped : (s.outbox.pop clock.instant).2.keys ⊆ s.outbox.keys :=
      fun _ hkey => DiscoveryOutbox.keys_pop hkey
    simp only [pace] at h
    split at h
    · cases h
    · split at h
      · split at h
        all_goals
          next hpop =>
          cases h
          rw [hpop] at hpopped
          exact ⟨fun _ h => h, hpopped⟩
      · cases h
        exact ⟨fun _ h => h, List.Subset.refl _⟩
  | publishing item =>
    cases published with
    | sent | refused | failed =>
      cases h
      exact ⟨fun _ h => h, List.Subset.refl _⟩
  | logging item =>
    cases h
    exact ⟨fun _ h => DiscoveryExchanges.has_logSent.mpr h, List.Subset.refl _⟩
  | releasing item =>
    cases h
    exact ⟨fun _ h => DiscoveryExchanges.has_release (hspares _ rfl) h, List.Subset.refl _⟩
  | finishing item =>
    simp only [pace] at h
    split at h
    · cases h
    · cases h
      exact ⟨fun _ h => h, List.Subset.refl _⟩
  | sent item =>
    cases h
    exact ⟨fun _ h => DiscoveryExchanges.has_modify.mpr h, List.Subset.refl _⟩
  | returned => cases h
  | _ =>
    cases h
    exact ⟨fun _ h => h, List.Subset.refl _⟩

/-! ## Requests within a session -/

/-- Whatever is queued or about to be has an entry, and so has whatever is requested, or
some call has yet to reserve it. -/
structure Kept (config : NostrConfig) (s : NostrSignaler) : Prop where
  ordered : s.Ordered
  changes : s.changes = []
  reads : ∀ c ∈ s.calls, s.Reads config c
  queued : ∀ key ∈ s.outbox.keys, s.Has key
  reserved : ∀ c ∈ s.calls, ∀ key ∈ c.phase.reserved, s.Has key
  requested : ∀ key ∈ s.tables.requestedPubkeys,
    s.Has key ∨ ∃ c ∈ s.calls, c.dropped = false ∧ key ∈ c.phase.owed

theorem Begins.kept (h : s.Begins) : s.Kept config where
  ordered := by
    refine ⟨?_, ?_, ?_, ?_⟩ <;> simp [h.calls, h.changes]
  changes := h.changes
  reads := by simp [h.calls]
  queued := by simp [DiscoveryOutbox.keys, h.queue]
  reserved := by simp [h.calls]
  requested := by simp [h.requested]

theorem Kept.begin (h : s.Kept config)
    (hordered : ({ s with calls := s.calls ++ [c] } : NostrSignaler).Ordered)
    (hreads : s.Reads config c) (hreserved : c.phase.reserved = []) :
    ({ s with calls := s.calls ++ [c] } : NostrSignaler).Kept config where
  ordered := hordered
  changes := h.changes
  reads d hd := by
    have hall := Calls.forall_begin (P := s.Reads config) h.reads hreads d hd
    exact { hall with }
  queued := h.queued
  reserved := Calls.forall_begin h.reserved fun key hkey => by rw [hreserved] at hkey; cases hkey
  requested key hkey := by
    refine (h.requested key hkey).imp_right ?_
    rintro ⟨d, hd, howed⟩
    exact ⟨d, List.mem_append_left _ hd, howed⟩

theorem Kept.goOn (h : s.Kept config) (hfaithful : s.Faithful (.goOn i clock jitter))
    (hstep : s.step config (.goOn i clock jitter) = some s') : s'.Kept config := by
  have hordered := h.ordered.goOn hstep
  obtain ⟨c, c', after, hc, hdropped, hcall, rfl⟩ := goOn_cases hstep
  have hmem := List.mem_of_getElem? hc
  have hconsistent := h.ordered.consistent c hmem
  have honward := onward_processCall (h.reads c hmem) hconsistent h.queued (hfaithful c hc) hcall
  have hreads := reads_processCall (h.reads c hmem) hcall
  have hlive : c'.dropped = false := by
    rw [← hdropped]
    rcases processCall_cases hconsistent hcall with ⟨_, _, _, _, _, _, rfl⟩ | ⟨_, _, hsame⟩
    · rfl
    · exact hsame
  obtain ⟨_, tables, outbox, _, _, rfl⟩ := frame_processCall hconsistent hcall
  have hreserved := h.reserved c hmem
  refine ⟨hordered, h.changes, fun d hd => ?_, fun key hkey => ?_, ?_, fun key hkey => ?_⟩
  · have hall := Calls.forall_set (P := s.Reads config) h.reads hreads d hd
    exact { hall with }
  · rcases honward.queues key hkey with hbefore | hnew
    · exact honward.keeps key (h.queued key hbefore)
    · exact honward.keeps key (hreserved key hnew)
  · refine Calls.forall_set (fun d hd key hkey => honward.keeps key (h.reserved d hd key hkey)) ?_
    intro key hkey
    rcases honward.reserves key hkey with hbefore | hnew
    · exact honward.keeps key (hreserved key hbefore)
    · exact hnew
  · have hself (howed : key ∈ c'.phase.owed) :
        ∃ d ∈ s.calls.set i c', d.dropped = false ∧ key ∈ d.phase.owed :=
      Calls.exists_self hc ⟨hlive, howed⟩
    rcases honward.marks key hkey with hbefore | hnew
    · rcases h.requested key hbefore with hhas | ⟨d, hd, hlived, howed⟩
      · exact .inl (honward.keeps key hhas)
      · rcases Calls.mem_set hc c' hd with rfl | hd
        · exact (honward.owes key howed).symm.imp_right hself
        · exact .inr ⟨d, hd, hlived, howed⟩
    · exact .inr (hself hnew)

theorem Kept.drop (h : s.Kept config) (hfaithful : s.Faithful (.drop i))
    (hstep : s.step config (.drop i) = some s') : s'.Kept config := by
  have hordered := h.ordered.drop hstep
  obtain ⟨c, hc, rfl⟩ := drop_cases hstep
  have hmem := List.mem_of_getElem? hc
  refine ⟨hordered, h.changes, fun d hd => ?_, h.queued,
    Calls.forall_set h.reserved (h.reserved c hmem), fun key hkey => ?_⟩
  · have hreads := h.reads c hmem
    have hdropped : s.Reads config { c with dropped := true } :=
      { hreads with }
    have hall := Calls.forall_set (P := s.Reads config) h.reads hdropped d hd
    exact { hall with }
  · rcases h.requested key hkey with hhas | ⟨d, hd, hlive, howed⟩
    · exact .inl hhas
    · rcases Calls.mem_set hc { c with dropped := true } hd with rfl | hd
      · exact .inl (hfaithful d hc hlive key howed hkey)
      · exact .inr ⟨d, hd, hlive, howed⟩

/-- Each faithful step keeps every request with its entry. -/
theorem Kept.step {input : Input} (h : s.Kept config) (hwithin : input.isChange = false)
    (hfaithful : s.Faithful input) (hstep : s.step config input = some s') : s'.Kept config := by
  have hordered := h.ordered.step hstep
  cases input with
  | event id | maintain connectedPeers =>
    cases hstep
    exact h.begin hordered ⟨rfl, nofun, nofun⟩ rfl
  | goOn i clock jitter => exact h.goOn hfaithful hstep
  | drop i => exact h.drop hfaithful hstep
  | work i clock published =>
    obtain ⟨w, phase, after, hw, hwork, rfl⟩ := work_cases hstep
    obtain ⟨hkeeps, hkeys⟩ := onward_pace (hfaithful w hw) hwork
    obtain ⟨_, _, rfl⟩ := pace_frame hwork
    exact ⟨hordered, h.changes, fun d hd => ⟨(h.reads d hd).epoch, (h.reads d hd).room,
      (h.reads d hd).identity⟩, fun key hkey => hkeeps key (h.queued key (hkeys hkey)),
      fun d hd key hkey => hkeeps key (h.reserved d hd key hkey),
      fun key hkey => (h.requested key hkey).imp_left (hkeeps key)⟩
  | cancelled i =>
    obtain ⟨w, -, -, rfl⟩ := cancelled_cases hstep
    exact ⟨hordered, h.changes, fun d hd => ⟨(h.reads d hd).epoch, (h.reads d hd).room,
      (h.reads d hd).identity⟩, h.queued, h.reserved, h.requested⟩
  | change kind => cases hwithin
  | advance i =>
    obtain ⟨ch, _, _, _, _, hch, -⟩ := advance_cases hstep
    rw [h.changes] at hch
    cases hch

/-- In a session of the native signaler whose steps are all faithful, every requested key
has an entry whenever no call is in progress. -/
theorem keepsRequests {start : NostrSignaler} {moves : List (Move NostrSignaler Input)}
    (hbegins : start.Begins) (run : Run (NostrSignaler.step config) start moves s)
    (hwithin : ∀ m ∈ moves, m.input.isChange = false)
    (hfaithful : ∀ m ∈ moves, m.before.Faithful m.input) (hquiescent : s.Quiescent) :
    s.KeepsRequests := by
  have h : s.Kept config := run.keepsUnder
    (C := fun s input => input.isChange = false ∧ s.Faithful input) hbegins.kept
    (fun _ _ _ h hok hstep => h.step hok.1 hok.2 hstep)
    fun m hm => ⟨hwithin m hm, hfaithful m hm⟩
  intro key hkey
  rcases h.requested key hkey with hhas | ⟨c, hc, hlive, howed⟩
  · exact hhas
  · rcases hquiescent c hc with hreturned | hdropped
    · rw [hreturned] at howed
      cases howed
    · rw [hdropped] at hlive
      cases hlive

end NostrSignaler

end Mistlib.Signaling.Native
