import Mistlib.Signaling.NativeSteps

/-!
# What a session leaves to the next

A change of the session counts the epoch up and then clears the tables one by one, each under
its own lock. A call checks the epoch it has read before it writes, but not always under the
lock it writes under: what it writes after a change has cleared the table stays there.

`origin` looks back in a run for the epoch of whoever changed a cell of the tables last. Where
the unchecked writes come in time (`Timely`), all that a session leaves is cleared by the change
that ends it.
-/

namespace Mistlib.Signaling.Native

open Reactive

inductive TableName where
  | incomingSequences
  | messageDedupe
  | requestedPubkeys
  | bootstrap
  | exchanges
  | discoveryTable
deriving DecidableEq, Repr

inductive Cell where
  | sequence (pubkey : String)
  | messageId (id : String)
  | requested (pubkey : String)
  | advertisement (pubkey : String)
  /-- The deadline, the rounds and the keys of the probes. -/
  | probes
  | exchange (pubkey : String)
  /-- The retries spent in the session. -/
  | retries
  | discovered (pubkey : String)
  | node (nodeId : NodeId)
deriving DecidableEq, Repr

inductive Content where
  | sequence (last : Nat)
  | seen (at_ : Instant)
  | requested
  | advertisement (ad : Advertisement)
  | probes (nextProbe : Option Instant) (rounds : Nat) (finished : Bool) (probed : List String)
  | exchange (peer : Exchange)
  | retries (retries sentRetries : Nat)
  | discovered (entry : DiscoveryEntry)
  | node (binding : NodeBinding)
deriving DecidableEq, Repr

def Cell.table : Cell → TableName
  | .sequence _ => .incomingSequences
  | .messageId _ => .messageDedupe
  | .requested _ => .requestedPubkeys
  | .advertisement _ | .probes => .bootstrap
  | .exchange _ | .retries => .exchanges
  | .discovered _ | .node _ => .discoveryTable

/-- What a cell contains; `none` where it is as in an empty table. -/
def Tables.content (t : Tables) : Cell → Option Content
  | .sequence pubkey => (t.incomingSequences.get pubkey).map .sequence
  | .messageId id => (t.messageDedupe.entries.get id).map .seen
  | .requested pubkey => if pubkey ∈ t.requestedPubkeys then some .requested else none
  | .advertisement pubkey => (t.bootstrap.advertisements.get pubkey).map .advertisement
  | .probes =>
    let b := t.bootstrap
    if (b.nextProbe, b.rounds, b.finished, b.probed) = (none, 0, false, []) then none
    else some (.probes b.nextProbe b.rounds b.finished b.probed)
  | .exchange pubkey => (t.exchanges.peers.get pubkey).map .exchange
  | .retries =>
    let x := t.exchanges
    if (x.retries, x.sentRetries) = (0, 0) then none else some (.retries x.retries x.sentRetries)
  | .discovered pubkey => (t.discoveryTable.byPubkey.get pubkey).map .discovered
  | .node nodeId => (t.discoveryTable.nodeToPubkey.get nodeId).map .node

def TableName.clear : TableName → SessionStep
  | .incomingSequences => .clearIncomingSequences
  | .messageDedupe => .clearMessageDedupe
  | .requestedPubkeys => .clearRequestedPubkeys
  | .bootstrap => .clearBootstrap
  | .exchanges => .clearExchanges
  | .discoveryTable => .clearDiscoveryTable

def Work.isEvent : Work → Bool
  | .event _ => true
  | .maintain _ => false

/-- The tables that a call writes to without a check of the epoch under a lock that
the change takes later than it counts the epoch up. -/
def Phase.unchecked : Phase → List TableName
  | .discovering _ .observing => [.bootstrap]
  | .discovering _ .advertising => [.exchanges]
  | .overhearing .observing => [.bootstrap]
  | .overhearing .observingExchange => [.exchanges]
  | .processing _ (.ordering _) => [.messageDedupe, .incomingSequences]
  | .processing _ (.observing _) | .processing _ (.progressing _)
  | .processing _ (.purgingExchange _) => [.exchanges]
  | .processing _ .replying => [.requestedPubkeys]
  | .processing _ .noting => [.exchanges]
  | .maintaining .stopping => [.bootstrap]
  | .maintaining (.releasing _) | .maintaining .polling => [.exchanges]
  | .maintaining .choosing => [.bootstrap, .requestedPubkeys]
  | .maintaining (.reserving _ _) => [.exchanges]
  | _ => []

def WorkerPhase.unchecked : WorkerPhase → List TableName
  | .logging _ | .releasing _ | .sent _ => [.exchanges]
  | _ => []

namespace NostrSignaler

/-- What whoever read the epoch writes to the table does not outlast the session. -/
def InTime (s : NostrSignaler) (epoch : Nat) (table : TableName) : Prop :=
  epoch = s.sessionEpoch ∨ s.ToDo table.clear
deriving Decidable

/-- A write that is not checked is made while the epoch is the one its call or its
worker has read, or before the change that has ended it clears the table. -/
def Timely (s : NostrSignaler) : Input → Prop
  | .goOn i _ _ => ∀ c ∈ s.calls[i]?, ∀ table ∈ c.phase.unchecked, s.InTime c.epoch table
  | .work i _ _ => ∀ w ∈ s.workers[i]?, ∀ table ∈ w.phase.unchecked, s.InTime w.epoch table
  | _ => True

instance (s : NostrSignaler) : DecidablePred s.Timely
  | .goOn i _ _ => inferInstanceAs (Decidable (∀ c ∈ s.calls[i]?, _))
  | .work i _ _ => inferInstanceAs (Decidable (∀ w ∈ s.workers[i]?, _))
  | .event _ | .maintain _ | .drop _ | .cancelled _ | .change _ | .advance _ => .isTrue trivial

/-- No change is in progress, and every call of `process_event` that read an earlier
epoch has returned or was dropped. -/
def Settled (s : NostrSignaler) : Prop :=
  (∀ ch ∈ s.changes, ch.remaining = []) ∧
    ∀ c ∈ s.calls, c.work.isEvent = true → c.epoch ≠ s.sessionEpoch →
      c.phase = .returned ∨ c.dropped = true
deriving Decidable

/-- The epoch that the call or the worker of a move has read. -/
def epochOf (m : Move NostrSignaler Input) : Option Nat :=
  match m.input with
  | .goOn i _ _ => m.before.calls[i]?.map Call.epoch
  | .work i _ _ => m.before.workers[i]?.map Worker.epoch
  | _ => none

/-- The epoch of whoever has changed the cell last, in a run that ends in `s`. -/
def origin (cell : Cell) : List (Move NostrSignaler Input) → NostrSignaler → Option Nat
  | [], _ => none
  | m :: past, s =>
    if s.tables.content cell = m.before.tables.content cell then origin cell past m.before
    else epochOf m

/-- Whatever the tables contain was put there by a call or a worker of this session. -/
def OwnSession (moves : List (Move NostrSignaler Input)) (s : NostrSignaler) : Prop :=
  ∀ cell, s.tables.content cell ≠ none → origin cell moves s = some s.sessionEpoch

/-! ## What a step writes -/

variable {config : NostrConfig} {s s' : NostrSignaler} {c c' : Call} {clock : Clock}
  {jitter : Duration} {phase' : Phase} {i : Nat} {late : List TableName} {epoch : Nat}

/-- A step of a call or a worker that has read the epoch, and what it puts in a cell:
it leaves the cell, it empties it, or the table is one of the given, or the session is
still the one it has read. -/
def Writes (s s' : NostrSignaler) (late : List TableName) (epoch : Nat) : Prop :=
  ∀ cell, s'.tables.content cell = s.tables.content cell ∨ s'.tables.content cell = none ∨
    cell.table ∈ late ∨ epoch = s.sessionEpoch

theorem writes_nothing (h : s'.tables = s.tables) : Writes s s' late epoch :=
  fun _ => .inl (by rw [h])

theorem writes_checked (h : s.sessionIsCurrent epoch = true) : Writes s s' late epoch :=
  fun _ => .inr (.inr (.inr (of_decide_eq_true h).symm))

theorem writes_exchanges {x : DiscoveryExchanges}
    (h : s'.tables = { s.tables with exchanges := x }) (hlate : .exchanges ∈ late) :
    Writes s s' late epoch := by
  intro cell
  rw [h]
  cases cell with
  | exchange pubkey | retries => exact .inr (.inr (.inl hlate))
  | _ => exact .inl rfl

theorem writes_bootstrap {b : DiscoveryBootstrap}
    (h : s'.tables = { s.tables with bootstrap := b }) (hlate : .bootstrap ∈ late) :
    Writes s s' late epoch := by
  intro cell
  rw [h]
  cases cell with
  | advertisement pubkey | probes => exact .inr (.inr (.inl hlate))
  | _ => exact .inl rfl

theorem writes_discover {decoded : DecodedDiscovery} {stage : DiscoveryStage}
    (hcarried : ∀ e, stage = .reserving e → e = c.epoch)
    (h : s.discover config c clock jitter decoded stage = (s', phase')) :
    Writes s s' (Phase.discovering decoded stage).unchecked c.epoch := by
  cases stage with
  | checking | deduping | rechecking =>
    cases h
    exact writes_nothing rfl
  | observing =>
    cases h
    exact writes_bootstrap rfl List.mem_cons_self
  | recording | requesting shouldRequest =>
    simp only [discover] at h
    split at h
    · next hcurrent => exact writes_checked hcurrent
    · cases h
      exact writes_nothing rfl
  | reserving e =>
    obtain rfl := hcarried e rfl
    simp only [discover] at h
    split at h
    · next hcurrent => exact writes_checked hcurrent
    · cases h
      exact writes_nothing rfl
  | advertising =>
    cases h
    exact writes_exchanges rfl List.mem_cons_self

theorem writes_overhear {stage : MailboxStage} (h : s.overhear config c clock stage = (s', phase')) :
    Writes s s' (Phase.overhearing stage).unchecked c.epoch := by
  cases stage with
  | observing =>
    cases h
    exact writes_bootstrap rfl List.mem_cons_self
  | observingExchange =>
    cases h
    exact writes_exchanges rfl List.mem_cons_self
  | deduping =>
    cases h
    exact writes_nothing rfl

/-- A table of discovered keys that has lost entries at most. -/
structure Swept (t t' : DiscoveryTable) : Prop where
  byPubkey : ∀ pubkey entry, t'.byPubkey.get pubkey = some entry →
    t.byPubkey.get pubkey = some entry
  nodeToPubkey : ∀ nodeId binding, t'.nodeToPubkey.get nodeId = some binding →
    t.nodeToPubkey.get nodeId = some binding

variable (t : DiscoveryTable) (now : Nat)

theorem Swept.refl : Swept t t := ⟨fun _ _ h => h, fun _ _ h => h⟩

theorem Swept.trans {t t' t'' : DiscoveryTable} (h : Swept t t') (h' : Swept t' t'') :
    Swept t t'' :=
  ⟨fun _ _ hget => h.byPubkey _ _ (h'.byPubkey _ _ hget),
    fun _ _ hget => h.nodeToPubkey _ _ (h'.nodeToPubkey _ _ hget)⟩

theorem swept_sweepExpired : Swept t (t.sweepExpired now) := by
  constructor
  · intro pubkey entry h
    exact (DiscoveryTable.get_sweepExpired.mp h).1
  · intro nodeId binding h
    rw [DiscoveryTable.sweepExpired, Table.get_retain, Option.filter_eq_some_iff] at h
    exact h.1

theorem swept_admitsSender (requested : Bool) (pubkey : String) (data : SignalingData)
    (senderEpoch : Option Nat) :
    Swept t (t.admitsSender now requested pubkey data senderEpoch).2 := by
  have haccept : Swept t (t.acceptSenderForPayload now requested pubkey data).2 := by
    unfold DiscoveryTable.acceptSenderForPayload
    split
    · exact .refl t
    · exact swept_sweepExpired t now
  have hlookup (t : DiscoveryTable) : Swept t (t.pubkeyForNode now data.senderId).2 :=
    swept_sweepExpired t now
  unfold DiscoveryTable.admitsSender
  dsimp only
  split
  · exact haccept
  · split
    · exact haccept.trans (hlookup _)
    · exact haccept.trans (hlookup _)

theorem swept_responderPubkeysFor (subject subjectRank localPubkey localRank : String) (limit : Nat) :
    Swept t (t.responderPubkeysFor now subject subjectRank localPubkey localRank limit).2 := by
  rw [DiscoveryTable.responderPubkeysFor_table]
  exact swept_sweepExpired t now

theorem swept_poll (b : DiscoveryBootstrap) (now : Instant) (unixSeconds : Nat) (t : DiscoveryTable)
    (localPubkey localRank : String) (requested : List String) (connected : Nat) :
    Swept t (b.poll now unixSeconds t localPubkey localRank requested connected).2.2 := by
  unfold DiscoveryBootstrap.poll
  generalize (if connected ≥ TARGET_PEERS then b.stop else b) = b
  dsimp only
  split
  · exact .refl t
  · split
    · exact .refl t
    · split
      · exact .refl t
      · exact (swept_sweepExpired t unixSeconds).trans (swept_responderPubkeysFor _ _ _ _ _ _ _)

theorem content_swept {t : Tables} {table : DiscoveryTable} (h : Swept t.discoveryTable table)
    (cell : Cell) :
    ({ t with discoveryTable := table } : Tables).content cell = t.content cell ∨
      ({ t with discoveryTable := table } : Tables).content cell = none := by
  cases cell with
  | discovered pubkey =>
    cases hget : table.byPubkey.get pubkey with
    | none => exact .inr (by simp only [Tables.content, hget, Option.map_none])
    | some entry =>
      exact .inl (by simp only [Tables.content, hget, h.byPubkey pubkey entry hget])
  | node nodeId =>
    cases hget : table.nodeToPubkey.get nodeId with
    | none => exact .inr (by simp only [Tables.content, hget, Option.map_none])
    | some binding =>
      exact .inl (by simp only [Tables.content, hget, h.nodeToPubkey nodeId binding hget])
  | _ => exact .inl rfl

theorem writes_processMessage {decoded : DecodedMessage} {stage : MessageStage}
    (hcarried : ∀ e, stage = .reserving e → e = c.epoch)
    (h : s.processMessage config c clock decoded stage = some (s', phase')) :
    Writes s s' (Phase.processing decoded stage).unchecked c.epoch := by
  cases stage with
  | checking | deduping | lookingUp | lookingUpAgain wasRequested | notifying | forwarding
  | rechecking | replied =>
    cases h
    exact writes_nothing rfl
  | admitting wasRequested requested =>
    cases h
    intro cell
    have hswept := content_swept (swept_admitsSender s.tables.discoveryTable clock.unixSeconds
      requested decoded.senderPubkey decoded.data decoded.senderJoinedAt) cell
    exact hswept.imp_right .inl
  | ordering wasRequested =>
    cases h
    intro cell
    cases cell with
    | sequence pubkey => exact .inr (.inr (.inl (List.mem_cons_of_mem _ List.mem_cons_self)))
    | messageId id => exact .inr (.inr (.inl List.mem_cons_self))
    | _ => exact .inl rfl
  | binding wasRequested =>
    simp only [processMessage] at h
    split at h
    · next hcurrent => exact writes_checked hcurrent
    · cases h
      exact writes_nothing rfl
  | observing reboundFrom | progressing reboundFrom | purgingExchange previousPubkey | noting =>
    cases h
    exact writes_exchanges rfl List.mem_cons_self
  | purgingRequested previousPubkey =>
    cases h
    intro cell
    cases cell with
    | requested pubkey =>
      simp only [Tables.content]
      split
      · next hstays => exact .inl (by rw [if_pos (List.mem_of_mem_erase hstays)])
      · exact .inr (.inl rfl)
    | _ => exact .inl rfl
  | purgingSequences previousPubkey =>
    cases h
    intro cell
    cases cell with
    | sequence pubkey =>
      simp only [Tables.content, Table.get_erase]
      split
      · exact .inr (.inl rfl)
      · exact .inl rfl
    | _ => exact .inl rfl
  | replying =>
    cases h
    intro cell
    cases cell with
    | requested pubkey => exact .inr (.inr (.inl List.mem_cons_self))
    | _ => exact .inl rfl
  | promoting e =>
    simp only [processMessage] at h
    split at h
    · cases h
    · split at h
      all_goals
        cases h
        exact writes_nothing rfl
  | reserving e =>
    obtain rfl := hcarried e rfl
    simp only [processMessage] at h
    split at h
    · next hcurrent => exact writes_checked hcurrent
    · cases h
      exact writes_nothing rfl

theorem writes_maintain {connectedPeers : Nat} {stage : MaintainStage}
    (h : s.maintain config c connectedPeers clock stage = some (s', c')) :
    Writes s s' (Phase.maintaining stage).unchecked c.epoch := by
  cases stage with
  | entering =>
    simp only [maintain] at h
    split at h
    all_goals
      cases h
      exact writes_nothing rfl
  | identifying | retryingIn pubkey retries | probingIn pubkey candidates
  | probingAs pubkey candidates =>
    cases h
    exact writes_nothing rfl
  | stopping =>
    cases h
    exact writes_bootstrap rfl List.mem_cons_self
  | stoppingProbes =>
    simp only [maintain] at h
    split at h
    · cases h
    · cases h
      exact writes_nothing rfl
  | releasing dropped =>
    cases dropped with
    | nil =>
      cases h
      exact writes_nothing rfl
    | cons pubkey dropped =>
      cases h
      exact writes_exchanges rfl List.mem_cons_self
  | polling | reserving pubkey candidates =>
    cases h
    exact writes_exchanges rfl List.mem_cons_self
  | retrying retries =>
    cases retries with
    | nil | cons pubkey retries =>
      cases h
      exact writes_nothing rfl
  | choosing =>
    cases h
    intro cell
    have hswept := content_swept (swept_poll s.tables.bootstrap clock.instant clock.unixSeconds
      s.tables.discoveryTable c.identity (config.codec.topologyRank config.lib c.room c.identity)
      s.tables.requestedPubkeys connectedPeers) cell
    cases cell with
    | requested pubkey => exact .inr (.inr (.inl (List.mem_cons_of_mem _ List.mem_cons_self)))
    | advertisement pubkey | probes => exact .inr (.inr (.inl List.mem_cons_self))
    | _ => exact hswept.imp_right .inl
  | probing candidates =>
    cases candidates with
    | nil | cons pubkey candidates =>
      cases h
      exact writes_nothing rfl

theorem writes_queueRequest (epoch : Nat) {request : QueueRequest} {after : After} {stage : QueueStage}
    (h : s.queueRequest config i clock request after stage = some (s', phase')) :
    s'.tables = s.tables ∨
      (∃ identity evidence, stage = .pushing identity evidence) ∧ Writes s s' [.exchanges] epoch := by
  cases stage with
  | identifying | evidencing identity | spawning identity =>
    cases h
    exact .inl rfl
  | locking identity =>
    simp only [queueRequest] at h
    split at h
    · cases h
    · split at h
      all_goals
        cases h
        exact .inl rfl
  | pushing identity evidence =>
    refine .inr ⟨⟨identity, evidence, rfl⟩, ?_⟩
    simp only [queueRequest] at h
    split at h
    all_goals
      cases h
      exact writes_exchanges rfl List.mem_cons_self

theorem writes_pace (epoch : Nat) {w : Worker} {published : Published} {phase phase' : WorkerPhase}
    (h : s.pace config w clock published phase = some (s', phase')) :
    Writes s s' phase.unchecked epoch := by
  cases phase with
  | pacing | popping =>
    simp only [pace] at h
    split at h
    · cases h
    · split at h
      · split at h
        all_goals
          cases h
          exact writes_nothing rfl
      · cases h
        exact writes_nothing rfl
  | publishing item =>
    cases published with
    | sent | refused | failed =>
      cases h
      exact writes_nothing rfl
  | logging item | releasing item | sent item =>
    cases h
    exact writes_exchanges rfl List.mem_cons_self
  | finishing item =>
    simp only [pace] at h
    split at h
    · cases h
    · cases h
      exact writes_nothing rfl
  | returned => cases h
  | _ =>
    cases h
    exact writes_nothing rfl

theorem writes_processCall (hconsistent : c.Consistent) (hdropped : c.dropped = false)
    (hfresh : c.HoldsOutbox → s.InTime c.epoch .exchanges)
    (hlate : ∀ table ∈ c.phase.unchecked, s.InTime c.epoch table)
    (h : s.processCall config i c clock jitter = some (s', c')) :
    ∃ late, (∀ table ∈ late, s.InTime c.epoch table) ∧ Writes s s' late c.epoch := by
  have hcarries {e : Nat} {phase : Phase} (hphase : c.phase = phase) (he : e ∈ phase.carried) :
      e = c.epoch := hconsistent e (by rw [hphase]; exact he)
  cases processCall_goes h with
  | starts | enters | ignores => exact ⟨[], nofun, writes_nothing rfl⟩
  | discovers hphase hdiscover =>
    rw [hphase] at hlate
    refine ⟨_, hlate, writes_discover (fun e he => hcarries hphase ?_) hdiscover⟩
    rw [he]
    rfl
  | overhears hphase hoverhear =>
    rw [hphase] at hlate
    exact ⟨_, hlate, writes_overhear hoverhear⟩
  | processes hphase hmessage =>
    rw [hphase] at hlate
    refine ⟨_, hlate, writes_processMessage (fun e he => hcarries hphase ?_) hmessage⟩
    rw [he]
    rfl
  | maintains hphase hmaintain =>
    rw [hphase] at hlate
    exact ⟨_, hlate, writes_maintain hmaintain⟩
  | queues hphase hqueue =>
    rcases writes_queueRequest c.epoch hqueue with hsame | ⟨⟨_, _, rfl⟩, hwrites⟩
    · exact ⟨[], nofun, writes_nothing hsame⟩
    · refine ⟨[.exchanges], fun table htable => ?_, hwrites⟩
      rw [List.mem_singleton.mp htable]
      exact hfresh ⟨hdropped, _, by rw [hphase]; rfl, rfl⟩

/-! ## What a change clears -/

variable {next : SessionStep} {rest : List SessionStep} {goesOn : Bool} {ch : Change}

theorem content_changeSession (h : s.changeSession config next = some (s', goesOn)) (cell : Cell) :
    s'.tables.content cell = s.tables.content cell ∨ s'.tables.content cell = none := by
  cases next with
  | enterRoom room | beginReset =>
    simp only [changeSession] at h
    split at h
    all_goals
      cases h
      exact .inl rfl
  | clearOutbox =>
    simp only [changeSession] at h
    split at h
    · cases h
    · cases h
      exact .inl rfl
  | clearExchanges =>
    cases h
    cases cell with
    | exchange pubkey | retries => exact .inr rfl
    | _ => exact .inl rfl
  | clearDiscoveryTable =>
    cases h
    cases cell with
    | discovered pubkey | node nodeId => exact .inr rfl
    | _ => exact .inl rfl
  | clearBootstrap =>
    cases h
    cases cell with
    | advertisement pubkey | probes => exact .inr rfl
    | _ => exact .inl rfl
  | clearMessageDedupe =>
    cases h
    cases cell with
    | messageId id => exact .inr rfl
    | _ => exact .inl rfl
  | clearIncomingSequences =>
    cases h
    cases cell with
    | sequence pubkey => exact .inr rfl
    | _ => exact .inl rfl
  | clearRequestedPubkeys =>
    cases h
    cases cell with
    | requested pubkey => exact .inr rfl
    | _ => exact .inl rfl
  | _ =>
    cases h
    exact .inl rfl

theorem content_cleared {cell : Cell}
    (h : s.changeSession config cell.table.clear = some (s', goesOn)) :
    s'.tables.content cell = none := by
  cases cell <;> cases h <;> rfl

theorem clear_mem (table : TableName) :
    table.clear ∈ clearSessionState.tail ∧ table.clear.begins = false := by
  cases table <;> decide

/-! ## Where a session's state comes from -/

/-- Whatever the tables contain, a call or a worker put there that had read the epoch of
the session, or some change has yet to clear it. -/
structure Traced (moves : List (Move NostrSignaler Input)) (s : NostrSignaler) : Prop where
  ordered : s.Ordered
  cells : ∀ cell, s.tables.content cell ≠ none →
    ∃ e, origin cell moves s = some e ∧ s.InTime e cell.table

variable {moves : List (Move NostrSignaler Input)} {input : Input}

theorem Traced.new (config : NostrConfig) (roomId : Option String) :
    Traced [] (.new config roomId) := by
  refine ⟨.new config roomId, fun cell hcell => absurd ?_ hcell⟩
  cases cell <;> rfl

theorem origin_same {cell : Cell} (h : s'.tables.content cell = s.tables.content cell) :
    origin cell (⟨s, input⟩ :: moves) s' = origin cell moves s := by
  rw [origin, if_pos h]

theorem Traced.write (h : Traced moves s) (hordered : s'.Ordered) {late : List TableName}
    (hepoch : s'.sessionEpoch = s.sessionEpoch) (hchanges : s'.changes = s.changes)
    (hlate : ∀ table ∈ late, s.InTime epoch table) (hwrites : Writes s s' late epoch)
    (hby : epochOf ⟨s, input⟩ = some epoch) : Traced (⟨s, input⟩ :: moves) s' := by
  have hintime {e : Nat} {table : TableName} (ht : s.InTime e table) : s'.InTime e table := by
    refine ht.imp (fun he => he.trans hepoch.symm) fun hdo => ?_
    exact hdo.of_changes (by rw [hchanges]; exact List.Subset.refl _)
  refine ⟨hordered, fun cell hcell => ?_⟩
  by_cases hsame : s'.tables.content cell = s.tables.content cell
  · rw [origin_same hsame]
    obtain ⟨e, he, ht⟩ := h.cells cell (by rw [← hsame]; exact hcell)
    exact ⟨e, he, hintime ht⟩
  · refine ⟨epoch, ?_, hintime ?_⟩
    · rw [origin, if_neg hsame, hby]
    · rcases (hwrites cell).resolve_left hsame with hnone | hmem | hnow
      · exact absurd hnone hcell
      · exact hlate _ hmem
      · exact .inl hnow

theorem Traced.leave (h : Traced moves s) (hordered : s'.Ordered)
    (hepoch : s'.sessionEpoch = s.sessionEpoch) (hchanges : s.changes ⊆ s'.changes) (htables : s'.tables = s.tables) :
    Traced (⟨s, input⟩ :: moves) s' := by
  refine ⟨hordered, fun cell hcell => ?_⟩
  rw [htables] at hcell
  obtain ⟨e, he, ht⟩ := h.cells cell hcell
  refine ⟨e, (origin_same (by rw [htables])).trans he, ?_⟩
  exact ht.imp (fun he => he.trans hepoch.symm) fun hdo => hdo.of_changes hchanges

theorem Traced.advance (h : Traced moves s) (hordered : s'.Ordered)
    (hstep : s.step config (.advance i) = some s') : Traced (⟨s, .advance i⟩ :: moves) s' := by
  obtain ⟨ch, next, rest, after, goesOn, hch, hremaining, hchange, rfl⟩ := advance_cases hstep
  have hsuffix : next :: rest <:+ ch.kind.script := by
    rw [← hremaining]
    exact h.ordered.scripts ch (List.mem_of_getElem? hch)
  obtain ⟨hrest, hall⟩ := begins_of_suffix hsuffix
  have hchanges : after.changes = s.changes := by
    obtain ⟨_, _, _, _, _, _, _, _, rfl⟩ := frame_changeSession hchange
    rfl
  refine ⟨hordered, fun cell hcell => ?_⟩
  dsimp only at hcell
  have hsame := (content_changeSession hchange cell).resolve_right hcell
  have hne : cell.table.clear ≠ next := by
    rintro rfl
    exact hcell (content_cleared hchange)
  obtain ⟨e, he, ht⟩ := h.cells cell (by rw [← hsame]; exact hcell)
  refine ⟨e, (origin_same hsame).trans he, ?_⟩
  obtain ⟨hclear, -⟩ := clear_mem cell.table
  cases hnext : next.begins with
  | true =>
    rcases changeSession_begins hchange hnext with ⟨roomId, rfl, rfl⟩ | ⟨rfl, rfl⟩
    · refine .inr ⟨{ ch with remaining := rest }, List.mem_of_getElem? (i := i) ?_, hrest,
        hall hnext _ (List.mem_of_mem_tail hclear)⟩
      dsimp only
      rw [Calls.get_set hch, if_pos rfl]
      rfl
    · exact ht.imp_right fun hdo => hdo.advance hch hremaining hne (.inr hnext) rfl
  | false =>
    obtain ⟨rfl, hepoch⟩ := changeSession_goesOn hchange hnext
    refine ht.imp (fun hnow => hnow.trans hepoch.symm) fun hdo => ?_
    exact hdo.advance hch hremaining hne (.inl rfl) (by rw [hchanges]; rfl)

/-- Each timely step leaves the tables traced to the session. -/
theorem Traced.step (h : Traced moves s) (htimely : s.Timely input)
    (hstep : s.step config input = some s') : Traced (⟨s, input⟩ :: moves) s' := by
  have hordered := h.ordered.step hstep
  cases input with
  | event id | maintain connectedPeers =>
    cases hstep
    exact h.leave hordered rfl (List.Subset.refl _) rfl
  | goOn i clock jitter =>
    obtain ⟨c, c', after, hc, hdropped, hcall, rfl⟩ := goOn_cases hstep
    have hmem := List.mem_of_getElem? hc
    have hconsistent := h.ordered.consistent c hmem
    have hfresh (hholds : c.HoldsOutbox) : s.InTime c.epoch .exchanges := by
      refine (h.ordered.fresh c hmem hholds).imp_right ?_
      rintro ⟨ch, hch, hbegun, hclear⟩
      exact ⟨ch, hch, hbegun,
        clear_of_clearOutbox (h.ordered.scripts ch hch) hclear _ (clear_mem _).1⟩
    obtain ⟨late, hlate, hwrites⟩ :=
      writes_processCall hconsistent hdropped hfresh (htimely c hc) hcall
    obtain ⟨_, _, _, _, _, rfl⟩ := frame_processCall hconsistent hcall
    refine h.write hordered rfl rfl hlate hwrites ?_
    simp only [epochOf, hc, Option.map_some]
  | drop i =>
    obtain ⟨c, -, rfl⟩ := drop_cases hstep
    exact h.leave hordered rfl (List.Subset.refl _) rfl
  | work i clock published =>
    obtain ⟨w, phase, after, hw, hwork, rfl⟩ := work_cases hstep
    have hwrites := writes_pace w.epoch hwork
    obtain ⟨_, _, rfl⟩ := pace_frame hwork
    refine h.write hordered rfl rfl (htimely w hw) hwrites ?_
    simp only [epochOf, hw, Option.map_some]
  | cancelled i =>
    obtain ⟨w, -, -, rfl⟩ := cancelled_cases hstep
    exact h.leave hordered rfl (List.Subset.refl _) rfl
  | change kind =>
    cases hstep
    exact h.leave hordered rfl (List.subset_append_left _ _) rfl
  | advance i => exact h.advance hordered hstep

theorem traced {roomId : Option String} (run : Run (step config) (.new config roomId) moves s)
    (htimely : ∀ m ∈ moves, m.before.Timely m.input) : Traced moves s := by
  induction run with
  | nil => exact .new config roomId
  | snoc _ hmove ih =>
    obtain ⟨hlast, hpast⟩ := List.forall_mem_cons.mp htimely
    exact (ih hpast).step hlast hmove

/-- Where every write that is not checked comes in time, a settled session has nothing
in its tables that was put there before it. -/
theorem ownSession_of_timely {roomId : Option String}
    (run : Run (step config) (.new config roomId) moves s)
    (htimely : ∀ m ∈ moves, m.before.Timely m.input) (hsettled : s.Settled) :
    OwnSession moves s := by
  intro cell hcell
  obtain ⟨e, he, ht⟩ := (traced run htimely).cells cell hcell
  rcases ht with rfl | ⟨ch, hch, -, hclear⟩
  · exact he
  · rw [hsettled.1 ch hch] at hclear
    cases hclear

/-! ### A peer that is heard before and after a reset -/

section Runs

/-- A peer that speaks to us, whose first message has number 5. -/
def heard : NostrConfig := listening ⟨"a"⟩

/-- A message is processed, the session is reset, and the next message is processed. The
latest input is the first. -/
def resetBetween : List Input :=
  goOns 1 12 ++ Input.event "six" :: List.replicate 11 (Input.advance 0) ++
    Input.change (.resetSession "fresh") :: goOns 0 12 ++ [Input.event "five"]

theorem ownSession_resetBetween :
    (runOf heard resetBetween).2.tables.content (.sequence "k") = some (.sequence 6) ∧
      OwnSession (runOf heard resetBetween).1 (runOf heard resetBetween).2 := by
  refine ⟨by decide +kernel, ?_⟩
  exact ownSession_of_timely (run_play _ _ resetBetween) (by decide +kernel) (by decide +kernel)

/-- The call of the first message is about to put its number down when the reset begins,
and does when the reset has ended. -/
def resetUnder : List Input :=
  Input.goOn 0 ⟨0, 10⟩ 0 :: List.replicate 11 (Input.advance 0) ++
    Input.change (.resetSession "fresh") :: goOns 0 7 ++ [Input.event "five"]

theorem leaves_sequence :
    ∃ moves s, Run (step heard) (.new heard (some "r")) moves s ∧
      (∀ m ∈ moves, m.input.isDrop = false) ∧ s.Settled ∧ ¬ OwnSession moves s := by
  refine ⟨_, _, run_play _ _ resetUnder, by decide +kernel, by decide +kernel, fun h => ?_⟩
  have hnew := h (.sequence "k") (by decide +kernel)
  revert hnew
  decide +kernel

end Runs

end NostrSignaler

end Mistlib.Signaling.Native
