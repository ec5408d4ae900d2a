import Mistlib.Signaling.RelayReaders

/-!
# The notice of a restarted peer

A peer that restarts keeps its node id and comes back with a new key. The first message under
the new key binds the node id anew, and the call that makes the binding puts a `Rejoin` on the
channel before its own message, so that the transport takes down what the old session left.

The call binds first and puts the notice later, after it has purged what was kept for the old
key. A call that another relay's reader makes in between finds the new key bound already. So the
notice separates the two sessions where a rebinding has the node id to itself from the binding
to the notice (`Apart`), and no key is bound on both sides of it (`Parted`).
-/

namespace Mistlib.Signaling

open Reactive

structure Bound where
  call : Nat
  node : NodeId
  pubkey : String
  reboundFrom : Option String
deriving DecidableEq, Repr

/-- What a call has put on the channel. -/
structure Posted where
  call : Nat
  put : Put
deriving DecidableEq, Repr

/-- The node whose message an event carries, and the key it was received under. -/
def NostrSession.sender (session : NostrSession) (event : String) : Option (NodeId × String) :=
  match session.decode event with
  | .message decoded => some (decoded.data.senderId, decoded.senderPubkey)
  | _ => none

/-- What stands on the channel is a message of the node under the key. -/
def Put.IsFrom (session : NostrSession) (node : NodeId) (pubkey : String) : Put → Prop
  | .rejoin _ _ => False
  | .message event _ => session.sender event = some (node, pubkey)

instance (session : NostrSession) (node : NodeId) (pubkey : String) :
    DecidablePred (Put.IsFrom session node pubkey)
  | .rejoin _ _ => .isFalse id
  | .message event _ => inferInstanceAs (Decidable (session.sender event = some (node, pubkey)))

def ReaderInput.isDrop : ReaderInput → Bool
  | .drop _ => true
  | _ => false

def Put.isRejoin : Put → Bool
  | .rejoin _ _ => true
  | .message _ _ => false

def Posted.IsNoticeOf (b : Bound) (q : Posted) : Prop := q.call = b.call ∧ q.put.isRejoin = true
deriving Decidable

namespace NostrSignaler

variable (session : NostrSession)

/-- The binding that the call `i` makes when it goes on, if it is about to make one
and is not refused. -/
def binding (s : NostrSignaler) (i : Nat) (clock : Clock) : Option Bound :=
  s.calls[i]?.bind fun c =>
    match session.decode c.event, c.phase with
    | .message decoded, .binding wasRequested =>
      match (s.discoveryTable.bindNodeWithEpoch clock.unixSeconds decoded.data.senderId
        decoded.senderPubkey decoded.expiresAt (session.topologyRank decoded.senderPubkey)
        decoded.senderJoinedAt
        (wasRequested && decide (decoded.data.signalingType = .request))).1 with
      | .ok outcome => some ⟨i, decoded.data.senderId, decoded.senderPubkey, outcome.reboundFrom⟩
      | .error _ => none
    | _, _ => none

/-- What a call on an event puts on the channel when it goes on. -/
def posting (event : String) (phase : Phase) : Option Put :=
  match session.decode event, phase with
  | .message decoded, .notifying => some (.rejoin event (rejoinNotice session decoded))
  | .message decoded, .forwarding _ => some (.message event (forwarded session decoded))
  | _, _ => none

def boundBy (m : Move NostrSignaler ReaderInput) : Option Bound :=
  match m.input with
  | .goOn i clock => m.before.binding session i clock
  | _ => none

def postedBy (m : Move NostrSignaler ReaderInput) : Option Posted :=
  match m.input with
  | .goOn i _ => m.before.calls[i]?.bind fun c => (posting session c.event c.phase).map (⟨i, ·⟩)
  | _ => none

variable (moves : List (Move NostrSignaler ReaderInput))

/-- The bindings made in a run, the latest first. -/
def bindings : List Bound := moves.filterMap (boundBy session)

/-- What has been put on the channel in a run, in the order of the channel. -/
def postings : List Posted := (moves.filterMap (postedBy session)).reverse

/-- The notice of every rebinding of a node is on the channel before every message of
the node under the new key, and after every one under the key it was bound to before. -/
def Separated : Prop :=
  ∀ b ∈ bindings session moves, ∀ previous ∈ b.reboundFrom,
    ∀ before p after, postings session moves = before ++ p :: after →
      (p.put.IsFrom session b.node b.pubkey → ∃ q ∈ before, q.IsNoticeOf b) ∧
      (p.put.IsFrom session b.node previous → ∀ q ∈ before, ¬ q.IsNoticeOf b)

/-- No reader drops its call. When a call binds a node, every other call that has
rebound the node has put its notice, and if it rebinds the node, every other call
that has bound the node has put its message. -/
def Apart (s : NostrSignaler) : ReaderInput → Prop
  | .read _ => True
  | .goOn i clock => ∀ b ∈ s.binding session i clock, ∀ c ∈ s.calls,
      (session.sender c.event).map Prod.fst = some b.node → c.phase.passed = true →
        (c.phase.rebound = true → c.phase.notified = true) ∧
        (b.reboundFrom.isSome = true → c.phase.delivered = true)
  | .drop _ => False
  | .discovered _ _ _ _ _ | .requested _ => True

/-- No node is rebound to a key it was bound to before, or bound to a key again that
it was rebound from. -/
def Parted (bindings : List Bound) : Prop :=
  bindings.Pairwise fun later earlier => later.node = earlier.node →
    (later.reboundFrom.isSome = true → earlier.pubkey ≠ later.pubkey) ∧
    earlier.reboundFrom ≠ some later.pubkey
deriving Decidable

instance (s : NostrSignaler) : DecidablePred (s.Apart session)
  | .read _ => .isTrue trivial
  | .goOn i clock => inferInstanceAs (Decidable (∀ b ∈ s.binding session i clock, _))
  | .drop _ => .isFalse id
  | .discovered _ _ _ _ _ | .requested _ => .isTrue trivial

/-! ## A step of a call -/

variable {session} {moves} {s s' : NostrSignaler} {clock : Clock} {event : String}
  {phase phase' : Phase} {i : Nat} {c : ReaderCall}

/-- How a call goes on: where it was past its binding it stays so, with the answer it
got, and what it has put is what it was about to put. -/
structure Onward (session : NostrSession) (event : String) (s s' : NostrSignaler)
    (phase phase' : Phase) : Prop where
  channel : s'.channel = s.channel ++ (posting session event phase).toList
  passed : phase.passed = true → phase'.passed = true ∧ phase'.rebound = phase.rebound
  notified : phase'.notified =
    (phase.notified || (posting session event phase).any Put.isRejoin)
  delivered : phase'.delivered =
    (phase.delivered || (posting session event phase).any fun p => !p.isRejoin)
  forwarding : (posting session event phase).any (fun p => !p.isRejoin) = true →
    phase.passed = true ∧ phase.delivered = false ∧ phase.notified = phase.rebound

theorem onward_still (hchannel : s'.channel = s.channel) (hput : posting session event phase = none)
    (hpassed : phase.passed = true → phase'.passed = true ∧ phase'.rebound = phase.rebound)
    (hnotified : phase'.notified = phase.notified) (hdelivered : phase'.delivered = phase.delivered) :
    Onward session event s s' phase phase' where
  channel := by rw [hchannel, hput, Option.toList_none, List.append_nil]
  passed := hpassed
  notified := by rw [hnotified, hput, Option.any_none, Bool.or_false]
  delivered := by rw [hdelivered, hput, Option.any_none, Bool.or_false]
  forwarding h := by
    rw [hput] at h
    cases h

theorem posting_eq_none (hnotifying : phase ≠ .notifying) (hforwarding : ∀ r, phase ≠ .forwarding r) :
    posting session event phase = none := by
  unfold posting
  split
  · exact absurd rfl hnotifying
  · exact absurd rfl (hforwarding _)
  · rfl

theorem onward_processMessage {decoded : DecodedMessage}
    (hdecode : session.decode event = .message decoded)
    (h : s.processMessage session clock event decoded phase = some (s', phase')) :
    Onward session event s s' phase phase' := by
  have still {s' : NostrSignaler} {phase' : Phase} (hchannel : s'.channel = s.channel)
      (hnotifying : phase ≠ .notifying) (hforwarding : ∀ r, phase ≠ .forwarding r) :=
    @onward_still session s s' event phase phase' hchannel (posting_eq_none hnotifying hforwarding)
  cases phase with
  | deduping =>
    obtain ⟨rfl, rfl⟩ := h
    split
    · exact still rfl (by simp) (by simp) (by rintro ⟨⟩) rfl rfl
    · split
      · exact still rfl (by simp) (by simp) (by rintro ⟨⟩) rfl rfl
      · exact still rfl (by simp) (by simp) (by rintro ⟨⟩) rfl rfl
  | lookingUp | lookingUpAgain wasRequested =>
    cases h
    exact still rfl (by simp) (by simp) (by rintro ⟨⟩) rfl rfl
  | admitting wasRequested requested | ordering wasRequested =>
    simp only [processMessage, Option.some.injEq, Prod.mk.injEq] at h
    obtain ⟨rfl, rfl⟩ := h
    split
    · exact still rfl (by simp) (by simp) (by rintro ⟨⟩) rfl rfl
    · exact still rfl (by simp) (by simp) (by rintro ⟨⟩) rfl rfl
  | binding wasRequested =>
    simp only [processMessage] at h
    split at h
    all_goals
      cases h
      exact still rfl (by simp) (by simp) (by rintro ⟨⟩) rfl rfl
  | recording reboundFrom =>
    cases reboundFrom with
    | none | some previousPubkey =>
      cases h
      exact still rfl (by simp) (by simp) (fun _ => ⟨rfl, rfl⟩) rfl rfl
  | purgingRequested previousPubkey | purgingSequences previousPubkey | replying rebound
  | publishing rebound =>
    cases h
    exact still rfl (by simp) (by simp) (fun _ => ⟨rfl, rfl⟩) rfl rfl
  | notifying =>
    cases h
    have hput : posting session event .notifying = some (.rejoin event (rejoinNotice session decoded)) := by
      simp only [posting, hdecode]
    refine ⟨?_, fun _ => ⟨rfl, rfl⟩, ?_, ?_, ?_⟩
    · rw [hput]
      rfl
    · rw [hput]
      rfl
    · rw [hput]
      rfl
    · rw [hput]
      rintro ⟨⟩
  | forwarding rebound =>
    obtain ⟨rfl, rfl⟩ := h
    have hput : posting session event (.forwarding rebound) =
        some (.message event (forwarded session decoded)) := by
      simp only [posting, hdecode]
    have hend : ∀ phase', phase' = .replying rebound ∨ phase' = .returned (.forwarded rebound) →
        Onward session event s (s.put (.message event (forwarded session decoded)))
          (.forwarding rebound) phase' := by
      intro phase' hphase'
      refine ⟨?_, fun _ => ?_, ?_, ?_, fun _ => ⟨rfl, rfl, rfl⟩⟩
      · rw [hput]
        rfl
      · rcases hphase' with rfl | rfl
        · exact ⟨rfl, rfl⟩
        · exact ⟨rfl, rfl⟩
      · rw [hput]
        rcases hphase' with rfl | rfl
        · exact (Bool.or_false rebound).symm
        · exact (Bool.or_false rebound).symm
      · rw [hput]
        rcases hphase' with rfl | rfl
        · rfl
        · rfl
    split
    · exact hend _ (.inl rfl)
    · exact hend _ (.inr rfl)
  | returned verdict => cases h

theorem onward_processEvent (h : s.processEvent session clock event phase = some (s', phase')) :
    Onward session event s s' phase phase' := by
  unfold processEvent at h
  split at h
  · next hdecode => exact onward_processMessage hdecode h
  · split at h
    · cases h
      exact onward_still rfl (posting_eq_none nofun nofun) nofun rfl rfl
    · cases h
  · split at h
    · cases h
      exact onward_still rfl (posting_eq_none nofun nofun) nofun rfl rfl
    · cases h

variable {node : NodeId} {pubkey : String}

theorem reboundFrom_ne {t t' : DiscoveryTable} {now expiresAt : Nat} {rank : String}
    {epoch : Option Nat} {allowRebind : Bool} {outcome : BindOutcome}
    (h : t.bindNodeWithEpoch now node pubkey expiresAt rank epoch allowRebind = (.ok outcome, t')) :
    outcome.reboundFrom ≠ some pubkey := by
  unfold DiscoveryTable.bindNodeWithEpoch at h
  simp only at h
  split at h
  · cases h
    rintro ⟨⟩
  · split at h
    · cases h
      rintro ⟨⟩
    · next hother =>
      split at h
      · cases h
        intro heq
        exact hother (Option.some.inj heq)
      · cases h

/-- A message that passes has had a binding. -/
theorem binding_of_passed (hc : s.calls[i]? = some c)
    (h : s.processEvent session clock c.event c.phase = some (s', phase'))
    (hbefore : c.phase.passed = false) (hafter : phase'.passed = true) :
    ∃ b, s.binding session i clock = some b := by
  unfold processEvent at h
  split at h
  · next decoded hdecode =>
    cases hphase : c.phase with
    | binding wasRequested =>
      simp only [hphase, processMessage] at h
      split at h
      · cases h
        cases hafter
      · next houtcome =>
        simp only [binding, hc, Option.bind_some, hdecode, hphase, houtcome, Option.some.injEq,
          exists_eq']
    | recording reboundFrom => simp [hphase, Phase.passed] at hbefore
    | deduping =>
      simp only [hphase, processMessage, Option.some.injEq, Prod.mk.injEq] at h
      obtain ⟨-, rfl⟩ := h
      split at hafter
      · cases hafter
      · split at hafter
        · cases hafter
        · cases hafter
    | admitting wasRequested requested | ordering wasRequested =>
      simp only [hphase, processMessage, Option.some.injEq, Prod.mk.injEq] at h
      obtain ⟨-, rfl⟩ := h
      split at hafter
      · cases hafter
      · cases hafter
    | lookingUp | lookingUpAgain wasRequested =>
      simp only [hphase, processMessage, Option.some.injEq, Prod.mk.injEq] at h
      obtain ⟨-, rfl⟩ := h
      cases hafter
    | returned verdict =>
      rw [hphase] at h
      cases h
    | _ => simp [hphase, Phase.passed] at hbefore
  · split at h
    · cases h
      cases hafter
    · cases h
  · split at h
    · cases h
      cases hafter
    · cases h

variable {b : Bound}

theorem of_binding (hc : s.calls[i]? = some c) (hbinding : s.binding session i clock = some b)
    (h : s.processEvent session clock c.event c.phase = some (s', phase')) :
    b.call = i ∧ session.sender c.event = some (b.node, b.pubkey) ∧ b.reboundFrom ≠ some b.pubkey ∧
      c.phase.passed = false ∧ phase'.passed = true ∧ phase'.rebound = b.reboundFrom.isSome := by
  rw [binding, hc, Option.bind_some] at hbinding
  split at hbinding
  · next decoded wasRequested hdecode hphase =>
    split at hbinding
    · next outcome houtcome =>
      cases hbinding
      simp only [processEvent, hdecode, hphase, processMessage, houtcome, Option.some.injEq,
        Prod.mk.injEq] at h
      obtain ⟨-, rfl⟩ := h
      refine ⟨rfl, ?_, reboundFrom_ne (Prod.ext houtcome rfl), ?_, rfl, rfl⟩
      · simp only [NostrSession.sender, hdecode]
      · rw [hphase]
        rfl
    · cases hbinding
  · cases hbinding

/-! ## A run -/

/-- The call `i` has reached the stage. -/
def At (s : NostrSignaler) (i : Nat) (stage : Phase → Bool) : Prop :=
  ∃ c, s.calls[i]? = some c ∧ stage c.phase = true

/-- What the message of the binding `m` may rely on about the rebinding `b` of its
node. -/
def Settled (s : NostrSignaler) (m b : Bound) : Prop :=
  m.node = b.node →
    (b.reboundFrom.isSome = true → m.pubkey = b.pubkey → s.At b.call Phase.notified) ∧
    (b.reboundFrom = some m.pubkey → s.At m.call Phase.delivered)

/-- What has been bound and put is what the calls have come past. -/
structure Orderly (session : NostrSession) (moves : List (Move NostrSignaler ReaderInput))
    (s : NostrSignaler) : Prop where
  channel : (postings session moves).map Posted.put = s.channel
  bound : ∀ b ∈ bindings session moves, ∃ c, s.calls[b.call]? = some c ∧
    session.sender c.event = some (b.node, b.pubkey) ∧ b.reboundFrom ≠ some b.pubkey ∧
    c.phase.passed = true ∧ c.phase.rebound = b.reboundFrom.isSome
  passed : ∀ i, s.At i Phase.passed → ∃ b ∈ bindings session moves, b.call = i
  noticed : ∀ i, s.At i Phase.notified ↔
    ∃ q ∈ postings session moves, q.call = i ∧ q.put.isRejoin = true
  said : ∀ q ∈ postings session moves, q.put.isRejoin = false →
    ∃ c data, s.calls[q.call]? = some c ∧ c.phase.delivered = true ∧ q.put = .message c.event data
  settled : (bindings session moves).Pairwise fun m b => s.Settled m b ∧ s.Settled b m
  separated : Separated session moves

theorem Phase.passed_of_delivered {phase : Phase} (h : phase.delivered = true) :
    phase.passed = true := by
  unfold Phase.delivered at h
  split at h
  all_goals first | rfl | exact nomatch h

theorem Phase.passed_of_notified {phase : Phase} (h : phase.notified = true) :
    phase.passed = true := by
  unfold Phase.notified at h
  split at h
  all_goals first | rfl | exact nomatch h

theorem sender_unique {node' : NodeId} {pubkey' : String}
    (h : session.sender event = some (node, pubkey))
    (h' : session.sender event = some (node', pubkey')) : node = node' ∧ pubkey = pubkey' := by
  rw [h] at h'
  exact Prod.mk.inj (Option.some.inj h')

theorem bindings_cons (m : Move NostrSignaler ReaderInput) :
    bindings session (m :: moves) = (boundBy session m).toList ++ bindings session moves :=
  observed_cons _ _ _

theorem postings_cons (m : Move NostrSignaler ReaderInput) :
    postings session (m :: moves) = postings session moves ++ (postedBy session m).toList := by
  rw [postings, observed_cons, List.reverse_append, postings]
  cases postedBy session m <;> rfl

variable {m : Bound}

theorem Orderly.settled_of_ne (h : Orderly session moves s) (hm : m ∈ bindings session moves)
    (hb : b ∈ bindings session moves) (hne : m ≠ b) :
    s.Settled m b := by
  have hsymm : Std.Symm fun m b => s.Settled m b ∧ s.Settled b m := ⟨fun _ _ hboth => hboth.symm⟩
  exact (h.settled.forall hm hb hne).1

theorem Orderly.new (session : NostrSession) (ttl : Duration) :
    Orderly session [] (NostrSignaler.new ttl) where
  channel := rfl
  bound := nofun
  passed := by
    rintro i ⟨c, hc, -⟩
    cases hc
  noticed i := by
    constructor
    · rintro ⟨c, hc, -⟩
      cases hc
    · rintro ⟨q, hq, -⟩
      cases hq
  said := nofun
  settled := .nil
  separated := nofun

/-- A step that goes on with no call and puts nothing. -/
theorem Orderly.aside (h : Orderly session moves s) {move : Move NostrSignaler ReaderInput}
    (hbound : boundBy session move = none) (hposted : postedBy session move = none)
    (hcalls : s'.calls = s.calls) (hchannel : s'.channel = s.channel) :
    Orderly session (move :: moves) s' := by
  have hbindings : bindings session (move :: moves) = bindings session moves := by
    rw [bindings_cons, hbound, Option.toList_none, List.nil_append]
  have hpostings : postings session (move :: moves) = postings session moves := by
    rw [postings_cons, hposted, Option.toList_none, List.append_nil]
  have hat : s'.At = s.At := by
    unfold At
    rw [hcalls]
  have hsettled : s'.Settled = s.Settled := by
    unfold Settled
    rw [hat]
  constructor
  · rw [hpostings, hchannel]
    exact h.channel
  · rw [hbindings, hcalls]
    exact h.bound
  · rw [hbindings, hat]
    exact h.passed
  · rw [hpostings, hat]
    exact h.noticed
  · rw [hpostings, hcalls]
    exact h.said
  · rw [hbindings, hsettled]
    exact h.settled
  · unfold Separated
    rw [hbindings, hpostings]
    exact h.separated

theorem Orderly.read (h : Orderly session moves s) (event : String) :
    Orderly session (⟨s, .read event⟩ :: moves)
      { s with calls := s.calls ++ [⟨event, .deduping, false⟩] } := by
  have hbindings : bindings session (⟨s, .read event⟩ :: moves) = bindings session moves :=
    bindings_cons _
  have hpostings : postings session (⟨s, .read event⟩ :: moves) = postings session moves :=
    (postings_cons _).trans (List.append_nil _)
  have hat {i : Nat} {stage : Phase → Bool} (hstage : stage .deduping = false) :
      At { s with calls := s.calls ++ [⟨event, .deduping, false⟩] } i stage ↔ s.At i stage := by
    constructor
    · rintro ⟨c, hc, hreached⟩
      rw [Calls.get_begin] at hc
      split at hc
      · cases hc
        rw [hstage] at hreached
        cases hreached
      · exact ⟨c, hc, hreached⟩
    · rintro ⟨c, hc, hreached⟩
      exact ⟨c, Calls.get_before hc _, hreached⟩
  have hsettled {m b : Bound} (hmb : s.Settled m b) :
      Settled { s with calls := s.calls ++ [⟨event, .deduping, false⟩] } m b := by
    intro hnode
    obtain ⟨hnotified, hdelivered⟩ := hmb hnode
    exact ⟨fun hre hkey => (hat rfl).mpr (hnotified hre hkey),
      fun hfrom => (hat rfl).mpr (hdelivered hfrom)⟩
  constructor
  · rw [hpostings]
    exact h.channel
  · rw [hbindings]
    intro b hb
    obtain ⟨c, hc, hbound⟩ := h.bound b hb
    exact ⟨c, Calls.get_before hc _, hbound⟩
  · rw [hbindings]
    exact fun i hi => h.passed i ((hat rfl).mp hi)
  · rw [hpostings]
    exact fun i => (hat rfl).trans (h.noticed i)
  · rw [hpostings]
    intro q hq hmessage
    obtain ⟨c, data, hc, hsaid⟩ := h.said q hq hmessage
    exact ⟨c, data, Calls.get_before hc _, hsaid⟩
  · rw [hbindings]
    exact h.settled.imp fun hboth => ⟨hsettled hboth.1, hsettled hboth.2⟩
  · unfold Separated
    exact h.separated

variable {stage : Phase → Bool}

theorem at_set (hc : s.calls[i]? = some c) {j : Nat} :
    At { s' with calls := s.calls.set i { c with phase := phase' } } j stage ↔
      if j = i then stage phase' = true else s.At j stage := by
  unfold At
  simp only [Calls.get_set hc]
  split
  · simp
  · rfl

theorem at_self (hc : s.calls[i]? = some c) : s.At i stage ↔ stage c.phase = true := by
  unfold At
  simp [hc]

theorem At.goOn {j : Nat} (h : s.At j stage) (hc : s.calls[i]? = some c)
    (hstage : stage c.phase = true → stage phase' = true) :
    At { s' with calls := s.calls.set i { c with phase := phase' } } j stage := by
  rw [at_set hc]
  split
  · next hj =>
    subst hj
    exact hstage ((at_self hc).mp h)
  · exact h

theorem Settled.goOn (h : s.Settled m b) (hc : s.calls[i]? = some c)
    (honward : Onward session c.event s s' c.phase phase') :
    Settled { s' with calls := s.calls.set i { c with phase := phase' } } m b := by
  intro hnode
  obtain ⟨hnotified, hdelivered⟩ := h hnode
  refine ⟨fun hre hkey => (hnotified hre hkey).goOn hc fun hbefore => ?_,
    fun hfrom => (hdelivered hfrom).goOn hc fun hbefore => ?_⟩
  · rw [honward.notified, hbefore, Bool.true_or]
  · rw [honward.delivered, hbefore, Bool.true_or]

theorem Orderly.settled_new (h : Orderly session moves s) (hb : s.binding session i clock = some b)
    (hok : s.Apart session (.goOn i clock))
    (hparted : b.node = m.node → (b.reboundFrom.isSome = true → m.pubkey ≠ b.pubkey) ∧
      m.reboundFrom ≠ some b.pubkey)
    (hm : m ∈ bindings session moves) : s.Settled b m ∧ s.Settled m b := by
  obtain ⟨d, hd, hsender, -, hpassed, hrebound⟩ := h.bound m hm
  have happart (hnode : b.node = m.node) := hok b hb d (List.mem_of_getElem? hd)
    (by rw [hsender, Option.map_some, hnode]) hpassed
  constructor
  · intro hnode
    refine ⟨fun hre _ => ⟨d, hd, (happart hnode).1 (hrebound.trans hre)⟩, fun hfrom => ?_⟩
    exact absurd hfrom (hparted hnode).2
  · intro hnode
    refine ⟨fun hre hkey => absurd hkey ((hparted hnode.symm).1 hre), fun hfrom => ?_⟩
    have hre : b.reboundFrom.isSome = true := by rw [hfrom, Option.isSome_some]
    exact ⟨d, hd, (happart hnode.symm).2 hre⟩

theorem postings_split {old new before after : List Posted} {p : Posted}
    (h : old ++ new = before ++ p :: after) (hnew : new.length ≤ 1) :
    (∃ after', old = before ++ p :: after') ∨ before = old ∧ new = [p] := by
  rcases List.append_eq_append_iff.mp h with ⟨mid, rfl, rfl⟩ | ⟨mid, rfl, hmid⟩
  · rw [List.length_append, List.length_cons] at hnew
    obtain rfl : mid = [] := List.length_eq_zero_iff.mp (by omega)
    obtain rfl : after = [] := List.length_eq_zero_iff.mp (by omega)
    exact .inr ⟨List.append_nil _, rfl⟩
  · cases mid with
    | nil =>
      subst hmid
      rw [List.length_cons] at hnew
      obtain rfl : after = [] := List.length_eq_zero_iff.mp (by omega)
      exact .inr ⟨(List.append_nil _).symm, rfl⟩
    | cons head rest =>
      obtain ⟨rfl, -⟩ := List.cons.inj hmid
      exact .inl ⟨rest, rfl⟩

theorem posting_message {put : Put} (hput : posting session event phase = some put)
    (hmessage : put.isRejoin = false) : ∃ data, put = .message event data := by
  unfold posting at hput
  split at hput
  · cases hput
    cases hmessage
  · cases hput
    exact ⟨_, rfl⟩
  · cases hput

theorem isFrom_posting {put : Put} (hput : posting session event phase = some put)
    (hfrom : put.IsFrom session node pubkey) :
    put.isRejoin = false ∧ session.sender event = some (node, pubkey) := by
  unfold posting at hput
  split at hput
  · cases hput
    exact hfrom.elim
  · cases hput
    exact ⟨rfl, hfrom⟩
  · cases hput

theorem Orderly.binding_of (h : Orderly session moves s) (hc : s.calls[i]? = some c)
    (hpassed : c.phase.passed = true) : ∃ m ∈ bindings session moves, m.call = i ∧
      session.sender c.event = some (m.node, m.pubkey) ∧ m.reboundFrom ≠ some m.pubkey ∧
      c.phase.rebound = m.reboundFrom.isSome := by
  obtain ⟨m, hm, rfl⟩ := h.passed i ⟨c, hc, hpassed⟩
  obtain ⟨d, hd, hsends, hne, -, hrebound⟩ := h.bound m hm
  rw [hc] at hd
  cases hd
  exact ⟨m, hm, rfl, hsends, hne, hrebound⟩

theorem Orderly.binding_of_message (h : Orderly session moves s) {p : Posted}
    (hp : p ∈ postings session moves) (hfrom : p.put.IsFrom session node pubkey) :
    ∃ m ∈ bindings session moves, m.node = node ∧ m.pubkey = pubkey := by
  cases hmessage : p.put with
  | rejoin e data =>
    rw [hmessage] at hfrom
    exact hfrom.elim
  | message e data =>
    obtain ⟨c, data', hc, hdelivered, hput⟩ := h.said p hp (by rw [hmessage]; rfl)
    rw [hput] at hfrom
    obtain ⟨m, hm, -, hsends, -⟩ := h.binding_of hc (Phase.passed_of_delivered hdelivered)
    exact ⟨m, hm, sender_unique hsends hfrom⟩

section

variable (h : Orderly session moves s) (hc : s.calls[i]? = some c)
  (hstep : s.processEvent session clock c.event c.phase = some (s', phase'))
include h hc hstep

theorem Orderly.separated_goOn (hparted : Parted (bindings session (⟨s, .goOn i clock⟩ :: moves))) :
    Separated session (⟨s, .goOn i clock⟩ :: moves) := by
  have honward := onward_processEvent hstep
  have hposted : postedBy session ⟨s, .goOn i clock⟩ =
      (posting session c.event c.phase).map (⟨i, ·⟩) := by
    simp only [postedBy, hc, Option.bind_some]
  have hboundBy : boundBy session ⟨s, .goOn i clock⟩ = s.binding session i clock := rfl
  rw [bindings_cons, hboundBy] at hparted
  intro b hb previous hprevious before p after hsplit
  rw [bindings_cons, hboundBy] at hb
  rw [postings_cons, hposted] at hsplit
  have hshort : (((posting session c.event c.phase).map (Posted.mk i)).toList).length ≤ 1 := by
    cases posting session c.event c.phase <;> simp
  rcases postings_split hsplit hshort with ⟨after', hold⟩ | ⟨rfl, hnew⟩
  · rcases List.mem_append.mp hb with hb | hb
    · -- the step makes the binding: nothing is there yet under the new key, and no notice
      obtain ⟨rfl, -, -, hnot, -⟩ := of_binding hc (Option.mem_toList.mp hb) hstep
      constructor
      · intro hfrom
        have hp : p ∈ postings session moves := by
          rw [hold]
          exact List.mem_append_right _ List.mem_cons_self
        obtain ⟨m, hm, hnode, hkey⟩ := h.binding_of_message hp hfrom
        have hfresh := (List.pairwise_append.mp hparted).2.2 b hb m hm hnode.symm
        exact absurd hkey (hfresh.1 (Option.isSome_of_mem hprevious))
      · rintro - q hq ⟨hcall, hrejoin⟩
        have hnotified := (h.noticed b.call).mpr
          ⟨q, hold ▸ List.mem_append_left _ hq, hcall, hrejoin⟩
        rw [at_self hc] at hnotified
        rw [Phase.passed_of_notified hnotified] at hnot
        cases hnot
    · exact h.separated b hb previous hprevious before p after' hold
  · -- the step puts its message there
    obtain ⟨put, hput, rfl⟩ : ∃ put, posting session c.event c.phase = some put ∧ ⟨i, put⟩ = p := by
      cases hput : posting session c.event c.phase with
      | none =>
        rw [hput] at hnew
        cases hnew
      | some put =>
        rw [hput] at hnew
        exact ⟨put, rfl, List.singleton_inj.mp hnew⟩
    have hlast {node : NodeId} {pubkey : String} (hfrom : put.IsFrom session node pubkey) := by
      obtain ⟨hmessage, hsends⟩ := isFrom_posting hput hfrom
      exact And.intro hsends (honward.forwarding (by simp [hput, hmessage]))
    have hmade {node : NodeId} {pubkey : String} (hfrom : put.IsFrom session node pubkey) :
        b ∈ bindings session moves := by
      rcases List.mem_append.mp hb with hb | hb
      · obtain ⟨-, -, -, hnot, -⟩ := of_binding hc (Option.mem_toList.mp hb) hstep
        rw [(hlast hfrom).2.1] at hnot
        cases hnot
      · exact hb
    constructor
    · intro hfrom
      obtain ⟨hsends, hpassed, -, hnotified⟩ := hlast hfrom
      obtain ⟨m, hm, rfl, hsends', -, hrebound⟩ := h.binding_of hc hpassed
      obtain ⟨hnode, hkey⟩ := sender_unique hsends' hsends
      have hre : b.reboundFrom.isSome = true := Option.isSome_of_mem hprevious
      by_cases hmb : m = b
      · subst hmb
        exact (h.noticed m.call).mp ((at_self hc).mpr (hnotified.trans (hrebound.trans hre)))
      · have hsettled := h.settled_of_ne hm (hmade hfrom) hmb hnode
        exact (h.noticed b.call).mp (hsettled.1 hre hkey)
    · intro hfrom
      obtain ⟨hsends, hpassed, hundelivered, -⟩ := hlast hfrom
      obtain ⟨m, hm, rfl, hsends', hne, -⟩ := h.binding_of hc hpassed
      obtain ⟨hnode, rfl⟩ := sender_unique hsends' hsends
      by_cases hmb : m = b
      · subst hmb
        exact absurd hprevious hne
      · have hsettled := h.settled_of_ne hm (hmade hfrom) hmb hnode
        have hdelivered := (at_self hc).mp (hsettled.2 hprevious)
        rw [hundelivered] at hdelivered
        cases hdelivered

theorem Orderly.goOn (hok : s.Apart session (.goOn i clock))
    (hparted : Parted (bindings session (⟨s, .goOn i clock⟩ :: moves))) :
    Orderly session (⟨s, .goOn i clock⟩ :: moves)
      { s' with calls := s.calls.set i { c with phase := phase' } } := by
  have honward := onward_processEvent hstep
  have hseparated := h.separated_goOn hc hstep hparted
  have hposted : postedBy session ⟨s, .goOn i clock⟩ =
      (posting session c.event c.phase).map (⟨i, ·⟩) := by
    simp only [postedBy, hc, Option.bind_some]
  have hbindings : bindings session (⟨s, .goOn i clock⟩ :: moves) = _ := bindings_cons _
  have hpostings : postings session (⟨s, .goOn i clock⟩ :: moves) = _ := postings_cons _
  rw [hposted] at hpostings
  rw [hbindings] at hparted
  obtain ⟨-, -, hnew⟩ := List.pairwise_append.mp hparted
  refine ⟨?_, ?_, ?_, ?_, ?_, ?_, hseparated⟩
  · rw [hpostings, List.map_append, h.channel]
    simp only [honward.channel]
    cases posting session c.event c.phase <;> rfl
  · rw [hbindings]
    intro b hb
    rcases List.mem_append.mp hb with hb | hb
    · obtain ⟨rfl, hsends, hne, -, hpassed, hrebound⟩ :=
        of_binding hc (Option.mem_toList.mp hb) hstep
      exact ⟨{ c with phase := phase' }, by rw [Calls.get_set hc, if_pos rfl], hsends, hne, hpassed,
        hrebound⟩
    · obtain ⟨d, hd, hsends, hne, hpassed, hrebound⟩ := h.bound b hb
      by_cases hcall : b.call = i
      · subst hcall
        rw [hc] at hd
        cases hd
        obtain ⟨hpassed', hrebound'⟩ := honward.passed hpassed
        exact ⟨{ c with phase := phase' }, by rw [Calls.get_set hc, if_pos rfl], hsends, hne, hpassed',
          hrebound'.trans hrebound⟩
      · exact ⟨d, by rw [Calls.get_set hc, if_neg hcall, hd], hsends, hne, hpassed, hrebound⟩
  · rw [hbindings]
    intro j hj
    rw [at_set hc] at hj
    split at hj
    · next hji =>
      subst hji
      cases hbefore : c.phase.passed with
      | true =>
        obtain ⟨b, hb, hcall⟩ := h.passed j ⟨c, hc, hbefore⟩
        exact ⟨b, List.mem_append_right _ hb, hcall⟩
      | false =>
        obtain ⟨b, hb⟩ := binding_of_passed hc hstep hbefore hj
        exact ⟨b, List.mem_append_left _ (Option.mem_toList.mpr hb), (of_binding hc hb hstep).1⟩
    · obtain ⟨b, hb, hcall⟩ := h.passed j hj
      exact ⟨b, List.mem_append_right _ hb, hcall⟩
  · rw [hpostings]
    intro j
    rw [at_set hc]
    simp only [List.mem_append, or_and_right, exists_or, ← h.noticed j]
    split
    · next hji =>
      subst hji
      rw [at_self hc, honward.notified, Bool.or_eq_true]
      cases posting session c.event c.phase <;> simp
    · next hji =>
      cases posting session c.event c.phase <;> simp [Ne.symm hji]
  · rw [hpostings]
    intro q hq hmessage
    rcases List.mem_append.mp hq with hq | hq
    · obtain ⟨d, data, hd, hdelivered, hput⟩ := h.said q hq hmessage
      by_cases hcall : q.call = i
      · subst hcall
        rw [hc] at hd
        cases hd
        refine ⟨{ c with phase := phase' }, data, by rw [Calls.get_set hc, if_pos rfl], ?_, hput⟩
        rw [honward.delivered, hdelivered, Bool.true_or]
      · exact ⟨d, data, by rw [Calls.get_set hc, if_neg hcall, hd], hdelivered, hput⟩
    · obtain ⟨put, hput, rfl⟩ := Option.map_eq_some_iff.mp (Option.mem_toList.mp hq)
      obtain ⟨data, rfl⟩ := posting_message hput hmessage
      refine ⟨{ c with phase := phase' }, data, by rw [Calls.get_set hc, if_pos rfl], ?_, rfl⟩
      rw [honward.delivered, hput]
      exact Bool.or_true _
  · rw [hbindings, List.pairwise_append]
    refine ⟨?_, h.settled.imp fun hboth => ⟨hboth.1.goOn hc honward, hboth.2.goOn hc honward⟩, ?_⟩
    · cases s.binding session i clock <;> simp
    · intro b hb m hm
      have hboth := h.settled_new (Option.mem_toList.mp hb) hok (hnew b hb m hm) hm
      exact ⟨hboth.1.goOn hc honward, hboth.2.goOn hc honward⟩

end

theorem Parted.past {m : Move NostrSignaler ReaderInput}
    (h : Parted (bindings session (m :: moves))) : Parted (bindings session moves) := by
  rw [bindings_cons] at h
  exact (List.pairwise_append.mp h).2.1

/-- In a run whose calls have their nodes to themselves, and that takes no node back
to a key it has left, everything stands on the channel as the calls put it there. -/
theorem orderly {ttl : Duration} (run : Run (NostrSignaler.step session) (.new ttl) moves s)
    (hok : ∀ m ∈ moves, m.before.Apart session m.input) (hparted : Parted (bindings session moves)) :
    Orderly session moves s := by
  induction run with
  | nil => exact .new session ttl
  | @snoc past before after input _ hmove ih =>
    obtain ⟨hlast, hpast⟩ := List.forall_mem_cons.mp hok
    have hbefore := ih hpast hparted.past
    cases input with
    | read event =>
      cases hmove
      exact hbefore.read event
    | goOn i clock =>
      obtain ⟨c, hc, hmove⟩ := Option.bind_eq_some_iff.mp hmove
      split at hmove
      · cases hmove
      · obtain ⟨⟨after, phase⟩, hstep, rfl⟩ := Option.map_eq_some_iff.mp hmove
        exact hbefore.goOn hc hstep hlast hparted
    | drop i => exact hlast.elim
    | discovered pubkey expiresAt topologyRank recorded chosen | requested pubkey =>
      cases hmove
      exact hbefore.aside rfl rfl rfl rfl

/-- Where every step has its node to itself, and no node goes back to a key it has
left, the notice of every rebinding separates the two sessions on the channel. -/
theorem rejoin_separates {session : NostrSession} {ttl : Duration}
    {moves : List (Move NostrSignaler ReaderInput)} {s : NostrSignaler}
    (run : Run (NostrSignaler.step session) (.new ttl) moves s)
    (hok : ∀ m ∈ moves, m.before.Apart session m.input) (hparted : Parted (bindings session moves)) :
    (postings session moves).map Posted.put = s.channel ∧ Separated session moves :=
  have h := orderly run hok hparted
  ⟨h.channel, h.separated⟩

/-! ### A peer that restarts -/

section Runs

/-- What the peer says under a key, in the session it joined at a time. -/
def said (senderPubkey messageId : String) (sequence joinedAt : Nat) (type : SignalingType) :
    DecodedMessage where
  senderPubkey
  data := ⟨⟨"b"⟩, ⟨"a"⟩, "r", "", type⟩
  expiresAt := 100
  messageId := some messageId
  sequence := some sequence
  senderJoinedAt := some joinedAt

/-- The peer sends a `Request`, and after its restart another one and an offer. -/
def restarting : NostrSession where
  localNodeId := ⟨"a"⟩
  roomId := "r"
  ttlSeconds := 60
  topologyRank := id
  decode
    | "old" => .message (said "k1" "m1" 1 7 .request)
    | "new" => .message (said "k2" "m2" 1 8 .request)
    | "offer" => .message (said "k2" "m3" 2 8 .offer)
    | _ => .malformed

def runOf (inputs : List ReaderInput) : List (Move NostrSignaler ReaderInput) × NostrSignaler :=
  play (NostrSignaler.step restarting) (.new (Duration.fromSecs 120)) inputs

def goOns (call : Nat) (n : Nat) : List ReaderInput := List.replicate n (.goOn call noon)

/-- The messages are processed one after the other. The latest input is the first. -/
def inTurn : List ReaderInput :=
  goOns 2 8 ++ .read "offer" :: goOns 1 11 ++ .read "new" :: goOns 0 8 ++ [.read "old"]

theorem rejoin_separates_inTurn :
    (postings restarting (runOf inTurn).1).map Posted.call = [0, 1, 1, 2] ∧
      Separated restarting (runOf inTurn).1 := by
  refine ⟨by decide +kernel, ?_⟩
  exact (rejoin_separates (run_play _ _ inTurn) (by decide +kernel) (by decide +kernel)).2

/-- Another relay delivers the offer while the call on the new `Request` is between
its binding and its notice. -/
def overtaken : List ReaderInput :=
  goOns 1 5 ++ goOns 2 8 ++ .read "offer" :: goOns 1 6 ++ .read "new" :: goOns 0 8 ++ [.read "old"]

theorem overtakes_rejoin :
    ∃ moves s, Run (NostrSignaler.step restarting) (.new (Duration.fromSecs 120)) moves s ∧
      (∀ m ∈ moves, m.input.isDrop = false) ∧ s.Quiescent ∧ ¬ Separated restarting moves := by
  refine ⟨_, _, run_play _ _ overtaken, by decide +kernel, by decide +kernel, fun h => ?_⟩
  let posted := postings restarting (runOf overtaken).1
  have hsplit : posted = posted.take 1 ++
      ⟨2, .message "offer" (said "k2" "m3" 2 8 .offer).data⟩ :: posted.drop 2 := by decide +kernel
  obtain ⟨hafter, -⟩ := h ⟨1, ⟨"b"⟩, "k2", some "k1"⟩ (by decide +kernel) "k1" rfl _ _ _ hsplit
  obtain ⟨q, hq, hnotice⟩ := hafter (by decide)
  have hnone : ∀ q ∈ posted.take 1, ¬ q.IsNoticeOf ⟨1, ⟨"b"⟩, "k2", some "k1"⟩ := by decide +kernel
  exact hnone q hq hnotice

end Runs

end NostrSignaler

end Mistlib.Signaling
