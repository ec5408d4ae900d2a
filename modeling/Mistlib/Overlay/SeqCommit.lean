import Mistlib.Overlay.Delivery

/-!
# Numbers are committed atomically

Any number of threads dispatch at once. A dispatch that takes a number holds the sequence lock
from the moment it reads the counter until it has written it; the other dispatches need no lock.
Every critical section is a step of its own (`Dispatching.move`), and calls, deliveries and
changes of the counters' iteration order happen at any time (`Dispatching.Step`).
-/

namespace Mistlib.Overlay

open OverlayRouter

namespace OverlayRouter

def frameOf (r : OverlayRouter) (d : Dispatch Unit) (seq : Nat) : OverlayEnvelope :=
  (OverlayEnvelope.new r.localNodeId d.dest d.msgId r.hopCount (.raw d.data)).withSeq seq

/-- Encode, validate and address a frame: what `build` does before the commit. -/
def offer (w : Wire) (r : OverlayRouter) (d : Dispatch Unit) (seq : Nat) :
    Except MistError OverlayAction := do
  let method := storageDelivery d.method d.lane seq r.transfer.bulkChannel
  let encoded ← (w.serialize (r.frameOf d seq)).mapError .internal
  d.validate encoded.length
  return match d.nextHop with
    | some nextHop => .sendMessage nextHop encoded method d.lane
    | none => r.createSendAction d.dest encoded method d.lane

theorem offer_seq {w : Wire} {r : OverlayRouter} {d : Dispatch Unit} {seq : Nat}
    {action : OverlayAction} (h : r.offer w d seq = .ok action) :
    (action.envelope w).map (·.seq) = some seq := by
  simp only [offer, bind, Except.bind, pure, Except.pure] at h
  cases hserialized : w.serialize (r.frameOf d seq) with
  | error e =>
    rw [hserialized] at h
    cases h
  | ok encoded =>
    rw [hserialized] at h
    simp only [Except.mapError] at h
    split at h
    · cases h
    · cases h
      have hdecoded := w.roundTrip hserialized
      cases d.nextHop with
      | none => simp [OverlayAction.envelope, createSendAction, hdecoded, frameOf,
          OverlayEnvelope.withSeq]
      | some hop => simp [OverlayAction.envelope, hdecoded, frameOf, OverlayEnvelope.withSeq]

end OverlayRouter

inductive SendStage where
  | called
  /-- a number is chosen, the frame is to be built -/
  | numbered (seq : Nat)
  /-- the frame is to be committed -/
  | built (seq : Nat) (action : OverlayAction)
  /-- the commit took the frame, the envelope is to be remembered -/
  | committed (seq : Nat)
  /-- the counter is to be written -/
  | remembered (seq : Nat)
  | returned (result : Except MistError Unit)

/-- The number a call works with, from its choice to its return. -/
def SendStage.seq? : SendStage → Option Nat
  | .numbered seq | .built seq _ | .committed seq | .remembered seq => some seq
  | .called | .returned _ => none

/-- The commit succeeded and the counter is not written yet. -/
def SendStage.taken : SendStage → Bool
  | .committed _ | .remembered _ => true
  | _ => false

/-- The commit succeeded; from there on the call does not fail. -/
def SendStage.accepted : SendStage → Bool
  | .committed _ | .remembered _ | .returned (.ok _) => true
  | _ => false

structure SendCall where
  dispatch : Dispatch Unit
  stage : SendStage

/-- A router with everybody who dispatches through it. `log` are the frames
whose commit succeeded, in that order, and `evicted` the destinations that
lost their counter. -/
structure Dispatching where
  router : OverlayRouter
  seqLock : Option Nat
  calls : Table Nat SendCall
  log : List (Dispatch Unit × OverlayAction)
  evicted : List NodeId

namespace Dispatching

def new (r : OverlayRouter) : Dispatching where
  router := r
  seqLock := none
  calls := ∅
  log := []
  evicted := []

def goTo (m : Dispatching) (id : Nat) (c : SendCall) (stage : SendStage) : Dispatching :=
  { m with calls := m.calls.insert id { c with stage } }

/-- Let go of the lock, if it is one's own. -/
def unlock (m : Dispatching) (id : Nat) : Dispatching :=
  if m.seqLock = some id then { m with seqLock := none } else m

/-- The counters after a frame for `dest` was committed under `seq`. -/
def counted (r : OverlayRouter) (dest : NodeId) (seq : Nat) (now : Instant) : OverlayRouter :=
  { r with seqCounters := (evictSeqCounter r.seqCounters dest).insert dest ⟨seq, now⟩ }

/-- The next critical section of a call. A call whose lock is taken waits. -/
def move (w : Wire) (m : Dispatching) (id : Nat) (c : SendCall) : Option Dispatching :=
  let d := c.dispatch
  match c.stage with
  | .called =>
    if d.takesSeq m.router.transfer then
      if m.seqLock = none then
        some { m.goTo id c (.numbered (nextSeq m.router.seqCounters d.dest)) with
          seqLock := some id }
      else none
    else some (m.goTo id c (.numbered 0))
  | .numbered seq =>
    match m.router.offer w d seq with
    | .error e => some ((m.goTo id c (.returned (.error e))).unlock id)
    | .ok action => some (m.goTo id c (.built seq action))
  | .built seq action =>
    match d.commit action with
    | .error e => some ((m.goTo id c (.returned (.error e))).unlock id)
    | .ok _ => some { m.goTo id c (.committed seq) with log := m.log ++ [(d, action)] }
  | .committed seq =>
    let router := m.router.rememberOutgoing (m.router.frameOf d seq) d.rememberedAt
    if d.takesSeq m.router.transfer then some { m.goTo id c (.remembered seq) with router }
    else some { m.goTo id c (.returned (.ok ())) with router }
  | .remembered seq =>
    some { (m.goTo id c (.returned (.ok ()))).unlock id with
      router := counted m.router d.dest seq d.now
      evicted := m.evicted ++ m.router.seqCounters.keys.filter fun dest =>
        ! (evictSeqCounter m.router.seqCounters d.dest).contains dest }
  | .returned _ => none

inductive Event where
  | call (id : Nat)
  | move (id : Nat)
  | shuffle
  | receive

inductive Step (w : Wire) : Dispatching → Event → Dispatching → Prop
  | call (m : Dispatching) (id : Nat) (d : Dispatch Unit) (hnew : m.calls.get id = none) :
      Step w m (.call id) { m with calls := m.calls.insert id ⟨d, .called⟩ }
  | move {m m' : Dispatching} {id : Nat} {c : SendCall} (hc : m.calls.get id = some c)
      (h : m.move w id c = some m') : Step w m (.move id) m'
  /-- the counters' iteration order is anybody's guess -/
  | shuffle (m : Dispatching) (t : Table NodeId SeqCounter)
      (h : m.router.seqCounters.Shuffle t) :
      Step w m .shuffle { m with router := { m.router with seqCounters := t } }
  /-- deliveries change routes and what has been seen -/
  | receive (m : Dispatching) (routingTable : RoutingTable) (seenEnvelopes : OverlaySeenCache) :
      Step w m .receive { m with router := { m.router with routingTable, seenEnvelopes } }

inductive Run (w : Wire) : Dispatching → List (Dispatching × Event × Dispatching) → Dispatching → Prop
  | nil (m : Dispatching) : Run w m [] m
  | snoc {m m' m'' : Dispatching} {steps : List (Dispatching × Event × Dispatching)} {e : Event}
      (hrun : Run w m steps m') (h : Step w m' e m'') : Run w m (steps ++ [(m', e, m'')]) m''

/-! ### The lock -/

/-- What holds of each call: inside, a call that takes numbers has the lock
and works with the next one; any other works with zero. -/
structure CallOk (w : Wire) (m : Dispatching) (id : Nat) (c : SendCall) : Prop where
  locked : c.dispatch.takesSeq m.router.transfer = true → c.stage.seq?.isSome →
    m.seqLock = some id
  number : ∀ seq, c.stage.seq? = some seq →
    seq = if c.dispatch.takesSeq m.router.transfer then
      nextSeq m.router.seqCounters c.dispatch.dest else 0
  frame : ∀ seq action, c.stage = .built seq action → (action.envelope w).map (·.seq) = some seq
  counts : ∀ seq, c.stage = .remembered seq → c.dispatch.takesSeq m.router.transfer = true

structure Orderly (w : Wire) (m : Dispatching) : Prop where
  call : ∀ id c, m.calls.get id = some c → CallOk w m id c
  holder : ∀ id, m.seqLock = some id → ∃ c, m.calls.get id = some c ∧
    c.dispatch.takesSeq m.router.transfer = true ∧ c.stage.seq?.isSome

variable {dest : NodeId}

theorem nextSeq_congr {t u : Table NodeId SeqCounter} (h : u.get dest = t.get dest) :
    nextSeq u dest = nextSeq t dest := by
  simp only [nextSeq, h]

namespace Orderly

variable {w : Wire} {m m' : Dispatching}

theorem new (r : OverlayRouter) : Orderly w (.new r) where
  call := by simp [Dispatching.new]
  holder := by simp [Dispatching.new]

theorem update (ho : Orderly w m) (id : Nat) (c : SendCall)
    (hcalls : m'.calls = m.calls.insert id c)
    (htransfer : m'.router.transfer = m.router.transfer)
    (hown : CallOk w m' id c)
    (hkeep : ∀ other, other ≠ id → m.seqLock = some other → m'.seqLock = some other)
    (hlock : ∀ other, m'.seqLock = some other → other ≠ id → m.seqLock = some other)
    (hmine : m'.seqLock = some id →
      c.dispatch.takesSeq m'.router.transfer = true ∧ c.stage.seq?.isSome)
    (hcounters : (∀ dest, m'.router.seqCounters.get dest = m.router.seqCounters.get dest) ∨
      m.seqLock = some id) : Orderly w m' where
  call := by
    intro other c' hc'
    rw [hcalls, Table.get_insert] at hc'
    split at hc'
    · next heq =>
      cases hc'
      rw [heq]
      exact hown
    · next hne =>
      have hold := ho.call other c' hc'
      refine ⟨?_, ?_, hold.frame, ?_⟩
      · rw [htransfer]
        exact fun htakes hinside => hkeep other hne (hold.locked htakes hinside)
      · intro seq hseq
        have hnumber := hold.number seq hseq
        rw [htransfer]
        split
        · next htakes =>
          rw [if_pos htakes] at hnumber
          rcases hcounters with hsame | hheld
          · rw [hnumber, nextSeq_congr (hsame _)]
          · -- only the call that moves has the lock
            have hlocked := hold.locked htakes (by simp [hseq])
            rw [hheld] at hlocked
            exact absurd (Option.some.inj hlocked).symm hne
        · next htakes =>
          rwa [if_neg htakes] at hnumber
      · rw [htransfer]
        exact hold.counts
  holder := by
    intro other hother
    by_cases heq : other = id
    · subst heq
      exact ⟨c, by rw [hcalls, Table.get_insert_self], hmine hother⟩
    · obtain ⟨c', hc', htakes, hinside⟩ := ho.holder other (hlock other hother heq)
      refine ⟨c', ?_, by rwa [htransfer], hinside⟩
      rw [hcalls, Table.get_insert, if_neg heq, hc']

end Orderly

variable (m : Dispatching) (id : Nat)

@[simp] theorem unlock_router : (m.unlock id).router = m.router := by
  unfold unlock
  split <;> rfl

@[simp] theorem unlock_calls : (m.unlock id).calls = m.calls := by
  unfold unlock
  split <;> rfl

@[simp] theorem unlock_log : (m.unlock id).log = m.log := by
  unfold unlock
  split <;> rfl

@[simp] theorem unlock_evicted : (m.unlock id).evicted = m.evicted := by
  unfold unlock
  split <;> rfl

@[simp] theorem unlock_seqLock (id other : Nat) :
    (m.unlock id).seqLock = some other ↔ m.seqLock = some other ∧ other ≠ id := by
  unfold unlock
  split
  · next heq =>
    rw [heq]
    constructor
    · nofun
    · rintro ⟨h, hne⟩
      exact absurd (Option.some.inj h).symm hne
  · next hne =>
    refine ⟨fun h => ⟨h, ?_⟩, And.left⟩
    rintro rfl
    exact hne h

namespace Orderly

variable {w : Wire} {m m' : Dispatching}

theorem fail (ho : Orderly w m) (id : Nat) (c : SendCall) (e : MistError) :
    Orderly w ((m.goTo id c (.returned (.error e))).unlock id) := by
  refine ho.update id { c with stage := .returned (.error e) } (by simp [goTo])
    (by simp [goTo]) ?_ ?_ ?_ ?_ (.inl (by simp [goTo]))
  · constructor <;> simp [SendStage.seq?]
  · intro other hne hother
    simpa [goTo] using ⟨hother, hne⟩
  · intro other hother _
    simp only [unlock_seqLock, goTo] at hother
    exact hother.1
  · simp

theorem advance (ho : Orderly w m) {id : Nat} {c : SendCall} (hc : m.calls.get id = some c)
    {seq : Nat} (hseq : c.stage.seq? = some seq) (stage : SendStage) (hstage : stage.seq? = some seq)
    (hframe : ∀ seq action, stage = .built seq action →
      (action.envelope w).map (·.seq) = some seq)
    (hcounts : ∀ seq, stage = .remembered seq → c.dispatch.takesSeq m.router.transfer = true)
    {router : OverlayRouter} (htransfer : router.transfer = m.router.transfer)
    (hcounters : router.seqCounters = m.router.seqCounters)
    {log : List (Dispatch Unit × OverlayAction)} :
    Orderly w { m.goTo id c stage with router, log } := by
  have hold := ho.call id c hc
  refine ho.update id { c with stage } rfl htransfer ?_ (fun _ _ h => h)
    (fun _ h _ => h) ?_ (.inl fun dest => by rw [hcounters])
  · refine ⟨?_, ?_, hframe, ?_⟩
    · intro htakes _
      exact hold.locked (by rwa [← htransfer]) (by simp [hseq])
    · intro seq' hseq'
      cases hstage.symm.trans hseq'
      simp only [htransfer, hcounters]
      exact hold.number seq hseq
    · simp only [htransfer]
      exact hcounts
  · intro hlock
    obtain ⟨c', hc', htakes, _⟩ := ho.holder id hlock
    cases hc.symm.trans hc'
    exact ⟨by simpa only [htransfer] using htakes, by simp [hstage]⟩

/-- Each move keeps the calls in order at the lock. -/
theorem move (ho : Orderly w m) {id : Nat} {c : SendCall} (hc : m.calls.get id = some c)
    (h : m.move w id c = some m') : Orderly w m' := by
  unfold Dispatching.move at h
  simp only at h
  have hold := ho.call id c hc
  cases hstage : c.stage with
  | called =>
    simp only [hstage] at h
    split at h
    · next htakes =>
      split at h
      · next hfree =>
        cases h
        refine ho.update id _ rfl rfl ?_ ?_ ?_ ?_ (.inl fun _ => rfl)
        · refine ⟨fun _ _ => rfl, ?_, by simp, by simp⟩
          intro seq hseq
          cases hseq
          simp [goTo, htakes]
        · intro other _ hother
          rw [hfree] at hother
          cases hother
        · intro other hother hne
          exact absurd (Option.some.inj hother).symm hne
        · exact fun _ => ⟨htakes, rfl⟩
      · cases h
    · next htakes =>
      cases h
      refine ho.update id _ rfl rfl ?_ (fun _ _ h => h) (fun _ h _ => h) ?_
        (.inl fun _ => rfl)
      · refine ⟨fun hyes => absurd hyes htakes, ?_, by simp, by simp⟩
        intro seq hseq
        cases hseq
        simp [goTo, htakes]
      · intro hlock
        obtain ⟨c', hc', hyes, _⟩ := ho.holder id hlock
        cases hc.symm.trans hc'
        exact absurd hyes htakes
  | numbered seq =>
    have hnumber : c.stage.seq? = some seq := by simp [hstage, SendStage.seq?]
    simp only [hstage] at h
    split at h
    · cases h
      exact ho.fail id c _
    · next action hoffer =>
      cases h
      refine ho.advance hc hnumber (.built seq action) rfl ?_ (by simp) rfl rfl
      intro seq' action' heq
      cases heq
      exact offer_seq hoffer
  | built seq action =>
    have hnumber : c.stage.seq? = some seq := by simp [hstage, SendStage.seq?]
    simp only [hstage] at h
    split at h
    · cases h
      exact ho.fail id c _
    · cases h
      exact ho.advance hc hnumber (.committed seq) rfl (by simp) (by simp) rfl rfl
  | committed seq =>
    have hnumber : c.stage.seq? = some seq := by simp [hstage, SendStage.seq?]
    simp only [hstage] at h
    split at h
    · next htakes =>
      cases h
      refine ho.advance hc hnumber (.remembered seq) rfl (by simp) (fun _ _ => htakes) ?_ ?_
      · rfl
      · rfl
    · next htakes =>
      cases h
      refine ho.update id _ rfl rfl ?_ (fun _ _ h => h) (fun _ h _ => h) ?_
        (.inl fun _ => rfl)
      · constructor <;> simp [SendStage.seq?]
      · intro hlock
        obtain ⟨c', hc', hyes, _⟩ := ho.holder id hlock
        cases hc.symm.trans hc'
        exact absurd hyes htakes
  | remembered seq =>
    simp only [hstage] at h
    cases h
    have hlocked := hold.locked (hold.counts seq hstage) (by simp [hstage, SendStage.seq?])
    refine ho.update id { c with stage := .returned (.ok ()) } (by simp [goTo])
      rfl ?_ ?_ ?_ ?_ (.inr hlocked)
    · constructor <;> simp [SendStage.seq?]
    · intro other hne hother
      simpa [goTo] using ⟨hother, hne⟩
    · intro other hother _
      simp only [unlock_seqLock, goTo] at hother
      exact hother.1
    · simp
  | returned result =>
    simp only [hstage] at h
    cases h

/-- Each step keeps the calls in order at the lock. -/
theorem step (ho : Orderly w m) {e : Event} (h : Step w m e m') : Orderly w m' := by
  cases h with
  | call id d hnew =>
    refine ho.update id ⟨d, .called⟩ rfl rfl ?_ (fun _ _ h => h) (fun _ h _ => h) ?_
      (.inl fun _ => rfl)
    · constructor <;> simp [SendStage.seq?]
    · intro hlock
      obtain ⟨c, hc, _⟩ := ho.holder id hlock
      rw [hnew] at hc
      cases hc
  | move hc h => exact ho.move hc h
  | shuffle t h =>
    refine ⟨?_, ho.holder⟩
    intro id c hc
    have hold := ho.call id c hc
    refine ⟨hold.locked, ?_, hold.frame, hold.counts⟩
    intro seq hseq
    have hsame : nextSeq t c.dispatch.dest = nextSeq m.router.seqCounters c.dispatch.dest :=
      nextSeq_congr (h.get _).symm
    simpa only [hsame] using hold.number seq hseq
  | receive rt seen =>
    refine ⟨?_, ho.holder⟩
    intro id c hc
    have hold := ho.call id c hc
    exact { hold with }

end Orderly

/-! ### The books -/

/-- Whether an entry of the log took a number of `dest`. -/
def numberedFor (m : Dispatching) (dest : NodeId) (e : Dispatch Unit × OverlayAction) : Bool :=
  e.1.dest = dest ∧ e.1.takesSeq m.router.transfer

/-- The numbers the frames committed to `dest` carry, in the order of their commits. -/
def seqsTo (w : Wire) (m : Dispatching) (dest : NodeId) : List (Option Nat) :=
  (m.log.filter (m.numberedFor dest)).map fun e => (e.2.envelope w).map (·.seq)

/-- One if a frame for `dest` is committed whose number is not counted yet. -/
def pending (m : Dispatching) (dest : NodeId) : Nat :=
  match m.seqLock.bind m.calls.get with
  | some c => if c.dispatch.dest = dest ∧ c.stage.taken then 1 else 0
  | none => 0

/-- The numbers committed are 1, 2, 3, … up to the counter, and one further
while a frame is committed and not counted. -/
structure Booked (w : Wire) (m : Dispatching) : Prop where
  numbers : ∀ dest, dest ∉ m.evicted →
    m.seqsTo w dest = (List.range (m.router.counterOf dest + m.pending dest)).map (some <| · + 1)
  zeros : ∀ e ∈ m.log, e.1.takesSeq m.router.transfer = false →
    (e.2.envelope w).map (·.seq) = some 0

theorem evictSeqCounter_get (t : Table NodeId SeqCounter) (dest other : NodeId) :
    (evictSeqCounter t dest).get other = t.get other ∨
      (evictSeqCounter t dest).get other = none := by
  unfold evictSeqCounter
  split
  · split
    · rw [Table.get_erase]
      split
      · exact .inr rfl
      · exact .inl rfl
    · exact .inl rfl
  · exact .inl rfl

theorem counted_counterOf {m : Dispatching} {other : NodeId} {seq : Nat} {now : Instant}
    (hne : other ≠ dest)
    (hkept : other ∉ m.router.seqCounters.keys.filter fun k => ! (evictSeqCounter m.router.seqCounters dest).contains k) :
    (counted m.router dest seq now).counterOf other = m.router.counterOf other := by
  simp only [OverlayRouter.counterOf, counted, Table.get_insert, if_neg hne]
  rcases evictSeqCounter_get m.router.seqCounters dest other with hsame | hgone
  · rw [hsame]
  · cases hget : m.router.seqCounters.get other with
    | none => rw [hgone]
    | some counter =>
      refine absurd (List.mem_filter.mpr ⟨Table.mem_keys_iff.mpr ⟨counter, hget⟩, ?_⟩) hkept
      simp [Table.contains, hgone]

variable {id : Nat} {c : SendCall}

theorem pending_of_lock (m : Dispatching) (hlock : m.seqLock = some id) (hc : m.calls.get id = some c)
    (dest : NodeId) :
    m.pending dest = if c.dispatch.dest = dest ∧ c.stage.taken then 1 else 0 := by
  simp only [pending, hlock, Option.bind_some, hc]

theorem pending_of_free (m : Dispatching) (hlock : m.seqLock = none) (dest : NodeId) :
    m.pending dest = 0 := by
  simp only [pending, hlock, Option.bind_none]

theorem pending_congr {m m' : Dispatching} (hlock : m'.seqLock = m.seqLock)
    (hcalls : ∀ id, m.seqLock = some id → m'.calls.get id = m.calls.get id) (dest : NodeId) :
    m'.pending dest = m.pending dest := by
  cases hheld : m.seqLock with
  | none => rw [pending_of_free m' (hlock.trans hheld), pending_of_free m hheld]
  | some id => simp only [pending, hlock, hheld, Option.bind_some, hcalls id hheld]

variable {m : Dispatching}

theorem pending_goTo_locked (hlock : m.seqLock = some id) (c : SendCall) (stage : SendStage)
    (dest : NodeId) : (m.goTo id c stage).pending dest =
      if c.dispatch.dest = dest ∧ stage.taken then 1 else 0 :=
  pending_of_lock (m.goTo id c stage) hlock (Table.get_insert_self _ _ _) dest

theorem pending_goTo_other (hlock : m.seqLock ≠ some id) (c : SendCall) (stage : SendStage)
    (dest : NodeId) : (m.goTo id c stage).pending dest = m.pending dest := by
  have hkept : (m.goTo id c stage).seqLock = m.seqLock := rfl
  refine pending_congr hkept ?_ dest
  intro other hother
  have hne : other ≠ id := fun heq => hlock (heq ▸ hother)
  simp [goTo, Table.get_insert, hne]

theorem pending_goTo (hc : m.calls.get id = some c) {stage : SendStage}
    (htaken : stage.taken = c.stage.taken) (dest : NodeId) :
    (m.goTo id c stage).pending dest = m.pending dest := by
  by_cases hlock : m.seqLock = some id
  · rw [pending_goTo_locked hlock, pending_of_lock m hlock hc, htaken]
  · exact pending_goTo_other hlock c stage dest

theorem pending_unlock (hc : m.calls.get id = some c) (htaken : c.stage.taken = false)
    (dest : NodeId) : (m.unlock id).pending dest = m.pending dest := by
  unfold unlock
  split
  · next hlock =>
    rw [pending_of_free _ rfl, pending_of_lock m hlock hc]
    simp [htaken]
  · rfl

theorem counterOf_congr {r r' : OverlayRouter} (h : r'.seqCounters.get dest = r.seqCounters.get dest) :
    r'.counterOf dest = r.counterOf dest := by
  simp only [OverlayRouter.counterOf, h]

namespace Booked

variable {w : Wire} {m m' : Dispatching}

theorem new {r : OverlayRouter} (hr : r.seqCounters = ∅) : Booked w (.new r) where
  numbers := by
    intro dest _
    simp [seqsTo, Dispatching.new, OverlayRouter.counterOf, hr, pending]
  zeros := by simp [Dispatching.new]

theorem still (hb : Booked w m) (htransfer : m'.router.transfer = m.router.transfer)
    (hlog : m'.log = m.log) (hevicted : m'.evicted = m.evicted)
    (hcounters : ∀ dest, m'.router.seqCounters.get dest = m.router.seqCounters.get dest)
    (hpending : ∀ dest, m'.pending dest = m.pending dest) : Booked w m' where
  numbers := by
    intro dest hkept
    rw [hevicted] at hkept
    rw [counterOf_congr (hcounters dest), hpending, ← hb.numbers dest hkept]
    have hsame : m'.numberedFor dest = m.numberedFor dest := by
      funext e
      simp only [numberedFor, htransfer]
    simp only [seqsTo, hlog, hsame]
  zeros := by
    rw [hlog, htransfer]
    exact hb.zeros

variable {id : Nat} {c : SendCall}

theorem fail (hb : Booked w m) (hc : m.calls.get id = some c) (htaken : c.stage.taken = false)
    (e : MistError) : Booked w ((m.goTo id c (.returned (.error e))).unlock id) := by
  refine hb.still (by simp [goTo]) (by simp [goTo]) (by simp [goTo]) (by simp [goTo]) ?_
  intro dest
  have hc' : (m.goTo id c (.returned (.error e))).calls.get id =
      some { c with stage := .returned (.error e) } := by simp [goTo]
  rw [pending_unlock hc' rfl, pending_goTo hc (by rw [htaken]; rfl)]

section

variable (hb : Booked w m) (ho : Orderly w m) (hc : m.calls.get id = some c)
include hb ho hc

/-- A frame is committed: under the next number and with the lock, or under
zero. -/
theorem commit {seq : Nat} {action : OverlayAction} (hstage : c.stage = .built seq action) :
    Booked w { m.goTo id c (.committed seq) with log := m.log ++ [(c.dispatch, action)] } := by
  have hcall := ho.call id c hc
  have hframe := hcall.frame seq action hstage
  have hnumber := hcall.number seq (by simp [hstage, SendStage.seq?])
  constructor
  · intro dest hkept
    have hbefore := hb.numbers dest hkept
    simp only [seqsTo] at hbefore
    by_cases hmine : c.dispatch.dest = dest ∧ c.dispatch.takesSeq m.router.transfer = true
    · obtain ⟨rfl, htakes⟩ := hmine
      have hlock := hcall.locked htakes (by simp [hstage, SendStage.seq?])
      have hzero : m.pending c.dispatch.dest = 0 := by
        rw [pending_of_lock m hlock hc]
        simp [hstage, SendStage.taken]
      have hone : (m.goTo id c (.committed seq)).pending c.dispatch.dest = 1 := by
        rw [pending_goTo_locked hlock]
        simp [SendStage.taken]
      have hnext : seq = m.router.counterOf c.dispatch.dest + 1 := by
        rw [hnumber, if_pos htakes, nextSeq_eq]
      have hmatch : m.numberedFor c.dispatch.dest (c.dispatch, action) = true := by
        simp [numberedFor, htakes]
      change _ = (List.range (m.router.counterOf _ + (m.goTo id c _).pending _)).map _
      rw [hone]
      simp only [seqsTo, List.filter_append, List.map_append]
      change (m.log.filter (m.numberedFor c.dispatch.dest)).map _ ++
        ([(c.dispatch, action)].filter (m.numberedFor c.dispatch.dest)).map _ = _
      rw [hbefore, hzero, List.filter_cons_of_pos hmatch]
      simp [List.range_succ, hframe, hnext]
    · have hsame : (m.goTo id c (.committed seq)).pending dest = m.pending dest := by
        by_cases hlock : m.seqLock = some id
        · obtain ⟨c', hc', htakes, _⟩ := ho.holder id hlock
          cases hc.symm.trans hc'
          have hother : c.dispatch.dest ≠ dest := fun heq => hmine ⟨heq, htakes⟩
          rw [pending_goTo_locked hlock, pending_of_lock m hlock hc]
          simp [hother]
        · exact pending_goTo_other hlock c _ dest
      have hmatch : m.numberedFor dest (c.dispatch, action) = false := by
        simpa [numberedFor] using hmine
      change _ = (List.range (m.router.counterOf _ + (m.goTo id c _).pending _)).map _
      rw [hsame]
      simp only [seqsTo, List.filter_append, List.map_append]
      change (m.log.filter (m.numberedFor dest)).map _ ++
        ([(c.dispatch, action)].filter (m.numberedFor dest)).map _ = _
      rw [hbefore, List.filter_cons_of_neg (by simp [hmatch])]
      simp
  · intro e he hzero
    rcases List.mem_append.mp he with hold | hnew
    · exact hb.zeros e hold hzero
    · simp only [List.mem_singleton] at hnew
      subst hnew
      have hzero' : c.dispatch.takesSeq m.router.transfer = false := hzero
      rw [hframe, hnumber]
      simp [hzero']

theorem count {seq : Nat} (hstage : c.stage = .remembered seq) :
    Booked w { (m.goTo id c (.returned (.ok ()))).unlock id with
      router := counted m.router c.dispatch.dest seq c.dispatch.now
      evicted := m.evicted ++ m.router.seqCounters.keys.filter fun dest =>
        ! (evictSeqCounter m.router.seqCounters c.dispatch.dest).contains dest } := by
  have hcall := ho.call id c hc
  have htakes := hcall.counts seq hstage
  have hlock := hcall.locked htakes (by simp [hstage, SendStage.seq?])
  have hnumber := hcall.number seq (by simp [hstage, SendStage.seq?])
  rw [if_pos htakes, nextSeq_eq] at hnumber
  have hreleased : ((m.goTo id c (.returned (.ok ()))).unlock id).seqLock = none := by
    simp [unlock, goTo, hlock]
  constructor
  · intro dest hkept
    obtain ⟨hkept, hstays⟩ : dest ∉ m.evicted ∧ _ := by simpa only [List.mem_append, not_or] using hkept
    have hbefore := hb.numbers dest hkept
    rw [pending_of_lock m hlock hc] at hbefore
    have hafter := pending_of_free _ hreleased dest
    change ((((m.goTo id c (.returned (.ok ()))).unlock id).log.filter (m.numberedFor dest)).map _) =
      (List.range ((counted m.router c.dispatch.dest seq c.dispatch.now).counterOf dest +
        ((m.goTo id c (.returned (.ok ()))).unlock id).pending dest)).map _
    rw [hafter, unlock_log]
    refine hbefore.trans ?_
    by_cases heq : c.dispatch.dest = dest
    · subst heq
      have hcounted : (counted m.router c.dispatch.dest seq c.dispatch.now).counterOf
          c.dispatch.dest = seq := by simp [OverlayRouter.counterOf, counted]
      rw [hcounted, hnumber]
      simp [hstage, SendStage.taken]
    · rw [counted_counterOf (fun h => heq h.symm) hstays]
      simp [heq]
  · intro e he hzero
    exact hb.zeros e (by simpa [goTo] using he) hzero

/-- Each move keeps the numbers committed 1, 2, 3, … up to the counter. -/
theorem move (h : m.move w id c = some m') : Booked w m' := by
  unfold Dispatching.move at h
  simp only at h
  cases hstage : c.stage with
  | called =>
    simp only [hstage] at h
    split at h
    · split at h
      · next hfree =>
        cases h
        refine hb.still rfl rfl rfl (fun _ => rfl) ?_
        intro dest
        rw [pending_of_free m hfree]
        refine (pending_of_lock _ rfl (Table.get_insert_self _ _ _) dest).trans ?_
        simp [SendStage.taken]
      · cases h
    · cases h
      exact hb.still rfl rfl rfl (fun _ => rfl) (pending_goTo hc (by rw [hstage]; rfl))
  | numbered seq =>
    simp only [hstage] at h
    split at h
    · cases h
      exact hb.fail hc (by rw [hstage]; rfl) _
    · cases h
      exact hb.still rfl rfl rfl (fun _ => rfl) (pending_goTo hc (by rw [hstage]; rfl))
  | built seq action =>
    simp only [hstage] at h
    split at h
    · cases h
      exact hb.fail hc (by rw [hstage]; rfl) _
    · cases h
      exact hb.commit ho hc hstage
  | committed seq =>
    simp only [hstage] at h
    split at h
    · cases h
      exact hb.still rfl rfl rfl (fun _ => rfl) (pending_goTo hc (by rw [hstage]; rfl))
    · next htakes =>
      cases h
      have hlock : m.seqLock ≠ some id := by
        intro hlock
        obtain ⟨c', hc', hyes, _⟩ := ho.holder id hlock
        cases hc.symm.trans hc'
        exact htakes hyes
      exact hb.still rfl rfl rfl (fun _ => rfl)
        (pending_goTo_other hlock c (.returned (.ok ())))
  | remembered seq =>
    simp only [hstage] at h
    cases h
    exact hb.count ho hc hstage
  | returned result =>
    simp only [hstage] at h
    cases h

end

theorem step (hb : Booked w m) (ho : Orderly w m) {e : Event} (h : Step w m e m') :
    Booked w m' := by
  cases h with
  | call id d hnew =>
    refine hb.still rfl rfl rfl (fun _ => rfl) ?_
    refine pending_congr rfl ?_
    intro other hother
    obtain ⟨c, hc, _⟩ := ho.holder other hother
    have hne : other ≠ id := by
      rintro rfl
      rw [hnew] at hc
      cases hc
    simp [Table.get_insert, hne]
  | move hc h => exact hb.move ho hc h
  | shuffle t h => exact hb.still rfl rfl rfl (fun dest => (h.get dest).symm) (fun _ => rfl)
  | receive rt seen => exact hb.still rfl rfl rfl (fun _ => rfl) (fun _ => rfl)

end Booked

/-! ### A call that fails -/

variable {w : Wire} {m m' : Dispatching}

/-- Only a call whose commit succeeded writes the counters or the memory of
outgoing envelopes. -/
theorem move_writes (h : m.move w id c = some m') (hrefused : c.stage.accepted = false) :
    m'.router.seqCounters = m.router.seqCounters ∧
      m'.router.seenEnvelopes = m.router.seenEnvelopes := by
  unfold move at h
  simp only at h
  cases hstage : c.stage with
  | called =>
    simp only [hstage] at h
    split at h
    · split at h
      · cases h
        exact ⟨rfl, rfl⟩
      · cases h
    · cases h
      exact ⟨rfl, rfl⟩
  | numbered seq | built seq action =>
    simp only [hstage] at h
    split at h <;> cases h <;> simp [goTo]
  | committed seq | remembered seq => simp [SendStage.accepted, hstage] at hrefused
  | returned result =>
    simp only [hstage] at h
    cases h

/-- A move changes its own call only. -/
theorem move_call (h : m.move w id c = some m') :
    ∃ c', m'.calls = m.calls.insert id c' ∧ c'.dispatch = c.dispatch ∧
      (c.stage.accepted = true → c'.stage.accepted = true) ∧
      m'.router.transfer = m.router.transfer := by
  unfold move at h
  simp only at h
  cases hstage : c.stage with
  | called =>
    simp only [hstage] at h
    split at h
    · split at h
      · cases h
        exact ⟨_, rfl, rfl, by simp [SendStage.accepted], rfl⟩
      · cases h
    · cases h
      exact ⟨_, rfl, rfl, by simp [SendStage.accepted], rfl⟩
  | numbered seq =>
    simp only [hstage] at h
    split at h
    · next e _ =>
      cases h
      exact ⟨{ c with stage := .returned (.error e) }, by simp [goTo], rfl,
        by simp [SendStage.accepted], by simp [goTo]⟩
    · cases h
      exact ⟨_, rfl, rfl, by simp [SendStage.accepted], rfl⟩
  | built seq action =>
    simp only [hstage] at h
    split at h
    · next e _ =>
      cases h
      exact ⟨{ c with stage := .returned (.error e) }, by simp [goTo], rfl,
        by simp [SendStage.accepted], by simp [goTo]⟩
    · cases h
      exact ⟨_, rfl, rfl, fun _ => rfl, rfl⟩
  | committed seq =>
    simp only [hstage] at h
    split at h
    all_goals
      cases h
      exact ⟨_, rfl, rfl, fun _ => rfl, rfl⟩
  | remembered seq =>
    simp only [hstage] at h
    cases h
    exact ⟨{ c with stage := .returned (.ok ()) }, by simp [goTo], rfl, fun _ => rfl, rfl⟩
  | returned result =>
    simp only [hstage] at h
    cases h

/-- What a call has accepted stays accepted. -/
theorem step_accepted {e : Event} (h : Step w m e m') (hc : m.calls.get id = some c) :
    ∃ c', m'.calls.get id = some c' ∧ c'.dispatch = c.dispatch ∧
      (c.stage.accepted = true → c'.stage.accepted = true) := by
  cases h with
  | call other d hnew =>
    have hne : id ≠ other := by
      rintro rfl
      rw [hnew] at hc
      cases hc
    exact ⟨c, by simp [Table.get_insert, hne, hc], rfl, fun h => h⟩
  | @move _ other c' hc' h =>
    obtain ⟨c'', hcalls, hdispatch, haccepted, _⟩ := move_call h
    by_cases heq : id = other
    · subst heq
      cases hc.symm.trans hc'
      exact ⟨c'', by rw [hcalls, Table.get_insert_self], hdispatch, haccepted⟩
    · exact ⟨c, by rw [hcalls, Table.get_insert, if_neg heq, hc], rfl, fun h => h⟩
  | shuffle t h | receive rt seen => exact ⟨c, hc, rfl, fun h => h⟩

namespace Run

variable {w : Wire} {m m' : Dispatching} {steps : List (Dispatching × Event × Dispatching)}

theorem orderly (hrun : Run w m steps m') (ho : Orderly w m) : Orderly w m' := by
  induction hrun with
  | nil => exact ho
  | snoc _ h ih => exact ih.step h

theorem booked (hrun : Run w m steps m') (ho : Orderly w m) (hb : Booked w m) : Booked w m' := by
  induction hrun with
  | nil => exact hb
  | snoc hrun h ih => exact ih.step (hrun.orderly ho) h

theorem transfer (hrun : Run w m steps m') : m'.router.transfer = m.router.transfer := by
  induction hrun with
  | nil => rfl
  | snoc _ h ih =>
    refine Eq.trans ?_ ih
    cases h with
    | move hc h =>
      obtain ⟨_, _, _, _, htransfer⟩ := move_call h
      exact htransfer
    | call | shuffle | receive => rfl

variable {before after : Dispatching}

section

variable (hrun : Run w m steps m')
include hrun

/-- The step of a call leads from a state reached to a state from which the
run goes on. -/
theorem split {e : Event} (hmem : (before, e, after) ∈ steps) :
    ∃ earlier later, Run w m earlier before ∧ Step w before e after ∧ Run w after later m' := by
  induction hrun with
  | nil => cases hmem
  | snoc hrun h ih =>
    rcases List.mem_append.mp hmem with hold | hnew
    · obtain ⟨earlier, later, hfirst, hstep, hrest⟩ := ih hold
      exact ⟨earlier, _, hfirst, hstep, hrest.snoc h⟩
    · simp only [List.mem_singleton, Prod.mk.injEq] at hnew
      obtain ⟨rfl, rfl, rfl⟩ := hnew
      exact ⟨_, _, hrun, h, .nil _⟩

theorem accepted {id : Nat} {c : SendCall} (hc : m.calls.get id = some c) :
    ∃ c', m'.calls.get id = some c' ∧ c'.dispatch = c.dispatch ∧
      (c.stage.accepted = true → c'.stage.accepted = true) := by
  induction hrun with
  | nil => exact ⟨c, hc, rfl, fun h => h⟩
  | snoc _ h ih =>
    obtain ⟨c', hc', hdispatch, haccepted⟩ := ih
    obtain ⟨c'', hc'', hdispatch', haccepted'⟩ := step_accepted h hc'
    exact ⟨c'', hc'', hdispatch'.trans hdispatch, fun h => haccepted' (haccepted h)⟩

theorem failed_writes {id : Nat} {d : Dispatch Unit} {error : MistError}
    (hfailed : m'.calls.get id = some ⟨d, .returned (.error error)⟩)
    (hmem : (before, .move id, after) ∈ steps) :
    after.router.seqCounters = before.router.seqCounters ∧
      after.router.seenEnvelopes = before.router.seenEnvelopes := by
  obtain ⟨_, _, _, hstep, hrest⟩ := hrun.split hmem
  cases hstep with
  | @move _ _ c hc h =>
    refine move_writes h ?_
    by_contra haccepted
    obtain ⟨c', hcalls, _, hkept, _⟩ := move_call h
    obtain ⟨c'', hc'', _, hkept'⟩ :=
      hrest.accepted (by rw [hcalls, Table.get_insert_self] : after.calls.get id = some c')
    have hfinal := hkept' (hkept (by simpa using haccepted))
    obtain rfl : c'' = ⟨d, .returned (.error error)⟩ := Option.some.inj (hc''.symm.trans hfailed)
    cases hfinal

/-- A call that takes no number touches no counter. -/
theorem unnumbered_writes (ho : Orderly w m) {id : Nat} {c : SendCall}
    (hmem : (before, .move id, after) ∈ steps) (hc : before.calls.get id = some c)
    (hplain : c.dispatch.takesSeq before.router.transfer = false) :
    after.router.seqCounters = before.router.seqCounters := by
  obtain ⟨_, _, hfirst, hstep, _⟩ := hrun.split hmem
  cases hstep with
  | @move _ _ c' hc' h =>
    cases hc.symm.trans hc'
    cases hstage : c.stage with
    | remembered seq =>
      have htakes := ((hfirst.orderly ho).call id c hc).counts seq hstage
      rw [hplain] at htakes
      cases htakes
    | committed seq =>
      simp only [Dispatching.move, hstage, hplain] at h
      cases h
      rfl
    | returned result =>
      simp only [Dispatching.move, hstage] at h
      cases h
    | called | numbered seq | built seq action =>
      exact (move_writes h (by simp [hstage, SendStage.accepted])).1

end

end Run

/-! ### A call by itself -/

/-- The call goes on for so many steps, with nobody in between. -/
def alone (w : Wire) (id : Nat) : Nat → Dispatching → Dispatching
  | 0, m => m
  | n + 1, m => ((m.calls.get id).bind (m.move w id)).elim m (alone w id n)

theorem buildFrame_eq (w : Wire) (r : OverlayRouter) (d : Dispatch Unit) (seq : Nat) :
    buildFrame w d r seq = (r.offer w d seq).bind fun action => (d.commit action).bind fun _ =>
      .ok ((), r.rememberOutgoing (r.frameOf d seq) d.rememberedAt) := by
  simp only [buildFrame, offer, frameOf, bind, Except.bind, pure, Except.pure]
  grind

/-- A call that nobody interrupts computes `dispatchDataVia`. If it fails it leaves no trace. -/
theorem alone_dispatchDataVia (w : Wire) (m : Dispatching) (id : Nat) (d : Dispatch Unit) :
    let after := alone w id 5 { m with seqLock := none, calls := m.calls.insert id ⟨d, .called⟩ }
    after.seqLock = none ∧
      match m.router.dispatchDataVia w d with
      | .ok (_, r) => after.router = r ∧ after.calls.get id = some ⟨d, .returned (.ok ())⟩
      | .error e => after.router = m.router ∧ after.log = m.log ∧
        after.calls.get id = some ⟨d, .returned (.error e)⟩ := by
  by_cases htakes : d.takesSeq m.router.transfer = true
  · cases hoffer : m.router.offer w d (nextSeq m.router.seqCounters d.dest) with
    | error e =>
      simp [alone, move, goTo, unlock, dispatchDataVia, withNextSeq, buildFrame_eq, bind, Except.bind,
        htakes, hoffer]
    | ok action =>
      cases hcommit : d.commit action
      all_goals simp [alone, move, goTo, unlock, dispatchDataVia, withNextSeq, buildFrame_eq, bind,
        Except.bind, pure, Except.pure, rememberOutgoing, counted, htakes, hoffer, hcommit]
  · cases hoffer : m.router.offer w d 0 with
    | error e => simp [alone, move, goTo, unlock, dispatchDataVia, buildFrame_eq, Except.bind, htakes, hoffer]
    | ok action =>
      cases hcommit : d.commit action
      all_goals simp [alone, move, goTo, unlock, dispatchDataVia, buildFrame_eq, Except.bind,
        rememberOutgoing, htakes, hoffer, hcommit]

end Dispatching

/-- **Numbers are committed atomically and without gaps.** In any run of any
calls on a fresh router: a call that fails has at none of its steps touched a
counter or the memory of outgoing envelopes; the frames committed under a
number to a destination whose counter was not evicted carry 1, 2, 3, … in the
order of their commits; a broadcast, a frame that is not reliable and ordered,
and unsequenced bulk carry 0, and their calls touch no counter. -/
theorem dispatches_numberedInCommitOrder {w : Wire} {localNodeId : NodeId} {hopCount : Nat}
    {transfer : StorageTransferConfig} {strategies : List TopologyStrategy}
    {steps : List (Dispatching × Dispatching.Event × Dispatching)} {m : Dispatching}
    (hrun : Dispatching.Run w (.new (.new localNodeId hopCount transfer strategies)) steps m) :
    (∀ id d e, m.calls.get id = some ⟨d, .returned (.error e)⟩ →
      ∀ before after, (before, .move id, after) ∈ steps →
        after.router.seqCounters = before.router.seqCounters ∧
          after.router.seenEnvelopes = before.router.seenEnvelopes) ∧
    (∀ dest, dest ∉ m.evicted → ∃ n, m.seqsTo w dest = (List.range n).map (some <| · + 1)) ∧
    (∀ e ∈ m.log, e.1.Unsequenced transfer → (e.2.envelope w).map (·.seq) = some 0) ∧
    (∀ id c before after, (before, .move id, after) ∈ steps → before.calls.get id = some c →
      c.dispatch.Unsequenced transfer →
        after.router.seqCounters = before.router.seqCounters) := by
  have ho := Dispatching.Orderly.new (w := w) (.new localNodeId hopCount transfer strategies)
  have hb : Dispatching.Booked w (.new (.new localNodeId hopCount transfer strategies)) :=
    .new rfl
  have hbooked := hrun.booked ho hb
  have htransfer : m.router.transfer = transfer := hrun.transfer
  refine ⟨?_, ?_, ?_, ?_⟩
  · exact fun id d e hfailed before after hmem => hrun.failed_writes hfailed hmem
  · exact fun dest hkept => ⟨_, hbooked.numbers dest hkept⟩
  · intro e he hplain
    rw [← Dispatch.takesSeq_eq_false_iff, ← htransfer] at hplain
    exact hbooked.zeros e he hplain
  · intro id c before after hmem hc hplain
    obtain ⟨_, _, hfirst, _, _⟩ := hrun.split hmem
    have hbefore : before.router.transfer = transfer := hfirst.transfer
    rw [← Dispatch.takesSeq_eq_false_iff, ← hbefore] at hplain
    exact hrun.unnumbered_writes ho hmem hc hplain

/-! ### A frame that is refused while another call waits -/

namespace TwoMessages

/-- The dispatch whose frame finds the queue full. -/
def refused : Dispatch Unit :=
  { dispatch 1 120 with commit := fun _ => .error (.internal "queue full") }

end TwoMessages

open TwoMessages Dispatching in
theorem dispatches_refusedThenAccepted :
    ∃ steps m, Run TwoMessages.wire (.new sender) steps m ∧
      m.seqsTo TwoMessages.wire bob = [some 1] ∧
      ∀ before after, (before, .move 1, after) ∈ steps →
        after.router.seqCounters = before.router.seqCounters := by
  have hrun : Run TwoMessages.wire (.new sender) _ _ :=
    .snoc (.snoc (.snoc (.snoc (.snoc (.snoc (.snoc (.snoc (.snoc (.snoc (.nil (.new sender))
      (.call _ 0 (dispatch 1 120) rfl))
      (.call _ 1 refused rfl))
      (@Step.move _ _ _ 1 _ rfl rfl))
      (@Step.move _ _ _ 1 _ rfl rfl))
      (@Step.move _ _ _ 1 _ rfl rfl))
      (@Step.move _ _ _ 0 _ rfl rfl))
      (@Step.move _ _ _ 0 _ rfl rfl))
      (@Step.move _ _ _ 0 _ rfl rfl))
      (@Step.move _ _ _ 0 _ rfl rfl))
      (@Step.move _ _ _ 0 _ rfl rfl)
  refine ⟨_, _, hrun, by decide, ?_⟩
  intro before after hmem
  exact ((dispatches_numberedInCommitOrder hrun).1 1 refused (.internal "queue full") rfl
    before after hmem).1

end Mistlib.Overlay
