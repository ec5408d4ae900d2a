import Mistlib.Async.Calls
import Mistlib.Async.Reactive
import Mistlib.Transport.ByteBudget
import Mistlib.Transport.SendPath

/-!
# The send queue of a peer

Frames for a peer are admitted to a bounded queue, and one task, the drainer, moves them through
its lane queue to at most two writers: one for the frames that keep their order, one for the
independent ones. A writer waits for a data channel to open, writes, and repeats on the reliable
channel what the optional one has not taken. The task polls the cancel token, then its writers,
then the queue.

The data channels arrive, open and close at any time, and a write comes out in any way. Writers
move while the task is in its `select`. A frame carries its number from the lane queue on.
Counters and permits that go with a frame decide nothing here.
-/

open Reactive

namespace Mistlib.Transport.SendQueue

abbrev ChannelId := Nat

def PEER_SEND_QUEUE_CAPACITY : Nat := 256

/-- One not-yet-sent message, and whether somebody waits for its completion. -/
structure QueuedSend (wire : Wire) where
  data : Bytes
  method : DeliveryMethod
  completion : Bool
deriving DecidableEq, Repr

instance (wire : Wire) : ScheduledSend (QueuedSend wire) where
  sendClass queued := SendClass.fromWire wire queued.data
  reliableUnordered queued := decide (queued.method = .reliableUnordered)

inductive ReadyState where
  | unspecified
  | connecting
  | open_
  | closing
  | closed
deriving DecidableEq, Repr

structure Channels where
  channels : DeliveryMethod → Option ChannelId
  unorderedChannel : Option ChannelId
  readyState : ChannelId → ReadyState

/-- What a writer does next. `again` says that the optional channel has not taken
the frame; `on` is the method whose channel is written to, if it is not the
optional one. -/
inductive Stage where
  | looking (again : Bool)
  | sleeping (again : Bool)
  /-- It waits until pacing lets the frame pass. -/
  | pacing (again : Bool) (channel : ChannelId) (on : Option DeliveryMethod)
  | sending (again : Bool) (channel : ChannelId) (on : Option DeliveryMethod)
  | ended
deriving DecidableEq, Repr

structure Write (wire : Wire) where
  frame : Numbered (QueuedSend wire)
  bulk : Bool
  stage : Stage
deriving DecidableEq, Repr

inductive Event where
  | goesOn
  | submits
  | sent
  | failed (error : MistError)
  | uncommitted (error : MistError)
  | cancelled
deriving DecidableEq, Repr

/-- What a writer reports of its frame. -/
inductive Report where
  | sent
  | writeFailed (error : MistError)
  /-- There is no channel for the frame. -/
  | unavailable
  /-- There is no reliable channel to repeat the frame on. -/
  | closed
deriving DecidableEq, Repr

/-- A frame that was given to a data channel. -/
structure Handed (wire : Wire) where
  frame : Numbered (QueuedSend wire)
  channel : ChannelId
  on : Option DeliveryMethod
deriving DecidableEq, Repr

/-- A completed frame, and whether the peer was cancelled by then. -/
structure Completed (wire : Wire) where
  frame : Numbered (QueuedSend wire)
  report : Report
  cancelled : Bool
deriving DecidableEq, Repr

inductive Loop where
  | top
  | filling
  | popping
  | selecting
  | broken
deriving DecidableEq, Repr

/-- The drainer, with what went in at the start. -/
structure Drainer (wire : Wire) where
  admitted : List (QueuedSend wire)
  ingress : List (QueuedSend wire)
  /-- No sender is left. -/
  closed : Bool
  cancelled : Bool
  channels : Channels
  loop : Loop
  receiving : Bool
  orderedBusy : Bool
  bulkBusy : Bool
  pending : History (QueuedSend wire)
  writes : List (Write wire)
  handed : List (Handed wire)
  /-- The frames that the optional channel has not taken. -/
  uncommitted : List (Numbered (QueuedSend wire))
  completed : List (Completed wire)

structure Setting where
  priority : Bool
  pacing : Bool

inductive Input (wire : Wire) where
  | enqueue (queued : QueuedSend wire)
  | close
  | channels (channels : Channels)
  | cancel
  /-- The task goes on outside its `select`. -/
  | turn
  | stop
  | reap (i : Nat)
  | receive
  | write (i : Nat) (event : Event)

variable {wire : Wire} (setting : Setting)

/-- The channel that a frame of the method goes to, and the method it is of; the
optional one counts while it is open. -/
def Channels.select (c : Channels) (method : DeliveryMethod) : Option (ChannelId × Option DeliveryMethod) :=
  if method = .reliableUnordered then
    ((c.unorderedChannel.filter fun dc => decide (c.readyState dc = .open_)).map (·, none)).or
      ((c.channels .reliableOrdered).map (·, some .reliableOrdered))
  else (c.channels method).map (·, some method)

inductive Turned where
  | goes (stage : Stage)
  | hands (channel : ChannelId) (on : Option DeliveryMethod)
  /-- The optional channel has not taken the frame. -/
  | leaves
  | reports (report : Report)
deriving DecidableEq, Repr

def leave (again : Bool) (on : Option DeliveryMethod) (error : MistError) : Turned :=
  if again = false ∧ on = none then .leaves else .reports (.writeFailed error)

def Write.turn (w : Write wire) (c : Channels) (cancelled : Bool) (event : Event) : Option Turned :=
  match w.stage, event with
  | .looking false, .goesOn =>
    match c.select w.frame.frame.method with
    | none => some (.reports .unavailable)
    | some (dc, on) => some (if c.readyState dc = .open_ then .hands dc on else .goes (.sleeping false))
  | .looking true, .goesOn =>
    match c.channels .reliableOrdered with
    | none => some (.reports .closed)
    | some dc =>
      some (if c.readyState dc = .open_ then .hands dc (some .reliableOrdered)
        else if c.readyState dc = .closed then .reports .closed
        else .goes (.sleeping true))
  | .sleeping again, .goesOn => some (.goes (.looking again))
  | .sleeping again, .cancelled =>
    if cancelled then some (.reports (if again then .closed else .unavailable)) else none
  | .pacing again dc on, .goesOn =>
    some (if c.readyState dc = .open_ then .goes (.pacing again dc on) else leave again on closedSend)
  | .pacing again dc on, .submits =>
    some (if c.readyState dc = .open_ then .goes (.sending again dc on) else leave again on closedSend)
  | .pacing again _ on, .cancelled => if cancelled then some (leave again on closedSend) else none
  | .sending _ _ _, .sent => some (.reports .sent)
  | .sending _ _ _, .failed error => some (.reports (.writeFailed error))
  | .sending again _ on, .uncommitted error => some (leave again on error)
  | .sending _ _ _, .cancelled =>
    if cancelled then some (.reports (.writeFailed closedSend)) else none
  | _, _ => none

namespace Write

/-- Whether the frame is paced: its bytes say that it is bulk. -/
def paced (w : Write wire) : Bool :=
  setting.pacing && decide ((SendClass.fromWire wire w.frame.frame.data).lane = .bulk)

def again (w : Write wire) : Bool :=
  match w.stage with
  | .looking again | .sleeping again | .pacing again _ _ | .sending again _ _ => again
  | .ended => false

def at_ (w : Write wire) (stage : Stage) : Write wire := { w with stage }

def begin (w : Write wire) (channel : ChannelId) (on : Option DeliveryMethod) : Write wire :=
  w.at_ (if w.paced setting then .pacing w.again channel on else .sending w.again channel on)

def active (w : Write wire) : Bool := decide (w.stage ≠ .ended)

end Write

namespace Drainer

def new (channels : Channels) : Drainer wire where
  admitted := []
  ingress := []
  closed := false
  cancelled := false
  channels := channels
  loop := .top
  receiving := true
  orderedBusy := false
  bulkBusy := false
  pending := .new _ setting.priority
  writes := []
  handed := []
  uncommitted := []
  completed := []

def ahead (d : Drainer wire) : Nat := d.pending.queue.frames.length

/-- A frame of the queue goes to the lane queue. -/
def takeIn (d : Drainer wire) (queued : QueuedSend wire) (rest : List (QueuedSend wire)) (loop : Loop) :
    Drainer wire :=
  { d with ingress := rest, pending := d.pending.step (.pushBack queued), loop }

def start (d : Drainer wire) (frame : Numbered (QueuedSend wire)) (bulk : Bool) : Drainer wire :=
  { d with
    pending := d.pending.step (.pop (!d.orderedBusy) (!d.bulkBusy))
    orderedBusy := d.orderedBusy || !bulk
    bulkBusy := d.bulkBusy || bulk
    writes := d.writes ++ [⟨frame, bulk, .looking false⟩] }

/-- A writer's poll, applied to the writer `w` in place `i`. -/
def apply (d : Drainer wire) (i : Nat) (w : Write wire) : Turned → Drainer wire
  | .goes stage => { d with writes := d.writes.set i (w.at_ stage) }
  | .hands channel on =>
    { d with
      handed := d.handed ++ [⟨w.frame, channel, on⟩]
      writes := d.writes.set i (w.begin setting channel on) }
  | .leaves =>
    { d with uncommitted := w.frame :: d.uncommitted, writes := d.writes.set i (w.at_ (.looking true)) }
  | .reports report =>
    { d with
      completed := ⟨w.frame, report, d.cancelled⟩ :: d.completed
      writes := d.writes.set i (w.at_ .ended) }

/-- The task's turn outside its `select`. -/
def turn (d : Drainer wire) : Option (Drainer wire) :=
  match d.loop with
  | .top =>
    some { d with
      loop := if d.receiving = false ∧ d.writes = [] ∧ d.pending.queue.frames = [] then .broken else .filling }
  | .filling =>
    if (setting.priority = true ∨ d.bulkBusy = true) ∧ d.ahead < PEER_SEND_QUEUE_CAPACITY then
      match d.ingress with
      | queued :: rest => some (d.takeIn queued rest .filling)
      | [] => some { d with loop := .popping }
    else some { d with loop := .popping }
  | .popping =>
    match (d.pending.queue.pop (!d.orderedBusy) (!d.bulkBusy)).1 with
    | some (frame, bulk) => some (d.start frame bulk)
    | none => some { d with loop := .selecting }
  | _ => none

/-- Whether the `select` looks at the queue. -/
def receives (d : Drainer wire) : Bool :=
  d.receiving &&
    if setting.priority ∨ d.bulkBusy then decide (d.ahead < PEER_SEND_QUEUE_CAPACITY)
    else decide (d.pending.queue.frames = [] ∧ d.writes = [])

def step (d : Drainer wire) : Input wire → Option (Drainer wire)
  | .enqueue queued =>
    if d.closed = true ∨ d.loop = .broken ∨ PEER_SEND_QUEUE_CAPACITY ≤ d.ingress.length then none
    else some { d with admitted := d.admitted ++ [queued], ingress := d.ingress ++ [queued] }
  | .close => some { d with closed := true }
  | .channels channels => some { d with channels }
  | .cancel => some { d with cancelled := true }
  | .turn => d.turn setting
  | .stop => if d.loop = .selecting ∧ d.cancelled = true then some { d with loop := .broken } else none
  | .reap i =>
    d.writes[i]?.bind fun w =>
      if d.loop = .selecting ∧ w.active = false then
        some { d with
          orderedBusy := d.orderedBusy && w.bulk
          bulkBusy := d.bulkBusy && !w.bulk
          writes := d.writes.eraseIdx i
          loop := .top }
      else none
  | .receive =>
    -- `select` is biased: a writer that has ended is seen first
    if d.loop = .selecting ∧ (d.writes.all (·.active)) = true ∧ d.receives setting = true then
      match d.ingress with
      | queued :: rest => some (d.takeIn queued rest .top)
      | [] =>
        if d.closed = false then none
        else if d.writes = [] ∧ d.pending.queue.frames = [] then some { d with loop := .broken }
        else some { d with receiving := false, loop := .top }
    else none
  | .write i event =>
    if d.loop = .selecting then
      d.writes[i]?.bind fun w =>
        (w.turn d.channels d.cancelled event).map fun turned => d.apply setting i w turned
    else none

end Drainer

/-! ## What the queue promises -/

section Promises

def keepsOrder (frame : Numbered (QueuedSend wire)) : Bool := !independent setting.priority frame

namespace Drainer

variable (d : Drainer wire)

/-- The channels that the frame was given to. -/
def handedOut (frame : Numbered (QueuedSend wire)) : List (Handed wire) :=
  d.handed.filter fun h => decide (h.frame = frame)

/-- The optional channel has not taken the frame, and it was written once more, on
the reliable channel. -/
def Repeated (frame : Numbered (QueuedSend wire)) : Prop :=
  frame ∈ d.uncommitted ∧ ∃ first second,
    d.handedOut frame = [⟨frame, first, none⟩, ⟨frame, second, some .reliableOrdered⟩]

def inHand : List (Numbered (QueuedSend wire)) := (d.writes.filter (·.active)).map (·.frame)

/-- The drainer keeps order and loses nothing. -/
structure Delivers : Prop where
  /-- Frames are numbered in the order of their admission. -/
  admitted : d.pending.pushed.map Numbered.frame ++ d.ingress = d.admitted
  inOrder : ((d.handed.map (·.frame)).filter (keepsOrder setting)).Pairwise (·.number < ·.number)
  writers : ∀ b, d.writes.countP (fun w => decide (independent setting.priority w.frame = b)) ≤ 1
  written : ∀ frame, (d.handedOut frame).length ≤ 1 ∨ d.Repeated frame
  completed : (d.completed.map (·.frame) ++ d.inHand).Perm (d.pending.popped.map Prod.fst)
  once : (d.completed.map (·.frame)).Nodup
  ahead : d.ahead ≤ PEER_SEND_QUEUE_CAPACITY
  /-- Until the peer is cancelled, a frame fails only with its write, and one that
  the optional channel has not taken is repeated. -/
  failures : ∀ done ∈ d.completed, done.cancelled = false →
    (done.report = .sent ∨ ∃ error, done.report = .writeFailed error) ∧ d.handedOut done.frame ≠ [] ∧
      (done.frame ∈ d.uncommitted → d.Repeated done.frame)
  /-- A task that ends by itself has nothing left. -/
  finished : d.loop = .broken → d.cancelled = false →
    d.ingress = [] ∧ (d.completed.map fun done => done.frame.frame).Perm d.admitted

/-- Until the peer is cancelled, a writer that looks for its channel finds one
registered, and one that repeats its frame finds the reliable channel not closed. -/
def Registered (d : Drainer wire) : Input wire → Prop
  | .write i .goesOn => ∀ w ∈ d.writes[i]?, d.cancelled = false →
    (w.stage = .looking false → (d.channels.select w.frame.frame.method).isSome = true) ∧
      (w.stage = .looking true →
        ∃ dc ∈ d.channels.channels .reliableOrdered, d.channels.readyState dc ≠ .closed)
  | _ => True

end Drainer

end Promises

/-! ## The frames that writers have in hand -/

namespace Drainer

variable (d : Drainer wire)

/-- What was done with the frame before this stage of its writer. -/
def Tried (frame : Numbered (QueuedSend wire)) : Stage → Prop
  | .looking false | .sleeping false => d.handedOut frame = [] ∧ frame ∉ d.uncommitted
  | .looking true
  | .sleeping true => frame ∈ d.uncommitted ∧ ∃ first, d.handedOut frame = [⟨frame, first, none⟩]
  | .pacing false channel on
  | .sending false channel on => d.handedOut frame = [⟨frame, channel, on⟩] ∧ frame ∉ d.uncommitted
  | .pacing true _ _ | .sending true _ _ => d.Repeated frame
  | .ended => True

/-- What was done with a completed frame. -/
def Settled (done : Completed wire) : Prop :=
  match done.report with
  | .unavailable => done.cancelled = true ∧ d.handedOut done.frame = [] ∧ done.frame ∉ d.uncommitted
  | .closed => done.cancelled = true ∧ (d.handedOut done.frame).length = 1
  | _ => ((d.handedOut done.frame).length = 1 ∧ done.frame ∉ d.uncommitted) ∨ d.Repeated done.frame

/-- The writers and what they have done. -/
structure Sound : Prop where
  faithful : d.pending.Faithful setting.priority
  admitted : d.pending.pushed.map Numbered.frame ++ d.ingress = d.admitted
  busy : d.writes.countP (fun w => !w.bulk) = (if d.orderedBusy then 1 else 0) ∧
    d.writes.countP (·.bulk) = if d.bulkBusy then 1 else 0
  flags : ∀ w ∈ d.writes, w.bulk = independent setting.priority w.frame
  conserved : (d.completed.map (·.frame) ++ d.inHand).Perm (d.pending.popped.map Prod.fst)
  tried : ∀ w ∈ d.writes, d.Tried w.frame w.stage
  settled : ∀ done ∈ d.completed, d.Settled done
  handed : ∀ h ∈ d.handed, h.frame ∈ d.pending.popped.map Prod.fst ∧
    (h.on = none → independent setting.priority h.frame = true)
  uncommitted : ∀ frame ∈ d.uncommitted, frame ∈ d.pending.popped.map Prod.fst
  inOrder : ((d.handed.map (·.frame)).filter (keepsOrder setting)).Pairwise (·.number < ·.number)
  /-- What keeps its order and was not handed out yet comes after all that were. -/
  next : ∀ w ∈ d.writes, keepsOrder setting w.frame = true → d.handedOut w.frame = [] → w.active = true →
    ∀ h ∈ d.handed, keepsOrder setting h.frame = true → h.frame.number < w.frame.number
  ahead : d.ahead ≤ PEER_SEND_QUEUE_CAPACITY
  closing : d.receiving = false → d.closed = true ∧ d.ingress = []
  ending : d.loop = .broken → d.cancelled = true ∨
    d.ingress = [] ∧ d.writes = [] ∧ d.pending.queue.frames = []

end Drainer

/-! ## What a writer's step does -/

section Writers

variable {setting} {w : Write wire} {c : Channels} {cancelled : Bool} {event : Event} {turned : Turned}

/-- What a writer's poll makes of its frame, and where it may. -/
inductive Write.Turns (w : Write wire) (c : Channels) (cancelled : Bool) (event : Event) : Turned → Prop where
  | goes (stage : Stage) : w.active = true → stage ≠ .ended →
      (∀ d : Drainer wire, d.Tried w.frame w.stage → d.Tried w.frame stage) →
      Turns w c cancelled event (.goes stage)
  | hands (again : Bool) (dc : ChannelId) (on : Option DeliveryMethod) : w.stage = .looking again →
      (again = true → on = some .reliableOrdered) → (on = none → w.frame.frame.method = .reliableUnordered) →
      Turns w c cancelled event (.hands dc on)
  | leaves (dc : ChannelId) : w.stage = .pacing false dc none ∨ w.stage = .sending false dc none →
      Turns w c cancelled event .leaves
  | written (report : Report) (again : Bool) (dc : ChannelId) (on : Option DeliveryMethod) :
      w.stage = .pacing again dc on ∨ w.stage = .sending again dc on →
      report = .sent ∨ (∃ error, report = .writeFailed error) → Turns w c cancelled event (.reports report)
  | lacks : event = .goesOn → w.stage = .looking false → c.select w.frame.frame.method = none →
      Turns w c cancelled event (.reports .unavailable)
  | gone : event = .goesOn → w.stage = .looking true →
      (∀ dc ∈ c.channels .reliableOrdered, c.readyState dc = .closed) →
      Turns w c cancelled event (.reports .closed)
  | stopped (again : Bool) : w.stage = .sleeping again → cancelled = true →
      Turns w c cancelled event (.reports (if again then .closed else .unavailable))

theorem active_of_stage {stage : Stage} (h : w.stage = stage) (hne : stage ≠ .ended) : w.active = true :=
  decide_eq_true (h ▸ hne)

theorem turns_leave {again : Bool} {dc : ChannelId} {on : Option DeliveryMethod} {error : MistError}
    (hstage : w.stage = .pacing again dc on ∨ w.stage = .sending again dc on) :
    w.Turns c cancelled event (leave again on error) := by
  unfold leave
  split
  · next hleaves =>
    obtain ⟨rfl, rfl⟩ := hleaves
    exact .leaves dc hstage
  · exact .written _ again dc on hstage (.inr ⟨error, rfl⟩)

theorem select_optional {method : DeliveryMethod} {dc : ChannelId} (h : c.select method = some (dc, none)) :
    method = .reliableUnordered := by
  unfold Channels.select at h
  split at h
  · next hmethod => exact hmethod
  · obtain ⟨_, _, hpair⟩ := Option.map_eq_some_iff.mp h
    cases hpair

theorem turn_turns (h : w.turn c cancelled event = some turned) : w.Turns c cancelled event turned := by
  unfold Write.turn at h
  split at h
  · next hstage =>
    split at h
    · next hnone =>
      cases h
      exact .lacks rfl hstage hnone
    · next dc on hselect =>
      cases h
      split
      · refine .hands false dc on hstage nofun ?_
        rintro rfl
        exact select_optional hselect
      · exact .goes _ (active_of_stage hstage nofun) nofun fun d htried => by
          rw [hstage] at htried
          exact htried
  · next hstage =>
    split at h
    · next hnone =>
      cases h
      exact .gone rfl hstage (by rw [hnone]; nofun)
    · next dc hdc =>
      cases h
      split
      · exact .hands true dc _ hstage (fun _ => rfl) nofun
      · split
        · next hclosed =>
          refine .gone rfl hstage ?_
          rw [hdc]
          rintro _ ⟨⟩
          exact hclosed
        · exact .goes _ (active_of_stage hstage nofun) nofun fun d htried => by
            rw [hstage] at htried
            exact htried
  · next again hstage =>
    cases h
    exact .goes _ (active_of_stage hstage nofun) nofun fun d htried => by
      rw [hstage] at htried
      cases again <;> exact htried
  · next again hstage =>
    obtain ⟨hcancelled, h⟩ := Option.ite_none_right_eq_some.mp h
    cases h
    exact .stopped again hstage hcancelled
  · next again dc on hstage =>
    cases h
    split
    · exact .goes _ (active_of_stage hstage nofun) nofun fun d htried => by
        rw [hstage] at htried
        exact htried
    · exact turns_leave (.inl hstage)
  · next again dc on hstage =>
    cases h
    split
    · exact .goes _ (active_of_stage hstage nofun) nofun fun d htried => by
        rw [hstage] at htried
        cases again <;> exact htried
    · exact turns_leave (.inl hstage)
  · next again dc on hstage =>
    obtain ⟨-, h⟩ := Option.ite_none_right_eq_some.mp h
    cases h
    exact turns_leave (.inl hstage)
  · next again dc on hstage =>
    cases h
    exact .written _ again dc on (.inr hstage) (.inl rfl)
  · next again dc on error hstage =>
    cases h
    exact .written _ again dc on (.inr hstage) (.inr ⟨error, rfl⟩)
  · next again dc on error hstage =>
    cases h
    exact turns_leave (.inr hstage)
  · next again dc on hstage =>
    obtain ⟨-, h⟩ := Option.ite_none_right_eq_some.mp h
    cases h
    exact .written _ again dc on (.inr hstage) (.inr ⟨_, rfl⟩)
  · cases h

end Writers

/-! ## Steps -/

namespace Drainer

section Frames

variable {setting} {d d' : Drainer wire} {frame : Numbered (QueuedSend wire)} {w w' : Write wire}
  {before after : List (Write wire)} {stage : Stage}

structure Same (d d' : Drainer wire) (frame : Numbered (QueuedSend wire)) : Prop where
  handedOut : d'.handedOut frame = d.handedOut frame
  uncommitted : frame ∈ d'.uncommitted ↔ frame ∈ d.uncommitted

theorem Same.repeated (h : Same d d' frame) : d'.Repeated frame ↔ d.Repeated frame := by
  rw [Repeated, Repeated, h.handedOut, h.uncommitted]

theorem Same.tried (h : Same d d' frame) (htried : d.Tried frame stage) : d'.Tried frame stage := by
  cases stage with
  | looking again | sleeping again =>
    cases again <;> simpa only [Tried, h.handedOut, h.uncommitted] using htried
  | pacing again dc on | sending again dc on =>
    cases again
    · simpa only [Tried, h.handedOut, h.uncommitted] using htried
    · exact h.repeated.mpr htried
  | ended => trivial

theorem Same.settled {done : Completed wire} (h : Same d d' done.frame) (hsettled : d.Settled done) :
    d'.Settled done := by
  unfold Settled at hsettled ⊢
  split at hsettled <;> simpa only [h.handedOut, h.uncommitted, h.repeated] using hsettled

theorem Same.of_eq (hhanded : d'.handed = d.handed) (huncommitted : d'.uncommitted = d.uncommitted)
    (frame : Numbered (QueuedSend wire)) : Same d d' frame where
  handedOut := by
    show d'.handed.filter _ = _
    rw [hhanded]
    rfl
  uncommitted := by rw [huncommitted]

theorem inHand_of_writes (hwrites : d.writes = before ++ w :: after) : d.inHand =
    (before.filter (·.active)).map (·.frame) ++ ((if w.active then [w.frame] else []) ++
      (after.filter (·.active)).map (·.frame)) := by
  rw [inHand, hwrites, List.filter_append, List.map_append, List.filter_cons]
  split <;> rfl

theorem Sound.alone (h : d.Sound setting) (hwrites : d.writes = before ++ w :: after) (hactive : w.active = true) :
    (∀ other ∈ before ++ after, other.active = true → other.frame ≠ w.frame) ∧
      ∀ done ∈ d.completed, done.frame ≠ w.frame := by
  have hnodup := (h.conserved.nodup_iff).mpr h.faithful.once.1
  rw [inHand_of_writes hwrites, if_pos hactive] at hnodup
  obtain ⟨-, hhands, hdisjoint⟩ := List.nodup_append.mp hnodup
  obtain ⟨-, hafter, hbefore⟩ := List.nodup_append.mp hhands
  refine ⟨fun other hother hother' => ?_, fun done hdone hframe => ?_⟩
  · have hin : ∀ {writes : List (Write wire)}, other ∈ writes →
        other.frame ∈ (writes.filter (·.active)).map (·.frame) :=
      fun hmem => List.mem_map.mpr ⟨other, List.mem_filter.mpr ⟨hmem, hother'⟩, rfl⟩
    rcases List.mem_append.mp hother with hmem | hmem
    · exact hbefore _ (hin hmem) _ List.mem_cons_self
    · intro hframe
      exact (List.nodup_cons.mp hafter).1 (hframe ▸ hin hmem)
  · refine hdisjoint _ (List.mem_map.mpr ⟨done, hdone, rfl⟩) _ ?_ hframe
    exact List.mem_append_right _ List.mem_cons_self

theorem sorted_popped (hfaithful : d.pending.Faithful setting.priority) :
    ((d.pending.popped.map Prod.fst).filter (keepsOrder setting)).Pairwise (·.number < ·.number) := by
  have hprefix := hfaithful.inOrder false
  have hsame : (fun x : Numbered (QueuedSend wire) => decide (independent setting.priority x = false)) =
      keepsOrder setting := by
    funext x
    cases hx : independent setting.priority x <;> simp [keepsOrder, hx]
  rw [hsame] at hprefix
  exact (hfaithful.sorted.sublist List.filter_sublist).sublist hprefix.sublist

theorem Sound.others (h : d.Sound setting) (hwrites : d.writes = before ++ w :: after) :
    ∀ other ∈ before ++ after, other.bulk ≠ w.bulk := by
  intro other hother hsame
  have hcount : ∀ p : Write wire → Bool, p w = true → p other = true → d.writes.countP p ≤ 1 → False := by
    intro p hw hpother hle
    rw [hwrites, (List.perm_middle).countP_eq, List.countP_cons_of_pos hw] at hle
    have hpos : 0 < (before ++ after).countP p := List.countP_pos_iff.mpr ⟨other, hother, hpother⟩
    omega
  cases hbulk : w.bulk with
  | true =>
    refine hcount (·.bulk) hbulk (hsame.trans hbulk) ?_
    rw [h.busy.2]
    split <;> decide
  | false =>
    refine hcount (fun w => !w.bulk) (by rw [hbulk]; rfl) (by rw [hsame, hbulk]; rfl) ?_
    rw [h.busy.1]
    split <;> decide

theorem Sound.popped (h : d.Sound setting) (hwrites : d.writes = before ++ w :: after)
    (hactive : w.active = true) : w.frame ∈ d.pending.popped.map Prod.fst := by
  refine h.conserved.subset (List.mem_append_right _ ?_)
  rw [inHand_of_writes hwrites, if_pos hactive]
  exact List.mem_append_right _ List.mem_cons_self

end Frames

section Writer

variable {setting} {d : Drainer wire} {i : Nat} {w : Write wire}

/-- The writer `w` in place `i` does more with its frame. -/
structure Does (setting : Setting) (d : Drainer wire) (i : Nat) (w w' : Write wire) (more : List (Handed wire))
    (left : List (Numbered (QueuedSend wire))) (done : List (Completed wire)) (d' : Drainer wire) : Prop where
  result : d' = { d with
    handed := d.handed ++ more
    uncommitted := left ++ d.uncommitted
    completed := done ++ d.completed
    writes := d.writes.set i w' }
  found : d.writes[i]? = some w
  active : w.active = true
  frame : w'.frame = w.frame
  bulk : w'.bulk = w.bulk
  given : ∀ x ∈ more, x.frame = w.frame ∧ (x.on = none → independent setting.priority x.frame = true)
  first : keepsOrder setting w.frame = true → more ≠ [] → d.handedOut w.frame = [] ∧ more.length ≤ 1
  leaves : ∀ x ∈ left, x = w.frame
  reports : done.map (·.frame) = if w'.active then [] else [w.frame]
  tried : d'.Tried w.frame w'.stage
  settled : ∀ x ∈ done, d'.Settled x

variable {w' : Write wire} {more : List (Handed wire)} {left : List (Numbered (QueuedSend wire))}
  {done : List (Completed wire)} {d' : Drainer wire}

theorem Does.same (h : Does setting d i w w' more left done d') {frame : Numbered (QueuedSend wire)}
    (hne : frame ≠ w.frame) : Same d d' frame := by
  have hresult := h.result
  subst hresult
  refine ⟨?_, ?_⟩
  · show (d.handed ++ more).filter _ = _
    have hnone : more.filter (fun x => decide (x.frame = frame)) = [] := by
      refine List.filter_eq_nil_iff.mpr fun x hx hframe => ?_
      exact hne ((of_decide_eq_true hframe).symm.trans (h.given x hx).1)
    rw [List.filter_append, hnone, List.append_nil]
    rfl
  · show frame ∈ left ++ d.uncommitted ↔ _
    rw [List.mem_append]
    exact ⟨fun hmem => hmem.resolve_left fun hleft => hne (h.leaves frame hleft), .inr⟩

theorem perm_report {α : Type} (a : α) (l before after : List α) :
    (a :: (l ++ (before ++ after))).Perm (l ++ (before ++ a :: after)) := by
  rw [← List.append_assoc, ← List.append_assoc]
  exact (List.perm_middle).symm

theorem pairwise_of_length_le_one {α : Type} {R : α → α → Prop} {l : List α}
    (h : l ≠ [] → l.length ≤ 1) : l.Pairwise R := by
  cases l with
  | nil => exact .nil
  | cons a rest =>
    have hone := h (List.cons_ne_nil _ _)
    rw [List.length_cons] at hone
    obtain rfl : rest = [] := List.eq_nil_of_length_eq_zero (by omega)
    exact List.pairwise_singleton R a

/-- What a writer does with its frame keeps the books. -/
theorem Does.sound (h : Does setting d i w w' more left done d') (hsound : d.Sound setting) :
    d'.Sound setting := by
  obtain ⟨before, after, hwrites, hset, -⟩ := Calls.split h.found
  have hwrites' := hset w'
  obtain ⟨hothers, hcompleted⟩ := hsound.alone hwrites h.active
  have hpopped := hsound.popped hwrites h.active
  have hmem : w ∈ d.writes := List.mem_of_getElem? h.found
  have hsame := @h.same
  have htried := h.tried
  have hsettled := h.settled
  have hresult := h.result
  subst hresult
  -- the other writers, by whether they still have their frame
  have hold : ∀ other ∈ d.writes.set i w', other = w' ∨ other ∈ before ++ after := by
    intro other hother
    rw [hwrites'] at hother
    rcases List.mem_append.mp hother with hmem | hmem
    · exact .inr (List.mem_append_left _ hmem)
    · exact (List.mem_cons.mp hmem).imp id (List.mem_append_right _)
  have hin : ∀ other ∈ before ++ after, other ∈ d.writes := by
    intro other hother
    rw [hwrites]
    exact (List.perm_middle).symm.subset (List.mem_cons_of_mem _ hother)
  refine ⟨hsound.faithful, hsound.admitted, ⟨?_, ?_⟩, ?_, ?_, ?_, ?_, ?_, ?_, ?_, ?_, hsound.ahead,
    hsound.closing, ?_⟩
  · have hcount := Calls.countP_set h.found w' fun w => !w.bulk
    rw [h.bulk] at hcount
    exact (Nat.add_right_cancel hcount).trans hsound.busy.1
  · have hcount := Calls.countP_set h.found w' (·.bulk)
    rw [h.bulk] at hcount
    exact (Nat.add_right_cancel hcount).trans hsound.busy.2
  · refine Calls.forall_set hsound.flags ?_
    rw [h.bulk, h.frame]
    exact hsound.flags w hmem
  · refine .trans ?_ hsound.conserved
    rw [inHand_of_writes hwrites, inHand_of_writes hwrites', if_pos h.active, List.map_append, h.reports,
      h.frame]
    cases w'.active with
    | true => exact .refl _
    | false => exact perm_report ..
  · intro other hother
    obtain rfl | hother := hold other hother
    · rw [h.frame]
      exact htried
    · cases hactive : other.active with
      | true => exact (hsame (hothers other hother hactive)).tried (hsound.tried other (hin other hother))
      | false =>
        have hended : other.stage = .ended := not_not.mp (of_decide_eq_false hactive)
        rw [hended]
        trivial
  · intro x hx
    rcases List.mem_append.mp hx with hnew | hold
    · exact hsettled x hnew
    · exact (hsame (hcompleted x hold)).settled (hsound.settled x hold)
  · intro x hx
    rcases List.mem_append.mp hx with hold | hnew
    · exact hsound.handed x hold
    · exact ⟨(h.given x hnew).1 ▸ hpopped, (h.given x hnew).2⟩
  · intro frame hframe
    rcases List.mem_append.mp hframe with hleft | hold
    · exact h.leaves frame hleft ▸ hpopped
    · exact hsound.uncommitted frame hold
  · show (((d.handed ++ more).map (·.frame)).filter (keepsOrder setting)).Pairwise _
    rw [List.map_append, List.filter_append]
    have hfirst : ∀ x ∈ (more.map (·.frame)).filter (keepsOrder setting),
        x = w.frame ∧ d.handedOut w.frame = [] ∧ more.length ≤ 1 ∧ keepsOrder setting w.frame = true := by
      intro x hx
      obtain ⟨hx, hkeeps⟩ := List.mem_filter.mp hx
      obtain ⟨y, hy, rfl⟩ := List.mem_map.mp hx
      rw [(h.given y hy).1] at hkeeps ⊢
      obtain ⟨hnone, hlength⟩ := h.first hkeeps (List.ne_nil_of_mem hy)
      exact ⟨rfl, hnone, hlength, hkeeps⟩
    refine List.pairwise_append.mpr ⟨hsound.inOrder, ?_, ?_⟩
    · refine pairwise_of_length_le_one fun hne => ?_
      obtain ⟨x, hx⟩ := List.exists_mem_of_ne_nil _ hne
      refine Nat.le_trans (List.length_filter_le _ _) ?_
      rw [List.length_map]
      exact (hfirst x hx).2.2.1
    · intro x hx y hy
      obtain ⟨rfl, hnone, -, hkeeps⟩ := hfirst y hy
      obtain ⟨hx, hxkeeps⟩ := List.mem_filter.mp hx
      obtain ⟨z, hz, rfl⟩ := List.mem_map.mp hx
      exact hsound.next w hmem hkeeps hnone h.active z hz hxkeeps
  · intro other hother hkeeps hnone hactive x hx hxkeeps
    rcases List.mem_append.mp hx with hxold | hxnew
    · obtain rfl | hother := hold other hother
      · rw [h.frame] at hkeeps hnone ⊢
        refine hsound.next w hmem hkeeps ?_ h.active x hxold hxkeeps
        exact List.eq_nil_of_sublist_nil (hnone ▸ (List.sublist_append_left _ _).filter _)
      · refine hsound.next other (hin other hother) hkeeps ?_ hactive x hxold hxkeeps
        rw [← (hsame (hothers other hother hactive)).handedOut]
        exact hnone
    · -- the writer that hands out a frame that keeps its order is the only one that has such a frame
      obtain ⟨hframe, -⟩ := h.given x hxnew
      rw [hframe] at hxkeeps
      obtain rfl | hother := hold other hother
      · have hgiven : x ∈ handedOut { d with handed := d.handed ++ more } other.frame :=
          List.mem_filter.mpr ⟨List.mem_append_right _ hxnew, decide_eq_true (hframe.trans h.frame.symm)⟩
        have hempty : handedOut { d with handed := d.handed ++ more } other.frame = [] := hnone
        rw [hempty] at hgiven
        cases hgiven
      · refine absurd ?_ (hsound.others hwrites other hother)
        rw [hsound.flags other (hin other hother), hsound.flags w hmem]
        rw [keepsOrder, Bool.not_eq_true'] at hkeeps hxkeeps
        rw [hkeeps, hxkeeps]
  · intro hbroken
    refine (hsound.ending hbroken).imp_right fun hnothing => ?_
    rw [hnothing.2.1] at hmem
    cases hmem

theorem handedOut_append (x : Handed wire) (h : d'.handed = d.handed ++ [x]) :
    d'.handedOut x.frame = d.handedOut x.frame ++ [x] := by
  have hone : [x].filter (fun y => decide (y.frame = x.frame)) = [x] :=
    List.filter_eq_self.mpr fun y hy => decide_eq_true (by rw [List.mem_singleton.mp hy])
  rw [handedOut, h, List.filter_append, hone]
  rfl

section

variable (h : d.Sound setting) (hi : d.writes[i]? = some w)
include h hi

theorem Sound.goes {stage : Stage} (hactive : w.active = true) (hstage : stage ≠ .ended)
    (htried : d.Tried w.frame stage) : (d.apply setting i w (.goes stage)).Sound setting := by
  have hsame : Same d (d.apply setting i w (.goes stage)) w.frame := Same.of_eq (by rfl) (by rfl) _
  have hdoes : Does setting d i w (w.at_ stage) [] [] [] (d.apply setting i w (.goes stage)) := by
    refine ⟨?_, hi, hactive, rfl, rfl, List.forall_mem_nil _, fun _ hne => absurd rfl hne, List.forall_mem_nil _,
      ?_, hsame.tried htried, List.forall_mem_nil _⟩
    · rw [List.append_nil]
      rfl
    · rw [if_pos (active_of_stage rfl hstage)]
      rfl
  exact hdoes.sound h

theorem Sound.hands {again : Bool} {dc : ChannelId} {on : Option DeliveryMethod}
    (hstage : w.stage = .looking again) (hagain : again = true → on = some .reliableOrdered)
    (honly : on = none → w.frame.frame.method = .reliableUnordered) :
    (d.apply setting i w (.hands dc on)).Sound setting := by
  have htried := h.tried w (List.mem_of_getElem? hi)
  rw [hstage] at htried
  have hgrown : (d.apply setting i w (.hands dc on)).handedOut w.frame =
      d.handedOut w.frame ++ [⟨w.frame, dc, on⟩] := handedOut_append ⟨w.frame, dc, on⟩ rfl
  have hbegun : (w.begin setting dc on).stage = .pacing again dc on ∨
      (w.begin setting dc on).stage = .sending again dc on := by
    have hown : w.again = again := by rw [Write.again, hstage]
    rw [Write.begin, hown]
    exact (ite_eq_or_eq ..).imp (by rintro h; rw [h]; rfl) (by rintro h; rw [h]; rfl)
  have hdoes : Does setting d i w (w.begin setting dc on) [⟨w.frame, dc, on⟩] [] []
      (d.apply setting i w (.hands dc on)) := by
    refine ⟨rfl, hi, active_of_stage hstage (by simp), rfl, rfl, ?_, ?_, List.forall_mem_nil _, ?_, ?_,
      List.forall_mem_nil _⟩
    · intro x hx
      obtain rfl := List.mem_singleton.mp hx
      refine ⟨rfl, fun hnone => ?_⟩
      have hmethod := honly hnone
      rw [independent]
      exact Bool.or_eq_true_iff.mpr (.inl (decide_eq_true hmethod))
    · intro hkeeps _
      refine ⟨?_, le_rfl⟩
      cases again with
      | false => exact htried.1
      | true =>
        -- a frame that is repeated went to the optional channel, and is independent
        obtain ⟨-, first, hfirst⟩ := htried
        have hgiven : ⟨w.frame, first, none⟩ ∈ d.handed :=
          List.mem_of_mem_filter (hfirst ▸ List.mem_singleton_self _)
        have hindependent := (h.handed _ hgiven).2 rfl
        rw [keepsOrder, hindependent] at hkeeps
        cases hkeeps
    · rcases hbegun with hbegun | hbegun
      all_goals
        rw [if_pos (active_of_stage hbegun (by simp))]
        rfl
    · have hnext : (d.apply setting i w (.hands dc on)).Tried w.frame (.pacing again dc on) := by
        cases again with
        | false =>
          refine ⟨?_, htried.2⟩
          rw [hgrown, htried.1]
          rfl
        | true =>
          obtain ⟨hleft, first, hfirst⟩ := htried
          obtain rfl := hagain rfl
          refine ⟨hleft, first, dc, ?_⟩
          rw [hgrown, hfirst]
          rfl
      rcases hbegun with hbegun | hbegun
      · rw [hbegun]
        exact hnext
      · rw [hbegun]
        cases again <;> exact hnext
  exact hdoes.sound h

theorem Sound.leaves {dc : ChannelId}
    (hstage : w.stage = .pacing false dc none ∨ w.stage = .sending false dc none) :
    (d.apply setting i w .leaves).Sound setting := by
  have htried : d.Tried w.frame (.pacing false dc none) := by
    have hbefore := h.tried w (List.mem_of_getElem? hi)
    rcases hstage with hstage | hstage
    · rwa [hstage] at hbefore
    · rwa [hstage] at hbefore
  have hactive : w.active = true := hstage.elim (active_of_stage · nofun) (active_of_stage · nofun)
  have hdoes : Does setting d i w (w.at_ (.looking true)) [] [w.frame] [] (d.apply setting i w .leaves) := by
    refine ⟨?_, hi, hactive, rfl, rfl, List.forall_mem_nil _, fun _ hne => absurd rfl hne, ?_, rfl, ?_,
      List.forall_mem_nil _⟩
    · rw [List.append_nil]
      rfl
    · exact fun x hx => List.mem_singleton.mp hx
    · exact ⟨List.mem_cons_self, dc, htried.1⟩
  exact hdoes.sound h

theorem Sound.reports (hactive : w.active = true) {report : Report}
    (hsettled : d.Settled ⟨w.frame, report, d.cancelled⟩) :
    (d.apply setting i w (.reports report)).Sound setting := by
  have hsame : Same d (d.apply setting i w (.reports report)) w.frame := Same.of_eq (by rfl) (by rfl) _
  have hdoes : Does setting d i w (w.at_ .ended) [] [] [⟨w.frame, report, d.cancelled⟩]
      (d.apply setting i w (.reports report)) := by
    refine ⟨?_, hi, hactive, rfl, rfl, List.forall_mem_nil _, fun _ hne => absurd rfl hne, List.forall_mem_nil _,
      rfl, trivial, ?_⟩
    · rw [List.append_nil]
      rfl
    · intro x hx
      obtain rfl := List.mem_singleton.mp hx
      exact Same.settled hsame hsettled
  exact hdoes.sound h

theorem Sound.write {event : Event} (hregistered : d.Registered (.write i event)) {turned : Turned}
    (hturn : w.turn d.channels d.cancelled event = some turned) :
    (d.apply setting i w turned).Sound setting := by
  have htried := h.tried w (List.mem_of_getElem? hi)
  cases turn_turns hturn with
  | goes stage hactive hstage hgoes => exact h.goes hi hactive hstage (hgoes d htried)
  | hands again dc on hstage hagain honly => exact h.hands hi hstage hagain honly
  | leaves dc hstage => exact h.leaves hi hstage
  | written report again dc on hstage hreport =>
    have hactive : w.active = true := hstage.elim (active_of_stage · nofun) (active_of_stage · nofun)
    refine h.reports hi hactive ?_
    have hdone : ((d.handedOut w.frame).length = 1 ∧ w.frame ∉ d.uncommitted) ∨ d.Repeated w.frame := by
      have hbefore : d.Tried w.frame (.pacing again dc on) := by
        rcases hstage with hstage | hstage
        · rwa [hstage] at htried
        · rw [hstage] at htried
          cases again <;> exact htried
      cases again with
      | false => exact .inl ⟨by rw [hbefore.1]; rfl, hbefore.2⟩
      | true => exact .inr hbefore
    rcases hreport with rfl | ⟨error, rfl⟩ <;> exact hdone
  | lacks hevent hstage hnone =>
    refine h.reports hi (active_of_stage hstage nofun) ?_
    rw [hstage] at htried
    refine ⟨?_, htried⟩
    by_contra hcancelled
    subst hevent
    have hsome := (hregistered w hi (Bool.eq_false_iff.mpr hcancelled)).1 hstage
    rw [hnone] at hsome
    cases hsome
  | gone hevent hstage hclosed =>
    refine h.reports hi (active_of_stage hstage nofun) ?_
    rw [hstage] at htried
    obtain ⟨-, first, hfirst⟩ := htried
    refine ⟨?_, by rw [hfirst]; rfl⟩
    by_contra hcancelled
    subst hevent
    obtain ⟨dc, hdc, hready⟩ := (hregistered w hi (Bool.eq_false_iff.mpr hcancelled)).2 hstage
    exact hready (hclosed dc hdc)
  | stopped again hstage hcancelled =>
    refine h.reports hi (active_of_stage hstage nofun) ?_
    rw [hstage] at htried
    cases again with
    | false => exact ⟨hcancelled, htried⟩
    | true =>
      obtain ⟨-, first, hfirst⟩ := htried
      exact ⟨hcancelled, by rw [hfirst]; rfl⟩

end

end Writer

section Task

variable {setting} {d d' : Drainer wire} {w : Write wire} {loop : Loop}

theorem Sound.new (channels : Channels) : (Drainer.new setting channels : Drainer wire).Sound setting where
  faithful := .new _
  admitted := rfl
  busy := ⟨rfl, rfl⟩
  flags := List.forall_mem_nil _
  conserved := .refl _
  tried := List.forall_mem_nil _
  settled := List.forall_mem_nil _
  handed := List.forall_mem_nil _
  uncommitted := List.forall_mem_nil _
  inOrder := .nil
  next := List.forall_mem_nil _
  ahead := Nat.zero_le _
  closing := nofun
  ending := nofun

section

variable (h : d.Sound setting)
include h

theorem Sound.calm {closed cancelled receiving : Bool} {channels : Channels}
    (hclosing : receiving = false → closed = true ∧ d.ingress = [])
    (hending : loop = .broken → cancelled = true ∨ d.ingress = [] ∧ d.writes = [] ∧
      d.pending.queue.frames = []) :
    ({ d with closed, cancelled, receiving, channels, loop } : Drainer wire).Sound setting :=
  ⟨h.faithful, h.admitted, h.busy, h.flags, h.conserved, h.tried, h.settled, h.handed, h.uncommitted,
    h.inOrder, h.next, h.ahead, hclosing, hending⟩

theorem Sound.enqueue (queued : QueuedSend wire) (hopen : ¬ d.closed = true)
    (hgoing : d.loop ≠ .broken) :
    ({ d with admitted := d.admitted ++ [queued], ingress := d.ingress ++ [queued] } :
      Drainer wire).Sound setting :=
  ⟨h.faithful, by rw [← List.append_assoc, h.admitted], h.busy, h.flags, h.conserved, h.tried, h.settled,
    h.handed, h.uncommitted, h.inOrder, h.next, h.ahead, fun hdone => absurd (h.closing hdone).1 hopen,
    fun hbroken => absurd hbroken hgoing⟩

theorem Sound.takeIn {queued : QueuedSend wire} {rest : List (QueuedSend wire)}
    (hingress : d.ingress = queued :: rest) (hroom : d.ahead < PEER_SEND_QUEUE_CAPACITY)
    (hgoing : loop ≠ .broken) : (d.takeIn queued rest loop).Sound setting where
  faithful := h.faithful.pushBack queued
  admitted := by
    show (d.pending.pushed ++ [_]).map Numbered.frame ++ rest = d.admitted
    rw [List.map_append, List.append_assoc, ← h.admitted, hingress]
    rfl
  busy := h.busy
  flags := h.flags
  conserved := h.conserved
  tried := h.tried
  settled := h.settled
  handed := h.handed
  uncommitted := h.uncommitted
  inOrder := h.inOrder
  next := h.next
  ahead := by
    show (d.pending.queue.frames ++ [_]).length ≤ _
    rw [List.length_append]
    exact hroom
  closing hdone := by
    have hnone := (h.closing hdone).2
    rw [hingress] at hnone
    cases hnone
  ending hbroken := absurd hbroken hgoing

theorem Sound.start {frame : Numbered (QueuedSend wire)} {bulk : Bool}
    (hpop : (d.pending.queue.pop (!d.orderedBusy) (!d.bulkBusy)).1 = some (frame, bulk))
    (hloop : d.loop = .popping) : (d.start frame bulk).Sound setting := by
  have hpops : d.pending.queue.pop (!d.orderedBusy) (!d.bulkBusy) =
      (some (frame, bulk), (d.pending.queue.pop (!d.orderedBusy) (!d.bulkBusy)).2) := Prod.ext hpop rfl
  obtain ⟨-, hflag, pre, post, hframes, hframes', -, -⟩ := LaneQueue.pop_some hpops
  rw [h.faithful.priority_eq] at hflag
  have hpopped : (d.start frame bulk).pending.popped = d.pending.popped ++ [(frame, bulk)] := by
    show d.pending.popped ++ (d.pending.queue.pop _ _).1.toList = _
    rw [hpop]
    rfl
  have hfaithful : (d.start frame bulk).pending.Faithful setting.priority := h.faithful.pop _ _
  have hnew : frame ∉ d.pending.popped.map Prod.fst := by
    have hnodup := hfaithful.once.1
    rw [hpopped, List.map_append] at hnodup
    intro hold
    exact (List.nodup_append.mp hnodup).2.2 frame hold frame (List.mem_singleton_self _) rfl
  have huntouched : d.handedOut frame = [] := List.filter_eq_nil_iff.mpr fun x hx hframe =>
    hnew (of_decide_eq_true hframe ▸ (h.handed x hx).1)
  have hsorted := sorted_popped hfaithful
  rw [hpopped, List.map_append, List.filter_append] at hsorted
  refine ⟨hfaithful, h.admitted, ?_, ?_, ?_, ?_, h.settled, ?_, ?_, h.inOrder, ?_, ?_, h.closing, ?_⟩
  · have hready := LaneQueue.pop_ready hpop
    let w : Write wire := ⟨frame, bulk, .looking false⟩
    have hcount (p : Write wire → Bool) :
        (d.writes ++ [w]).countP p = d.writes.countP p + if p w then 1 else 0 := Calls.countP_begin w p
    obtain ⟨hordered, hbulk⟩ := h.busy
    show (d.writes ++ [_]).countP _ = (if (d.orderedBusy || !bulk) then 1 else 0) ∧
      (d.writes ++ [_]).countP _ = if (d.bulkBusy || bulk) then 1 else 0
    rw [hcount, hcount, hordered, hbulk]
    cases bulk with
    | false =>
      have hfree : d.orderedBusy = false := by simpa using hready
      simp [w, hfree]
    | true =>
      have hfree : d.bulkBusy = false := by simpa using hready
      simp [w, hfree]
  · exact Calls.forall_begin h.flags hflag
  · have hhand : (d.start frame bulk).inHand = d.inHand ++ [frame] := by
      show (List.filter _ (d.writes ++ [_])).map _ = _
      rw [List.filter_append, List.map_append]
      rfl
    rw [hhand, hpopped, List.map_append, ← List.append_assoc]
    exact h.conserved.append_right _
  · exact Calls.forall_begin h.tried ⟨huntouched, fun hleft => hnew (h.uncommitted frame hleft)⟩
  · intro x hx
    rw [hpopped, List.map_append]
    exact ⟨List.mem_append_left _ (h.handed x hx).1, (h.handed x hx).2⟩
  · intro x hx
    rw [hpopped, List.map_append]
    exact List.mem_append_left _ (h.uncommitted x hx)
  · refine Calls.forall_begin h.next fun hkeeps _ _ x hx hxkeeps => ?_
    refine (List.pairwise_append.mp hsorted).2.2 x.frame ?_ frame ?_
    · exact List.mem_filter.mpr ⟨(h.handed x hx).1, hxkeeps⟩
    · exact List.mem_filter.mpr ⟨List.mem_singleton_self _, hkeeps⟩
  · have hbefore := h.ahead
    show (d.pending.queue.pop _ _).2.frames.length ≤ _
    rw [hframes']
    rw [Drainer.ahead, hframes] at hbefore
    simp only [List.length_append, List.length_cons] at hbefore ⊢
    omega
  · intro hbroken
    cases hloop.symm.trans hbroken

theorem Sound.reap {i : Nat} (hi : d.writes[i]? = some w) (hended : w.active = false) : ({ d with
      orderedBusy := d.orderedBusy && w.bulk
      bulkBusy := d.bulkBusy && !w.bulk
      writes := d.writes.eraseIdx i
      loop := .top } : Drainer wire).Sound setting := by
  obtain ⟨before, after, hwrites, -, herase⟩ := Calls.split hi
  have hin : ∀ other ∈ before ++ after, other ∈ d.writes := by
    intro other hother
    rw [hwrites]
    exact (List.perm_middle).symm.subset (List.mem_cons_of_mem _ hother)
  rw [herase]
  refine ⟨h.faithful, h.admitted, ?_, fun w hw => h.flags w (hin w hw), ?_, fun w hw => h.tried w (hin w hw),
    h.settled, h.handed, h.uncommitted, h.inOrder, fun w hw => h.next w (hin w hw), h.ahead, h.closing, nofun⟩
  · obtain ⟨hordered, hbulk⟩ := h.busy
    have hcount (p : Write wire → Bool) : d.writes.countP p = (before ++ after).countP p + if p w then 1 else 0 := by
      rw [hwrites, (List.perm_middle).countP_eq, List.countP_cons]
    rw [hcount] at hordered hbulk
    show (before ++ after).countP _ = (if (d.orderedBusy && w.bulk) then 1 else 0) ∧
      (before ++ after).countP _ = if (d.bulkBusy && !w.bulk) then 1 else 0
    cases hw : w.bulk with
    | false =>
      rw [hw] at hordered hbulk
      refine ⟨?_, by simpa using hbulk⟩
      cases hbusy : d.orderedBusy with
      | false => simp [hbusy] at hordered
      | true => simpa [hbusy] using hordered
    | true =>
      rw [hw] at hordered hbulk
      refine ⟨by simpa using hordered, ?_⟩
      cases hbusy : d.bulkBusy with
      | false => simp [hbusy] at hbulk
      | true => simpa [hbusy] using hbulk
  · have hconserved := h.conserved
    rw [inHand_of_writes hwrites, hended] at hconserved
    show (_ ++ (List.filter _ (before ++ after)).map _).Perm _
    rw [List.filter_append, List.map_append]
    exact hconserved

/-- A turn of the drainer keeps the books. -/
theorem Sound.turn (hturn : d.turn setting = some d') : d'.Sound setting := by
  unfold Drainer.turn at hturn
  split at hturn
  · next hloop =>
    cases hturn
    refine h.calm h.closing fun hbroken => .inr ?_
    split at hbroken
    · next hidle => exact ⟨(h.closing hidle.1).2, hidle.2.1, hidle.2.2⟩
    · cases hbroken
  · split at hturn
    · next hroom =>
      split at hturn
      · next queued rest hingress =>
        cases hturn
        exact h.takeIn hingress hroom.2 nofun
      · cases hturn
        exact h.calm h.closing nofun
    · cases hturn
      exact h.calm h.closing nofun
  · next hloop =>
    split at hturn
    · next frame bulk hpop =>
      cases hturn
      exact h.start hpop hloop
    · cases hturn
      exact h.calm h.closing nofun
  · cases hturn

end

theorem ahead_of_receives (h : d.receives setting = true) : d.ahead < PEER_SEND_QUEUE_CAPACITY := by
  obtain ⟨-, h⟩ := Bool.and_eq_true_iff.mp h
  split at h
  · exact of_decide_eq_true h
  · have hnone := (of_decide_eq_true h).1
    rw [ahead, hnone]
    exact Nat.succ_pos 255

/-- Each step keeps the books of the writers. -/
theorem Sound.step (h : d.Sound setting) {input : Input wire} (hregistered : d.Registered input)
    (hstep : d.step setting input = some d') : d'.Sound setting := by
  cases input with
  | enqueue queued =>
    simp only [Drainer.step] at hstep
    split at hstep
    · cases hstep
    · next hopen =>
      cases hstep
      exact h.enqueue queued (fun hclosed => hopen (.inl hclosed)) fun hbroken => hopen (.inr (.inl hbroken))
  | close =>
    cases hstep
    exact h.calm (fun hdone => ⟨rfl, (h.closing hdone).2⟩) h.ending
  | channels channels =>
    cases hstep
    exact h.calm h.closing h.ending
  | cancel =>
    cases hstep
    exact h.calm h.closing fun _ => .inl rfl
  | turn => exact h.turn hstep
  | stop =>
    obtain ⟨hstop, hstep⟩ := Option.ite_none_right_eq_some.mp hstep
    cases hstep
    exact h.calm h.closing fun _ => .inl hstop.2
  | reap i =>
    obtain ⟨w, hi, hreap⟩ := Option.bind_eq_some_iff.mp hstep
    obtain ⟨hended, hreap⟩ := Option.ite_none_right_eq_some.mp hreap
    cases hreap
    exact h.reap hi hended.2
  | receive =>
    obtain ⟨hreceives, hstep⟩ := Option.ite_none_right_eq_some.mp hstep
    split at hstep
    · next queued rest hingress =>
      cases hstep
      exact h.takeIn hingress (ahead_of_receives hreceives.2.2) nofun
    · next hingress =>
      split at hstep
      · cases hstep
      · next hclosed =>
        split at hstep
        · next hidle =>
          cases hstep
          exact h.calm h.closing fun _ => .inr ⟨hingress, hidle⟩
        · cases hstep
          exact h.calm (fun _ => ⟨eq_true_of_ne_false hclosed, hingress⟩) nofun
  | write i event =>
    obtain ⟨hloop, hstep⟩ := Option.ite_none_right_eq_some.mp hstep
    obtain ⟨w, hi, hwrite⟩ := Option.bind_eq_some_iff.mp hstep
    obtain ⟨turned, hturn, rfl⟩ := Option.map_eq_some_iff.mp hwrite
    exact h.write hi hregistered hturn

end Task

/-! ## What follows for a run -/

section Deliveries

variable {setting} {d : Drainer wire}

theorem Sound.written (h : d.Sound setting) (frame : Numbered (QueuedSend wire)) :
    (d.handedOut frame).length ≤ 1 ∨ d.Repeated frame := by
  by_cases hpopped : frame ∈ d.pending.popped.map Prod.fst
  · rcases List.mem_append.mp (h.conserved.symm.subset hpopped) with hcompleted | hhand
    · obtain ⟨done, hdone, rfl⟩ := List.mem_map.mp hcompleted
      have hsettled := h.settled done hdone
      unfold Settled at hsettled
      split at hsettled
      · exact .inl (by rw [hsettled.2.1]; exact Nat.zero_le _)
      · exact .inl hsettled.2.le
      · exact hsettled.imp_left fun hone => hone.1.le
    · obtain ⟨w, hw, rfl⟩ := List.mem_map.mp hhand
      obtain ⟨hw, hactive⟩ := List.mem_filter.mp hw
      have htried := h.tried w hw
      have hone : ∀ {x : Handed wire}, d.handedOut w.frame = [x] → (d.handedOut w.frame).length ≤ 1 := by
        intro x hx
        rw [hx]
        exact le_rfl
      cases hstage : w.stage with
      | looking again | sleeping again =>
        rw [hstage] at htried
        cases again with
        | false => exact .inl (by rw [htried.1]; exact Nat.zero_le _)
        | true => exact .inl (hone htried.2.choose_spec)
      | pacing again dc on | sending again dc on =>
        rw [hstage] at htried
        cases again with
        | false => exact .inl (hone htried.1)
        | true => exact .inr htried
      | ended => exact absurd hstage (of_decide_eq_true hactive)
  · have hnone : d.handedOut frame = [] := List.filter_eq_nil_iff.mpr fun x hx hframe =>
      hpopped (of_decide_eq_true hframe ▸ (h.handed x hx).1)
    exact .inl (by rw [hnone]; exact Nat.zero_le _)

theorem Sound.writers (h : d.Sound setting) (b : Bool) :
    d.writes.countP (fun w => decide (independent setting.priority w.frame = b)) ≤ 1 := by
  have hsame : d.writes.countP (fun w => decide (independent setting.priority w.frame = b)) =
      d.writes.countP fun w => decide (w.bulk = b) :=
    List.countP_congr fun w hw => by rw [h.flags w hw]
  rw [hsame]
  cases b with
  | false =>
    have hordered : d.writes.countP (fun w => decide (w.bulk = false)) = d.writes.countP fun w => !w.bulk :=
      List.countP_congr fun w _ => by simp
    rw [hordered, h.busy.1]
    split <;> decide
  | true =>
    have hbulk : d.writes.countP (fun w => decide (w.bulk = true)) = d.writes.countP (·.bulk) :=
      List.countP_congr fun w _ => by simp
    rw [hbulk, h.busy.2]
    split <;> decide

/-- Sound books are those of a drainer that delivers. -/
theorem Sound.delivers (h : d.Sound setting) : d.Delivers setting where
  admitted := h.admitted
  inOrder := h.inOrder
  writers := h.writers
  written := h.written
  completed := h.conserved
  once := (List.nodup_append.mp (h.conserved.nodup_iff.mpr h.faithful.once.1)).1
  ahead := h.ahead
  failures := by
    intro done hdone hcancelled
    have hsettled := h.settled done hdone
    unfold Settled at hsettled
    split at hsettled
    · exact absurd (hcancelled.symm.trans hsettled.1) Bool.false_ne_true
    · exact absurd (hcancelled.symm.trans hsettled.1) Bool.false_ne_true
    · next hunavailable hclosed =>
      refine ⟨?_, ?_, fun hleft => hsettled.resolve_left fun hone => hone.2 hleft⟩
      · cases hreport : done.report with
        | sent => exact .inl rfl
        | writeFailed error => exact .inr ⟨error, rfl⟩
        | unavailable => exact absurd hreport hunavailable
        | closed => exact absurd hreport hclosed
      · rcases hsettled with hone | ⟨-, first, second, htwo⟩
        · intro hnone
          rw [hnone] at hone
          cases hone.1
        · rw [htwo]
          nofun
  finished := by
    intro hbroken hcancelled
    obtain ⟨hingress, hwrites, hframes⟩ :=
      (h.ending hbroken).resolve_left (by rw [hcancelled]; exact Bool.false_ne_true)
    refine ⟨hingress, ?_⟩
    have hhand : d.inHand = [] := by rw [inHand, hwrites]; rfl
    have hpopped := h.conserved
    have hpushed := h.faithful.conserved
    rw [hhand, List.append_nil] at hpopped
    rw [hframes, List.append_nil] at hpushed
    rw [← h.admitted, hingress, List.append_nil]
    have hall := (hpopped.trans hpushed).map Numbered.frame
    rwa [List.map_map] at hall

end Deliveries

end Drainer

/-- Where a writer that looks for its channel finds one registered, and one that
repeats its frame finds the reliable channel not closed, the drainer delivers. -/
theorem drainer_delivers {wire : Wire} {setting : Setting} {channels : Channels}
    {moves : List (Move (Drainer wire) (Input wire))} {d : Drainer wire}
    (run : Run (Drainer.step setting) (.new setting channels) moves d)
    (hregistered : ∀ move ∈ moves, move.before.Registered move.input) : d.Delivers setting := by
  have hsound : d.Sound setting := run.keepsUnder (P := Drainer.Sound setting) (.new channels)
    (fun _ _ _ h hregistered hstep => h.step hregistered hstep) hregistered
  exact hsound.delivers

/-! ### A frame that is repeated, and one that is not waited for -/

namespace OneFrame

def noWire : Wire := .ofFrames [] (by decide)

/-- The optional channel does not take it. -/
def frame : QueuedSend noWire := ⟨[7], .reliableUnordered, true⟩

def opened : Channels where
  channels method := if method = .reliableOrdered then some 0 else none
  unorderedChannel := some 1
  readyState _ := .open_

def registered : Channels where
  channels _ := none
  unorderedChannel := none
  readyState _ := .unspecified

/-- The frame comes to its writer; the first input first. -/
def taken : List (Input noWire) := [.enqueue frame, .turn, .turn, .turn, .receive, .turn, .turn, .turn, .turn]

def first : QueuedSend noWire := ⟨[1], .reliableOrdered, true⟩
def second : QueuedSend noWire := ⟨[2], .reliableOrdered, true⟩

/-- The frame comes between two that keep their order. The second of these is sent while it is being
repeated, and then the queue is closed. -/
def bothKinds : List (Input noWire) :=
  [.enqueue first, .enqueue frame, .enqueue second, .turn, .turn, .turn, .receive, .turn, .turn, .turn, .turn,
    .write 0 .goesOn, .write 0 .sent, .reap 0, .turn, .turn, .turn, .receive, .turn, .turn, .turn, .turn,
    .receive, .turn, .turn, .turn, .turn, .write 0 .goesOn, .write 1 .goesOn,
    .write 0 (.uncommitted closedSend), .write 1 .sent, .reap 1, .turn, .turn, .turn,
    .write 0 .goesOn, .write 0 .sent, .reap 0, .close, .turn, .turn, .turn, .receive]

def looked : List (Input noWire) := taken ++ [.write 0 .goesOn]

def plain : Setting := ⟨false, false⟩

end OneFrame

instance {wire : Wire} (d : Drainer wire) (input : Input wire) : Decidable (d.Registered input) := by
  unfold Drainer.Registered
  split <;> infer_instance

open OneFrame in
theorem bothKinds_delivers :
    let d := (play (Drainer.step plain) (.new plain opened) bothKinds.reverse).2
    d.loop = .broken ∧
      d.completed = [⟨⟨1, frame⟩, .sent, false⟩, ⟨⟨2, second⟩, .sent, false⟩, ⟨⟨0, first⟩, .sent, false⟩] ∧
      d.handed = [⟨⟨0, first⟩, 0, some .reliableOrdered⟩, ⟨⟨1, frame⟩, 1, none⟩,
        ⟨⟨2, second⟩, 0, some .reliableOrdered⟩, ⟨⟨1, frame⟩, 0, some .reliableOrdered⟩] ∧
      d.Delivers plain := by
  refine ⟨by decide +kernel, by decide +kernel, by decide +kernel, ?_⟩
  exact drainer_delivers (run_play _ _ _) (by decide +kernel)

open OneFrame in
theorem oneFrame_unavailable : ¬ ∀ (moves : List (Move (Drainer noWire) (Input noWire))) (d : Drainer noWire),
    Run (Drainer.step plain) (.new plain registered) moves d → d.Delivers plain := by
  intro h
  have hdelivers := h _ _ (run_play (Drainer.step plain) (.new plain registered) looked.reverse)
  have hcompleted : (play (Drainer.step plain) (.new plain registered) looked.reverse).2.completed =
      [⟨⟨0, frame⟩, .unavailable, false⟩] := by decide +kernel
  obtain ⟨hreport, -⟩ := hdelivers.failures ⟨⟨0, frame⟩, .unavailable, false⟩
    (hcompleted ▸ List.mem_singleton_self _) rfl
  rcases hreport with hsent | ⟨_, hfailed⟩
  · cases hsent
  · cases hfailed

end Mistlib.Transport.SendQueue
