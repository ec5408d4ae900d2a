import Mistlib.Async.Calls
import Mistlib.Async.Reactive

/-!
# Rooms of the browser

The calls `join_room`, `leave_room_id` and `leave_room` and the awaitable ones, with `run_join`,
`build_session` and `run_leave`. What happens between two awaits is one step. Whether the
signaler connects and closes is arbitrary.

A room is what `SESSIONS`, `PENDING_JOINS`, `CANCELLED_PENDING` and `JOIN_WAITERS` hold for it,
with its calls and the events it emits. `last` records its last call, and for a join the build
it waits for; nothing reads it.
-/

namespace Mistlib.WasmL0

abbrev RoomId := String

inductive RoomEvent where
  | joined
  | joinFailed
  | left
deriving DecidableEq, Repr

inductive Reason where
  | connectFailed
  /-- "join cancelled by leave" -/
  | cancelled
  /-- The signaler of a cancelled join does not close. -/
  | cleanupFailed
deriving DecidableEq, Repr

inductive JoinOutcome where
  | joined
  | failed (reason : Reason)
deriving DecidableEq, Repr

/-- A call of the room's: what it waits for, or how it has ended. -/
inductive Call where
  /-- `run_join` is spawned and owns the build. -/
  | owner
  | startingRouter
  | connecting
  /-- The connection has failed, and the signaler is closed. -/
  | closingFailed
  /-- A leave has cancelled the build, and the signaler is closed. -/
  | closingCancelled
  /-- The session that was built is torn down. -/
  | discarding
  /-- `run_join` has ended with its build's outcome. -/
  | built (outcome : JoinOutcome)
  /-- `run_join` waits for the outcome of another call's build. -/
  | waiting (build : Nat)
  | told (build : Nat) (outcome : JoinOutcome)
  /-- The room had a session, and its peers are requested. -/
  | announcing
  /-- `run_leave` waits for the teardown of the session. -/
  | leaving
  | returned
deriving DecidableEq, Repr

inductive LastCall where
  | never
  | join (build : Option Nat)
  | leave
deriving DecidableEq, Repr

def LastCall.build : LastCall → Option Nat
  | .join build => build
  | _ => none

namespace Call

def building : Call → Bool
  | .owner | .startingRouter | .connecting | .closingFailed | .closingCancelled => true
  | _ => false

/-- The call is join or leave work in progress. A join that waits for another's
build does none. -/
def working : Call → Bool
  | .discarding | .announcing | .leaving => true
  | c => c.building

def tell (outcome : JoinOutcome) : Call → Call
  | .waiting build => .told build outcome
  | c => c

end Call

/-- The build of the room that is in progress. -/
def buildOf (calls : List Call) : Nat := calls.findIdx Call.building

/-- A session is known by the build that made it, and a waiter by its call. -/
structure Room where
  session : Option Nat
  pendingJoin : Bool
  cancelledPending : Bool
  joinWaiters : List Nat
  calls : List Call
  /-- The latest first. -/
  events : List RoomEvent
  last : LastCall
deriving DecidableEq, Repr

inductive LeaveReservation where
  | active
  | pendingJoin
  | missing
deriving DecidableEq, Repr

namespace Room

def new : Room where
  session := none
  pendingJoin := false
  cancelledPending := false
  joinWaiters := []
  calls := []
  events := []
  last := .never

def emit (r : Room) (event : RoomEvent) : Room := { r with events := event :: r.events }

def begin (r : Room) (c : Call) : Room := { r with calls := r.calls ++ [c] }

def cancelPendingJoin (r : Room) : Room := { r with cancelledPending := r.cancelledPending || r.pendingJoin }

def drainJoinWaiters (r : Room) (outcome : JoinOutcome) : Room :=
  { r with
    joinWaiters := []
    calls := r.calls.mapIdx fun i c => if i ∈ r.joinWaiters then c.tell outcome else c }

def reserveJoin (r : Room) : Room :=
  if r.session.isSome then { (r.emit .joined).begin .announcing with last := .join none }
  else if r.pendingJoin then
    { r.begin (.waiting (buildOf r.calls)) with
      cancelledPending := false
      joinWaiters := r.joinWaiters ++ [r.calls.length]
      last := .join (some (buildOf r.calls)) }
  else { r.begin .owner with pendingJoin := true, last := .join (some r.calls.length) }

def reserveLeave (r : Room) : Room × LeaveReservation :=
  if r.session.isSome then ({ r with session := none, last := .leave }, .active)
  else if r.pendingJoin then ({ r.cancelPendingJoin with last := .leave }, .pendingJoin)
  else ({ r with last := .leave }, .missing)

def leaveRoomId (r : Room) : Room :=
  match r.reserveLeave with
  | (r, .active) => r.emit .left
  | (r, _) => r

def leaveRoomIdAsync (r : Room) : Room :=
  match r.reserveLeave with
  | (r, .active) => r.begin .leaving
  | (r, _) => r

/-- `leave_room`, as far as it is about the room. -/
def leaveRoom (r : Room) : Room :=
  let r := { r.cancelPendingJoin with last := .leave }
  if r.session.isSome then { r with session := none }.emit .left else r

/-- What a step of a call leaves, and what the call does next. -/
abbrev Turn := Room × Call

def joined (r : Room) (i : Nat) : Turn :=
  let r := { r with pendingJoin := false }
  if r.cancelledPending then ({ r with cancelledPending := false }, .discarding)
  else (({ r with session := some i }.drainJoinWaiters .joined).emit .joined, .built .joined)

def joinFailed (r : Room) (reason : Reason) : Turn :=
  (({ r with pendingJoin := false, cancelledPending := false }.drainJoinWaiters (.failed reason)).emit
    .joinFailed, .built (.failed reason))

/-- The call `i` goes on. `ok` is what the signaler answers. -/
def resume (r : Room) (i : Nat) (ok : Bool) : Call → Option Turn
  | .owner => some (r, .startingRouter)
  | .startingRouter => some (r, .connecting)
  | .connecting =>
    if ok = false then some (r, .closingFailed)
    else if r.cancelledPending then some ({ r with cancelledPending := false }, .closingCancelled)
    else some (r.joined i)
  | .closingFailed => some (r.joinFailed .connectFailed)
  | .closingCancelled => some (r.joinFailed (if ok then .cancelled else .cleanupFailed))
  | .discarding =>
    some ((r.drainJoinWaiters (.failed .cancelled)).emit .joinFailed, .built (.failed .cancelled))
  | .announcing => some (r, .returned)
  | .leaving => some (r.emit .left, .returned)
  | .built _ | .waiting _ | .told _ _ | .returned => none

def setCall (r : Room) (i : Nat) (c : Call) : Room := { r with calls := r.calls.set i c }

def resumeCall (r : Room) (i : Nat) (ok : Bool) : Option Room :=
  (r.calls[i]?.bind (r.resume i ok)).map fun turn => turn.1.setCall i turn.2

def Quiescent (r : Room) : Prop := ∀ c ∈ r.calls, c.working = false
deriving Decidable

def lastEvent (r : Room) : Option RoomEvent := r.events.head?

/-- The build that the room's last join waited for could not connect. -/
def BuildFailed (r : Room) : Prop :=
  ∃ i ∈ r.last.build, r.calls[i]? = some (.built (.failed .connectFailed))
deriving Decidable

structure Follows (r : Room) : Prop where
  left : r.last = .leave → r.session = none
  joined : ∀ build, r.last = .join build → ¬ r.BuildFailed → r.session.isSome
  event : r.lastEvent = some .joined ↔ r.session.isSome
  /-- A waiter received what its build ended with. -/
  told : ∀ c ∈ r.calls, ∀ build, c ≠ .waiting build ∧
    ∀ outcome, c = .told build outcome → r.calls[build]? = some (.built outcome)
  clean : r.pendingJoin = false ∧ r.cancelledPending = false ∧ r.joinWaiters = []

end Room

abbrev Page := RoomId → Room

inductive Input where
  | joinRoom (room : RoomId)
  | leaveRoomId (room : RoomId)
  | leaveRoomIdAsync (room : RoomId)
  | leaveRoom
  | resume (room : RoomId) (i : Nat) (ok : Bool)
deriving DecidableEq, Repr

namespace Page

def new : Page := fun _ => .new

def put (p : Page) (room : RoomId) (r : Room) : Page := fun other => if other = room then r else p other

def step (p : Page) : Input → Option Page
  | .joinRoom room => some (p.put room (p room).reserveJoin)
  | .leaveRoomId room => some (p.put room (p room).leaveRoomId)
  | .leaveRoomIdAsync room => some (p.put room (p room).leaveRoomIdAsync)
  | .leaveRoom => some fun room => (p room).leaveRoom
  | .resume room i ok => ((p room).resumeCall i ok).map (p.put room)

/-- No join finds the build of its room closing the signaler for an earlier leave,
and no leave reports its end of a room that was joined again. -/
def Punctual (p : Page) : Input → Prop
  | .joinRoom room => Call.closingCancelled ∉ (p room).calls
  | .resume room i _ => (p room).calls[i]? = some .leaving → (p room).session = none
  | _ => True

instance (p : Page) : DecidablePred p.Punctual
  | .joinRoom _ => inferInstanceAs (Decidable (¬ _))
  | .leaveRoomId _ | .leaveRoomIdAsync _ | .leaveRoom => .isTrue trivial
  | .resume _ _ _ => inferInstanceAs (Decidable (_ → _))

end Page

/-! ## One room -/

namespace Room

/-- The call builds the room's session. -/
def Running (r : Room) (i : Nat) (c : Call) : Prop := r.calls[i]? = some c ∧ c.building = true

/-- A leave has still to report that the room is left. -/
def Owes (r : Room) : Prop := .leaving ∈ r.calls

/-- The last call and the last event of a room without a build. -/
structure Settled (r : Room) : Prop where
  joined : r.session.isSome → ∃ build, r.last = .join build
  reported : r.session.isSome → r.lastEvent = some .joined
  failed : r.session = none → ∀ build, r.last = .join build → r.BuildFailed
  owed : r.session = none → r.lastEvent = some .joined → r.Owes

/-- What a build comes to: it is cancelled for a leave, or the last join waits for it. -/
inductive Awaits (r : Room) (i : Nat) (c : Call) : Prop
  | leave : r.last = .leave → r.cancelledPending = true ∨ c = .closingCancelled → Awaits r i c
  | join : r.last = .join (some i) → r.cancelledPending = false → c ≠ .closingCancelled → Awaits r i c

inductive Sound (r : Room) : Prop
  | idle : r.pendingJoin = false → r.cancelledPending = false → r.joinWaiters = [] →
      (∀ i c, ¬ r.Running i c) → r.Settled → Sound r
  | busy (i : Nat) (c : Call) : r.pendingJoin = true → r.session = none →
      (∀ j d, r.Running j d ↔ j = i ∧ d = c) → r.Awaits i c → Sound r

/-- The waiters wait for the build in progress, and those that were told were
told its outcome. -/
structure Books (r : Room) : Prop where
  told : ∀ (j build : Nat) (outcome : JoinOutcome), r.calls[j]? = some (.told build outcome) →
    r.calls[build]? = some (.built outcome)
  waiting : ∀ j build : Nat, r.calls[j]? = some (.waiting build) → j ∈ r.joinWaiters ∧ ∃ c, r.Running build c
  kept : .discarding ∉ r.calls

structure Kept (r : Room) : Prop where
  sound : r.Sound
  books : r.Books

variable {r r' : Room} {i : Nat} {c c' : Call} {ok : Bool}

theorem Kept.new : Kept .new where
  sound := .idle rfl rfl rfl (fun _ _ h => by cases h.1) ⟨nofun, nofun, nofun, nofun⟩
  books := ⟨nofun, nofun, nofun⟩

theorem not_running_of_pending (h : r.Sound) (hpending : r.pendingJoin = false) :
    r.cancelledPending = false ∧ r.joinWaiters = [] ∧ (∀ i c, ¬ r.Running i c) ∧ r.Settled := by
  cases h with
  | idle _ hcancelled hwaiters hnone hsettled => exact ⟨hcancelled, hwaiters, hnone, hsettled⟩
  | busy i c hbusy => cases hpending.symm.trans hbusy

/-! ### Calls that begin -/

theorem running_begin (hc : c.building = false) (j : Nat) (d : Call) :
    (r.begin c).Running j d ↔ r.Running j d := by
  unfold Running begin
  rw [Calls.get_begin]
  split
  · next hj =>
    subst hj
    refine ⟨fun h => ?_, fun h => ?_⟩
    · obtain ⟨⟨⟩, hd⟩ := h
      cases hc.symm.trans hd
    · rw [List.getElem?_eq_none le_rfl] at h
      cases h.1
  · rfl

theorem running_owner (hnone : ∀ i c, ¬ r.Running i c) (j : Nat) (d : Call) :
    (r.begin .owner).Running j d ↔ j = r.calls.length ∧ d = .owner := by
  have hbefore := hnone j d
  unfold Running at hbefore ⊢
  unfold begin
  rw [Calls.get_begin]
  split
  · next hj =>
    refine ⟨fun h => ⟨hj, (Option.some.inj h.1).symm⟩, ?_⟩
    rintro ⟨-, rfl⟩
    exact ⟨rfl, rfl⟩
  · next hj => exact ⟨fun h => absurd h hbefore, fun h => absurd h.1 hj⟩

theorem Books.begin (h : r.Books) (hcalls : r'.calls = r.calls ++ [c])
    (hc : ∀ build outcome, c ≠ .told build outcome) (hkept : c ≠ .discarding)
    (hwaiters : ∀ j ∈ r.joinWaiters, j ∈ r'.joinWaiters)
    (hwaits : ∀ build, c = .waiting build → r.calls.length ∈ r'.joinWaiters ∧ ∃ d, r.Running build d) :
    r'.Books where
  told := by
    intro j build outcome hj
    rw [hcalls, Calls.get_begin] at hj
    rw [hcalls]
    split at hj
    · cases hj
      exact absurd rfl (hc build outcome)
    · exact Calls.get_before (h.told j build outcome hj) _
  waiting := by
    intro j build hj
    have hstill : (∃ d, r.Running build d) → ∃ d, r'.Running build d := by
      rintro ⟨d, hd, hbuilding⟩
      refine ⟨d, ?_, hbuilding⟩
      rw [hcalls]
      exact Calls.get_before hd _
    rw [hcalls, Calls.get_begin] at hj
    split at hj
    · next hlast =>
      cases hj
      obtain ⟨hin, hrunning⟩ := hwaits build rfl
      exact ⟨hlast ▸ hin, hstill hrunning⟩
    · obtain ⟨hin, hrunning⟩ := h.waiting j build hj
      exact ⟨hwaiters j hin, hstill hrunning⟩
  kept := by
    rw [hcalls]
    intro hin
    rcases List.mem_append.mp hin with hold | hnew
    · exact h.kept hold
    · exact hkept (List.mem_singleton.mp hnew).symm

theorem Books.of_eq (h : r.Books) (hcalls : r'.calls = r.calls) (hwaiters : r'.joinWaiters = r.joinWaiters) :
    r'.Books where
  told := by
    rw [hcalls]
    exact h.told
  waiting := by
    simp only [Running, hcalls, hwaiters]
    exact h.waiting
  kept := by
    rw [hcalls]
    exact h.kept

theorem buildOf_eq (hrunning : ∀ j d, r.Running j d ↔ j = i ∧ d = c) : buildOf r.calls = i := by
  obtain ⟨hcall, hbuilding⟩ := (hrunning i c).mpr ⟨rfl, rfl⟩
  obtain ⟨hlt, hget⟩ := List.getElem?_eq_some_iff.mp hcall
  rw [buildOf, List.findIdx_eq hlt]
  refine ⟨hget ▸ hbuilding, fun j hj => ?_⟩
  rw [← Bool.not_eq_true]
  intro hearlier
  have hj' : j < r.calls.length := Nat.lt_trans hj hlt
  have hsame := ((hrunning j r.calls[j]).mp ⟨List.getElem?_eq_getElem hj', hearlier⟩).1
  exact absurd hj (hsame ▸ Nat.lt_irrefl _)

theorem Kept.reserveJoin (h : r.Kept) (hpunctual : .closingCancelled ∉ r.calls) : r.reserveJoin.Kept := by
  unfold Room.reserveJoin
  split
  · next hsession =>
    refine ⟨?_, h.books.begin rfl nofun nofun (fun _ hj => hj) nofun⟩
    cases h.sound with
    | idle hpending hcancelled hwaiters hnone _ =>
      refine .idle hpending hcancelled hwaiters (fun j d => ?_) ⟨?_, ?_, ?_, ?_⟩
      · exact (running_begin (r := r) rfl j d).not.mpr (hnone j d)
      · exact fun _ => ⟨none, rfl⟩
      · exact fun _ => rfl
      · intro hgone
        rw [show r.session = none from hgone] at hsession
        cases hsession
      · intro hgone
        rw [show r.session = none from hgone] at hsession
        cases hsession
    | busy i c _ hgone =>
      rw [hgone] at hsession
      cases hsession
  · next hsession =>
    split
    · next hpending =>
      cases h.sound with
      | idle hidle => cases hidle.symm.trans hpending
      | busy i c hbusy hgone hrunning hawaits =>
        have hbuild := buildOf_eq hrunning
        have hself := (hrunning i c).mpr ⟨rfl, rfl⟩
        refine ⟨.busy i c hbusy hgone (fun j d => ?_) (.join ?_ rfl ?_), ?_⟩
        · exact (running_begin (r := r) rfl j d).trans (hrunning j d)
        · rw [hbuild]
        · rintro rfl
          exact hpunctual (List.mem_of_getElem? hself.1)
        · refine h.books.begin rfl nofun nofun (fun _ hj => List.mem_append_left _ hj) ?_
          rintro build ⟨⟩
          refine ⟨List.mem_append_right _ (List.mem_singleton_self _), c, ?_⟩
          rw [hbuild]
          exact hself
    · next hpending =>
      have hidle : r.pendingJoin = false := Bool.eq_false_iff.mpr hpending
      obtain ⟨hcancelled, hwaiters, hnone, -⟩ := not_running_of_pending h.sound hidle
      have hgone : r.session = none := by simpa using hsession
      refine ⟨.busy r.calls.length .owner rfl hgone (running_owner hnone) (.join rfl hcancelled nofun), ?_⟩
      exact h.books.begin rfl nofun nofun (fun _ hj => hj) nofun

/-! ### Leaves -/

theorem idle_of_session (h : r.Sound) (hsession : r.session.isSome) :
    r.pendingJoin = false ∧ r.cancelledPending = false ∧ r.joinWaiters = [] ∧ ∀ i c, ¬ r.Running i c := by
  cases h with
  | idle hpending hcancelled hwaiters hnone _ => exact ⟨hpending, hcancelled, hwaiters, hnone⟩
  | busy i c _ hgone =>
    rw [hgone] at hsession
    cases hsession

theorem settled_of_left (hlast : r.last = .leave) (hgone : r.session = none)
    (howed : r.lastEvent = some .joined → r.Owes) : r.Settled := by
  refine ⟨?_, ?_, ?_, fun _ => howed⟩
  · rw [hgone]
    nofun
  · rw [hgone]
    nofun
  · rw [hlast]
    nofun

theorem Kept.cancelPendingJoin (h : r.Kept) (hgone : r.session = none) :
    Kept { r.cancelPendingJoin with last := .leave } := by
  refine ⟨?_, h.books.of_eq rfl rfl⟩
  cases h.sound with
  | idle hpending hcancelled hwaiters hnone hsettled =>
    refine .idle hpending ?_ hwaiters hnone (settled_of_left rfl hgone (hsettled.owed hgone))
    rw [Room.cancelPendingJoin, hpending, hcancelled]
    rfl
  | busy i c hpending _ hrunning _ =>
    refine .busy i c hpending hgone hrunning (.leave rfl (.inl ?_))
    rw [Room.cancelPendingJoin, hpending, Bool.or_true]

theorem reserveLeave_cases (r : Room) :
    r.session.isSome ∧ r.reserveLeave = ({ r with session := none, last := .leave }, .active) ∨
      r.session = none ∧ ∃ reservation, reservation ≠ .active ∧
        r.reserveLeave = ({ r.cancelPendingJoin with last := .leave }, reservation) := by
  unfold reserveLeave
  split
  · next hsession => exact .inl ⟨hsession, rfl⟩
  · next hsession =>
    refine .inr ⟨Option.not_isSome_iff_eq_none.mp hsession, ?_⟩
    split
    · exact ⟨.pendingJoin, nofun, rfl⟩
    · next hpending =>
      refine ⟨.missing, nofun, ?_⟩
      have hsame : (r.cancelledPending || r.pendingJoin) = r.cancelledPending := by simp [hpending]
      rw [Room.cancelPendingJoin, hsame]

theorem Kept.leaveRoomId (h : r.Kept) : r.leaveRoomId.Kept := by
  unfold Room.leaveRoomId
  rcases r.reserveLeave_cases with ⟨hsession, heq⟩ | ⟨hgone, reservation, hother, heq⟩
  · rw [heq]
    obtain ⟨hpending, hcancelled, hwaiters, hnone⟩ := idle_of_session h.sound hsession
    exact ⟨.idle hpending hcancelled hwaiters hnone (settled_of_left rfl rfl nofun), h.books.of_eq rfl rfl⟩
  · rw [heq]
    cases reservation with
    | active => exact absurd rfl hother
    | _ => exact h.cancelPendingJoin hgone

theorem Kept.leaveRoomIdAsync (h : r.Kept) : r.leaveRoomIdAsync.Kept := by
  unfold Room.leaveRoomIdAsync
  rcases r.reserveLeave_cases with ⟨hsession, heq⟩ | ⟨hgone, reservation, hother, heq⟩
  · rw [heq]
    obtain ⟨hpending, hcancelled, hwaiters, hnone⟩ := idle_of_session h.sound hsession
    refine ⟨.idle hpending hcancelled hwaiters (fun j d => ?_) (settled_of_left rfl rfl fun _ => ?_), ?_⟩
    · exact (running_begin (r := r) rfl j d).not.mpr (hnone j d)
    · exact List.mem_append_right _ (List.mem_singleton_self _)
    · exact h.books.begin rfl nofun nofun (fun _ hj => hj) nofun
  · rw [heq]
    cases reservation with
    | active => exact absurd rfl hother
    | _ => exact h.cancelPendingJoin hgone

theorem Kept.leaveRoom (h : r.Kept) : r.leaveRoom.Kept := by
  unfold Room.leaveRoom
  simp only
  split
  · next hsession =>
    obtain ⟨hpending, hcancelled, hwaiters, hnone⟩ := idle_of_session h.sound hsession
    refine ⟨.idle hpending ?_ hwaiters hnone (settled_of_left rfl rfl nofun), h.books.of_eq rfl rfl⟩
    show (r.cancelledPending || r.pendingJoin) = false
    rw [hcancelled, hpending]
    rfl
  · next hsession => exact h.cancelPendingJoin (Option.not_isSome_iff_eq_none.mp hsession)

/-! ### Calls that go on -/

inductive Resumes (r : Room) (i : Nat) : Call → Room → Call → Prop
  | goes {c c' : Call} (hc : c.building = true) (hc' : c'.building = true) (hbefore : c ≠ .closingCancelled)
      (hafter : c' ≠ .closingCancelled) : Resumes r i c r c'
  | cancels (hcancelled : r.cancelledPending = true) :
      Resumes r i .connecting { r with cancelledPending := false } .closingCancelled
  | joins (hcancelled : r.cancelledPending = false) :
      Resumes r i .connecting
        (({ r with pendingJoin := false, session := some i }.drainJoinWaiters .joined).emit .joined)
        (.built .joined)
  | fails : Resumes r i .closingFailed (r.joinFailed .connectFailed).1 (.built (.failed .connectFailed))
  | abandons (reason : Reason) : Resumes r i .closingCancelled (r.joinFailed reason).1 (.built (.failed reason))
  | discards : Resumes r i .discarding ((r.drainJoinWaiters (.failed .cancelled)).emit .joinFailed)
      (.built (.failed .cancelled))
  | announced : Resumes r i .announcing r .returned
  | leaves : Resumes r i .leaving (r.emit .left) .returned

theorem joined_eq (hcancelled : r.cancelledPending = false) :
    r.joined i = ((({ r with pendingJoin := false, session := some i }.drainJoinWaiters .joined).emit .joined),
      .built .joined) := by
  refine if_neg ?_
  rw [hcancelled]
  nofun

theorem resume_cases {turn : Turn} (h : r.resume i ok c = some turn) : r.Resumes i c turn.1 turn.2 := by
  cases c with
  | owner | startingRouter =>
    cases h
    exact .goes rfl rfl nofun nofun
  | connecting =>
    simp only [resume] at h
    split at h
    · cases h
      exact .goes rfl rfl nofun nofun
    · split at h
      · next hcancelled =>
        cases h
        exact .cancels hcancelled
      · next hcancelled =>
        cases h
        -- the mark was looked at in this very step, so `run_join` finds none
        rw [joined_eq (Bool.eq_false_iff.mpr hcancelled)]
        exact .joins (Bool.eq_false_iff.mpr hcancelled)
  | closingFailed =>
    cases h
    exact .fails
  | closingCancelled =>
    cases h
    exact .abandons _
  | discarding =>
    cases h
    exact .discards
  | announcing =>
    cases h
    exact .announced
  | leaving =>
    cases h
    exact .leaves
  | built outcome | waiting build | told build outcome | returned => cases h

theorem running_set (hcall : r.calls[i]? = some c) (c' : Call) (j : Nat) (d : Call) :
    (r.setCall i c').Running j d ↔ if j = i then d = c' ∧ c'.building = true else r.Running j d := by
  unfold Running setCall
  rw [Calls.get_set hcall]
  split
  · refine ⟨?_, ?_⟩
    · rintro ⟨⟨⟩, hd⟩
      exact ⟨rfl, hd⟩
    · rintro ⟨rfl, hd⟩
      exact ⟨rfl, hd⟩
  · rfl

theorem busy_of_running (h : r.Sound) (hself : r.Running i c) :
    r.pendingJoin = true ∧ r.session = none ∧ (∀ j d, r.Running j d ↔ j = i ∧ d = c) ∧ r.Awaits i c := by
  cases h with
  | idle _ _ _ hnone _ => exact absurd hself (hnone i c)
  | busy j d hpending hgone hrunning hawaits =>
    obtain ⟨rfl, rfl⟩ := (hrunning i c).mp hself
    exact ⟨hpending, hgone, hrunning, hawaits⟩

theorem running_returned (hcall : r.calls[i]? = some c) (hc : c.building = false) (j : Nat) (d : Call) :
    (r.setCall i .returned).Running j d ↔ r.Running j d := by
  rw [running_set hcall]
  split
  · next hj =>
    subst hj
    refine iff_of_false nofun ?_
    rintro ⟨hd, hbuilding⟩
    cases hcall.symm.trans hd
    cases hc.symm.trans hbuilding
  · rfl

theorem Books.set (h : r.Books) (hcall : r.calls[i]? = some c) (hc : ∀ outcome, c ≠ .built outcome)
    (htold : ∀ build outcome, c' ≠ .told build outcome) (hwaits : ∀ build, c' ≠ .waiting build)
    (hkept : c' ≠ .discarding) (hbuilds : c.building = true → c'.building = true) : (r.setCall i c').Books where
  told := by
    intro j build outcome hj
    simp only [setCall, Calls.get_set hcall] at hj ⊢
    split at hj
    · cases hj
      exact absurd rfl (htold build outcome)
    · have hbuilt := h.told j build outcome hj
      rw [if_neg]
      · exact hbuilt
      · rintro rfl
        cases hcall.symm.trans hbuilt
        exact hc outcome rfl
  waiting := by
    intro j build hj
    simp only [setCall, Calls.get_set hcall] at hj
    split at hj
    · cases hj
      exact absurd rfl (hwaits build)
    · obtain ⟨hin, d, hrunning⟩ := h.waiting j build hj
      refine ⟨hin, ?_⟩
      by_cases heq : build = i
      · subst heq
        cases hcall.symm.trans hrunning.1
        exact ⟨c', (running_set hcall c' _ _).mpr (by simp [hbuilds hrunning.2])⟩
      · exact ⟨d, (running_set hcall c' _ _).mpr (by simpa [heq] using hrunning)⟩
  kept := by
    intro hin
    rcases List.mem_or_eq_of_mem_set hin with hold | hnew
    · exact h.kept hold
    · exact hkept hnew.symm

theorem Books.finish (h : r.Books) (hself : r.Running i c) (hrunning : ∀ j d, r.Running j d → j = i)
    (outcome : JoinOutcome) (hcalls : r'.calls = (r.drainJoinWaiters outcome).calls.set i (.built outcome)) :
    r'.Books ∧ ∀ j d, ¬ r'.Running j d := by
  have hget : ∀ j : Nat, (r.drainJoinWaiters outcome).calls[j]? =
      r.calls[j]?.map fun d => if j ∈ r.joinWaiters then d.tell outcome else d := by
    intro j
    exact List.getElem?_mapIdx
  have hkind : ∀ (j : Nat) (d : Call), (r.drainJoinWaiters outcome).calls[j]? = some d →
      r.calls[j]? = some d ∧ (∀ build, d ≠ .waiting build) ∨
        ∃ build, r.calls[j]? = some (.waiting build) ∧ d = .told build outcome := by
    intro j d hd
    rw [hget] at hd
    obtain ⟨d', hd', rfl⟩ := Option.map_eq_some_iff.mp hd
    cases d' with
    | waiting build =>
      rw [if_pos (h.waiting j build hd').1]
      exact .inr ⟨build, hd', rfl⟩
    | _ =>
      refine .inl ⟨?_, ?_⟩
      · split
        · exact hd'
        · exact hd'
      · split
        · nofun
        · nofun
  have hend : (r.drainJoinWaiters outcome).calls[i]? = some c := by
    rw [hget, hself.1]
    cases c with
    | waiting build => cases hself.2
    | _ =>
      split
      · rfl
      · rfl
  have hset : ∀ j : Nat, r'.calls[j]? =
      if j = i then some (.built outcome) else (r.drainJoinWaiters outcome).calls[j]? := by
    intro j
    rw [hcalls, Calls.get_set hend]
  have hbuilt : ∀ (build : Nat) (o : JoinOutcome), r.calls[build]? = some (.built o) →
      r'.calls[build]? = some (.built o) := by
    intro build o hold
    have hne : build ≠ i := by
      rintro rfl
      cases hself.1.symm.trans hold
      cases hself.2
    rw [hset, if_neg hne, hget, hold]
    split
    · rfl
    · rfl
  refine ⟨⟨?_, ?_, ?_⟩, ?_⟩
  · intro j build o hj
    rw [hset] at hj
    split at hj
    · cases hj
    · rcases hkind j _ hj with ⟨hold, -⟩ | ⟨b, hwaiting, htold⟩
      · exact hbuilt build o (h.told j build o hold)
      · cases htold
        obtain ⟨d, hrun⟩ := (h.waiting j build hwaiting).2
        rw [hset, if_pos (hrunning build d hrun)]
  · intro j build hj
    rw [hset] at hj
    split at hj
    · cases hj
    · rcases hkind j _ hj with ⟨-, hnone⟩ | ⟨b, -, htold⟩
      · exact absurd rfl (hnone build)
      · cases htold
  · intro hin
    obtain ⟨j, hj⟩ := List.mem_iff_getElem?.mp hin
    rw [hset] at hj
    split at hj
    · cases hj
    · rcases hkind j _ hj with ⟨hold, -⟩ | ⟨b, -, htold⟩
      · exact h.kept (List.mem_of_getElem? hold)
      · cases htold
  · rintro j d ⟨hj, hbuilding⟩
    rw [hset] at hj
    split at hj
    · cases hj
      cases hbuilding
    · next hne =>
      rcases hkind j _ hj with ⟨hold, -⟩ | ⟨b, -, rfl⟩
      · exact hne (hrunning j d ⟨hold, hbuilding⟩)
      · cases hbuilding

theorem Kept.goes (h : r.Kept) (hself : r.Running i c) (hc' : c'.building = true) (cancelled : Bool)
    (hawaits : r.Awaits i c → Awaits { r with cancelledPending := cancelled } i c') :
    Kept ({ r with cancelledPending := cancelled }.setCall i c') := by
  obtain ⟨hpending, hgone, hrunning, hbefore⟩ := busy_of_running h.sound hself
  have hnext : ∀ j d, (r.setCall i c').Running j d ↔ j = i ∧ d = c' := by
    intro j d
    rw [running_set hself.1]
    split
    · next hj => exact ⟨fun hd => ⟨hj, hd.1⟩, fun hd => ⟨hd.2, hc'⟩⟩
    · next hj =>
      refine iff_of_false (fun hrun => ?_) fun hd => hj hd.1
      exact hj ((hrunning j d).mp hrun).1
  refine ⟨.busy i c' hpending hgone hnext ?_, ?_⟩
  · cases hawaits hbefore with
    | leave hlast hcancelled => exact .leave hlast hcancelled
    | join hlast hcancelled hphase => exact .join hlast hcancelled hphase
  · have hset : (r.setCall i c').Books := by
      refine h.books.set hself.1 ?_ ?_ ?_ ?_ fun _ => hc'
      · rintro outcome rfl
        cases hself.2
      · rintro build outcome rfl
        cases hc'
      · rintro build rfl
        cases hc'
      · rintro rfl
        cases hc'
    exact hset.of_eq rfl rfl

theorem Kept.joinFailed (h : r.Kept) (hself : r.Running i c) (reason : Reason)
    (hfailed : r.Awaits i c → ∀ build, r.last = .join build → build = some i ∧ reason = .connectFailed) :
    Kept ((r.joinFailed reason).1.setCall i (.built (.failed reason))) := by
  obtain ⟨-, hgone, hrunning, hawaits⟩ := busy_of_running h.sound hself
  have hends : Books ((r.joinFailed reason).1.setCall i (.built (.failed reason))) ∧ _ :=
    h.books.finish hself (fun j d hrun => ((hrunning j d).mp hrun).1) (.failed reason) rfl
  have hsession : ((r.joinFailed reason).1.setCall i (.built (.failed reason))).session = none := hgone
  refine ⟨.idle rfl rfl rfl hends.2 ⟨?_, ?_, fun _ build hlast => ?_, nofun⟩, hends.1⟩
  · rw [hsession]
    nofun
  · rw [hsession]
    nofun
  · obtain ⟨rfl, rfl⟩ := hfailed hawaits build hlast
    refine ⟨i, ?_, ?_⟩
    · rw [hlast]
      rfl
    · have hlt : i < (r.joinFailed .connectFailed).1.calls.length := by
        have hlt := (List.getElem?_eq_some_iff.mp hself.1).1
        simpa [Room.joinFailed, emit, drainJoinWaiters] using hlt
      exact List.getElem?_set_self hlt

theorem Kept.joined (h : r.Kept) (hself : r.Running i .connecting) (hcancelled : r.cancelledPending = false) :
    Kept ((({ r with pendingJoin := false, session := some i }.drainJoinWaiters .joined).emit .joined).setCall i
      (.built .joined)) := by
  obtain ⟨-, hgone, hrunning, hawaits⟩ := busy_of_running h.sound hself
  have hends : Books ((({ r with pendingJoin := false, session := some i }.drainJoinWaiters .joined).emit
      .joined).setCall i (.built .joined)) ∧ _ :=
    h.books.finish hself (fun j d hrun => ((hrunning j d).mp hrun).1) .joined rfl
  refine ⟨.idle rfl hcancelled rfl hends.2 ⟨fun _ => ?_, fun _ => rfl, nofun, nofun⟩, hends.1⟩
  cases hawaits with
  | leave _ hmarked =>
    rcases hmarked with hmarked | hmarked
    · cases hmarked.symm.trans hcancelled
    · cases hmarked
  | join hlast _ _ => exact ⟨some i, hlast⟩

theorem Kept.returned (h : r.Kept) (hcall : r.calls[i]? = some c) (hc : c.building = false)
    (hother : ∀ outcome, c ≠ .built outcome) (events : List RoomEvent)
    (hsettled : r.Settled → Settled ({ r with events }.setCall i .returned)) :
    Kept ({ r with events }.setCall i .returned) := by
  have hbooks : (r.setCall i .returned).Books := by
    refine h.books.set hcall hother nofun nofun nofun fun hbuilding => ?_
    cases hc.symm.trans hbuilding
  refine ⟨?_, hbooks.of_eq rfl rfl⟩
  cases h.sound with
  | idle hpending hcancelled hwaiters hnone hbefore =>
    refine .idle hpending hcancelled hwaiters (fun j d => ?_) (hsettled hbefore)
    exact (running_returned hcall hc j d).not.mpr (hnone j d)
  | busy j d hpending hgone hrunning hawaits =>
    refine .busy j d hpending hgone (fun k d' => (running_returned hcall hc k d').trans (hrunning k d')) ?_
    cases hawaits with
    | leave hlast hcancelled => exact .leave hlast hcancelled
    | join hlast hcancelled hphase => exact .join hlast hcancelled hphase

theorem BuildFailed.setCall (h : r.BuildFailed) (hcall : r.calls[i]? = some c)
    (hc : ∀ outcome, c ≠ .built outcome) (events : List RoomEvent) :
    BuildFailed ({ r with events }.setCall i c') := by
  obtain ⟨build, hlast, hbuilt⟩ := h
  refine ⟨build, hlast, ?_⟩
  have hne : build ≠ i := by
    rintro rfl
    cases hcall.symm.trans hbuilt
    exact hc _ rfl
  rw [Room.setCall, Calls.get_set hcall, if_neg hne]
  exact hbuilt

theorem Kept.resumeCall (h : r.Kept) (hpunctual : r.calls[i]? = some .leaving → r.session = none)
    (hstep : r.resumeCall i ok = some r') : r'.Kept := by
  obtain ⟨⟨after, c'⟩, hturn, rfl⟩ := Option.map_eq_some_iff.mp hstep
  obtain ⟨c, hcall, hresume⟩ := Option.bind_eq_some_iff.mp hturn
  cases resume_cases hresume with
  | goes hc hc' hbefore hafter =>
    refine h.goes ⟨hcall, hc⟩ hc' _ fun hawaits => ?_
    cases hawaits with
    | leave hlast hcancelled => exact .leave hlast (.inl (hcancelled.resolve_right hbefore))
    | join hlast hcancelled _ => exact .join hlast hcancelled hafter
  | cancels hcancelled =>
    refine h.goes ⟨hcall, rfl⟩ rfl false fun hawaits => ?_
    cases hawaits with
    | leave hlast _ => exact .leave hlast (.inr rfl)
    | join _ hnone _ => cases hcancelled.symm.trans hnone
  | joins hcancelled => exact h.joined ⟨hcall, rfl⟩ hcancelled
  | fails =>
    refine h.joinFailed ⟨hcall, rfl⟩ .connectFailed fun hawaits build hlast => ?_
    cases hawaits with
    | leave hleft _ => cases hleft.symm.trans hlast
    | join hjoin _ _ =>
      cases hjoin.symm.trans hlast
      exact ⟨rfl, rfl⟩
  | abandons reason =>
    refine h.joinFailed ⟨hcall, rfl⟩ reason fun hawaits build hlast => ?_
    cases hawaits with
    | leave hleft _ => cases hleft.symm.trans hlast
    | join _ _ hphase => exact absurd rfl hphase
  | discards => exact absurd (List.mem_of_getElem? hcall) h.books.kept
  | announced =>
    refine h.returned hcall rfl nofun _ fun hsettled => ?_
    refine ⟨hsettled.joined, hsettled.reported, fun hgone build hlast => ?_, fun hgone hevent => ?_⟩
    · exact (hsettled.failed hgone build hlast).setCall hcall nofun _
    · obtain ⟨j, hj⟩ := List.mem_iff_getElem?.mp (hsettled.owed hgone hevent)
      refine List.mem_of_getElem? (i := j) ?_
      rw [Room.setCall, Calls.get_set hcall, if_neg, hj]
      rintro rfl
      cases hcall.symm.trans hj
  | leaves =>
    have hgone := hpunctual hcall
    refine h.returned hcall rfl nofun (.left :: r.events) fun hsettled => ?_
    refine ⟨?_, ?_, fun _ build hlast => ?_, nofun⟩
    · rw [show _ = none from hgone]
      nofun
    · rw [show _ = none from hgone]
      nofun
    · exact (hsettled.failed hgone build hlast).setCall hcall nofun _

/-! ## Runs -/

/-- Once nothing runs the room follows its last call. -/
theorem Kept.follows (h : r.Kept) (hquiet : r.Quiescent) : r.Follows := by
  have hbuilds : ∀ i c, ¬ r.Running i c := by
    rintro i c ⟨hcall, hbuilding⟩
    have hworking := hquiet c (List.mem_of_getElem? hcall)
    cases c with
    | owner | startingRouter | connecting | closingFailed | closingCancelled => cases hworking
    | _ => cases hbuilding
  cases h.sound with
  | busy i c _ _ hrunning _ => exact absurd ((hrunning i c).mpr ⟨rfl, rfl⟩) (hbuilds i c)
  | idle hpending hcancelled hwaiters _ hsettled =>
    refine ⟨fun hlast => ?_, fun build hlast hstarted => ?_, ?_, ?_, ⟨hpending, hcancelled, hwaiters⟩⟩
    · cases hsession : r.session with
      | none => rfl
      | some build =>
        obtain ⟨k, hjoin⟩ := hsettled.joined (Option.isSome_of_eq_some hsession)
        cases hlast.symm.trans hjoin
    · cases hsession : r.session with
      | none => exact absurd (hsettled.failed hsession build hlast) hstarted
      | some build => rfl
    · refine ⟨fun hevent => ?_, hsettled.reported⟩
      cases hsession : r.session with
      | some build => rfl
      | none =>
        have howed := hsettled.owed hsession hevent
        cases hquiet _ howed
    · intro c hc build
      obtain ⟨j, hj⟩ := List.mem_iff_getElem?.mp hc
      refine ⟨?_, ?_⟩
      · rintro rfl
        obtain ⟨-, d, hrun⟩ := h.books.waiting j build hj
        exact hbuilds build d hrun
      · rintro outcome rfl
        exact h.books.told j build outcome hj

end Room

namespace Page

variable {p p' : Page} {input : Input}

theorem kept_put (h : ∀ room, (p room).Kept) {room : RoomId} {r : Room} (hr : r.Kept) :
    ∀ other, (p.put room r other).Kept := by
  intro other
  unfold put
  split
  · exact hr
  · exact h other

/-- A punctual step keeps every room. -/
theorem step_kept (h : ∀ room, (p room).Kept) (hpunctual : p.Punctual input) (hstep : p.step input = some p') :
    ∀ room, (p' room).Kept := by
  cases input with
  | joinRoom room =>
    cases hstep
    exact kept_put h ((h room).reserveJoin hpunctual)
  | leaveRoomId room =>
    cases hstep
    exact kept_put h (h room).leaveRoomId
  | leaveRoomIdAsync room =>
    cases hstep
    exact kept_put h (h room).leaveRoomIdAsync
  | leaveRoom =>
    cases hstep
    exact fun room => (h room).leaveRoom
  | resume room i ok =>
    obtain ⟨r, hr, rfl⟩ := Option.map_eq_some_iff.mp hstep
    exact kept_put h ((h room).resumeCall hpunctual hr)

end Page

open Reactive

/-- In a run whose steps are all punctual every room follows its last call
whenever no join or leave work of it is in progress. -/
theorem follows_of_punctual {moves : List (Move Page Input)} {p : Page} (run : Run Page.step .new moves p)
    (hpunctual : ∀ m ∈ moves, m.before.Punctual m.input) (room : RoomId) (hquiet : (p room).Quiescent) :
    (p room).Follows := by
  have hkept : ∀ room, (p room).Kept := by
    refine run.keepsUnder (P := fun p => ∀ room, (p room).Kept) (C := Page.Punctual) (fun _ => .new) ?_ hpunctual
    exact fun p input p' hp hin hstep => Page.step_kept hp hin hstep
  exact (hkept room).follows hquiet

/-! ### A join that comes too late -/

section Runs

/-- A room is joined twice and left while it is built, joined again before the build ends, left
once it is there, and joined once more; the latest first. -/
def joinedInTurn : List Input :=
  [.resume "r" 4 true, .resume "r" 4 true, .resume "r" 4 true, .joinRoom "r", .resume "r" 3 true,
    .leaveRoomIdAsync "r", .resume "r" 0 true, .resume "r" 0 true, .joinRoom "r", .leaveRoomId "r",
    .joinRoom "r", .resume "r" 0 true, .joinRoom "r"]

theorem joinedInTurn_follows :
    (play Page.step .new joinedInTurn).1.length = 13 ∧
      ((play Page.step .new joinedInTurn).2 "r").session = some 4 ∧
        ((play Page.step .new joinedInTurn).2 "r").Follows :=
  ⟨by decide, by decide,
    follows_of_punctual (run_play Page.step .new joinedInTurn) (by decide) "r" (by decide)⟩

/-- A room is left while it connects, and joined again while the build that is
given up for it closes its signaler. -/
def joinedWhileClosing : List Input :=
  [.resume "r" 0 true, .joinRoom "r", .resume "r" 0 true, .leaveRoomId "r", .resume "r" 0 true,
    .resume "r" 0 true, .joinRoom "r"]

/-- The last call is a join, the build it waited for was only cancelled, and there is no session. -/
theorem joinedWhileClosing_lost :
    ∃ moves p, Run Page.step .new moves p ∧ (p "r").Quiescent ∧ (p "r").last = .join (some 0) ∧
      (p "r").calls = [.built (.failed .cancelled), .told 0 (.failed .cancelled)] ∧
      (p "r").session = none ∧ ¬ (p "r").Follows := by
  have hlast : ((play Page.step .new joinedWhileClosing).2 "r").last = .join (some 0) := by decide
  have hgone : ((play Page.step .new joinedWhileClosing).2 "r").session = none := by decide
  refine ⟨_, _, run_play Page.step .new joinedWhileClosing, by decide, hlast, by decide, hgone, fun hfollows => ?_⟩
  have hsession := hfollows.joined (some 0) hlast (by decide)
  rw [hgone] at hsession
  cases hsession

end Runs

end Mistlib.WasmL0
