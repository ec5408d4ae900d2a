import Mistlib.Async.Calls
import Mistlib.Async.Reactive
import Mistlib.Data.Table
import Mistlib.Types

/-!
# Rooms

The calls `join_room`, `leave_room_id` and `leave_room` with the tasks they spawn: `run_join`,
and the cleanup of `finish_leave`. A critical section is one step, with the event dispatched
inside it. `JOINS` is held while the sessions are looked at, and building a context, starting a
session and tearing one down are awaits.

`last` records a room's last call, and for a join the build it waits for; nothing reads it.
-/

open Reactive

namespace Mistlib.MistEngine.Rooms

abbrev RoomId := String

/-- `PendingJoins`: the rooms that are being joined, each with whether a leave intervened. -/
abbrev PendingJoins := Table RoomId Bool

namespace PendingJoins

/-- The table after the call, and whether a build is to be started. -/
def reserve (joins : PendingJoins) (room : RoomId) : PendingJoins × Bool :=
  if joins.contains room then (joins.modify room fun _ => false, false)
  else (joins.insert room false, true)

/-- The table after the call, and whether there was an entry. -/
def cancel (joins : PendingJoins) (room : RoomId) : PendingJoins × Bool :=
  if joins.contains room then (joins.modify room fun _ => true, true) else (joins, false)

end PendingJoins

inductive RoomEvent where
  | joined
  | joinFailed
  | left
deriving DecidableEq, Repr

/-- What `run_join` does next. `ok` is what `start_session` answered. -/
inductive Phase where
  | building
  | inserting
  | starting
  /-- `complete_join` is about to look at the entry of its room. -/
  | completing (ok : Bool)
  /-- The build has failed or is cancelled, and its session is to be removed. -/
  | removing (ok : Bool)
  | tearing (ok : Bool)
  | reporting (ok : Bool)
  | done (ok : Bool)
deriving DecidableEq, Repr

structure Build where
  room : RoomId
  phase : Phase
deriving DecidableEq, Repr

/-- The task of `finish_leave`: the sessions it has still to end, and whether
the first of them is torn down. -/
structure Cleanup where
  active : List (RoomId × Nat)
  torn : Bool
deriving DecidableEq, Repr

inductive LastCall where
  | never
  /-- A join before `init`. -/
  | refused
  /-- A join, and the build it started or found in progress. -/
  | join (build : Option Nat)
  | leave
deriving DecidableEq, Repr

/-- A session is known by the build that made it. -/
structure Engine where
  initialized : Bool
  joins : PendingJoins
  sessions : List (RoomId × Nat)
  builds : List Build
  cleanups : List Cleanup
  events : List (RoomId × RoomEvent)
  last : RoomId → LastCall

inductive Input where
  | init
  | joinRoom (room : RoomId)
  | leaveRoomId (room : RoomId)
  | leaveRoom
  /-- The next step of a build. `ok` is what `start_session` answers. -/
  | build (i : Nat) (ok : Bool)
  | cleanup (i : Nat)
deriving DecidableEq, Repr

def Phase.finished : Phase → Bool
  | .done _ => true
  | _ => false

/-- The build of a room that is in progress. -/
def buildOf (builds : List Build) (room : RoomId) : Option Nat :=
  builds.findIdx? fun b => b.room = room && !b.phase.finished

namespace Engine

def new : Engine where
  initialized := false
  joins := ∅
  sessions := []
  builds := []
  cleanups := []
  events := []
  last := fun _ => .never

def roomEvent (e : Engine) (room : RoomId) (event : RoomEvent) : Engine :=
  { e with events := e.events ++ [(room, event)] }

def called (e : Engine) (room : RoomId) (call : LastCall) : Engine :=
  { e with last := fun r => if r = room then call else e.last r }

def hasSession (e : Engine) (room : RoomId) : Bool := e.sessions.any (·.1 = room)

/-- `insert_session`, which keeps the session a room has. -/
def insertSession (e : Engine) (room : RoomId) (ctx : Nat) : Engine :=
  { e with sessions := if e.hasSession room then e.sessions else e.sessions ++ [(room, ctx)] }

def removeSession (e : Engine) (room : RoomId) : Engine :=
  { e with sessions := e.sessions.eraseP (·.1 = room) }

def joinRoom (e : Engine) (room : RoomId) : Engine :=
  if e.initialized = false then (e.roomEvent room .joinFailed).called room .refused
  else if e.joins.contains room = false ∧ e.hasSession room = true then
    (e.roomEvent room .joined).called room (.join none)
  else
    let (joins, starts) := PendingJoins.reserve e.joins room
    if starts then
      let e : Engine := { e with joins, builds := e.builds ++ [⟨room, .building⟩] }
      e.called room (.join (buildOf e.builds room))
    else { e with joins }.called room (.join (buildOf e.builds room))

def finishLeave (e : Engine) (active : List (RoomId × Nat)) : Engine :=
  { e with cleanups := e.cleanups ++ [⟨active, false⟩] }

def leaveRoomId (e : Engine) (room : RoomId) : Engine :=
  let (joins, cancelled) := PendingJoins.cancel e.joins room
  if cancelled then { e with joins }.called room .leave
  else
    ((e.removeSession room).finishLeave (e.sessions.find? (·.1 = room)).toList).called room .leave

def leaveRoom (e : Engine) : Engine :=
  let joins := e.joins.mapVals fun _ _ => true
  let (pending, active) := e.sessions.partition (joins.contains ·.1)
  { e with joins, sessions := pending, last := fun _ => .leave }.finishLeave active

def runJoin (e : Engine) (i : Nat) (room : RoomId) (ok : Bool) : Phase → Option (Engine × Phase)
  | .building => some (e, .inserting)
  | .inserting => some (e.insertSession room i, .starting)
  | .starting => some (e, .completing ok)
  | .completing ok =>
    -- the index into `JOINS` would panic without an entry, which nobody else removes
    if ok = true ∧ e.joins.get room = some false then
      some ({ e with joins := e.joins.erase room }.roomEvent room .joined, .done ok)
    else some (e, .removing ok)
  | .removing ok => some (e.removeSession room, .tearing ok)
  | .tearing ok => some (e, .reporting ok)
  | .reporting ok =>
    some ({ e with joins := e.joins.erase room }.roomEvent room .joinFailed, .done ok)
  | .done _ => none

def step (e : Engine) : Input → Option Engine
  | .init => some { e with initialized := true }
  | .joinRoom room => some (e.joinRoom room)
  | .leaveRoomId room => some (e.leaveRoomId room)
  | .leaveRoom => some e.leaveRoom
  | .build i ok =>
    e.builds[i]?.bind fun b =>
      (e.runJoin i b.room ok b.phase).map fun (after, phase) =>
        { after with builds := e.builds.set i ⟨b.room, phase⟩ }
  | .cleanup i =>
    e.cleanups[i]?.bind fun c =>
      match c with
      | ⟨[], _⟩ => none
      | ⟨active, false⟩ => some { e with cleanups := e.cleanups.set i ⟨active, true⟩ }
      | ⟨(room, _) :: rest, true⟩ =>
        some ({ e with cleanups := e.cleanups.set i ⟨rest, false⟩ }.roomEvent room .left)

def Quiescent (e : Engine) : Prop :=
  (∀ b ∈ e.builds, b.phase.finished = true) ∧ ∀ c ∈ e.cleanups, c.active = []
deriving Decidable

def sessionsOf (e : Engine) (room : RoomId) : List (RoomId × Nat) := e.sessions.filter (·.1 = room)

def lastEvent (e : Engine) (room : RoomId) : Option RoomEvent :=
  (e.events.reverse.find? (·.1 = room)).map (·.2)

/-- The startup the room's last join waited for has failed. -/
def StartupFailed (e : Engine) (room : RoomId) : Prop :=
  ∃ i, e.last room = .join (some i) ∧ e.builds[i]? = some ⟨room, .done false⟩

end Engine

/-- The startup succeeded, and the session is on its way out for a leave. -/
def Phase.cancelled : Phase → Bool
  | .removing ok | .tearing ok | .reporting ok => ok
  | _ => false

namespace Engine

/-- No join finds its room's build on the way out for an earlier leave, and no
cleanup reports that a room is left when the room has been joined again. -/
def Orderly (e : Engine) : Input → Prop
  | .joinRoom room => ∀ b ∈ e.builds, b.room = room → b.phase.cancelled = false
  | .cleanup i => ∀ c ∈ e.cleanups[i]?, c.torn = true → ∀ s ∈ c.active.head?,
      e.hasSession s.1 = true → e.joins.contains s.1 = true
  | _ => True

instance (e : Engine) : DecidablePred e.Orderly
  | .joinRoom _ => inferInstanceAs (Decidable (∀ b ∈ e.builds, _))
  | .cleanup i => inferInstanceAs (Decidable (∀ c ∈ e.cleanups[i]?, _))
  | .init | .leaveRoomId _ | .leaveRoom | .build _ _ => .isTrue trivial

end Engine

/-! ## The sessions -/

/-- The phases in which a build's session is registered. -/
def Phase.hosted : Phase → Bool
  | .starting | .completing _ | .removing _ => true
  | _ => false

namespace Engine

variable {e e' : Engine} {room r : RoomId} {i ctx : Nat} {phase : Phase} {ok : Bool} {input : Input}

theorem hasSession_iff : e.hasSession r = true ↔ r ∈ e.sessions.map Prod.fst := by
  simp [hasSession]

def Distinct (e : Engine) : Prop := (e.sessions.map Prod.fst).Nodup

theorem rooms_eraseP (sessions : List (RoomId × Nat)) :
    (sessions.eraseP (·.1 = room)).map Prod.fst = (sessions.map Prod.fst).erase room := by
  induction sessions with
  | nil => rfl
  | cons s rest ih =>
    by_cases hs : s.1 = room
    · rw [List.eraseP_cons_of_pos (by simpa using hs), List.map_cons, hs, List.erase_cons_head]
    · rw [List.eraseP_cons_of_neg (by simpa using hs), List.map_cons, List.map_cons, ih,
        List.erase_cons_tail (by simpa using hs)]

theorem hasSession_removeSession (h : e.Distinct) :
    (e.removeSession room).hasSession r = true ↔ r ≠ room ∧ e.hasSession r = true := by
  rw [hasSession_iff, hasSession_iff, removeSession, rooms_eraseP, h.mem_erase_iff]

theorem Distinct.removeSession (h : e.Distinct) : (e.removeSession room).Distinct := by
  rw [Distinct, Engine.removeSession, rooms_eraseP]
  exact h.erase room

theorem hasSession_insertSession :
    (e.insertSession room ctx).hasSession r = true ↔ r = room ∨ e.hasSession r = true := by
  rw [hasSession_iff, insertSession]
  split
  · next hroom =>
    rw [← hasSession_iff]
    refine ⟨.inr, fun h => h.elim ?_ id⟩
    rintro rfl
    exact hroom
  · rw [hasSession_iff, List.map_append, List.mem_append, List.map_singleton, List.mem_singleton,
      or_comm]

theorem Distinct.insertSession (h : e.Distinct) : (e.insertSession room ctx).Distinct := by
  unfold Distinct Engine.insertSession
  split
  · exact h
  · next hroom =>
    rw [hasSession_iff] at hroom
    rw [List.map_append, List.map_singleton]
    exact List.nodup_append.mpr ⟨h, List.nodup_singleton _, fun a ha b hb => by
      rintro rfl
      rw [List.mem_singleton.mp hb] at ha
      exact hroom ha⟩

theorem leaveRoom_sessions :
    e.leaveRoom.sessions = e.sessions.filter fun s => e.joins.contains s.1 := by
  simp [leaveRoom, finishLeave, List.partition_eq_filter_filter, Table.contains]

theorem leaveRoom_cleanups :
    e.leaveRoom.cleanups =
      e.cleanups ++ [⟨e.sessions.filter fun s => !e.joins.contains s.1, false⟩] := by
  simp [leaveRoom, finishLeave, List.partition_eq_filter_filter, Table.contains, Function.comp_def]

theorem Distinct.leaveRoom (h : e.Distinct) : e.leaveRoom.Distinct := by
  rw [Distinct, leaveRoom_sessions]
  exact h.sublist (List.filter_sublist.map _)

theorem hasSession_leaveRoom :
    e.leaveRoom.hasSession r = true ↔ e.hasSession r = true ∧ e.joins.contains r = true := by
  simp only [hasSession, leaveRoom_sessions, List.any_filter]
  grind

theorem sessionsOf_length (h : e.Distinct) :
    (e.sessionsOf r).length = if e.hasSession r = true then 1 else 0 := by
  have hcount : (e.sessionsOf r).length = (e.sessions.map Prod.fst).count r := by
    rw [sessionsOf, ← List.countP_eq_length_filter, List.count, List.countP_map]
    exact List.countP_congr fun s _ => by simp
  split
  · next hsome => rw [hcount, List.count_eq_one_of_mem h (hasSession_iff.mp hsome)]
  · next hnone => rw [hcount, List.count_eq_zero.mpr fun hmem => hnone (hasSession_iff.mpr hmem)]

theorem find_session (h : e.hasSession r = true) :
    ∃ s, e.sessions.find? (·.1 = r) = some s ∧ s.1 = r := by
  cases hfind : e.sessions.find? (·.1 = r) with
  | some s => exact ⟨s, rfl, by simpa using List.find?_some hfind⟩
  | none =>
    obtain ⟨s, hs, hr⟩ := List.any_eq_true.mp h
    exact absurd hr (List.find?_eq_none.mp hfind s hs)

/-! ## One room -/

def Running (e : Engine) (r : RoomId) (i : Nat) (phase : Phase) : Prop :=
  e.builds[i]? = some ⟨r, phase⟩ ∧ phase.finished = false

/-- A cleanup has still to report that the room is left. -/
def Owes (e : Engine) (r : RoomId) : Prop := ∃ c ∈ e.cleanups, r ∈ c.active.map Prod.fst

/-- The last call and the last event of a room that is not being joined. -/
structure Settled (e : Engine) (r : RoomId) : Prop where
  joined : e.hasSession r = true → ∃ k, e.last r = .join k
  reported : e.hasSession r = true → e.lastEvent r = some .joined
  failed : ∀ k, e.hasSession r = false → e.last r = .join k → e.StartupFailed r
  owed : e.hasSession r = false → e.lastEvent r = some .joined → e.Owes r

/-- The entry of a room that is being joined tells whether its last call was a
leave; otherwise its last join waits for the build. -/
inductive Awaits (e : Engine) (r : RoomId) (i : Nat) (phase : Phase) : Bool → Prop
  | leave : e.last r = .leave → Awaits e r i phase true
  | join : e.last r = .join (some i) → phase.cancelled = false → Awaits e r i phase false

inductive Sound (e : Engine) (r : RoomId) : Prop
  | idle : e.joins.get r = none → (∀ i phase, ¬ e.Running r i phase) → e.Settled r → Sound e r
  | busy (cancelled : Bool) (i : Nat) (phase : Phase) : e.joins.get r = some cancelled →
      (∀ j phase', e.Running r j phase' ↔ j = i ∧ phase' = phase) →
      e.hasSession r = phase.hosted → e.Awaits r i phase cancelled → Sound e r

structure Same (e e' : Engine) (r : RoomId) : Prop where
  joins : e'.joins.get r = e.joins.get r
  sessions : e'.hasSession r = true ↔ e.hasSession r = true
  builds : ∀ (i : Nat) (phase : Phase), e'.builds[i]? = some ⟨r, phase⟩ ↔ e.builds[i]? = some ⟨r, phase⟩
  last : e'.last r = e.last r
  event : e'.lastEvent r = e.lastEvent r
  owes : e.Owes r → e'.Owes r

theorem Same.running (h : Same e e' r) : e'.Running r i phase ↔ e.Running r i phase :=
  and_congr_left' (h.builds i phase)

theorem Sound.same (h : e.Sound r) (hsame : Same e e' r) : e'.Sound r := by
  have hsessions : e'.hasSession r = e.hasSession r := Bool.eq_iff_iff.mpr hsame.sessions
  cases h with
  | idle hjoins hnone hsettled =>
    refine .idle (hsame.joins.trans hjoins) (fun i phase => hsame.running.not.mpr (hnone i phase)) ?_
    obtain ⟨hjoined, hreported, hfailed, howed⟩ := hsettled
    refine ⟨?_, ?_, ?_, ?_⟩
    · rw [hsessions, hsame.last]
      exact hjoined
    · rw [hsessions, hsame.event]
      exact hreported
    · rw [hsessions, hsame.last]
      intro k hgone hlast
      obtain ⟨i, hjoin, hbuild⟩ := hfailed k hgone hlast
      exact ⟨i, hsame.last.trans hjoin, (hsame.builds i _).mpr hbuild⟩
    · rw [hsessions, hsame.event]
      exact fun hgone hevent => hsame.owes (howed hgone hevent)
  | busy cancelled i phase hjoins hrunning hhosted hawaits =>
    refine .busy cancelled i phase (hsame.joins.trans hjoins) ?_ (hsessions.trans hhosted) ?_
    · exact fun j phase' => hsame.running.trans (hrunning j phase')
    · cases hawaits with
      | leave hlast => exact .leave (hsame.last.trans hlast)
      | join hlast hphase => exact .join (hsame.last.trans hlast) hphase

theorem lastEvent_roomEvent (event : RoomEvent) :
    (e.roomEvent room event).lastEvent r = if r = room then some event else e.lastEvent r := by
  by_cases hr : r = room
  · simp [lastEvent, roomEvent, hr]
  · simp [lastEvent, roomEvent, hr, Ne.symm hr]

theorem contains_eq_false : e.joins.contains r = false ↔ e.joins.get r = none := by
  rw [Table.contains, Option.isSome_eq_false_iff, Option.isNone_iff_eq_none]

theorem contains_of_get {c : Bool} (h : e.joins.get r = some c) : e.joins.contains r = true := by
  rw [Table.contains, h, Option.isSome_some]

theorem last_called (e : Engine) (room : RoomId) (call : LastCall) :
    (e.called room call).last room = call := if_pos rfl

/-! ### Joins -/

theorem buildOf_eq (hrunning : ∀ j phase', e.Running r j phase' ↔ j = i ∧ phase' = phase) :
    buildOf e.builds r = some i := by
  obtain ⟨hbuild, hunfinished⟩ := (hrunning i phase).mpr ⟨rfl, rfl⟩
  obtain ⟨hlt, hget⟩ := List.getElem?_eq_some_iff.mp hbuild
  rw [buildOf, List.findIdx?_eq_some_iff_getElem]
  refine ⟨hlt, by simp [hget, hunfinished], fun j hj => ?_⟩
  intro hfound
  simp only [Bool.and_eq_true, decide_eq_true_eq, Bool.not_eq_true'] at hfound
  have hearlier : e.Running r j e.builds[j].phase := by
    refine ⟨?_, hfound.2⟩
    rw [List.getElem?_eq_getElem (by omega), ← hfound.1]
  have := ((hrunning j _).mp hearlier).1
  omega

inductive Joins (e : Engine) (room : RoomId) : Engine → Prop
  | refused : e.initialized = false →
      Joins e room ((e.roomEvent room .joinFailed).called room .refused)
  | finds : e.joins.get room = none → e.hasSession room = true →
      Joins e room ((e.roomEvent room .joined).called room (.join none))
  | starts (started : Engine) : e.initialized = true → e.joins.get room = none →
      e.hasSession room = false → started = { e with
        joins := e.joins.insert room false, builds := e.builds ++ [⟨room, .building⟩] } →
      Joins e room (started.called room (.join (buildOf started.builds room)))
  | waits (cancelled : Bool) : e.joins.get room = some cancelled →
      Joins e room ({ e with joins := e.joins.modify room fun _ => false }.called room
        (.join (buildOf e.builds room)))

theorem joinRoom_cases (e : Engine) (room : RoomId) : e.Joins room (e.joinRoom room) := by
  unfold joinRoom
  split
  · next hinit => exact .refused hinit
  · next hinit =>
    split
    · next hfound => exact .finds (contains_eq_false.mp hfound.1) hfound.2
    · next hnew =>
      unfold PendingJoins.reserve
      cases hget : e.joins.get room with
      | none =>
        have hcontains := contains_eq_false.mpr hget
        have hsession : e.hasSession room = false := by simpa [hcontains] using hnew
        rw [hcontains]
        exact .starts _ (by simpa using hinit) hget hsession rfl
      | some cancelled =>
        rw [contains_of_get hget]
        exact .waits cancelled hget

theorem joinRoom_same (hr : r ≠ room) : Same e (e.joinRoom room) r := by
  have hcases := joinRoom_cases e room
  generalize e.joinRoom room = after at hcases ⊢
  cases hcases with
  | refused _ | finds _ _ =>
    exact ⟨rfl, Iff.rfl, fun _ _ => Iff.rfl, if_neg hr, (lastEvent_roomEvent _).trans (if_neg hr), id⟩
  | starts started _ _ _ hstarted =>
    subst hstarted
    refine ⟨?_, Iff.rfl, fun i phase => ?_, if_neg hr, rfl, id⟩
    · exact (Table.get_insert _ _ _ _).trans (if_neg hr)
    · simp only [called, Calls.get_begin]
      split
      · next hi =>
        subst hi
        simp [hr.symm]
      · rfl
  | waits cancelled _ =>
    refine ⟨?_, Iff.rfl, fun _ _ => Iff.rfl, if_neg hr, rfl, id⟩
    simp [called, Table.get_modify, hr]

theorem Sound.joinRoom (h : e.Sound room) (horderly : e.Orderly (.joinRoom room))
    (hready : e.initialized = false → e.joins.get room = none ∧ e.hasSession room = false) :
    (e.joinRoom room).Sound room := by
  have hcases := joinRoom_cases e room
  generalize e.joinRoom room = after at hcases ⊢
  cases hcases with
  | refused hinit =>
    obtain ⟨hjoins, hsession⟩ := hready hinit
    cases h with
    | busy cancelled i phase hpending _ _ _ => cases hjoins.symm.trans hpending
    | idle _ hnone _ =>
      refine .idle hjoins hnone ⟨?_, ?_, ?_, ?_⟩
      · exact fun hsome => absurd (hsession.symm.trans hsome) Bool.false_ne_true
      · exact fun hsome => absurd (hsession.symm.trans hsome) Bool.false_ne_true
      · intro k _ hlast
        have hrefused := last_called (e.roomEvent room .joinFailed) room .refused
        cases hrefused.symm.trans hlast
      · intro _ hevent
        have hlatest := (lastEvent_roomEvent (e := e) (r := room) .joinFailed).trans (if_pos rfl)
        cases hlatest.symm.trans hevent
  | finds hjoins hsession =>
    cases h with
    | busy cancelled i phase hpending _ _ _ => cases hjoins.symm.trans hpending
    | idle _ hnone _ =>
      refine .idle hjoins hnone ⟨?_, ?_, ?_, ?_⟩
      · exact fun _ => ⟨none, if_pos rfl⟩
      · exact fun _ => (lastEvent_roomEvent .joined).trans (if_pos rfl)
      · exact fun k hgone => absurd (hgone.symm.trans hsession) Bool.false_ne_true
      · exact fun hgone => absurd (hgone.symm.trans hsession) Bool.false_ne_true
  | starts started _ hjoins hsession hstarted =>
    cases h with
    | busy cancelled i phase hpending _ _ _ => cases hjoins.symm.trans hpending
    | idle _ hnone _ =>
      have hrunning : ∀ j phase', started.Running room j phase' ↔
          j = e.builds.length ∧ phase' = .building := by
        intro j phase'
        have hbefore := hnone j phase'
        unfold Running at hbefore ⊢
        rw [hstarted, Calls.get_begin]
        split
        · next hj =>
          simp only [hj, Option.some.injEq, Build.mk.injEq, true_and]
          refine ⟨fun hb => hb.1.symm, ?_⟩
          rintro rfl
          exact ⟨rfl, rfl⟩
        · next hj => simp [hbefore, hj]
      have hbuild := buildOf_eq hrunning
      refine .busy false e.builds.length .building ?_ hrunning ?_ (.join ?_ rfl)
      · rw [hstarted]
        exact Table.get_insert_self _ _ _
      · rw [hstarted]
        exact hsession
      · rw [hbuild]
        exact if_pos rfl
  | waits cancelled hpending =>
    cases h with
    | idle hjoins _ _ => cases hjoins.symm.trans hpending
    | busy c i phase _ hrunning hhosted hawaits =>
      refine .busy false i phase ?_ hrunning hhosted (.join ?_ ?_)
      · simp [called, Table.get_modify, hpending]
      · rw [buildOf_eq hrunning]
        exact if_pos rfl
      · have hbuild := ((hrunning i phase).mpr ⟨rfl, rfl⟩).1
        exact horderly _ (List.mem_of_getElem? hbuild) rfl

/-! ### Leaves -/

inductive Leaves (e : Engine) (room : RoomId) : Engine → Prop
  | cancels (cancelled : Bool) : e.joins.get room = some cancelled →
      Leaves e room ({ e with joins := e.joins.modify room fun _ => true }.called room .leave)
  | ends : e.joins.get room = none →
      Leaves e room (((e.removeSession room).finishLeave
        (e.sessions.find? (·.1 = room)).toList).called room .leave)

theorem leaveRoomId_cases (e : Engine) (room : RoomId) : e.Leaves room (e.leaveRoomId room) := by
  unfold leaveRoomId PendingJoins.cancel
  cases hget : e.joins.get room with
  | none =>
    have hcontains := contains_eq_false.mpr hget
    rw [hcontains]
    exact .ends hget
  | some cancelled =>
    rw [contains_of_get hget]
    exact .cancels cancelled hget

theorem leaveRoomId_same (hd : e.Distinct) (hr : r ≠ room) : Same e (e.leaveRoomId room) r := by
  have hcases := leaveRoomId_cases e room
  generalize e.leaveRoomId room = after at hcases ⊢
  cases hcases with
  | cancels cancelled _ =>
    refine ⟨?_, Iff.rfl, fun _ _ => Iff.rfl, if_neg hr, rfl, id⟩
    simp [called, Table.get_modify, hr]
  | ends _ =>
    refine ⟨rfl, ?_, fun _ _ => Iff.rfl, if_neg hr, rfl, ?_⟩
    · exact (hasSession_removeSession hd).trans (and_iff_right hr)
    · rintro ⟨c, hc, howed⟩
      exact ⟨c, List.mem_append_left _ hc, howed⟩

theorem Settled.leave (h : e.Settled r) (hlast : e'.last r = .leave)
    (hsession : ¬ e'.hasSession r = true) (hevent : e'.lastEvent r = e.lastEvent r)
    (howes : e.hasSession r = true ∨ e.Owes r → e'.Owes r) : e'.Settled r := by
  refine ⟨fun hsome => absurd hsome hsession, fun hsome => absurd hsome hsession, ?_, ?_⟩
  · intro k _ hjoin
    cases hlast.symm.trans hjoin
  · intro _ hjoined
    refine howes ?_
    cases hbefore : e.hasSession r with
    | true => exact .inl rfl
    | false => exact .inr (h.owed hbefore (hevent.symm.trans hjoined))

theorem Sound.leaveRoomId (h : e.Sound room) (hd : e.Distinct) : (e.leaveRoomId room).Sound room := by
  have hcases := leaveRoomId_cases e room
  generalize e.leaveRoomId room = after at hcases ⊢
  cases hcases with
  | cancels cancelled hpending =>
    cases h with
    | idle hjoins _ _ => cases hjoins.symm.trans hpending
    | busy c i phase _ hrunning hhosted _ =>
      refine .busy true i phase ?_ hrunning hhosted (.leave (last_called _ _ _))
      simp [called, Table.get_modify, hpending]
  | ends hjoins =>
    cases h with
    | busy c i phase hpending _ _ _ => cases hjoins.symm.trans hpending
    | idle _ hnone hsettled =>
      refine .idle hjoins hnone (hsettled.leave (last_called _ _ _) ?_ rfl ?_)
      · exact fun hsome => ((hasSession_removeSession hd).mp hsome).1 rfl
      · rintro (hsession | ⟨c, hc, howed⟩)
        · obtain ⟨s, hfind, hs⟩ := find_session hsession
          refine ⟨_, List.mem_append_right _ (List.mem_singleton_self _), ?_⟩
          rw [hfind, Option.toList_some, List.map_singleton, hs]
          exact List.mem_singleton_self _
        · exact ⟨c, List.mem_append_left _ hc, howed⟩

theorem Sound.leaveRoom (h : e.Sound r) : e.leaveRoom.Sound r := by
  cases h with
  | idle hjoins hnone hsettled =>
    refine .idle ?_ hnone (hsettled.leave rfl ?_ rfl ?_)
    · simp [Engine.leaveRoom, finishLeave, hjoins]
    · intro hsome
      rw [hasSession_leaveRoom, contains_eq_false.mpr hjoins] at hsome
      exact Bool.false_ne_true hsome.2
    · rintro (hsession | ⟨c, hc, howed⟩)
      · obtain ⟨s, hs, rfl⟩ := List.mem_map.mp (hasSession_iff.mp hsession)
        rw [Owes, leaveRoom_cleanups]
        refine ⟨_, List.mem_append_right _ (List.mem_singleton_self _), List.mem_map_of_mem ?_⟩
        simp [hs, Table.contains, hjoins]
      · rw [Owes, leaveRoom_cleanups]
        exact ⟨c, List.mem_append_left _ hc, howed⟩
  | busy cancelled i phase hjoins hrunning hhosted _ =>
    refine .busy true i phase ?_ hrunning ?_ (.leave rfl)
    · simp [Engine.leaveRoom, finishLeave, hjoins]
    · rw [← hhosted, Bool.eq_iff_iff, hasSession_leaveRoom, contains_of_get hjoins]
      exact and_iff_left rfl

/-! ### Builds -/

inductive Builds (e : Engine) (i : Nat) (room : RoomId) : Phase → Engine → Phase → Prop
  | built : Builds e i room .building e .inserting
  | inserts : Builds e i room .inserting (e.insertSession room i) .starting
  | starts (ok : Bool) : Builds e i room .starting e (.completing ok)
  | completes : e.joins.get room = some false →
      Builds e i room (.completing true)
        ({ e with joins := e.joins.erase room }.roomEvent room .joined) (.done true)
  | gives (ok : Bool) : ok = false ∨ e.joins.get room ≠ some false →
      Builds e i room (.completing ok) e (.removing ok)
  | removes (ok : Bool) : Builds e i room (.removing ok) (e.removeSession room) (.tearing ok)
  | tears (ok : Bool) : Builds e i room (.tearing ok) e (.reporting ok)
  | reports (ok : Bool) : Builds e i room (.reporting ok)
      ({ e with joins := e.joins.erase room }.roomEvent room .joinFailed) (.done ok)

variable {phase' : Phase}

theorem runJoin_cases (h : e.runJoin i room ok phase = some (e', phase')) :
    e.Builds i room phase e' phase' := by
  cases phase with
  | building =>
    cases h
    exact .built
  | inserting =>
    cases h
    exact .inserts
  | starting =>
    cases h
    exact .starts ok
  | completing started =>
    simp only [runJoin] at h
    split at h
    · next hcomplete =>
      cases h
      rw [hcomplete.1]
      exact .completes hcomplete.2
    · next hgiven =>
      cases h
      refine .gives started ?_
      cases started with
      | false => exact .inl rfl
      | true => exact .inr fun hentry => hgiven ⟨rfl, hentry⟩
  | removing started =>
    cases h
    exact .removes started
  | tearing started =>
    cases h
    exact .tears started
  | reporting started =>
    cases h
    exact .reports started
  | done started => cases h

theorem build_same (hd : e.Distinct) (hr : r ≠ room) (hcall : e.builds[i]? = some ⟨room, phase⟩)
    (hbuilds : e.Builds i room phase e' phase') :
    Same e { e' with builds := e.builds.set i ⟨room, phase'⟩ } r := by
  have hset : ∀ (j : Nat) (phase'' : Phase), (e.builds.set i ⟨room, phase'⟩)[j]? = some ⟨r, phase''⟩ ↔
      e.builds[j]? = some ⟨r, phase''⟩ := by
    intro j phase''
    rw [Calls.get_set hcall]
    split
    · next hj =>
      subst hj
      simp [hcall, hr.symm]
    · rfl
  cases hbuilds with
  | built | starts ok | gives ok _ | tears ok => exact ⟨rfl, Iff.rfl, hset, rfl, rfl, id⟩
  | inserts =>
    exact ⟨rfl, hasSession_insertSession.trans (or_iff_right hr), hset, rfl, rfl, id⟩
  | completes _ | reports ok =>
    refine ⟨?_, Iff.rfl, hset, rfl, (lastEvent_roomEvent _).trans (if_neg hr), id⟩
    exact (Table.get_erase _ _ _).trans (if_neg hr)
  | removes ok =>
    exact ⟨rfl, (hasSession_removeSession hd).trans (and_iff_right hr), hset, rfl, rfl, id⟩

theorem Sound.build (h : e.Sound room) (hd : e.Distinct) (hcall : e.builds[i]? = some ⟨room, phase⟩)
    (hbuilds : e.Builds i room phase e' phase') :
    { e' with builds := e.builds.set i ⟨room, phase'⟩ }.Sound room := by
  have hunfinished : phase.finished = false := by
    cases hbuilds with
    | _ => rfl
  have hself : e.Running room i phase := ⟨hcall, hunfinished⟩
  cases h with
  | idle _ hnone _ => exact absurd hself (hnone i phase)
  | busy cancelled j phase₀ hjoins hrunning hhosted hawaits =>
    obtain ⟨rfl, rfl⟩ := (hrunning i phase).mp hself
    -- the build stays the one that is in progress
    have hnext : ∀ k phase'', (Running { e' with builds := e.builds.set i ⟨room, phase'⟩ } room k phase'') ↔
        (k = i ∧ phase'' = phase') ∧ phase'.finished = false := by
      intro k phase''
      unfold Running
      rw [Calls.get_set hcall]
      split
      · next hk =>
        simp only [Option.some.injEq, Build.mk.injEq, true_and, hk]
        grind
      · next hk =>
        have := hrunning k phase''
        simp only [Running, hk, false_and, iff_false] at this ⊢
        exact this
    have hgoes : phase'.finished = false → e'.joins = e.joins → e'.last = e.last →
        e'.hasSession room = phase'.hosted → phase'.cancelled = phase.cancelled ∨ cancelled = true ∨
          phase'.cancelled = false → Sound { e' with builds := e.builds.set i ⟨room, phase'⟩ } room := by
      intro hfinished hsame hlasts hhosted' hphases
      refine .busy cancelled i phase' ?_ (fun k phase'' => (hnext k phase'').trans (and_iff_left hfinished))
        hhosted' ?_
      · rw [hsame]
        exact hjoins
      · cases hawaits with
        | leave hlast => exact .leave (hlasts ▸ hlast)
        | join hlast hphase =>
          refine .join (hlasts ▸ hlast) ?_
          rcases hphases with hsame | hleft | hphase'
          · exact hsame.trans hphase
          · cases hleft
          · exact hphase'
    have hends : phase'.finished = true → ∀ k phase'',
        ¬ Running { e' with builds := e.builds.set i ⟨room, phase'⟩ } room k phase'' := by
      intro hfinished k phase'' hrunning'
      have := ((hnext k phase'').mp hrunning').2
      rw [hfinished] at this
      cases this
    cases hbuilds with
    | built | starts ok | tears ok => exact hgoes rfl rfl rfl hhosted (.inl rfl)
    | inserts => exact hgoes rfl rfl rfl (hasSession_insertSession.mpr (.inl rfl)) (.inl rfl)
    | gives ok hgiven =>
      refine hgoes rfl rfl rfl hhosted (.inr ?_)
      cases hgiven with
      | inl hfailed => exact .inr hfailed
      | inr hentry =>
        cases cancelled with
        | true => exact .inl rfl
        | false => exact absurd hjoins hentry
    | removes ok =>
      refine hgoes rfl rfl rfl ?_ (.inl rfl)
      rw [Bool.eq_iff_iff, hasSession_removeSession hd]
      simp [Phase.hosted]
    | completes hentry =>
      cases hjoins.symm.trans hentry
      cases hawaits with
      | join hlast _ =>
        refine .idle ?_ (hends rfl) ⟨?_, ?_, ?_, ?_⟩
        · exact (Table.get_erase _ _ _).trans (if_pos rfl)
        · exact fun _ => ⟨some i, hlast⟩
        · exact fun _ => (lastEvent_roomEvent .joined).trans (if_pos rfl)
        · exact fun k hgone => absurd (hgone.symm.trans hhosted) Bool.false_ne_true
        · exact fun hgone => absurd (hgone.symm.trans hhosted) Bool.false_ne_true
    | reports ok =>
      have hlatest := (lastEvent_roomEvent (e := { e with joins := e.joins.erase room }) (r := room)
        .joinFailed).trans (if_pos rfl)
      refine .idle ?_ (hends rfl) ⟨?_, ?_, ?_, ?_⟩
      · exact (Table.get_erase _ _ _).trans (if_pos rfl)
      · exact fun hsome => absurd (hhosted.symm.trans hsome) Bool.false_ne_true
      · exact fun hsome => absurd (hhosted.symm.trans hsome) Bool.false_ne_true
      · intro k _ hjoin
        cases hawaits with
        | leave hlast => cases hlast.symm.trans hjoin
        | join hlast hphase =>
          refine ⟨i, hlast, ?_⟩
          have hfailed : ok = false := hphase
          rw [hfailed]
          exact (Calls.get_set hcall _ _).trans (if_pos rfl)
      · intro _ hevent
        cases hlatest.symm.trans hevent

/-! ### Cleanups -/

inductive Cleans (e : Engine) (i : Nat) : Cleanup → Engine → Prop
  | tears (active : List (RoomId × Nat)) :
      Cleans e i ⟨active, false⟩ { e with cleanups := e.cleanups.set i ⟨active, true⟩ }
  | reports (room : RoomId) (ctx : Nat) (rest : List (RoomId × Nat)) :
      Cleans e i ⟨(room, ctx) :: rest, true⟩
        ({ e with cleanups := e.cleanups.set i ⟨rest, false⟩ }.roomEvent room .left)

theorem cleanup_cases (h : e.step (.cleanup i) = some e') :
    ∃ c, e.cleanups[i]? = some c ∧ e.Cleans i c e' := by
  obtain ⟨c, hcall, hclean⟩ := Option.bind_eq_some_iff.mp h
  refine ⟨c, hcall, ?_⟩
  split at hclean
  · cases hclean
  · cases hclean
    exact .tears _
  · cases hclean
    exact .reports _ _ _

theorem owes_set {c c' : Cleanup} (hcall : e.cleanups[i]? = some c)
    (hkeeps : r ∈ c.active.map Prod.fst → r ∈ c'.active.map Prod.fst) (h : e.Owes r) :
    Owes { e with cleanups := e.cleanups.set i c' } r := by
  obtain ⟨d, hd, howed⟩ := h
  obtain ⟨j, hj⟩ := List.getElem?_of_mem hd
  have hget := Calls.get_set hcall c' j
  split at hget
  · next hji =>
    subst hji
    cases hcall.symm.trans hj
    exact ⟨c', List.mem_of_getElem? hget, hkeeps howed⟩
  · exact ⟨d, List.mem_of_getElem? (hget.trans hj), howed⟩

theorem Sound.cleanup (h : e.Sound r) (horderly : e.Orderly (.cleanup i))
    (hstep : e.step (.cleanup i) = some e') : e'.Sound r := by
  obtain ⟨c, hcall, hclean⟩ := cleanup_cases hstep
  cases hclean with
  | tears active => exact h.same ⟨rfl, Iff.rfl, fun _ _ => Iff.rfl, rfl, rfl, owes_set hcall id⟩
  | reports room ctx rest =>
    by_cases hr : r = room
    · subst hr
      have hlatest := (lastEvent_roomEvent (e := { e with cleanups := e.cleanups.set i ⟨rest, false⟩ })
        (r := r) .left).trans (if_pos rfl)
      cases h with
      | busy cancelled j phase hjoins hrunning hhosted hawaits =>
        refine .busy cancelled j phase hjoins hrunning hhosted ?_
        cases hawaits with
        | leave hlast => exact .leave hlast
        | join hlast hphase => exact .join hlast hphase
      | idle hjoins hnone hsettled =>
        have hgone : e.hasSession r = false := by
          cases hsession : e.hasSession r with
          | false => rfl
          | true =>
            have hcontains := horderly _ hcall rfl _ rfl hsession
            rw [contains_eq_false.mpr hjoins] at hcontains
            cases hcontains
        refine .idle hjoins hnone ⟨?_, ?_, hsettled.failed, ?_⟩
        · exact fun hsome => absurd (hgone.symm.trans hsome) Bool.false_ne_true
        · exact fun hsome => absurd (hgone.symm.trans hsome) Bool.false_ne_true
        · intro _ hevent
          cases hlatest.symm.trans hevent
    · refine h.same ⟨rfl, Iff.rfl, fun _ _ => Iff.rfl, rfl, (lastEvent_roomEvent _).trans (if_neg hr), ?_⟩
      refine owes_set hcall fun howed => ?_
      exact (List.mem_cons.mp howed).resolve_left hr

/-! ## Runs -/

structure Invariant (e : Engine) : Prop where
  distinct : e.Distinct
  /-- Before `init` nothing is joined. -/
  ready : e.initialized = false → ∀ r, e.joins.get r = none ∧ e.hasSession r = false
  sound : ∀ r, e.Sound r

theorem Invariant.new : Invariant .new where
  distinct := List.nodup_nil
  ready := fun _ r => ⟨Table.get_empty r, rfl⟩
  sound := fun r => .idle (Table.get_empty r) (fun i phase h => by cases h.1) ⟨nofun, nofun, nofun, nofun⟩

theorem step_build (h : e.step (.build i ok) = some e') :
    ∃ room phase after phase', e.builds[i]? = some ⟨room, phase⟩ ∧ e.Builds i room phase after phase' ∧
      e' = { after with builds := e.builds.set i ⟨room, phase'⟩ } := by
  obtain ⟨⟨room, phase⟩, hcall, hrun⟩ := Option.bind_eq_some_iff.mp h
  obtain ⟨⟨after, phase'⟩, hafter, rfl⟩ := Option.map_eq_some_iff.mp hrun
  exact ⟨room, phase, after, phase', hcall, runJoin_cases hafter, rfl⟩

section

variable (h : e.Invariant)
include h

theorem Invariant.joinRoom (horderly : e.Orderly (.joinRoom room)) :
    (e.joinRoom room).Invariant where
  distinct := by
    have hcases := joinRoom_cases e room
    generalize e.joinRoom room = after at hcases ⊢
    cases hcases with
    | refused _ | finds _ _ | waits cancelled _ => exact h.distinct
    | starts started _ _ _ hstarted =>
      subst hstarted
      exact h.distinct
  ready := by
    intro hinit
    have hcases := joinRoom_cases e room
    generalize e.joinRoom room = after at hcases hinit ⊢
    cases hcases with
    | refused _ => exact h.ready hinit
    | finds _ hsession =>
      have hnone := (h.ready hinit room).2
      cases hsession.symm.trans hnone
    | starts started hready _ _ hstarted =>
      subst hstarted
      exact absurd (hinit.symm.trans hready) Bool.false_ne_true
    | waits cancelled hpending =>
      have hnone := (h.ready hinit room).1
      cases hpending.symm.trans hnone
  sound := by
    intro r
    by_cases hr : r = room
    · subst hr
      exact (h.sound r).joinRoom horderly fun hinit => h.ready hinit r
    · exact (h.sound r).same (joinRoom_same hr)

theorem Invariant.leaveRoomId : (e.leaveRoomId room).Invariant where
  distinct := by
    have hcases := leaveRoomId_cases e room
    generalize e.leaveRoomId room = after at hcases ⊢
    cases hcases with
    | cancels cancelled _ => exact h.distinct
    | ends _ => exact h.distinct.removeSession
  ready := by
    intro hinit r
    have hcases := leaveRoomId_cases e room
    generalize e.leaveRoomId room = after at hcases hinit ⊢
    cases hcases with
    | cancels cancelled hpending => cases hpending.symm.trans (h.ready hinit room).1
    | ends _ =>
      obtain ⟨hjoins, hsession⟩ := h.ready hinit r
      refine ⟨hjoins, Bool.eq_false_iff.mpr fun hsome => ?_⟩
      have hbefore := ((hasSession_removeSession h.distinct).mp hsome).2
      exact Bool.false_ne_true (hsession.symm.trans hbefore)
  sound := by
    intro r
    by_cases hr : r = room
    · subst hr
      exact (h.sound r).leaveRoomId h.distinct
    · exact (h.sound r).same (leaveRoomId_same h.distinct hr)

theorem Invariant.leaveRoom : e.leaveRoom.Invariant where
  distinct := h.distinct.leaveRoom
  ready := by
    intro hinit r
    obtain ⟨hjoins, hsession⟩ := h.ready hinit r
    refine ⟨by simp [Engine.leaveRoom, finishLeave, hjoins], Bool.eq_false_iff.mpr fun hsome => ?_⟩
    exact Bool.false_ne_true (hsession.symm.trans (hasSession_leaveRoom.mp hsome).1)
  sound := fun r => (h.sound r).leaveRoom

theorem Invariant.build (hstep : e.step (.build i ok) = some e') : e'.Invariant := by
  obtain ⟨room, phase, after, phase', hcall, hbuilds, rfl⟩ := step_build hstep
  refine ⟨?_, fun hinit => ?_, fun r => ?_⟩
  · cases hbuilds with
    | inserts => exact h.distinct.insertSession
    | removes ok => exact h.distinct.removeSession
    | _ => exact h.distinct
  · have hbefore : e.initialized = false := by
      cases hbuilds with
      | _ => exact hinit
    have hunfinished : phase.finished = false := by
      cases hbuilds with
      | _ => rfl
    have hroom := (h.ready hbefore room).1
    cases h.sound room with
    | idle _ hnone _ => exact absurd ⟨hcall, hunfinished⟩ (hnone i phase)
    | busy cancelled j _ hjoins _ _ _ => cases hroom.symm.trans hjoins
  · by_cases hr : r = room
    · subst hr
      exact (h.sound r).build h.distinct hcall hbuilds
    · exact (h.sound r).same (build_same h.distinct hr hcall hbuilds)

theorem Invariant.cleanup (horderly : e.Orderly (.cleanup i))
    (hstep : e.step (.cleanup i) = some e') : e'.Invariant := by
  obtain ⟨c, _, hclean⟩ := cleanup_cases hstep
  refine ⟨?_, fun hinit => ?_, fun r => (h.sound r).cleanup horderly hstep⟩
  · cases hclean with
    | tears active | reports room ctx rest => exact h.distinct
  · cases hclean with
    | tears active | reports room ctx rest => exact h.ready hinit

/-- An orderly step keeps the invariant. -/
theorem Invariant.step (horderly : e.Orderly input) (hstep : e.step input = some e') :
    e'.Invariant := by
  cases input with
  | init =>
    cases hstep
    exact ⟨h.distinct, nofun, fun r => (h.sound r).same ⟨rfl, Iff.rfl, fun _ _ => Iff.rfl, rfl, rfl, id⟩⟩
  | joinRoom room =>
    cases hstep
    exact h.joinRoom horderly
  | leaveRoomId room =>
    cases hstep
    exact h.leaveRoomId
  | leaveRoom =>
    cases hstep
    exact h.leaveRoom
  | build i ok => exact h.build hstep
  | cleanup i => exact h.cleanup horderly hstep

end

/-- A settled room has the session that its last call asked for. -/
theorem Settled.membership (h : e.Settled r) (hd : e.Distinct) (howes : ¬ e.Owes r) :
    (e.last r = .leave → e.sessionsOf r = []) ∧
      (∀ k, e.last r = .join k → ¬ e.StartupFailed r → (e.sessionsOf r).length = 1) ∧
      (e.lastEvent r = some .joined ↔ e.sessionsOf r ≠ []) := by
  have hlength := sessionsOf_length (r := r) hd
  cases hsession : e.hasSession r with
  | true =>
    rw [hsession, if_pos rfl] at hlength
    have hsome : e.sessionsOf r ≠ [] := by
      intro hnil
      rw [hnil] at hlength
      cases hlength
    refine ⟨fun hlast => ?_, fun _ _ _ => hlength, iff_of_true (h.reported hsession) hsome⟩
    obtain ⟨k, hjoin⟩ := h.joined hsession
    cases hlast.symm.trans hjoin
  | false =>
    rw [hsession, if_neg Bool.false_ne_true] at hlength
    have hnil := List.length_eq_zero_iff.mp hlength
    refine ⟨fun _ => hnil, fun k hjoin hstarted => ?_, iff_of_false ?_ (not_not.mpr hnil)⟩
    · exact absurd (h.failed k hsession hjoin) hstarted
    · exact fun hevent => howes (h.owed hsession hevent)

/-- In an orderly run membership follows the last call: whenever no join or leave
work is in progress, a room that was left has no session, a room that was joined
and whose startup did not fail has exactly one, and the last event tells which. -/
theorem membership_of_orderly {moves : List (Move Engine Input)} (run : Run step .new moves e)
    (horderly : ∀ m ∈ moves, m.before.Orderly m.input) (hquiet : e.Quiescent) (r : RoomId) :
    (e.last r = .leave → e.sessionsOf r = []) ∧
      (∀ k, e.last r = .join k → ¬ e.StartupFailed r → (e.sessionsOf r).length = 1) ∧
      (e.lastEvent r = some .joined ↔ e.sessionsOf r ≠ []) := by
  have hinv : e.Invariant := run.keepsUnder .new (fun _ _ _ h hok hstep => h.step hok hstep) horderly
  have howes : ¬ e.Owes r := by
    rintro ⟨c, hc, howed⟩
    rw [hquiet.2 c hc] at howed
    cases howed
  cases hinv.sound r with
  | idle _ _ hsettled => exact hsettled.membership hinv.distinct howes
  | busy cancelled i phase _ hrunning _ _ =>
    obtain ⟨hbuild, hunfinished⟩ := (hrunning i phase).mpr ⟨rfl, rfl⟩
    cases hunfinished.symm.trans (hquiet.1 _ (List.mem_of_getElem? hbuild))

end Engine

section Runs

/-- A room is joined, left and joined again, each after the other. -/
def inTurn : List Input :=
  [Input.init, .joinRoom "r"] ++ List.replicate 4 (Input.build 0 true) ++
    [Input.leaveRoomId "r", .cleanup 0, .cleanup 0, .joinRoom "r"] ++ List.replicate 4 (Input.build 1 true)

/-- The room is left while it is being joined, and joined again while the build
that is given up for it is being torn down. -/
def joinedLate : List Input :=
  [Input.init, .joinRoom "r", .leaveRoomId "r"] ++ List.replicate 5 (Input.build 0 true) ++ [Input.joinRoom "r"] ++
    List.replicate 2 (Input.build 0 true)

def after (inputs : List Input) : List (Move Engine Input) × Engine :=
  play Engine.step .new inputs.reverse

theorem not_failed {e : Engine} {i : Nat} (hlast : e.last "r" = .join (some i))
    (hbuild : e.builds[i]? = some ⟨"r", .done true⟩) : ¬ e.StartupFailed "r" := by
  rintro ⟨j, hjoin, hfailed⟩
  cases hlast.symm.trans hjoin
  cases hbuild.symm.trans hfailed

theorem inTurn_membership : ((after inTurn).2.sessionsOf "r").length = 1 ∧
    (after inTurn).2.lastEvent "r" = some .joined := by
  have horderly : ∀ m ∈ (after inTurn).1, m.before.Orderly m.input := by decide +kernel
  have hquiet : (after inTurn).2.Quiescent := by decide +kernel
  obtain ⟨_, hjoined, hevent⟩ :=
    Engine.membership_of_orderly (run_play Engine.step .new inTurn.reverse) horderly hquiet "r"
  have hlast : (after inTurn).2.last "r" = .join (some 1) := by decide +kernel
  have hone := hjoined (some 1) hlast (not_failed hlast (by decide +kernel))
  exact ⟨hone, hevent.mpr (List.ne_nil_of_length_eq_add_one hone)⟩

/-- The last call is a join, its startup did not fail, and there is no session. -/
theorem joinedLate_lost :
    ∃ moves e, Run Engine.step .new moves e ∧ e.Quiescent ∧ e.last "r" = .join (some 0) ∧
      ¬ e.StartupFailed "r" ∧ e.sessionsOf "r" = [] ∧ e.lastEvent "r" = some .joinFailed := by
  have hlast : (after joinedLate).2.last "r" = .join (some 0) := by decide +kernel
  exact ⟨_, (after joinedLate).2, run_play _ _ _, by decide +kernel, hlast,
    not_failed hlast (by decide +kernel), by decide +kernel, by decide +kernel⟩

end Runs

end Mistlib.MistEngine.Rooms
