import Mistlib.Async.Reactive
import Mistlib.Data.Table
import Mistlib.Types

/-!
# The position caches

A call for all rooms leaves its position in one cache and a call for one room in another, and a
worker applies what is in the first, then what is in the second. So which of two positions a
session ends up with is decided by where they wait, and not by which call came later.

`settled` is the position a session would have if no call came any more. The worker's steps keep
it, and a call sets it: to its own position, unless one that waits is applied after it.
-/

namespace Mistlib.PositionCaches

open Reactive (Move Run)

/-- What a session is to the worker: whether it has an `l1_transport`, and the position last
written through it. -/
structure SessionCtx (α : Type) where
  hasL1 : Bool
  position : Option α
deriving DecidableEq, Repr

def SessionCtx.updatePosition {α : Type} (ctx : SessionCtx α) (update : α) : SessionCtx α :=
  if ctx.hasL1 then { ctx with position := some update } else ctx

/-- Where the worker stands in a round. -/
inductive Worker (α : Type) where
  | idle
  | tookRoomless (roomlessUpdate : Option α)
  | drained (roomlessUpdate : Option α) (perRoomUpdates : Table String α)

structure App (α : Type) where
  positionCache : Option α
  positionCacheByRoom : Table String α
  worker : Worker α
  sessions : Table String (SessionCtx α)

inductive Input (α : Type) where
  | updatePosition (update : α)
  | updatePositionInRoom (roomId : String) (update : α)
  | worker

variable {α : Type}

def applyRooms (updates : List (Σ _ : String, α)) (sessions : Table String (SessionCtx α)) :
    Table String (SessionCtx α) :=
  updates.foldl (fun sessions e => sessions.modify e.1 fun ctx => ctx.updatePosition e.2) sessions

def applyRoomless (update : Option α) (sessions : Table String (SessionCtx α)) : Table String (SessionCtx α) :=
  match update with
  | none => sessions
  | some update => sessions.mapVals fun _ ctx => ctx.updatePosition update

namespace App

def new (sessions : Table String (SessionCtx α)) : App α := ⟨none, ∅, .idle, sessions⟩

variable (e : App α)

/-- The worker takes what is for all rooms, then what is for each room, and then goes through
the sessions. -/
def workerStep : App α :=
  match e.worker with
  | .idle => { e with worker := .tookRoomless e.positionCache, positionCache := none }
  | .tookRoomless roomlessUpdate =>
    { e with worker := .drained roomlessUpdate e.positionCacheByRoom, positionCacheByRoom := ∅ }
  | .drained roomlessUpdate perRoomUpdates =>
    if roomlessUpdate.isNone && perRoomUpdates.size == 0 then { e with worker := .idle }
    else
      { e with
        worker := .idle
        sessions := applyRooms perRoomUpdates.entries (applyRoomless roomlessUpdate e.sessions) }

def step : Input α → Option (App α)
  | .updatePosition update => some { e with positionCache := some update }
  | .updatePositionInRoom roomId update =>
    some { e with positionCacheByRoom := e.positionCacheByRoom.insert roomId update }
  | .worker => some e.workerStep

def position (roomId : String) : Option α := (e.sessions.get roomId).bind SessionCtx.position

/-- A session that positions are written to. -/
def HasSession (roomId : String) : Prop := ((e.sessions.get roomId).map SessionCtx.hasL1) = some true

end App

/-! ## A round -/

section Round

variable {updates : List (Σ _ : String, α)} {sessions : Table String (SessionCtx α)} {roomId : String}

theorem get_applyRooms_of_notMem (h : ∀ e ∈ updates, e.1 ≠ roomId) :
    (applyRooms updates sessions).get roomId = sessions.get roomId := by
  induction updates generalizing sessions with
  | nil => rfl
  | cons e updates ih =>
    obtain ⟨hne, hrest⟩ := List.forall_mem_cons.mp h
    rw [applyRooms, List.foldl_cons]
    refine (ih hrest).trans ?_
    rw [Table.get_modify, if_neg hne.symm]

theorem get_applyRooms_of_mem {update : α} (hkeys : (updates.map fun e => e.1).Nodup)
    (h : (⟨roomId, update⟩ : Σ _ : String, α) ∈ updates) :
    (applyRooms updates sessions).get roomId = (sessions.get roomId).map fun ctx => ctx.updatePosition update := by
  induction updates generalizing sessions with
  | nil => cases h
  | cons e updates ih =>
    obtain ⟨hnot, hrest⟩ := List.nodup_cons.mp hkeys
    rw [applyRooms, List.foldl_cons]
    rcases List.mem_cons.mp h with rfl | hmem
    · have hothers : ∀ e ∈ updates, e.1 ≠ roomId := fun e he heq =>
        hnot (List.mem_map.mpr ⟨e, he, heq⟩)
      refine (get_applyRooms_of_notMem hothers).trans ?_
      rw [Table.get_modify, if_pos rfl]
    · have hne : roomId ≠ e.1 := fun heq => hnot (List.mem_map.mpr ⟨_, hmem, heq⟩)
      refine (ih hrest hmem).trans ?_
      rw [Table.get_modify, if_neg hne]

/-- The order in which the updates are gone through does not matter: there is one for a room. -/
theorem get_applyRooms (t : Table String α) (sessions : Table String (SessionCtx α)) (roomId : String) :
    (applyRooms t.entries sessions).get roomId = (sessions.get roomId).map fun ctx =>
      match t.get roomId with
      | none => ctx
      | some update => ctx.updatePosition update := by
  cases hget : t.get roomId with
  | none =>
    rw [get_applyRooms_of_notMem, Option.map_id']
    rintro e he rfl
    rw [Table.get_eq_some_iff.mpr he] at hget
    cases hget
  | some update => exact get_applyRooms_of_mem t.keys_nodup (Table.get_eq_some_iff.mp hget)

theorem get_applyRoomless (update : Option α) (sessions : Table String (SessionCtx α)) (roomId : String) :
    (applyRoomless update sessions).get roomId = (sessions.get roomId).map fun ctx =>
      match update with
      | none => ctx
      | some update => ctx.updatePosition update := by
  cases update with
  | none =>
    rw [Option.map_id']
    rfl
  | some update => exact Table.get_mapVals _ sessions roomId

end Round

namespace App

variable {e e' : App α} {roomId : String} {moves : List (Move (App α) (Input α))}

theorem position_round (h : e.HasSession roomId) {roomlessUpdate : Option α} {perRoomUpdates : Table String α}
    (hworker : e.worker = .drained roomlessUpdate perRoomUpdates) :
    e.workerStep.position roomId = (perRoomUpdates.get roomId).or (roomlessUpdate.or (e.position roomId)) ∧
      e.workerStep.HasSession roomId := by
  obtain ⟨ctx, hctx, hasL1⟩ := Option.map_eq_some_iff.mp h
  simp only [workerStep, hworker]
  split
  · next hnothing =>
    obtain ⟨hroomless, hsize⟩ := Bool.and_eq_true_iff.mp hnothing
    have hget : perRoomUpdates.get roomId = none := by
      rw [Option.eq_none_iff_forall_not_mem]
      intro update hupdate
      have hmem := Table.get_eq_some_iff.mp hupdate
      rw [List.eq_nil_of_length_eq_zero (beq_iff_eq.mp hsize)] at hmem
      cases hmem
    rw [Option.isNone_iff_eq_none.mp hroomless, hget, Option.none_or, Option.none_or]
    exact ⟨rfl, h⟩
  · simp only [position, HasSession, get_applyRooms, get_applyRoomless, hctx, Option.map_some, Option.bind_some]
    obtain ⟨hasL1', position⟩ := ctx
    obtain rfl : hasL1' = true := hasL1
    cases perRoomUpdates.get roomId with
    | some update | none =>
      cases roomlessUpdate with
      | some | none => exact ⟨rfl, rfl⟩

/-! ## Which position wins -/

/-- The position a session has once all that waits is applied, the last first. -/
def settled (e : App α) (roomId : String) : Option α :=
  match e.worker with
  | .idle => (e.positionCacheByRoom.get roomId).or (e.positionCache.or (e.position roomId))
  | .tookRoomless roomlessUpdate =>
    e.positionCache.or ((e.positionCacheByRoom.get roomId).or (roomlessUpdate.or (e.position roomId)))
  | .drained roomlessUpdate perRoomUpdates =>
    (e.positionCacheByRoom.get roomId).or (e.positionCache.or
      ((perRoomUpdates.get roomId).or (roomlessUpdate.or (e.position roomId))))

theorem settled_workerStep (h : e.HasSession roomId) :
    e.workerStep.settled roomId = e.settled roomId ∧ e.workerStep.HasSession roomId := by
  cases hworker : e.worker with
  | idle =>
    simp only [workerStep, settled, hworker, Option.none_or]
    exact ⟨rfl, h⟩
  | tookRoomless roomlessUpdate =>
    simp only [workerStep, settled, hworker, Table.get_empty, Option.none_or]
    exact ⟨rfl, h⟩
  | drained roomlessUpdate perRoomUpdates =>
    obtain ⟨hposition, hsession⟩ := position_round h hworker
    have hcaches : e.workerStep.worker = .idle ∧ e.workerStep.positionCache = e.positionCache ∧
        e.workerStep.positionCacheByRoom = e.positionCacheByRoom := by
      simp only [workerStep, hworker]
      split
      · exact ⟨rfl, rfl, rfl⟩
      · exact ⟨rfl, rfl, rfl⟩
    obtain ⟨hidle, hcache, hbyRoom⟩ := hcaches
    refine ⟨?_, hsession⟩
    simp only [settled, hidle, hcache, hbyRoom, hposition, hworker]

/-- The position a call brings to a session. -/
def addressed (roomId : String) : Input α → Option α
  | .updatePosition update => some update
  | .updatePositionInRoom room update => if room = roomId then some update else none
  | .worker => none

/-- The position of the other kind that waits when a call comes and is applied after it: for a
call for all rooms the one for the room, unless the worker is between its takes; for a call
for a room the one for all rooms, if the worker is between its takes. -/
def overtakenBy (roomId : String) (m : Move (App α) (Input α)) : Option α :=
  match m.input, m.before.worker with
  | .updatePosition _, .tookRoomless _ => none
  | .updatePosition _, _ => m.before.positionCacheByRoom.get roomId
  | .updatePositionInRoom _ _, .tookRoomless _ => m.before.positionCache
  | _, _ => none

/-- A call settles its room on its update, unless it is overtaken. -/
theorem settled_call {input : Input α} {update : α} (hupdate : addressed roomId input = some update)
    (hstep : e.step input = some e') :
    e'.settled roomId = (overtakenBy roomId ⟨e, input⟩).or (some update) := by
  cases input with
  | worker => cases hupdate
  | updatePosition other =>
    cases hupdate
    cases hstep
    cases hworker : e.worker with
    | idle | drained => simp only [settled, overtakenBy, hworker, Option.some_or]
    | tookRoomless => simp only [settled, overtakenBy, hworker, Option.some_or, Option.none_or]
  | updatePositionInRoom room other =>
    rw [addressed] at hupdate
    split at hupdate
    · next hroom =>
      cases hupdate
      cases hstep
      subst hroom
      cases hworker : e.worker with
      | idle | drained =>
        simp only [settled, overtakenBy, hworker, Table.get_insert_self, Option.some_or, Option.none_or]
      | tookRoomless => simp only [settled, overtakenBy, hworker, Table.get_insert_self, Option.some_or]
    · cases hupdate

theorem settled_other {input : Input α} (h : e.HasSession roomId) (hother : addressed roomId input = none)
    (hstep : e.step input = some e') : e'.settled roomId = e.settled roomId := by
  cases input with
  | worker =>
    cases hstep
    exact (settled_workerStep h).1
  | updatePosition => cases hother
  | updatePositionInRoom room other =>
    rw [addressed] at hother
    split at hother
    · cases hother
    · next hroom =>
      cases hstep
      have hget : (e.positionCacheByRoom.insert room other).get roomId = e.positionCacheByRoom.get roomId := by
        rw [Table.get_insert, if_neg (Ne.symm hroom)]
      cases hworker : e.worker with
      | idle | tookRoomless | drained => simp only [settled, position, hworker, hget]

/-- No step takes a session away. -/
theorem hasSession_step {input : Input α} (h : e.HasSession roomId) (hstep : e.step input = some e') :
    e'.HasSession roomId := by
  cases input with
  | worker =>
    cases hstep
    exact (settled_workerStep h).2
  | updatePosition | updatePositionInRoom =>
    cases hstep
    exact h

theorem run_hasSession {start : App α} (run : Run step start moves e) (h : start.HasSession roomId) :
    e.HasSession roomId :=
  run.keeps (P := fun _ e => e.HasSession roomId) h fun _ _ _ _ hbefore hstep => hasSession_step hbefore hstep

/-- What no call addresses stays settled on what it was. -/
theorem run_settled {start : App α} (run : Run step start moves e) (h : start.HasSession roomId)
    (hothers : ∀ m ∈ moves, addressed roomId m.input = none) : e.settled roomId = start.settled roomId := by
  induction run with
  | nil => rfl
  | snoc before hstep ih =>
    obtain ⟨hlatest, hpast⟩ := List.forall_mem_cons.mp hothers
    exact (settled_other (run_hasSession before h) hlatest hstep).trans (ih hpast)

/-- With empty caches and the worker between its rounds, a session has the position of the last
call that addressed it, if and only if no other position overtakes that call. -/
theorem last_position_wins_iff {sessions : Table String (SessionCtx α)}
    {newer older : List (Move (App α) (Input α))} {m : Move (App α) (Input α)} {update : α}
    (run : Run step (new sessions) (newer ++ m :: older) e)
    (hsession : ((sessions.get roomId).map SessionCtx.hasL1) = some true)
    (hlast : addressed roomId m.input = some update) (hnewer : ∀ m' ∈ newer, addressed roomId m'.input = none)
    (hidle : e.worker = .idle) (hcache : e.positionCache = none) (hbyRoom : e.positionCacheByRoom = ∅) :
    e.position roomId = some update ↔
      overtakenBy roomId m = none ∨ overtakenBy roomId m = some update := by
  obtain ⟨mid, hbefore, hstep, hafter⟩ := run.split
  have hmid : mid.HasSession roomId := hasSession_step (run_hasSession hbefore hsession) hstep
  have hsettled : e.settled roomId = (overtakenBy roomId m).or (some update) :=
    (run_settled hafter hmid hnewer).trans (settled_call hlast hstep)
  have hposition : e.settled roomId = e.position roomId := by
    simp only [settled, hidle, hcache, hbyRoom, Table.get_empty, Option.none_or]
  rw [← hposition, hsettled]
  cases overtakenBy roomId m with
  | none => exact iff_of_true rfl (.inl rfl)
  | some other =>
    refine ⟨.inr, fun h => h.elim (fun hnone => ?_) id⟩
    cases hnone

def lobby : Table String (SessionCtx Nat) := Table.insert ∅ "lobby" ⟨true, none⟩

/-- A call for all rooms and then one for the room, in one round. -/
theorem last_position_wins_lobby :
    let inputs : List (Input Nat) := [.worker, .worker, .worker, .updatePositionInRoom "lobby" 2, .updatePosition 1]
    (Reactive.play step (new lobby) inputs).2.position "lobby" = some 2 := by
  intro inputs
  have hsplit : (Reactive.play step (new lobby) inputs).1 =
      (Reactive.play step (new lobby) inputs).1.take 3 ++
        ⟨(new lobby).step (.updatePosition 1) |>.getD (new lobby), .updatePositionInRoom "lobby" 2⟩ ::
          [⟨new lobby, .updatePosition 1⟩] := rfl
  have hrun := Reactive.run_play step (new lobby) inputs
  rw [hsplit] at hrun
  refine (last_position_wins_iff hrun ?_ rfl ?_ rfl rfl rfl).mpr (.inl rfl)
  · decide
  · decide

/-- A call for the room and then one for all rooms before a round: the session has the position
of the first. -/
theorem first_position_wins :
    let inputs : List (Input Nat) := [.worker, .worker, .worker, .updatePosition 2, .updatePositionInRoom "lobby" 1]
    let run := Reactive.play step (new lobby) inputs
    Run step (new lobby) run.1 run.2 ∧ run.1.map Move.input = inputs ∧ run.2.worker = .idle ∧
      run.2.positionCache = none ∧ run.2.positionCacheByRoom = ∅ ∧ run.2.position "lobby" = some 1 := by
  intro inputs run
  exact ⟨Reactive.run_play step (new lobby) inputs, rfl, rfl, rfl, rfl, rfl⟩

end App

end Mistlib.PositionCaches
