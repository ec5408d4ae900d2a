import Mathlib.Logic.Function.Basic
import Mistlib.Async.Reactive
import Mistlib.Data.Table
import Mistlib.Types

/-!
# Connect requests

A node with the higher id asks the lower one for an offer: it reserves an attempt for the node,
sends a request, and a task sends it again while that attempt is the reserved one. An entry that
stays behind would make every later call for that node do nothing.

A step is what happens under one lock or one send. What a look into the peers or the sessions
finds is an input, and so is whether a send succeeds, which nothing depends on.
-/

namespace Mistlib.Transport.ConnectRequests

open Reactive (Move Run)

/-- Where a call stands, or the task it has spawned. `attempt` is the attempt's id, and `retry`
the number of the send that comes next. -/
inductive Phase where
  | lookingAtPeers
  | lookingAtSession
  | reserving
  | sending (attempt : Nat)
  | spawning (attempt : Nat)
  | sleeping (attempt retry : Nat)
  | askingPeers (attempt retry : Nat)
  | askingStates (attempt retry : Nat) (hasPeer : Bool)
  | forgetting (attempt : Nat)
  | sendingAgain (attempt retry : Nat)
  | exhausted (attempt : Nat)
  | returned
deriving DecidableEq, Repr

/-- The attempt of a call from its reservation to the end of its task. -/
def Phase.attempt : Phase → Option Nat
  | .sending attempt | .spawning attempt | .sleeping attempt _ | .askingPeers attempt _
  | .askingStates attempt _ _ | .forgetting attempt | .sendingAgain attempt _ | .exhausted attempt => some attempt
  | _ => none

/-- A call of `request_lower_id_offer` with the task it spawns. `sends` counts its requests. -/
structure Task where
  node : NodeId
  phase : Phase
  sends : Nat
deriving DecidableEq, Repr

structure Books where
  connectRequestAttemptIds : Table NodeId Nat
  nextConnectionAttemptId : Nat

namespace Books

variable (b : Books) (node : NodeId)

def reserveConnectRequestAttempt : Option Nat × Books :=
  if b.connectRequestAttemptIds.contains node then (none, b)
  else
    let attempt := b.nextConnectionAttemptId + 1
    (some attempt, ⟨b.connectRequestAttemptIds.insert node attempt, attempt⟩)

def clearConnectRequestAttempt : Books :=
  { b with connectRequestAttemptIds := b.connectRequestAttemptIds.erase node }

/-- The entry of the node goes if it is the attempt's. -/
def clearIfCurrent (attempt : Nat) : Books :=
  if b.connectRequestAttemptIds.get node = some attempt then b.clearConnectRequestAttempt node else b

end Books

/-- What a task does next. `answer` is what a look finds. -/
def Task.advance (retryLimit : Nat) (b : Books) (task : Task) (answer : Bool) : Option (Books × Task) :=
  let go (phase : Phase) := some (b, { task with phase })
  match task.phase with
  | .lookingAtPeers => go (if answer then .returned else .lookingAtSession)
  | .lookingAtSession => go (if answer then .returned else .reserving)
  | .reserving =>
    match b.reserveConnectRequestAttempt task.node with
    | (none, _) => go .returned
    | (some attempt, b) => some (b, { task with phase := .sending attempt })
  | .sending attempt => some (b, { task with phase := .spawning attempt, sends := task.sends + 1 })
  | .spawning attempt =>
    if retryLimit ≤ 1 then some (b.clearIfCurrent task.node attempt, { task with phase := .returned })
    else go (.sleeping attempt 2)
  | .sleeping attempt retry =>
    go (if b.connectRequestAttemptIds.get task.node = some attempt then .askingPeers attempt retry else .returned)
  | .askingPeers attempt retry => go (.askingStates attempt retry answer)
  | .askingStates attempt retry hasPeer =>
    go (if hasPeer || answer then .forgetting attempt else .sendingAgain attempt retry)
  | .forgetting _ => some (b.clearConnectRequestAttempt task.node, { task with phase := .returned })
  | .sendingAgain attempt retry =>
    some (b, { task with
      phase := if retry < retryLimit then .sleeping attempt (retry + 1) else .exhausted attempt
      sends := task.sends + 1 })
  | .exhausted attempt => some (b.clearIfCurrent task.node attempt, { task with phase := .returned })
  | .returned => none

structure State where
  books : Books
  tasks : Nat → Option Task

/-- `clear` is `clear_connect_request_attempt` or the cleanup of a node's session, and `clearAll`
the close of all peer connections. `reserveConnection` takes an id for something else. -/
inductive Input where
  | request (call : Nat) (node : NodeId)
  | advance (call : Nat) (answer : Bool)
  | clear (node : NodeId)
  | clearAll
  | reserveConnection
deriving DecidableEq, Repr

namespace State

def new : State := ⟨⟨∅, 1⟩, fun _ => none⟩

def step (retryLimit : Nat) (e : State) : Input → Option State
  | .request call node =>
    if (e.tasks call).isSome then none
    else some { e with tasks := Function.update e.tasks call (some ⟨node, .lookingAtPeers, 0⟩) }
  | .advance call answer =>
    match e.tasks call with
    | none => none
    | some task =>
      match task.advance retryLimit e.books answer with
      | none => none
      | some (books, task) => some ⟨books, Function.update e.tasks call (some task)⟩
  | .clear node => some { e with books := e.books.clearConnectRequestAttempt node }
  | .clearAll => some { e with books := { e.books with connectRequestAttemptIds := ∅ } }
  | .reserveConnection =>
    some { e with books := { e.books with nextConnectionAttemptId := e.books.nextConnectionAttemptId + 1 } }

end State

/-! ## What a step does -/

theorem Books.get_clear (b : Books) (node other : NodeId) :
    (b.clearConnectRequestAttempt node).connectRequestAttemptIds.get other =
      if other = node then none else b.connectRequestAttemptIds.get other :=
  Table.get_erase _ node other

theorem Books.clearIfCurrent_get (b : Books) (node : NodeId) (attempt : Nat) :
    (b.clearIfCurrent node attempt).connectRequestAttemptIds.get node ≠ some attempt ∧
      (b.clearIfCurrent node attempt).nextConnectionAttemptId = b.nextConnectionAttemptId ∧
      ∀ other id, (b.clearIfCurrent node attempt).connectRequestAttemptIds.get other = some id →
        b.connectRequestAttemptIds.get other = some id := by
  unfold clearIfCurrent
  split
  · refine ⟨?_, rfl, fun other id hget => ?_⟩
    · rw [get_clear, if_pos rfl]
      exact (Option.some_ne_none attempt).symm
    · rw [get_clear] at hget
      split at hget
      · cases hget
      · exact hget
  · next hother => exact ⟨hother, rfl, fun _ _ hget => hget⟩

/-- A task's step is inside an attempt or outside of one, reserves an attempt, or ends one and
leaves no entry of it. -/
theorem Task.advance_cases {retryLimit : Nat} {b b' : Books} {task task' : Task} {answer : Bool}
    (h : task.advance retryLimit b answer = some (b', task')) :
    task'.node = task.node ∧
      ((b' = b ∧ task'.phase.attempt = task.phase.attempt) ∨
        (b.connectRequestAttemptIds.get task.node = none ∧ task.phase = .reserving ∧
          task'.phase.attempt = some (b.nextConnectionAttemptId + 1) ∧
          b' = ⟨b.connectRequestAttemptIds.insert task.node (b.nextConnectionAttemptId + 1),
            b.nextConnectionAttemptId + 1⟩) ∨
        ∃ attempt, task.phase.attempt = some attempt ∧ task'.phase.attempt = none ∧
          b'.nextConnectionAttemptId = b.nextConnectionAttemptId ∧
          b'.connectRequestAttemptIds.get task.node ≠ some attempt ∧
          ∀ other id, b'.connectRequestAttemptIds.get other = some id →
            b.connectRequestAttemptIds.get other = some id) := by
  obtain ⟨node, phase, sends⟩ := task
  cases phase with
  | lookingAtPeers | lookingAtSession =>
    cases h
    refine ⟨rfl, .inl ⟨rfl, ?_⟩⟩
    cases answer <;> rfl
  | reserving =>
    simp only [advance, Books.reserveConnectRequestAttempt] at h
    split at h
    · next hres =>
      cases h
      exact ⟨rfl, .inl ⟨rfl, rfl⟩⟩
    · next attempt b'' hres =>
      split at hres
      · cases hres
      · next hfree =>
        cases hres
        cases h
        exact ⟨rfl, .inr (.inl ⟨Option.not_isSome_iff_eq_none.mp hfree, rfl, rfl, rfl⟩)⟩
  | sending attempt | askingPeers attempt retry =>
    cases h
    exact ⟨rfl, .inl ⟨rfl, rfl⟩⟩
  | spawning attempt =>
    simp only [advance] at h
    split at h
    · cases h
      obtain ⟨hgone, hnext, hold⟩ := b.clearIfCurrent_get node attempt
      exact ⟨rfl, .inr (.inr ⟨attempt, rfl, rfl, hnext, hgone, hold⟩)⟩
    · cases h
      exact ⟨rfl, .inl ⟨rfl, rfl⟩⟩
  | sleeping attempt retry =>
    cases h
    refine ⟨rfl, ?_⟩
    by_cases hcurrent : b.connectRequestAttemptIds.get node = some attempt
    · refine .inl ⟨rfl, ?_⟩
      rw [if_pos hcurrent]
      rfl
    · refine .inr (.inr ⟨attempt, rfl, ?_, rfl, hcurrent, fun _ _ hget => hget⟩)
      rw [if_neg hcurrent]
      rfl
  | askingStates attempt retry hasPeer =>
    cases h
    refine ⟨rfl, .inl ⟨rfl, ?_⟩⟩
    cases hasPeer <;> cases answer <;> rfl
  | forgetting attempt =>
    cases h
    refine ⟨rfl, .inr (.inr ⟨attempt, rfl, rfl, rfl, ?_, fun other id hget => ?_⟩)⟩
    · rw [Books.get_clear, if_pos rfl]
      exact (Option.some_ne_none attempt).symm
    · rw [Books.get_clear] at hget
      split at hget
      · cases hget
      · exact hget
  | sendingAgain attempt retry =>
    cases h
    refine ⟨rfl, .inl ⟨rfl, ?_⟩⟩
    dsimp only
    split
    · rfl
    · rfl
  | exhausted attempt =>
    cases h
    obtain ⟨hgone, hnext, hold⟩ := b.clearIfCurrent_get node attempt
    exact ⟨rfl, .inr (.inr ⟨attempt, rfl, rfl, hnext, hgone, hold⟩)⟩
  | returned => cases h

/-- How many requests have been sent where a task stands. -/
def Phase.Fits (retryLimit sends : Nat) : Phase → Prop
  | .lookingAtPeers | .lookingAtSession | .reserving | .sending _ => sends = 0
  | .spawning _ => sends = 1
  | .sleeping _ retry | .askingPeers _ retry | .askingStates _ retry _ | .sendingAgain _ retry =>
    sends + 1 = retry ∧ retry ≤ retryLimit
  | .forgetting _ | .exhausted _ | .returned => sends ≤ retryLimit

theorem Phase.Fits.sends_le {retryLimit sends : Nat} (hlimit : 1 ≤ retryLimit) {phase : Phase}
    (h : phase.Fits retryLimit sends) : sends ≤ retryLimit := by
  cases phase <;> simp only [Phase.Fits] at h <;> omega

theorem Task.fits_advance {retryLimit : Nat} (hlimit : 1 ≤ retryLimit) {b b' : Books} {task task' : Task}
    {answer : Bool} (hfits : task.phase.Fits retryLimit task.sends)
    (h : task.advance retryLimit b answer = some (b', task')) : task'.phase.Fits retryLimit task'.sends := by
  obtain ⟨node, phase, sends⟩ := task
  have hle : sends ≤ retryLimit := hfits.sends_le hlimit
  cases phase with
  | lookingAtPeers | lookingAtSession =>
    cases h
    cases answer
    · exact hfits
    · exact hle
  | reserving =>
    simp only [advance] at h
    split at h
    · cases h
      exact hle
    · cases h
      exact hfits
  | sending attempt =>
    cases h
    have hzero : sends = 0 := hfits
    rw [hzero]
    rfl
  | spawning attempt =>
    have hone : sends = 1 := hfits
    simp only [advance] at h
    split at h
    · cases h
      exact hle
    · next hmore =>
      cases h
      exact ⟨congrArg (· + 1) hone, Nat.lt_of_not_le hmore⟩
  | sleeping attempt retry =>
    cases h
    dsimp only
    split
    · exact hfits
    · exact hle
  | askingPeers attempt retry =>
    cases h
    exact hfits
  | askingStates attempt retry hasPeer =>
    cases h
    dsimp only
    split
    · exact hle
    · exact hfits
  | forgetting attempt | exhausted attempt =>
    cases h
    exact hle
  | sendingAgain attempt retry =>
    obtain ⟨hsends, hretry⟩ := hfits
    cases h
    dsimp only
    split
    · next hmore => exact ⟨congrArg (· + 1) hsends, hmore⟩
    · exact hsends.trans_le hretry
  | returned => cases h

/-! ## Runs -/

/-- The node and the attempt of a call that is between its reservation and the end of its task. -/
def holding (tasks : Nat → Option Task) (call : Nat) : Option (NodeId × Nat) :=
  (tasks call).bind fun task => task.phase.attempt.map fun attempt => (task.node, attempt)

theorem holding_iff {tasks : Nat → Option Task} {call : Nat} {node : NodeId} {attempt : Nat} :
    holding tasks call = some (node, attempt) ↔
      ∃ task, tasks call = some task ∧ task.node = node ∧ task.phase.attempt = some attempt := by
  rw [holding, Option.bind_eq_some_iff]
  refine exists_congr fun task => and_congr_right fun _ => ?_
  rw [Option.map_eq_some_iff]
  constructor
  · rintro ⟨other, hother, heq⟩
    cases heq
    exact ⟨rfl, hother⟩
  · rintro ⟨rfl, hattempt⟩
    exact ⟨attempt, hattempt, rfl⟩

theorem holding_update (tasks : Nat → Option Task) (call other : Nat) (task : Task) :
    holding (Function.update tasks call (some task)) other =
      if other = call then task.phase.attempt.map fun attempt => (task.node, attempt) else holding tasks other := by
  rw [holding, Function.update_apply]
  split
  · rfl
  · rfl

/-- Every entry is the attempt of a call that is between its reservation and the end of its
task, no two calls have one attempt, and no attempt is still to be given out. -/
structure Owned (b : Books) (tasks : Nat → Option Task) : Prop where
  live : ∀ node id, b.connectRequestAttemptIds.get node = some id → ∃ call, holding tasks call = some (node, id)
  unique : ∀ call call' node node' id, holding tasks call = some (node, id) →
    holding tasks call' = some (node', id) → call = call'
  known : ∀ call node id, holding tasks call = some (node, id) → id ≤ b.nextConnectionAttemptId

namespace Owned

variable {b b' : Books} {tasks : Nat → Option Task} {call : Nat} {task : Task}

theorem forget (h : Owned b tasks)
    (hget : ∀ node id, b'.connectRequestAttemptIds.get node = some id →
      b.connectRequestAttemptIds.get node = some id)
    (hnext : b.nextConnectionAttemptId ≤ b'.nextConnectionAttemptId) : Owned b' tasks :=
  ⟨fun node id hentry => h.live node id (hget node id hentry), h.unique,
    fun call node id hid => Nat.le_trans (h.known call node id hid) hnext⟩

theorem keep (h : Owned b tasks)
    (hsame : (task.phase.attempt.map fun attempt => (task.node, attempt)) = holding tasks call) :
    Owned b (Function.update tasks call (some task)) := by
  have hholding : holding (Function.update tasks call (some task)) = holding tasks := by
    funext other
    rw [holding_update]
    split
    · next heq => rw [heq, hsame]
    · rfl
  refine ⟨?_, ?_, ?_⟩
  · rw [hholding]
    exact h.live
  · rw [hholding]
    exact h.unique
  · rw [hholding]
    exact h.known

theorem reserve (h : Owned b tasks) (hnone : holding tasks call = none)
    (hattempt : task.phase.attempt = some (b.nextConnectionAttemptId + 1)) :
    Owned ⟨b.connectRequestAttemptIds.insert task.node (b.nextConnectionAttemptId + 1), b.nextConnectionAttemptId + 1⟩
      (Function.update tasks call (some task)) := by
  have hcases : ∀ {other : Nat} {node : NodeId} {id : Nat},
      holding (Function.update tasks call (some task)) other = some (node, id) →
      (other = call ∧ id = b.nextConnectionAttemptId + 1) ∨ holding tasks other = some (node, id) := by
    intro other node id hother
    rw [holding_update] at hother
    split at hother
    · next heq =>
      rw [hattempt] at hother
      cases hother
      exact .inl ⟨heq, rfl⟩
    · exact .inr hother
  refine ⟨fun node id hentry => ?_, fun first second node node' id hfirst hsecond => ?_, fun other node id hother => ?_⟩
  · rw [Table.get_insert] at hentry
    split at hentry
    · next heq =>
      cases hentry
      refine ⟨call, ?_⟩
      rw [holding_update, if_pos rfl, hattempt, heq]
      rfl
    · obtain ⟨other, hother⟩ := h.live node id hentry
      refine ⟨other, ?_⟩
      rw [holding_update, if_neg, hother]
      rintro rfl
      rw [hnone] at hother
      cases hother
  · rcases hcases hfirst with ⟨rfl, rfl⟩ | hfirst
    · rcases hcases hsecond with ⟨rfl, _⟩ | hsecond
      · rfl
      · exact absurd (h.known second node' _ hsecond) (Nat.not_succ_le_self _)
    · rcases hcases hsecond with ⟨_, rfl⟩ | hsecond
      · exact absurd (h.known first node _ hfirst) (Nat.not_succ_le_self _)
      · exact h.unique first second node node' id hfirst hsecond
  · rcases hcases hother with ⟨_, rfl⟩ | hother
    · exact le_rfl
    · exact Nat.le_succ_of_le (h.known other node id hother)

theorem finish (h : Owned b tasks) {node : NodeId} {attempt : Nat} (hheld : holding tasks call = some (node, attempt))
    (hnone : task.phase.attempt = none) (hnext : b'.nextConnectionAttemptId = b.nextConnectionAttemptId)
    (hgone : b'.connectRequestAttemptIds.get node ≠ some attempt)
    (hget : ∀ other id, b'.connectRequestAttemptIds.get other = some id →
      b.connectRequestAttemptIds.get other = some id) : Owned b' (Function.update tasks call (some task)) := by
  have hcases : ∀ {other : Nat} {pair : NodeId × Nat},
      holding (Function.update tasks call (some task)) other = some pair → holding tasks other = some pair := by
    intro other pair hother
    rw [holding_update] at hother
    split at hother
    · rw [hnone] at hother
      cases hother
    · exact hother
  refine ⟨fun other id hentry => ?_, fun first second _ _ id hfirst hsecond =>
    h.unique first second _ _ id (hcases hfirst) (hcases hsecond), fun other _ id hother => ?_⟩
  · obtain ⟨holder, hholder⟩ := h.live other id (hget other id hentry)
    refine ⟨holder, ?_⟩
    rw [holding_update, if_neg, hholder]
    rintro rfl
    rw [hheld] at hholder
    cases hholder
    exact hgone hentry
  · rw [hnext]
    exact h.known other _ id (hcases hother)

end Owned

namespace State

variable {e e' : State} {retryLimit : Nat} {moves : List (Move State Input)}

structure Sound (retryLimit : Nat) (e : State) : Prop where
  owned : Owned e.books e.tasks
  fits : ∀ call task, e.tasks call = some task → task.phase.Fits retryLimit task.sends

theorem sound_new (retryLimit : Nat) : Sound retryLimit new where
  owned := by
    refine ⟨fun node id hentry => ?_, fun _ _ _ _ _ hheld => (by cases hheld), fun _ _ _ hheld => (by cases hheld)⟩
    rw [new, Table.get_empty] at hentry
    cases hentry
  fits _ _ h := by cases h

/-- Each step keeps the requests sound. -/
theorem Sound.step (hlimit : 1 ≤ retryLimit) (h : Sound retryLimit e) {input : Input}
    (hstep : e.step retryLimit input = some e') : Sound retryLimit e' := by
  have hfits : ∀ {call : Nat} {task : Task}, task.phase.Fits retryLimit task.sends → ∀ other task',
      Function.update e.tasks call (some task) other = some task' → task'.phase.Fits retryLimit task'.sends := by
    intro call task htask other task' hother
    rw [Function.update_apply] at hother
    split at hother
    · cases hother
      exact htask
    · exact h.fits other task' hother
  cases input with
  | request call node =>
    simp only [State.step] at hstep
    split at hstep
    · cases hstep
    · next hfree =>
      cases hstep
      refine ⟨h.owned.keep ?_, hfits rfl⟩
      rw [holding, Option.not_isSome_iff_eq_none.mp hfree]
      rfl
  | advance call answer =>
    simp only [State.step] at hstep
    split at hstep
    · cases hstep
    · next task htask =>
      split at hstep
      · cases hstep
      · next books task' hadvance =>
        cases hstep
        refine ⟨?_, hfits (Task.fits_advance hlimit (h.fits call task htask) hadvance)⟩
        have hheld : holding e.tasks call = task.phase.attempt.map fun attempt => (task.node, attempt) := by
          rw [holding, htask]
          rfl
        obtain ⟨hnode, hcases⟩ := Task.advance_cases hadvance
        rcases hcases with
          ⟨rfl, hsame⟩ | ⟨_, hreserving, hattempt, rfl⟩ | ⟨attempt, hattempt, hnone, hnext, hgone, hget⟩
        · refine h.owned.keep ?_
          rw [hheld, hsame, hnode]
        · rw [hreserving] at hheld
          rw [← hnode]
          exact h.owned.reserve hheld hattempt
        · rw [hattempt] at hheld
          exact h.owned.finish hheld hnone hnext hgone hget
  | clear node =>
    cases hstep
    refine ⟨h.owned.forget (fun other id hentry => ?_) le_rfl, h.fits⟩
    rw [Books.get_clear] at hentry
    split at hentry
    · cases hentry
    · exact hentry
  | clearAll =>
    cases hstep
    refine ⟨h.owned.forget (fun other id hentry => ?_) le_rfl, h.fits⟩
    rw [Table.get_empty] at hentry
    cases hentry
  | reserveConnection =>
    cases hstep
    exact ⟨h.owned.forget (fun _ _ hentry => hentry) (Nat.le_succ _), h.fits⟩

/-- After every run the requests are sound. -/
theorem run_sound (hlimit : 1 ≤ retryLimit) (run : Run (step retryLimit) new moves e) : Sound retryLimit e :=
  run.keeps (P := fun _ e => Sound retryLimit e) (sound_new retryLimit) fun _ _ _ _ h hstep => h.step hlimit hstep

theorem step_advance {call : Nat} {task task' : Task} {books : Books} {answer : Bool} (htask : e.tasks call = some task)
    (hadvance : task.advance retryLimit e.books answer = some (books, task')) :
    e.step retryLimit (.advance call answer) = some ⟨books, Function.update e.tasks call (some task')⟩ := by
  simp only [step, htask, hadvance]

theorem request_sends {node : NodeId} {call : Nat} (hcall : e.tasks call = none)
    (hfree : e.books.connectRequestAttemptIds.get node = none) (reserving sending : Bool) :
    ∃ e' task, [.request call node, .advance call false, .advance call false, .advance call reserving,
        .advance call sending].foldlM (step retryLimit) e = some e' ∧
      e'.tasks call = some task ∧ task.node = node ∧ task.sends = 1 := by
  have hadvance : ∀ {books books' : Books} {tasks : Nat → Option Task} {task : Task} (task' : Task) {answer : Bool}
      {rest : List Input} {e' : State}, task.advance retryLimit books answer = some (books', task') →
      rest.foldlM (step retryLimit) ⟨books', Function.update tasks call (some task')⟩ = some e' →
      (.advance call answer :: rest).foldlM (step retryLimit) ⟨books, Function.update tasks call (some task)⟩ =
        some e' := by
    intro books books' tasks task task' answer rest e' hadvance hrest
    rw [List.foldlM_cons, step_advance (Function.update_self call _ _) hadvance, Function.update_idem]
    exact hrest
  obtain ⟨attempt, reserved, hreserve⟩ :
      ∃ attempt reserved, e.books.reserveConnectRequestAttempt node = (some attempt, reserved) := by
    rw [Books.reserveConnectRequestAttempt, Table.contains, hfree]
    exact ⟨_, _, rfl⟩
  have hrequest : e.step retryLimit (.request call node) =
      some ⟨e.books, Function.update e.tasks call (some ⟨node, .lookingAtPeers, 0⟩)⟩ := by
    simp only [step, hcall]
    rfl
  have hreserving : (⟨node, .reserving, 0⟩ : Task).advance retryLimit e.books reserving =
      some (reserved, ⟨node, .sending attempt, 0⟩) := by
    simp only [Task.advance, hreserve]
  refine ⟨⟨reserved, Function.update e.tasks call (some ⟨node, .spawning attempt, 1⟩)⟩, ⟨node, .spawning attempt, 1⟩,
    ?_, Function.update_self call _ _, rfl, rfl⟩
  rw [List.foldlM_cons, hrequest]
  refine hadvance ⟨node, .lookingAtSession, 0⟩ rfl ?_
  refine hadvance ⟨node, .reserving, 0⟩ rfl ?_
  refine hadvance ⟨node, .sending attempt, 0⟩ hreserving ?_
  exact hadvance ⟨node, .spawning attempt, 1⟩ rfl rfl

/-- In every run of calls, tasks and what clears entries: each entry is the attempt of a call
that is between its reservation and the end of its task; no call sends more requests than the
limit; once no call has an attempt there is no entry; and once none has one for a node, a call
for it sends. -/
theorem requests_never_wedge (hlimit : 1 ≤ retryLimit) (run : Run (step retryLimit) new moves e) :
    (∀ node id, e.books.connectRequestAttemptIds.get node = some id →
      ∃ call task, e.tasks call = some task ∧ task.node = node ∧ task.phase.attempt = some id) ∧
    (∀ call task, e.tasks call = some task → task.sends ≤ retryLimit) ∧
    ((∀ call task, e.tasks call = some task → task.phase.attempt = none) →
      e.books.connectRequestAttemptIds = ∅) ∧
    ∀ node call, e.tasks call = none →
      (∀ other task, e.tasks other = some task → task.node = node → task.phase.attempt = none) →
      ∀ reserving sending, ∃ e' task, [.request call node, .advance call false, .advance call false,
          .advance call reserving, .advance call sending].foldlM (step retryLimit) e = some e' ∧
        e'.tasks call = some task ∧ task.node = node ∧ task.sends = 1 := by
  have hsound := run_sound hlimit run
  have hlive : ∀ node id, e.books.connectRequestAttemptIds.get node = some id →
      ∃ call task, e.tasks call = some task ∧ task.node = node ∧ task.phase.attempt = some id := by
    intro node id hentry
    obtain ⟨call, hcall⟩ := hsound.owned.live node id hentry
    exact ⟨call, holding_iff.mp hcall⟩
  -- Without an attempt for a node there is no entry.
  have hnone : ∀ node, (∀ call task, e.tasks call = some task → task.node = node → task.phase.attempt = none) →
      e.books.connectRequestAttemptIds.get node = none := by
    intro node hended
    refine Option.eq_none_iff_forall_ne_some.mpr fun id hentry => ?_
    obtain ⟨call, task, htask, hnode, hattempt⟩ := hlive node id hentry
    rw [hended call task htask hnode] at hattempt
    cases hattempt
  refine ⟨hlive, fun call task htask => (hsound.fits call task htask).sends_le hlimit, fun hended => ?_,
    fun node call hcall hended reserving sending => request_sends hcall (hnone node hended) reserving sending⟩
  apply AList.ext
  refine List.eq_nil_iff_forall_not_mem.mpr fun entry hentry => ?_
  have hget := Table.get_eq_some_iff.mpr hentry
  rw [hnone entry.1 fun call task htask _ => hended call task htask] at hget
  cases hget

/-- Of two calls for a node the first has reserved it, and the entry is its. -/
theorem requests_never_wedge_twice :
    let node : NodeId := ⟨"lower"⟩
    let inputs : List Input := [.advance 1 false, .advance 1 false, .advance 1 false, .advance 0 false,
      .advance 0 false, .advance 0 false, .request 1 node, .request 0 node]
    let e := (Reactive.play (step 3) new inputs).2
    e.books.connectRequestAttemptIds.get node = some 2 ∧
      ∃ call task, e.tasks call = some task ∧ task.node = node ∧ task.phase.attempt = some 2 := by
  intro node inputs e
  have hentry : e.books.connectRequestAttemptIds.get node = some 2 := by decide
  exact ⟨hentry, (requests_never_wedge (Nat.le_add_left 1 2) (Reactive.run_play (step 3) new inputs)).1 node 2 hentry⟩

end State

end Mistlib.Transport.ConnectRequests
