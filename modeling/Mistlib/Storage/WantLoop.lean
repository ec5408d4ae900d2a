import Mistlib.Async.Reactive
import Mistlib.Async.Rounds
import Mistlib.Storage.Want

/-!
# Asking one provider

The loop inside an attempt: send the WANT through every room in which the provider can be
reached, wait for its answer, and ask again when the path was reset or a provider that had been
serving fell silent.

Of a `select_biased!` the input is the branch that wins; all branches here wait for the
environment, so any of them may. What only goes into log lines is left out.
-/

namespace Mistlib.Storage

open Reactive

def RESPONDER_ROUTE_RECOVERY : Duration := Duration.fromSecs 5
def RECONNECT_POLL_INTERVAL : Duration := 250 * 1000000
def MAX_RESET_REREQUESTS : Nat := 2

inductive WantSend where
  | sent
  | unreachable
  | failed
deriving DecidableEq, Repr

/-- What `enqueue_want` returns after its last room. -/
def enqueueWant (sent reachable : Bool) : WantSend :=
  if sent then .sent else if reachable then .failed else .unreachable

/-- Where `enqueue_want` stands, or `send_want` around it. -/
inductive SendPoint where
  /-- It awaits the session transports. -/
  | sessions
  /-- It comes to the first of the rooms left. -/
  | path (rooms : List Room) (sent reachable : Bool)
  /-- The WANT is on its way through a room. -/
  | sending (rest : List Room) (sent : Bool)
  /-- No room had a route; it sleeps before it tries again. -/
  | asleep
deriving DecidableEq, Repr

inductive LoopPoint where
  | sending (routeWait : Duration) (point : SendPoint)
  | waiting (reachableStalls : Nat)
  /-- It waits for a route after a reset or a stall. -/
  | recovering
  | returned (watchesClosed : Bool)
deriving DecidableEq, Repr

/-- The async block `attempt` inside `NetworkPeerResolver::attempt`. -/
structure WantLoop where
  rerequests : Nat
  wasServing : Bool
  point : LoopPoint
deriving DecidableEq, Repr

inductive LoopInput where
  | sessions (rooms : List Room)
  | isReachable (yes : Bool)
  | sent (ok : Bool)
  | slept
  | reset
  /-- The sender of one of the watches is gone. -/
  | watchClosed
  | progress
  /-- The idle window ended, with the provider reachable or not. -/
  | idle (reachable : Bool)
  | recovered
deriving DecidableEq, Repr

namespace WantLoop

def start : WantLoop := { rerequests := 0, wasServing := false, point := .sending 0 .sessions }

def goTo (l : WantLoop) (point : LoopPoint) : WantLoop := { l with point }

/-- `send_want`, once `enqueue_want` returned. -/
def sendWant (l : WantLoop) (routeWait : Duration) : WantSend → WantLoop
  | .sent => l.goTo (.waiting 0)
  | .failed => l.goTo (.returned false)
  | .unreachable =>
    if routeWait ≥ RESPONDER_ROUTE_RECOVERY then l.goTo (.returned false)
    else l.goTo (.sending routeWait .asleep)

/-- The loop of `enqueue_want` over the rooms. -/
def enqueue (l : WantLoop) (routeWait : Duration) (rooms : List Room) (sent reachable : Bool) :
    WantLoop :=
  match rooms with
  | [] => l.sendWant routeWait (enqueueWant sent reachable)
  | room :: rest => l.goTo (.sending routeWait (.path (room :: rest) sent reachable))

/-- After a reset or two stalls: ask again if that is still allowed. -/
def recover (l : WantLoop) : WantLoop :=
  if l.rerequests ≥ MAX_RESET_REREQUESTS then l.goTo (.returned false) else l.goTo .recovering

/-- Nothing came in an idle window. A provider that never served is given up. -/
def stall (l : WantLoop) (reachableStalls : Nat) (reachable : Bool) : WantLoop :=
  if l.wasServing then
    let reachableStalls := if reachable then reachableStalls + 1 else 0
    if reachableStalls ≥ 2 then l.recover else l.goTo (.waiting reachableStalls)
  else l.goTo (.returned false)

def next (l : WantLoop) (i : LoopInput) : Option WantLoop :=
  match l.point, i with
  | .sending w .sessions, .sessions rooms => some (l.enqueue w rooms false false)
  | .sending w (.path (_ :: rest) sent reachable), .isReachable false =>
    some (l.enqueue w rest sent reachable)
  | .sending w (.path (_ :: rest) sent _), .isReachable true =>
    some (l.goTo (.sending w (.sending rest sent)))
  | .sending w (.sending rest sent), .sent ok => some (l.enqueue w rest (sent || ok) true)
  | .sending w .asleep, .slept =>
    let delay := min RECONNECT_POLL_INTERVAL (RESPONDER_ROUTE_RECOVERY - w)
    some (l.goTo (.sending (w + delay) .sessions))
  -- a reset drops the send, whatever it was awaiting
  | .sending _ _, .reset => some l.recover
  | .sending _ _, .watchClosed => some (l.goTo (.returned true))
  | .waiting _, .reset => some l.recover
  | .waiting _, .watchClosed => some (l.goTo (.returned true))
  | .waiting _, .progress => some { l with wasServing := true, point := .waiting 0 }
  | .waiting reachableStalls, .idle reachable => some (l.stall reachableStalls reachable)
  | .recovering, .idle _ => some (l.goTo (.returned false))
  | .recovering, .recovered =>
    some { l with rerequests := l.rerequests + 1, point := .sending 0 .sessions }
  | _, _ => none

/-! Only a recovered route counts the requests up. -/

section Rerequests

variable (l : WantLoop)

@[simp] theorem rerequests_goTo (point : LoopPoint) : (l.goTo point).rerequests = l.rerequests :=
  rfl

@[simp] theorem rerequests_sendWant (w : Duration) (result : WantSend) :
    (l.sendWant w result).rerequests = l.rerequests := by
  cases result with
  | sent | failed => rfl
  | unreachable =>
    dsimp only [sendWant]
    split <;> rfl

@[simp] theorem rerequests_enqueue (w : Duration) (rooms : List Room) (sent reachable : Bool) :
    (l.enqueue w rooms sent reachable).rerequests = l.rerequests := by
  cases rooms with
  | nil => exact rerequests_sendWant l w _
  | cons => rfl

@[simp] theorem rerequests_recover : l.recover.rerequests = l.rerequests := by
  unfold recover
  split <;> rfl

@[simp] theorem rerequests_stall (reachableStalls : Nat) (reachable : Bool) :
    (l.stall reachableStalls reachable).rerequests = l.rerequests := by
  unfold stall
  dsimp only
  split
  · generalize (if reachable then reachableStalls + 1 else 0) = stalls
    split
    · exact rerequests_recover l
    · rfl
  · rfl

theorem rerequests_next {l l' : WantLoop} {i : LoopInput} (hmove : l.next i = some l') :
    l'.rerequests = l.rerequests ∨
      l.point = .recovering ∧ l'.rerequests = l.rerequests + 1 := by
  obtain ⟨rerequests, wasServing, point⟩ := l
  unfold next at hmove
  dsimp only at hmove
  split at hmove <;> cases hmove <;> simp

end Rerequests

/-- What a move does to the outside: a snapshot of the rooms, or a WANT. -/
def event : Move WantLoop LoopInput → Option (Rounds.Event Room)
  | ⟨l, .sessions rooms⟩ => some (.listed l.rerequests rooms)
  | ⟨l, .isReachable true⟩ =>
    match l.point with
    | .sending _ (.path (room :: _) _ _) => some (.sent l.rerequests room)
    | _ => none
  | _ => none

def log (moves : List (Move WantLoop LoopInput)) : List (Rounds.Event Room) :=
  moves.filterMap event

/-! ## Rounds of WANTs -/

def Stands (log : List (Rounds.Event Room)) (l : WantLoop) : Prop :=
  match l.point with
  | .sending _ .sessions => Rounds.Before log l.rerequests
  | .sending _ (.path rooms _ reachable) =>
    Rounds.Within log l.rerequests rooms ∧
      (reachable = false → Rounds.sends l.rerequests log = [])
  | .sending _ (.sending rest _) => Rounds.Within log l.rerequests rest
  | .sending _ .asleep => Rounds.Before log l.rerequests
  | .waiting _ => Rounds.Before log (l.rerequests + 1)
  | .recovering => Rounds.Before log (l.rerequests + 1) ∧ l.rerequests < MAX_RESET_REREQUESTS
  | .returned _ => Rounds.Before log (l.rerequests + 1)

variable {log : List (Rounds.Event Room)} {l : WantLoop}

theorem stands_enqueue {rooms : List Room} {reachable : Bool}
    (h : Rounds.Within log l.rerequests rooms)
    (hnone : reachable = false → Rounds.sends l.rerequests log = []) (w : Duration) (sent : Bool) :
    (l.enqueue w rooms sent reachable).Stands log := by
  cases rooms with
  | cons room rest => exact ⟨h, hnone⟩
  | nil =>
    unfold enqueue enqueueWant
    cases sent with
    | true => exact h.over
    | false =>
      cases reachable with
      | true => exact h.over
      | false =>
        have hagain := h.again (hnone rfl)
        simp only [sendWant, Bool.false_eq_true, if_false]
        split
        · exact hagain.mono (Nat.le_succ _)
        · exact hagain

theorem stands_recover (h : Rounds.Before log (l.rerequests + 1)) : l.recover.Stands log := by
  unfold recover
  split
  · exact h
  · next hroom => exact ⟨h, Nat.lt_of_not_le hroom⟩

theorem stands_stall (h : Rounds.Before log (l.rerequests + 1)) (reachableStalls : Nat)
    (reachable : Bool) : (l.stall reachableStalls reachable).Stands log := by
  unfold stall
  split
  · dsimp only
    generalize (if reachable then reachableStalls + 1 else 0) = stalls
    split
    · exact stands_recover h
    · exact h
  · exact h

theorem Stands.over (h : l.Stands log) : Rounds.Before log (l.rerequests + 1) := by
  unfold Stands at h
  split at h
  · exact h.mono (Nat.le_succ _)
  · exact h.1.over
  · exact h.over
  · exact h.mono (Nat.le_succ _)
  · exact h
  · exact h.1
  · exact h

/-- Each step of the loop keeps to its log. -/
theorem stands_next {l' : WantLoop} {i : LoopInput} (h : l.Stands log) (hmove : l.next i = some l') :
    l'.Stands ((event ⟨l, i⟩).toList ++ log) := by
  have hover := h.over
  obtain ⟨rerequests, wasServing, point⟩ := l
  unfold next at hmove
  dsimp only at hmove
  split at hmove
  · cases hmove
    have hbefore : Rounds.Before log rerequests := h
    have hnone : Rounds.sends rerequests log = [] := hbefore.unsent _ le_rfl
    exact stands_enqueue (hbefore.listed _) (fun _ => hnone) _ _
  · cases hmove
    exact stands_enqueue h.1.skip h.2 _ _
  · cases hmove
    exact h.1.sent
  · cases hmove
    exact stands_enqueue h (by simp) _ _
  · cases hmove
    exact h
  · cases hmove
    exact stands_recover hover
  · cases hmove
    exact hover
  · cases hmove
    exact stands_recover hover
  · cases hmove
    exact hover
  · cases hmove
    exact hover
  · cases hmove
    exact stands_stall hover _ _
  · cases hmove
    exact hover
  · cases hmove
    exact hover
  · cases hmove

/-- A loop sends its WANT in three rounds at most. In each it goes once through
the rooms of one snapshot, and it sends to those that had a route. -/
theorem wants_bounded {moves : List (Move WantLoop LoopInput)}
    (run : Run WantLoop.next start moves l) (round : Nat) :
    Rounds.Covered (WantLoop.log moves) round ∧
      (MAX_RESET_REREQUESTS < round → Rounds.sends round (WantLoop.log moves) = []) := by
  have hstands : l.Stands (WantLoop.log moves) ∧ l.rerequests ≤ MAX_RESET_REREQUESTS := by
    refine run.keeps (P := fun moves l => l.Stands (WantLoop.log moves) ∧
      l.rerequests ≤ MAX_RESET_REREQUESTS) ⟨Rounds.before_nil 0, Nat.zero_le _⟩ ?_
    rintro past l i l' ⟨hstands, hle⟩ hmove
    refine ⟨?_, ?_⟩
    · rw [WantLoop.log, observed_cons]
      exact stands_next hstands hmove
    · rcases rerequests_next hmove with hsame | ⟨hpoint, hmore⟩
      · omega
      · unfold Stands at hstands
        rw [hpoint] at hstands
        have := hstands.2
        omega
  have hover := hstands.1.over
  exact ⟨hover.covered round, fun hlt => hover.unsent round (by omega)⟩

end WantLoop

end Mistlib.Storage
