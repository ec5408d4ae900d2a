import Mistlib.Async.Reactive
import Mistlib.Async.Semaphore
import Mistlib.Data.Table
import Mistlib.Types

/-!
# The signaling consumer and the handshake permits

A session's signaling messages are handled one after the other by one consumer,
`P2pSignalingDispatcher::drain` or the signaling loop. Handling an offer of a new peer, or a
request, takes a handshake permit, and so does every `connect` made elsewhere. A node's permit
is kept in `handshake_permits` until a channel of the node opens or its attempt ends, and a
second permit of the node drops the first.

What remote peers send, whether a handler goes on, and whether an attempt still needs a
candidate is arbitrary; there are no timers.
-/

open Reactive

namespace Mistlib.MistEngine.SignalingQueue

inductive MessageKind where
  | offer
  | answer
  | candidate
  | request
  | other
deriving DecidableEq, Repr

structure Message where
  sender : NodeId
  kind : MessageKind
deriving DecidableEq, Repr

/-- What an attempt that holds a permit waits for. -/
inductive Stage where
  /-- The call that took the permit still works for it. -/
  | working
  /-- Its offer is out. -/
  | needsAnswer
  /-- Descriptions are exchanged, and the channel opens, once a candidate of the
  remote peer has come where one is needed. -/
  | connecting (needsCandidate : Bool)
deriving DecidableEq, Repr

inductive Consumer where
  | idle
  | handling (m : Message)
  /-- It is about to ask for a permit, inside the handler of the message. -/
  | asking (m : Message)
  | waiting (m : Message)
  | granted (m : Message)
  | working (m : Message)
deriving DecidableEq, Repr

inductive DialPhase where
  | asking
  | waiting
  | granted
  | working
  | returned
deriving DecidableEq, Repr

/-- A call of `connect_inner` outside the consumer. -/
structure Dial where
  node : NodeId
  phase : DialPhase
deriving DecidableEq, Repr

inductive Client where
  | consumer
  | dial (i : Nat)
deriving DecidableEq, Repr

structure Session where
  semaphore : Semaphore Client
  handshakePermits : Table NodeId Stage
  consumer : Consumer
  queue : List Message
  dials : List Dial

/-- What a step comes to. `refused` is an error, or that there is nothing to do. -/
inductive Outcome where
  | refused
  | done (needsCandidate : Bool)
deriving DecidableEq, Repr

inductive Input where
  | dispatch (m : Message)
  | consumer (outcome : Outcome)
  | connect (node : NodeId)
  | dial (i : Nat) (outcome : Outcome)
  /-- A channel of the node opens. -/
  | opened (node : NodeId)
  /-- The node's attempt ends in another way. -/
  | ended (node : NodeId)
deriving DecidableEq, Repr

namespace Session

def new (maxConcurrentHandshakes : Nat) : Session where
  semaphore := ⟨maxConcurrentHandshakes, []⟩
  handshakePermits := ∅
  consumer := .idle
  queue := []
  dials := []

def grant (s : Session) : Option Client → Session
  | none => s
  | some .consumer =>
    match s.consumer with
    | .waiting m => { s with consumer := .granted m }
    | _ => s
  | some (.dial i) => { s with dials := s.dials.modify i fun d => { d with phase := .granted } }

def release (s : Session) : Session :=
  grant { s with semaphore := s.semaphore.release.1 } s.semaphore.release.2

/-- `permits.insert`, which drops a permit the node has. -/
def insertPermit (s : Session) (node : NodeId) : Session :=
  let inserted := { s with handshakePermits := s.handshakePermits.insert node .working }
  if s.handshakePermits.contains node then inserted.release else inserted

def removePermit (s : Session) (node : NodeId) : Session :=
  if s.handshakePermits.contains node then
    { s with handshakePermits := s.handshakePermits.erase node }.release
  else s

/-- The attempt of a node comes to another stage, if it holds a permit. -/
def advance (s : Session) (node : NodeId) (next : Stage → Stage) : Session :=
  match s.handshakePermits.get node with
  | none => s
  | some stage => { s with handshakePermits := s.handshakePermits.insert node (next stage) }

/-- What a message is for the attempt of its sender. -/
def deliver (needsCandidate : Bool) : MessageKind → Stage → Stage
  | .answer, .needsAnswer | .candidate, .connecting true => .connecting needsCandidate
  | _, stage => stage

/-- Where an attempt is when the call that took the permit has done its part. -/
def attempted (needsCandidate : Bool) : MessageKind → Stage
  | .offer => .connecting needsCandidate
  | _ => .needsAnswer

def drain (s : Session) (outcome : Outcome) : Option Session :=
  match s.consumer with
  | .idle =>
    match s.queue with
    | [] => none
    | m :: rest => some { s with queue := rest, consumer := .handling m }
  | .handling m =>
    match outcome with
    | .refused => some { s with consumer := .idle }
    | .done needsCandidate =>
      if m.kind = .offer ∨ m.kind = .request then some { s with consumer := .asking m }
      else some ({ s with consumer := .idle }.advance m.sender (deliver needsCandidate m.kind))
  | .asking m =>
    let (semaphore, ready) := s.semaphore.acquire .consumer
    some { s with semaphore, consumer := if ready then .granted m else .waiting m }
  | .waiting _ => none
  | .granted m => some ({ s with consumer := .working m }.insertPermit m.sender)
  | .working m =>
    match outcome with
    | .refused => some ({ s with consumer := .idle }.removePermit m.sender)
    | .done needsCandidate =>
      some ({ s with consumer := .idle }.advance m.sender fun _ => attempted needsCandidate m.kind)

def connectInner (s : Session) (i : Nat) (outcome : Outcome) (d : Dial) : Option Session :=
  match d.phase with
  | .asking =>
    let (semaphore, ready) := s.semaphore.acquire (.dial i)
    some { s with semaphore, dials := s.dials.set i { d with phase := if ready then .granted else .waiting } }
  | .waiting => none
  | .granted => some ({ s with dials := s.dials.set i { d with phase := .working } }.insertPermit d.node)
  | .working =>
    let returned := { s with dials := s.dials.set i { d with phase := .returned } }
    match outcome with
    | .refused => some (returned.removePermit d.node)
    | .done _ => some (returned.advance d.node fun _ => .needsAnswer)
  | .returned => none

def step (s : Session) : Input → Option Session
  | .dispatch m => some { s with queue := s.queue ++ [m] }
  | .consumer outcome => s.drain outcome
  | .connect node => some { s with dials := s.dials ++ [⟨node, .asking⟩] }
  | .dial i outcome => s.dials[i]?.bind (s.connectInner i outcome)
  | .opened node =>
    if s.handshakePermits.get node = some (.connecting false) then some (s.removePermit node) else none
  | .ended node => some (s.removePermit node)

end Session

/-- It is inside the handler of a message, in line for a permit. -/
def Consumer.waits : Consumer → Bool
  | .waiting _ => true
  | _ => false

def Consumer.asks : Consumer → Bool
  | .asking _ => true
  | _ => false

namespace Session

/-- The attempt goes on only by a message that is in the queue. -/
def Blocked (s : Session) (node : NodeId) (stage : Stage) : Prop :=
  stage = .needsAnswer ∧ ⟨node, .answer⟩ ∈ s.queue ∨
    stage = .connecting true ∧ ⟨node, .candidate⟩ ∈ s.queue
deriving Decidable

/-- The consumer waits for a permit, and every permit is held by an attempt that
waits for the consumer. -/
structure Stuck (s : Session) : Prop where
  waits : s.consumer.waits = true
  noneFree : s.semaphore.free = 0
  noneGranted : ∀ d ∈ s.dials, d.phase ≠ .granted
  held : ∀ e ∈ s.handshakePermits.entries, s.Blocked e.1 e.2

end Session

def Stage.ready : Stage → Nat
  | .connecting false => 1
  | _ => 0

namespace Session

/-- How many of the attempts that hold a permit only wait for their channel. -/
def ready (s : Session) : Nat := s.handshakePermits.sumBy Stage.ready

/-- When the consumer has to wait for a permit, more attempts only wait for their
channel than there are clients ahead of it; and while it waits no connection of
such an attempt is replaced by a dial. -/
def Unhindered (s : Session) : Input → Prop
  | .consumer _ => s.consumer.asks = true → s.semaphore.free = 0 → s.semaphore.line.length < s.ready
  | .dial i (.done _) => ∀ d ∈ s.dials[i]?, d.phase = .working → s.consumer.waits = true →
      s.handshakePermits.get d.node ≠ some (.connecting false)
  | _ => True

instance (s : Session) : DecidablePred s.Unhindered
  | .consumer _ => inferInstanceAs (Decidable (_ → _ → _))
  | .dial i (.done _) => inferInstanceAs (Decidable (∀ d ∈ s.dials[i]?, _))
  | .dial _ .refused | .dispatch _ | .connect _ | .opened _ | .ended _ => .isTrue trivial

variable {s s' : Session} {n : Nat} {node : NodeId} {i : Nat} {d : Dial} {outcome : Outcome}
  {input : Input}

/-! ## Permits -/

/-- The consumer waits exactly if it is in line, and for fewer than `n` releases. -/
structure Served (s : Session) (n : Nat) : Prop where
  within : s.semaphore.Within .consumer n
  waits : s.consumer.waits = true ↔ .consumer ∈ s.semaphore.line

theorem Served.of_line (h : .consumer ∉ s.semaphore.line) (hwaits : s.consumer.waits = false) :
    s.Served n := ⟨.of_notMem h, iff_of_false (by simp [hwaits]) h⟩

theorem Served.release (h : s.Served (n + 1)) : s.release.Served n := by
  have hwithin := h.within.release
  have hback : .consumer ∈ s.semaphore.release.1.line → s.consumer.waits = true := fun hin =>
    h.waits.mpr (Semaphore.mem_of_mem_release hin)
  have hstays : s.semaphore.release.2 ≠ some .consumer →
      (s.consumer.waits = true ↔ .consumer ∈ s.semaphore.release.1.line) := fun hne =>
    ⟨fun hwaits => (Semaphore.mem_release (h.waits.mp hwaits)).resolve_left hne, hback⟩
  unfold Session.release
  cases hgranted : s.semaphore.release.2 with
  | none =>
    refine ⟨hwithin, hstays ?_⟩
    rw [hgranted]
    nofun
  | some c =>
    cases c with
    | dial i =>
      refine ⟨hwithin, hstays ?_⟩
      rw [hgranted]
      nofun
    | consumer =>
      have hwaits := h.waits.mpr (Semaphore.mem_of_release hgranted)
      have hgone := Semaphore.notMem_release h.within hgranted
      cases hconsumer : s.consumer with
      | waiting m =>
        exact .of_line hgone rfl
      | idle | handling m | asking m | granted m | working m => simp [hconsumer, Consumer.waits] at hwaits

theorem handshakePermits_grant (c : Option Client) :
    (s.grant c).handshakePermits = s.handshakePermits := by
  cases c with
  | none => rfl
  | some c =>
    cases c with
    | dial i => rfl
    | consumer =>
      simp only [grant]
      split
      · rfl
      · rfl

theorem ready_release : s.release.ready = s.ready := by
  rw [ready, release, handshakePermits_grant]
  rfl

theorem ready_le_one (stage : Stage) : stage.ready ≤ 1 := by
  cases stage with
  | working | needsAnswer => exact Nat.zero_le 1
  | connecting needs =>
    cases needs with
    | true => exact Nat.zero_le 1
    | false => exact Nat.le_refl 1

theorem Served.removePermit (h : s.Served s.ready) :
    (s.removePermit node).Served (s.removePermit node).ready := by
  unfold Session.removePermit
  split
  · next hheld =>
    obtain ⟨stage, hstage⟩ := Table.contains_iff.mp hheld
    rw [ready_release]
    have hready := Table.sumBy_of_get Stage.ready hstage
    have hone := ready_le_one stage
    refine Served.release ⟨h.within.mono ?_, h.waits⟩
    simp only [ready]
    omega
  · exact h

theorem Served.insertPermit (h : s.Served s.ready) :
    (s.insertPermit node).Served (s.insertPermit node).ready := by
  have hinserted : ({ s with handshakePermits := s.handshakePermits.insert node .working }).ready =
      (s.handshakePermits.erase node).sumBy Stage.ready :=
    (Table.sumBy_insert _ _ _ _).trans (Nat.zero_add _)
  unfold Session.insertPermit
  simp only
  split
  · next hheld =>
    obtain ⟨stage, hstage⟩ := Table.contains_iff.mp hheld
    have hready := Table.sumBy_of_get Stage.ready hstage
    have hone := ready_le_one stage
    rw [ready_release, hinserted]
    exact Served.release ⟨h.within.mono (by unfold ready; omega), h.waits⟩
  · next hnone =>
    have hget : s.handshakePermits.get node = none := by
      rw [Table.contains, Bool.not_eq_true, Option.isSome_eq_false_iff, Option.isNone_iff_eq_none] at hnone
      exact hnone
    rw [hinserted, Table.erase_of_get_none hget]
    exact ⟨h.within, h.waits⟩

theorem Served.advance {next : Stage → Stage} (h : s.Served s.ready)
    (hnext : s.consumer.waits = true → ∀ stage, s.handshakePermits.get node = some stage →
      stage.ready ≤ (next stage).ready) : (s.advance node next).Served (s.advance node next).ready := by
  unfold Session.advance
  split
  · exact h
  · next stage hstage =>
    cases hwaits : s.consumer.waits with
    | false =>
      have hout : .consumer ∉ s.semaphore.line := fun hin => by
        rw [h.waits.mpr hin] at hwaits
        cases hwaits
      exact .of_line hout hwaits
    | true =>
      have hready := Table.sumBy_of_get Stage.ready hstage
      have hinserted := Table.sumBy_insert Stage.ready s.handshakePermits node (next stage)
      have hle := hnext hwaits stage hstage
      refine ⟨h.within.mono ?_, h.waits⟩
      simp only [ready]
      omega

/-! ## Steps -/

section

variable (h : s.Served s.ready)
include h

theorem Served.drain (hok : s.Unhindered (.consumer outcome)) (hstep : s.drain outcome = some s') :
    s'.Served s'.ready := by
  have hout : s.consumer.waits = false → .consumer ∉ s.semaphore.line := fun hwaits hin => by
    rw [h.waits.mpr hin] at hwaits
    cases hwaits
  unfold Session.drain at hstep
  cases hconsumer : s.consumer with
  | idle =>
    rw [hconsumer] at hstep hout
    cases hqueue : s.queue with
    | nil =>
      rw [hqueue] at hstep
      cases hstep
    | cons m rest =>
      rw [hqueue] at hstep
      cases hstep
      exact .of_line (hout rfl) rfl
  | handling m =>
    rw [hconsumer] at hstep hout
    cases outcome with
    | refused =>
      cases hstep
      exact .of_line (hout rfl) rfl
    | done needs =>
      simp only at hstep
      split at hstep
      · cases hstep
        exact .of_line (hout rfl) rfl
      · cases hstep
        exact Served.advance (.of_line (hout rfl) rfl) nofun
  | asking m =>
    rw [hconsumer] at hstep hout
    have hmem := hout rfl
    have hwithin : (s.semaphore.acquire .consumer).1.Within .consumer s.ready :=
      .acquire_self hmem (hok (by rw [hconsumer]; rfl))
    by_cases hfree : 0 < s.semaphore.free
    · have hacquire : s.semaphore.acquire .consumer =
          ({ s.semaphore with free := s.semaphore.free - 1 }, true) := if_pos hfree
      simp only [hacquire] at hstep
      cases hstep
      exact .of_line hmem rfl
    · have hacquire : s.semaphore.acquire .consumer =
          ({ s.semaphore with line := s.semaphore.line ++ [.consumer] }, false) := if_neg hfree
      simp only [hacquire] at hstep
      cases hstep
      rw [hacquire] at hwithin
      exact ⟨hwithin, iff_of_true rfl (List.mem_append_right _ (List.mem_singleton_self _))⟩
  | waiting m =>
    rw [hconsumer] at hstep
    cases hstep
  | granted m =>
    rw [hconsumer] at hstep hout
    cases hstep
    exact Served.insertPermit (.of_line (hout rfl) rfl)
  | working m =>
    rw [hconsumer] at hstep hout
    cases outcome with
    | refused =>
      cases hstep
      exact Served.removePermit (.of_line (hout rfl) rfl)
    | done needs =>
      cases hstep
      exact Served.advance (.of_line (hout rfl) rfl) nofun

theorem Served.connectInner (hdial : s.dials[i]? = some d) (hok : s.Unhindered (.dial i outcome))
    (hstep : s.connectInner i outcome d = some s') : s'.Served s'.ready := by
  unfold Session.connectInner at hstep
  cases hphase : d.phase with
  | asking =>
    rw [hphase] at hstep
    cases hstep
    have hothers : .consumer ∈ (s.semaphore.acquire (.dial i)).1.line ↔ .consumer ∈ s.semaphore.line :=
      Semaphore.mem_acquire nofun
    exact ⟨h.within.acquire nofun, h.waits.trans hothers.symm⟩
  | waiting | returned =>
    rw [hphase] at hstep
    cases hstep
  | granted =>
    rw [hphase] at hstep
    cases hstep
    exact Served.insertPermit ⟨h.within, h.waits⟩
  | working =>
    rw [hphase] at hstep
    cases outcome with
    | refused =>
      cases hstep
      exact Served.removePermit ⟨h.within, h.waits⟩
    | done needs =>
      cases hstep
      refine Served.advance ⟨h.within, h.waits⟩ fun hwaits stage hstage => ?_
      have hother := hok d hdial hphase hwaits
      cases stage with
      | working | needsAnswer => exact Nat.le_refl 0
      | connecting needs =>
        cases needs with
        | true => exact Nat.le_refl 0
        | false => exact absurd hstage hother

/-- An unhindered step keeps the consumer served. -/
theorem Served.step (hok : s.Unhindered input) (hstep : s.step input = some s') :
    s'.Served s'.ready := by
  cases input with
  | dispatch m | connect node =>
    cases hstep
    exact ⟨h.within, h.waits⟩
  | consumer outcome => exact h.drain hok hstep
  | dial i outcome =>
    obtain ⟨d, hdial, hinner⟩ := Option.bind_eq_some_iff.mp hstep
    exact h.connectInner hdial hok hinner
  | opened node =>
    obtain ⟨_, ⟨⟩⟩ := Option.ite_none_right_eq_some.mp hstep
    exact h.removePermit
  | ended node =>
    cases hstep
    exact h.removePermit

theorem Served.not_stuck : ¬ s.Stuck := by
  intro hstuck
  have hahead := h.within.ahead (h.waits.mp hstuck.waits)
  have hnone : s.ready = 0 := by
    refine List.sum_eq_zero fun k hk => ?_
    obtain ⟨stage, hstage, rfl⟩ := List.mem_map.mp hk
    obtain ⟨e, he, rfl⟩ := List.mem_map.mp hstage
    rcases hstuck.held e he with ⟨hblocked, _⟩ | ⟨hblocked, _⟩
    all_goals
      rw [hblocked]
      rfl
  omega

end

/-- In a run in which the consumer never waits for a permit without enough
attempts that only wait for their channel, it is never stuck. -/
theorem never_stuck {permits : Nat} {moves : List (Move Session Input)}
    (run : Run step (new permits) moves s) (hok : ∀ m ∈ moves, m.before.Unhindered m.input) :
    ¬ s.Stuck := by
  have hserved : s.Served s.ready := by
    refine run.keepsUnder (P := fun s => s.Served s.ready) (C := Unhindered) ?_ ?_ hok
    · exact .of_line (by simp [new]) rfl
    · exact fun s input s' h hok hstep => h.step hok hstep
  exact hserved.not_stuck

end Session

/-! ## Runs -/

section Runs

def a : NodeId := ⟨"a"⟩

def b : NodeId := ⟨"b"⟩

/-- A dial to `a` takes the only permit and has its offer out. -/
def dialled : List Input := .connect a :: List.replicate 3 (.dial 0 (.done false))

/-- An offer of `b` is handled while `a` only waits for its channel. -/
def offered : List Input :=
  dialled ++ [Input.dispatch ⟨a, .answer⟩] ++ List.replicate 2 (Input.consumer (.done false)) ++
    [Input.dispatch ⟨b, .offer⟩] ++ List.replicate 3 (Input.consumer (.done false))

/-- The answer of `a` is queued behind an offer of `b`. -/
def queued : List Input :=
  dialled ++ [Input.dispatch ⟨b, .offer⟩, .dispatch ⟨a, .answer⟩] ++
    List.replicate 3 (Input.consumer (.done false))

def after (permits : Nat) (inputs : List Input) : List (Move Session Input) × Session :=
  play Session.step (.new permits) inputs.reverse

theorem offered_waits : (after 1 offered).2.consumer = .waiting ⟨b, .offer⟩ ∧ ¬ (after 1 offered).2.Stuck := by
  have hok : ∀ m ∈ (after 1 offered).1, m.before.Unhindered m.input := by decide +kernel
  exact ⟨by decide +kernel, Session.never_stuck (run_play _ _ _) hok⟩

theorem queued_stuck : ∃ moves s, Run Session.step (.new 1) moves s ∧ s.Stuck := by
  refine ⟨(after 1 queued).1, (after 1 queued).2, run_play _ _ _, ?_, ?_, ?_, ?_⟩
  · decide +kernel
  · decide +kernel
  · decide +kernel
  · decide +kernel

end Runs

end Mistlib.MistEngine.SignalingQueue
