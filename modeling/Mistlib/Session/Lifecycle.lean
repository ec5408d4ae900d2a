import Mathlib.Algebra.Ring.Nat
import Mathlib.Tactic.Common

/-!
# Joining and leaving

`MistEngine::run` and the two forms of leaving, each as the steps between which other threads can
act: what happens under one lock or in one atomic operation is one step, and an await ends at
some later step. The pumps that a run spawns compare their generation with the engine's.

A wait for a previous cleanup ends when that cleanup is done or when its timer fires; starting a
transport succeeds. What a leave clears in the stores of nodes is left out, as nothing reads it.
-/

namespace Mistlib.Session

/-- `run_generation` is a `u64` and wraps around. -/
def nextGeneration (generation : Nat) : Nat := (generation + 1) % 2 ^ 64

inductive EngineState where
  | idle
  /-- Running with the context of this call of `run`. -/
  | running (run : Nat)
deriving DecidableEq, Repr

inductive RunPhase where
  | invoked
  /-- It awaits a previous cleanup. -/
  | waiting
  /-- There is no cleanup to wait for any more. -/
  | rested
  | counted (generation : Nat)
  | published (generation : Nat)
  /-- The network transport, if there is one, has been started. -/
  | networkStarted (generation : Nat)
  | started (generation : Nat)
  | signalingSpawned (generation : Nat)
  | networkSpawned (generation : Nat)
  | returned (generation : Nat)
deriving DecidableEq, Repr

/-- How far a call of `leave_room` or `leave_room_and_wait` has come. -/
inductive LeavePhase where
  | invoked
  /-- The send queues are closed. -/
  | closed
  | bumped (generation : Nat)
  /-- It has seen which run is to be cleaned up. -/
  | looked (generation : Nat) (cleanup : Option Nat)
  | idled (generation : Nat) (cleanup : Option Nat)
  | cleared (generation : Nat) (cleanup : Option Nat)
  /-- `cleanup_done` is set, and the cleanup is to be spawned. -/
  | noted (generation : Nat)
  /-- It awaits the cleanup. -/
  | cleaning (generation : Nat)
  | returned (generation : Nat)
deriving DecidableEq, Repr

inductive Call where
  | run (phase : RunPhase)
  | leave (andWait : Bool) (phase : LeavePhase)
deriving DecidableEq, Repr

inductive PumpKind where
  | signaling
  | network
  | tick
deriving DecidableEq, Repr

inductive PumpPhase where
  /-- The next step compares the generations. -/
  | checking
  | receiving
  /-- It has an event and compares the generations again. -/
  | rechecking
  /-- It handles a message, processes an event or ticks. -/
  | working
  | sleeping
  | stopped
deriving DecidableEq, Repr

/-- A task spawned by a run, with the run's generation. -/
structure Pump where
  kind : PumpKind
  run : Nat
  generation : Nat
  phase : PumpPhase
deriving DecidableEq, Repr

/-- A tick task sleeps before its first check. -/
def Pump.spawned (kind : PumpKind) (run generation : Nat) : Pump where
  kind
  run
  generation
  phase := if kind = .tick then .sleeping else .checking

/-- What a pump gets when it looks for something to do. -/
inductive Receipt where
  | item
  | nothing
  | disconnected
deriving DecidableEq, Repr

/-- The engine, its calls in the order of their invocation, and the pumps. -/
structure State where
  runGeneration : Nat
  state : EngineState
  /-- The leave whose cleanup the next run waits for. -/
  cleanupDone : Option Nat
  calls : List Call
  pumps : List Pump
deriving DecidableEq, Repr

namespace State

def new : State where
  runGeneration := 0
  state := .idle
  cleanupDone := none
  calls := []
  pumps := []

def setCall (s : State) (i : Nat) (c : Call) : State := { s with calls := s.calls.set i c }

def spawn (s : State) (kind : PumpKind) (run generation : Nat) : State :=
  { s with pumps := s.pumps ++ [.spawned kind run generation] }

def advanceRun (s : State) (i : Nat) : RunPhase → Option State
  | .invoked =>
    some ({ s with cleanupDone := none }.setCall i
      (.run (if s.cleanupDone.isSome then .waiting else .rested)))
  | .waiting => some (s.setCall i (.run .rested))
  | .rested =>
    some ({ s with runGeneration := nextGeneration s.runGeneration }.setCall i
      (.run (.counted (nextGeneration s.runGeneration))))
  | .counted g => some ({ s with state := .running i }.setCall i (.run (.published g)))
  | .published g => some (s.setCall i (.run (.networkStarted g)))
  | .networkStarted g => some (s.setCall i (.run (.started g)))
  | .started g => some ((s.spawn .signaling i g).setCall i (.run (.signalingSpawned g)))
  | .signalingSpawned g => some ((s.spawn .network i g).setCall i (.run (.networkSpawned g)))
  | .networkSpawned g => some ((s.spawn .tick i g).setCall i (.run (.returned g)))
  | .returned _ => none

/-- The run whose context the engine holds. -/
def context (s : State) : Option Nat :=
  match s.state with
  | .idle => none
  | .running run => some run

def advanceLeave (s : State) (i : Nat) (andWait : Bool) : LeavePhase → Option State
  | .invoked => some (s.setCall i (.leave andWait .closed))
  | .closed =>
    some ({ s with runGeneration := nextGeneration s.runGeneration }.setCall i
      (.leave andWait (.bumped (nextGeneration s.runGeneration))))
  | .bumped g => some (s.setCall i (.leave andWait (.looked g s.context)))
  | .looked g cleanup =>
    some ({ s with state := .idle }.setCall i (.leave andWait (.idled g cleanup)))
  | .idled g cleanup => some (s.setCall i (.leave andWait (.cleared g cleanup)))
  | .cleared g none => some (s.setCall i (.leave andWait (.returned g)))
  | .cleared g (some _) =>
    if andWait then some (s.setCall i (.leave andWait (.cleaning g)))
    else some ({ s with cleanupDone := some i }.setCall i (.leave andWait (.noted g)))
  | .noted g | .cleaning g => some (s.setCall i (.leave andWait (.returned g)))
  | .returned _ => none

def advance (s : State) (i : Nat) : Option State :=
  match s.calls[i]? with
  | some (.run phase) => s.advanceRun i phase
  | some (.leave andWait phase) => s.advanceLeave i andWait phase
  | none => none

/-- Where a pump goes next, or `none` if it has stopped. -/
def pumpPhase (s : State) (p : Pump) (receipt : Receipt) : Option PumpPhase :=
  match p.phase with
  | .checking =>
    some (if s.runGeneration = p.generation then
      (if p.kind = .tick then .working else .receiving) else .stopped)
  | .receiving =>
    match p.kind, receipt with
    | _, .disconnected => some .stopped
    | .network, .item => some .rechecking
    | .network, .nothing => some .checking
    | _, .item => some .working
    | _, .nothing => some .sleeping
  | .rechecking => some (if s.runGeneration = p.generation then .working else .stopped)
  | .working => some (if p.kind = .tick then .sleeping else .checking)
  | .sleeping => some .checking
  | .stopped => none

def advancePump (s : State) (i : Nat) (receipt : Receipt) : Option State :=
  match s.pumps[i]? with
  | some p => (s.pumpPhase p receipt).map fun phase =>
      { s with pumps := s.pumps.set i { p with phase } }
  | none => none

end State

inductive Choice where
  | run
  | leave (andWait : Bool)
  | call (i : Nat)
  | pump (i : Nat) (receipt : Receipt)
deriving DecidableEq, Repr

def State.step (s : State) : Choice → Option State
  | .run => some { s with calls := s.calls ++ [.run .invoked] }
  | .leave andWait => some { s with calls := s.calls ++ [.leave andWait .invoked] }
  | .call i => s.advance i
  | .pump i receipt => s.advancePump i receipt

/-! ### What a leave is for -/

def RunPhase.generation : RunPhase → Option Nat
  | .invoked | .waiting | .rested => none
  | .counted g | .published g | .networkStarted g | .started g | .signalingSpawned g
  | .networkSpawned g | .returned g => some g

/-- The generation a leave has moved the engine to. -/
def LeavePhase.generation : LeavePhase → Option Nat
  | .invoked | .closed => none
  | .bumped g | .looked g _ | .idled g _ | .cleared g _ | .noted g | .cleaning g
  | .returned g => some g

/-- Whether a leave has reset the engine's state. -/
def LeavePhase.reset : LeavePhase → Bool
  | .invoked | .closed | .bumped _ | .looked _ _ => false
  | _ => true

namespace Call

def generation : Call → Option Nat
  | .run phase | .leave _ phase => phase.generation

def returned : Call → Bool
  | .run (.returned _) | .leave _ (.returned _) => true
  | _ => false

end Call

inductive Continues (s : State) : State → Prop where
  | refl : Continues s s
  | call {s' s'' : State} {i : Nat} :
      Continues s s' → s'.step (.call i) = some s'' → Continues s s''
  | pump {s' s'' : State} {i : Nat} {receipt : Receipt} :
      Continues s s' → s'.step (.pump i receipt) = some s'' → Continues s s''

/-- All calls have returned, and the one invoked last was a leave. -/
structure LeftLast (s : State) : Prop where
  returned : ∀ c ∈ s.calls, c.returned = true
  last : ∃ andWait phase, s.calls.getLast? = some (.leave andWait phase)

/-- The engine is idle, and however the pumps go on, each of them stops when it
next compares the generations. -/
structure Stays (s : State) : Prop where
  idle : s.state = .idle
  stops : ∀ {s' : State}, Continues s s' → ∀ {i : Nat} {p : Pump} {receipt : Receipt} {s'' : State},
    s'.pumps[i]? = some p → p.phase = .checking ∨ p.phase = .rechecking →
    s'.step (.pump i receipt) = some s'' → ∃ p', s''.pumps[i]? = some p' ∧ p'.phase = .stopped

/-- The states reached by steps that meet a condition. -/
inductive Reach (guard : State → Choice → Prop) : State → Prop where
  | new : Reach guard .new
  | step {s s' : State} {choice : Choice} :
      Reach guard s → s.step choice = some s' → guard s choice → Reach guard s'

/-- Where the call invoked last is a leave, no run takes its generation once
that leave has moved the generation on, and none publishes itself once it has
reset the state. -/
def InTurn (s : State) : Choice → Prop
  | .call i => ∀ phase, s.calls[i]? = some (.run phase) → ∀ andWait later,
      s.calls.getLast? = some (.leave andWait later) →
      (phase = .rested → later.generation = none) ∧
        ((∃ g, phase = .counted g) → later.reset = false)
  | _ => True

/-! ### The steps of a call -/

/-- `c'` is `c` a step later, and that step does not touch the generation. -/
inductive Onward : Call → Call → Prop where
  | run {phase phase' : RunPhase} :
      phase'.generation = phase.generation → Onward (.run phase) (.run phase')
  | leave {andWait : Bool} {phase phase' : LeavePhase} :
      phase'.generation = phase.generation → Onward (.leave andWait phase) (.leave andWait phase')

def Call.reset : Call → Bool
  | .run _ => false
  | .leave _ phase => phase.reset

inductive Advance (s : State) (i : Nat) : State → Prop where
  | onward {c c' : Call} (cleanupDone : Option Nat) :
      s.calls[i]? = some c → Onward c c' → c'.reset = c.reset →
      Advance s i ({ s with cleanupDone }.setCall i c')
  | spawned {phase phase' : RunPhase} {g : Nat} (kind : PumpKind) :
      s.calls[i]? = some (.run phase) → phase.generation = some g → phase'.generation = some g →
      Advance s i ((s.spawn kind i g).setCall i (.run phase'))
  | counted :
      s.calls[i]? = some (.run .rested) →
      Advance s i ({ s with runGeneration := nextGeneration s.runGeneration }.setCall i
        (.run (.counted (nextGeneration s.runGeneration))))
  | published {g : Nat} :
      s.calls[i]? = some (.run (.counted g)) →
      Advance s i ({ s with state := .running i }.setCall i (.run (.published g)))
  | bumped {andWait : Bool} :
      s.calls[i]? = some (.leave andWait .closed) →
      Advance s i ({ s with runGeneration := nextGeneration s.runGeneration }.setCall i
        (.leave andWait (.bumped (nextGeneration s.runGeneration))))
  | reset {andWait : Bool} {g : Nat} {cleanup : Option Nat} :
      s.calls[i]? = some (.leave andWait (.looked g cleanup)) →
      Advance s i ({ s with state := .idle }.setCall i (.leave andWait (.idled g cleanup)))

theorem State.advance_cases {s s' : State} {i : Nat} (h : s.advance i = some s') : Advance s i s' := by
  unfold State.advance at h
  split at h
  · next phase hcall =>
    cases phase with
    | invoked =>
      cases h
      refine .onward none hcall (.run ?_) rfl
      split
      · rfl
      · rfl
    | waiting | published g | networkStarted g =>
      cases h
      exact .onward s.cleanupDone hcall (.run rfl) rfl
    | rested =>
      cases h
      exact .counted hcall
    | counted g =>
      cases h
      exact .published hcall
    | started g =>
      cases h
      exact .spawned .signaling hcall rfl rfl
    | signalingSpawned g =>
      cases h
      exact .spawned .network hcall rfl rfl
    | networkSpawned g =>
      cases h
      exact .spawned .tick hcall rfl rfl
    | returned g => cases h
  · next andWait phase hcall =>
    cases phase with
    | invoked | bumped g | idled g cleanup | noted g | cleaning g =>
      cases h
      exact .onward s.cleanupDone hcall (.leave rfl) rfl
    | closed =>
      cases h
      exact .bumped hcall
    | looked g cleanup =>
      cases h
      exact .reset hcall
    | cleared g cleanup =>
      cases cleanup with
      | none =>
        cases h
        exact .onward s.cleanupDone hcall (.leave rfl) rfl
      | some run =>
        simp only [State.advanceLeave] at h
        split at h
        · cases h
          exact .onward s.cleanupDone hcall (.leave rfl) rfl
        · cases h
          exact .onward (some i) hcall (.leave rfl) rfl
    | returned g => cases h
  · cases h

theorem Onward.refl (c : Call) : Onward c c := by
  cases c with
  | run phase => exact .run rfl
  | leave andWait phase => exact .leave rfl

theorem Onward.generation {c c' : Call} (h : Onward c c') : c'.generation = c.generation := by
  cases h with
  | run hsame | leave hsame => exact hsame

/-! ### The order of calls -/

namespace State

/-- How many calls have moved the generation on. -/
def taken (s : State) : Nat := s.calls.countP fun c => c.generation.isSome

theorem taken_le (s : State) : s.taken ≤ s.calls.length := List.countP_le_length

variable {s : State} {i : Nat} {c c' : Call}

theorem getElem?_setCall (h : s.calls[i]? = some c) (c' : Call) (j : Nat) :
    (s.setCall i c').calls[j]? = if j = i then some c' else s.calls[j]? := by
  have hlt := (List.getElem?_eq_some_iff.mp h).1
  rw [setCall, List.getElem?_set]
  by_cases hj : j = i
  · rw [if_pos hj.symm, if_pos hlt, if_pos hj]
  · rw [if_neg (Ne.symm hj), if_neg hj]

@[simp] theorem length_setCall (s : State) (i : Nat) (c : Call) :
    (s.setCall i c).calls.length = s.calls.length :=
  List.length_set

theorem taken_setCall (h : s.calls[i]? = some c) (hsame : c'.generation = c.generation) :
    (s.setCall i c').taken = s.taken := by
  obtain ⟨hlt, rfl⟩ := List.getElem?_eq_some_iff.mp h
  unfold taken setCall
  rw [List.countP_set hlt, hsame]
  split
  · next hsome =>
    have hpos : 0 < s.calls.countP fun c => c.generation.isSome :=
      List.countP_pos_iff.mpr ⟨_, List.getElem_mem hlt, hsome⟩
    omega
  · omega

theorem taken_setCall_new (h : s.calls[i]? = some c) (hnone : c.generation = none)
    (hsome : c'.generation.isSome = true) : (s.setCall i c').taken = s.taken + 1 := by
  obtain ⟨hlt, rfl⟩ := List.getElem?_eq_some_iff.mp h
  unfold taken setCall
  rw [List.countP_set hlt, hnone, if_pos hsome]
  simp

end State

/-- Where the call invoked last is a leave, the generations of the runs are
behind the one it has moved to, and none of them holds the state once it has
reset that. -/
structure Ordered (s : State) : Prop where
  counter : s.runGeneration ≤ s.taken
  below : ∀ {i : Nat} {c : Call} {g : Nat}, s.calls[i]? = some c → c.generation = some g →
    g ≤ s.runGeneration
  overtaken : ∀ {i j : Nat} {phase : RunPhase} {andWait : Bool} {later : LeavePhase} {g g' : Nat},
    j + 1 = s.calls.length → s.calls[i]? = some (.run phase) →
    s.calls[j]? = some (.leave andWait later) →
    phase.generation = some g → later.generation = some g' → g < g'
  held : ∀ {i : Nat}, s.state = .running i → ∀ {j : Nat} {andWait : Bool} {later : LeavePhase},
    j + 1 = s.calls.length → s.calls[j]? = some (.leave andWait later) → later.reset = false
  spawned : ∀ p ∈ s.pumps, ∃ phase, s.calls[p.run]? = some (.run phase) ∧
    phase.generation = some p.generation

namespace Ordered

variable {s s' : State} {i : Nat} {c c' : Call}

theorem new : Ordered .new where
  counter := Nat.le_refl 0
  below := by simp [State.new]
  overtaken := by simp [State.new]
  held := nofun
  spawned := by simp [State.new]

variable {j : Nat} {d : Call}

theorem before (hc : s.calls[i]? = some c) (hon : Onward c c')
    (hd : (s.setCall i c').calls[j]? = some d) : ∃ d₀, s.calls[j]? = some d₀ ∧ Onward d₀ d := by
  rw [State.getElem?_setCall hc] at hd
  split at hd
  · next hj =>
    cases hd
    exact ⟨c, hj ▸ hc, hon⟩
  · exact ⟨d, hd, .refl d⟩

theorem after (hc : s.calls[i]? = some c) (hon : Onward c c') {phase : RunPhase}
    (hd : s.calls[j]? = some (.run phase)) :
    ∃ phase', (s.setCall i c').calls[j]? = some (.run phase') ∧
      phase'.generation = phase.generation := by
  rw [State.getElem?_setCall hc]
  split
  · next hj =>
    subst hj
    cases hc.symm.trans hd
    cases hon with
    | run hsame => exact ⟨_, rfl, hsame⟩
  · exact ⟨phase, hd, rfl⟩

theorem goOn (h : Ordered s) (hc : s.calls[i]? = some c) (hon : Onward c c')
    (hheld : ∀ {j}, s.state = .running j → i + 1 = s.calls.length → c'.reset = false) :
    Ordered (s.setCall i c') where
  counter := by
    rw [State.taken_setCall hc hon.generation]
    exact h.counter
  below := by
    intro j d g hd hg
    obtain ⟨d₀, hd₀, hon'⟩ := before hc hon hd
    exact h.below hd₀ (hon'.generation ▸ hg)
  overtaken := by
    intro j k phase andWait later g g' hlast hj hk hg hg'
    rw [State.length_setCall] at hlast
    obtain ⟨d, hd, hrun⟩ := before hc hon hj
    obtain ⟨e, he, hleave⟩ := before hc hon hk
    cases hrun with
    | run hsame =>
      cases hleave with
      | leave hsame' => exact h.overtaken hlast hd he (hsame ▸ hg) (hsame' ▸ hg')
  held := by
    intro j hstate k andWait later hlast hk
    rw [State.length_setCall] at hlast
    rw [State.getElem?_setCall hc] at hk
    split at hk
    · next hki =>
      cases hk
      exact hheld hstate (hki ▸ hlast)
    · exact h.held hstate hlast hk
  spawned := by
    intro p hp
    obtain ⟨phase, hphase, hg⟩ := h.spawned p hp
    obtain ⟨phase', hphase', hsame⟩ := after hc hon hphase
    exact ⟨phase', hphase', hsame.trans hg⟩

theorem withPumps (h : Ordered s) {pumps : List Pump}
    (hpumps : ∀ p ∈ pumps, ∃ phase, s.calls[p.run]? = some (.run phase) ∧
      phase.generation = some p.generation) : Ordered { s with pumps } :=
  { h with spawned := hpumps }

variable {calls : List Call}

theorem of_invoked (h : (calls ++ [c])[j]? = some d) : calls[j]? = some d ∨ d = c := by
  rw [List.getElem?_append] at h
  split at h
  · exact .inl h
  · exact .inr (List.mem_singleton.mp (List.mem_of_getElem? h))

theorem last_invoked (hlast : j + 1 = (calls ++ [c]).length) (h : (calls ++ [c])[j]? = some d) :
    d = c := by
  obtain rfl : j = calls.length := by simpa using hlast
  rw [List.getElem?_concat_length] at h
  cases h
  rfl

theorem still (h : calls[j]? = some d) : (calls ++ [c])[j]? = some d := by
  rw [List.getElem?_append_left (List.getElem?_eq_some_iff.mp h).1]
  exact h

theorem invoke (h : Ordered s) (hnone : c.generation = none)
    (hreset : ∀ andWait later, c = .leave andWait later → later.reset = false) :
    Ordered { s with calls := s.calls ++ [c] } where
  counter := by
    have htaken : ({ s with calls := s.calls ++ [c] } : State).taken = s.taken := by
      simp [State.taken, hnone]
    rw [htaken]
    exact h.counter
  below := by
    intro j d g hd hg
    rcases of_invoked hd with hd | rfl
    · exact h.below hd hg
    · rw [hnone] at hg
      cases hg
  overtaken := by
    intro j k phase andWait later g g' hlast hj hk hg hg'
    cases last_invoked hlast hk
    cases hnone.symm.trans hg'
  held := by
    intro j hstate k andWait later hlast hk
    exact hreset andWait later (last_invoked hlast hk).symm
  spawned := by
    intro p hp
    obtain ⟨phase, hphase, hg⟩ := h.spawned p hp
    exact ⟨phase, still hphase, hg⟩

theorem take (h : Ordered s) (hroom : s.calls.length < 2 ^ 64) (hc : s.calls[i]? = some c)
    (hnone : c.generation = none) (hnext : c'.generation = some (nextGeneration s.runGeneration))
    (hreset : c'.reset = false)
    (hbehind : ∀ {phase'}, c' = .run phase' → ∀ {j andWait later}, j + 1 = s.calls.length →
      s.calls[j]? = some (.leave andWait later) → later.generation = none) :
    Ordered ({ s with runGeneration := nextGeneration s.runGeneration }.setCall i c') := by
  have htaken : (s.setCall i c').taken = s.taken + 1 :=
    State.taken_setCall_new hc hnone (by rw [hnext]; rfl)
  have hmost := State.taken_le (s.setCall i c')
  have hlength : (s.setCall i c').calls.length = s.calls.length := List.length_set
  have hcounter := h.counter
  have hplus : nextGeneration s.runGeneration = s.runGeneration + 1 := by
    rw [htaken, hlength] at hmost
    exact Nat.mod_eq_of_lt (by omega)
  have hget : ∀ j, ({ s with runGeneration := nextGeneration s.runGeneration }.setCall i c').calls[j]? =
      if j = i then some c' else s.calls[j]? := State.getElem?_setCall hc c'
  constructor
  · change nextGeneration s.runGeneration ≤ (s.setCall i c').taken
    omega
  · intro j d g hd hg
    change g ≤ nextGeneration s.runGeneration
    rw [hget] at hd
    split at hd
    · cases hd
      cases hnext.symm.trans hg
      exact Nat.le_refl _
    · have hbelow := h.below hd hg
      omega
  · intro j k phase andWait later g g' hlast hj hk hg hg'
    rw [State.length_setCall] at hlast
    rw [hget] at hj
    rw [hget] at hk
    split at hk
    · next hki =>
      cases hk
      cases hnext.symm.trans hg'
      split at hj
      · cases hj
      · have hbelow : g ≤ s.runGeneration := h.below hj hg
        omega
    · split at hj
      · cases hj
        have hlate := hbehind rfl hlast hk
        cases hlate.symm.trans hg'
      · exact h.overtaken hlast hj hk hg hg'
  · intro j hstate k andWait later hlast hk
    rw [State.length_setCall] at hlast
    rw [hget] at hk
    split at hk
    · cases hk
      exact hreset
    · exact h.held hstate hlast hk
  · intro p hp
    obtain ⟨phase, hphase, hg⟩ := h.spawned p hp
    have hne : p.run ≠ i := by
      intro heq
      rw [heq, hc] at hphase
      cases hphase
      cases hnone.symm.trans hg
    refine ⟨phase, ?_, hg⟩
    rw [hget, if_neg hne]
    exact hphase

theorem publish (h : Ordered s) (i : Nat)
    (hbehind : ∀ {j andWait later}, j + 1 = s.calls.length →
      s.calls[j]? = some (.leave andWait later) → later.reset = false) :
    Ordered { s with state := .running i } :=
  { h with
    held := by
      intro j hj k andWait later hlast hk
      exact hbehind hlast hk }

theorem idle (h : Ordered s) : Ordered { s with state := .idle } :=
  { h with held := nofun }

theorem getLast?_of_last (hlast : j + 1 = calls.length) (hj : calls[j]? = some c) :
    calls.getLast? = some c := by
  rw [List.getLast?_eq_getElem?, ← hlast, Nat.add_sub_cancel]
  exact hj

theorem advance (h : Ordered s) (hroom : s.calls.length < 2 ^ 64) (hstep : Advance s i s')
    (hturn : InTurn s (.call i)) : Ordered s' := by
  cases hstep with
  | @onward c c' cleanupDone hc hon hreset =>
    refine goOn (s := { s with cleanupDone }) { h with } hc hon ?_
    intro j hstate hlast
    rw [hreset]
    cases c with
    | run phase => rfl
    | leave andWait phase => exact h.held hstate hlast hc
  | @spawned phase phase' g kind hc hg hg' =>
    have hpumps : Ordered (s.spawn kind i g) := by
      refine h.withPumps ?_
      intro p hp
      rcases List.mem_append.mp hp with hp | hp
      · exact h.spawned p hp
      · cases List.mem_singleton.mp hp
        exact ⟨phase, hc, hg⟩
    exact hpumps.goOn hc (.run (hg'.trans hg.symm)) fun _ _ => rfl
  | counted hc =>
    refine h.take hroom hc rfl rfl rfl ?_
    intro phase' _ j andWait later hlast hj
    exact (hturn _ hc andWait later (getLast?_of_last hlast hj)).1 rfl
  | @published g hc =>
    have hpublished : Ordered { s with state := .running i } :=
      h.publish i fun hlast hj => (hturn _ hc _ _ (getLast?_of_last hlast hj)).2 ⟨g, rfl⟩
    exact hpublished.goOn hc (.run rfl) fun _ _ => rfl
  | bumped hc => exact h.take hroom hc rfl rfl rfl nofun
  | reset hc => exact h.idle.goOn hc (.leave rfl) nofun

theorem advancePump (h : Ordered s) {receipt : Receipt} (hstep : s.advancePump i receipt = some s') :
    Ordered s' := by
  unfold State.advancePump at hstep
  split at hstep
  · next p hp =>
    obtain ⟨phase, _, rfl⟩ := Option.map_eq_some_iff.mp hstep
    refine h.withPumps ?_
    intro q hq
    rcases List.mem_or_eq_of_mem_set hq with hq | rfl
    · exact h.spawned q hq
    · exact h.spawned p (List.mem_of_getElem? hp)
  · cases hstep

end Ordered

/-- No step takes a call away. -/
theorem State.length_step {s s' : State} {choice : Choice} (h : s.step choice = some s') :
    s.calls.length ≤ s'.calls.length := by
  cases choice with
  | run | leave andWait =>
    cases h
    simp
  | call i =>
    have hset : ∀ (t : State) (c : Call), t.calls = s.calls →
        s.calls.length ≤ (t.setCall i c).calls.length := by
      intro t c ht
      have hlength := State.length_setCall t i c
      rw [ht] at hlength
      exact Nat.le_of_eq hlength.symm
    cases State.advance_cases h with
    | onward _ _ _ _ | spawned _ _ _ _ | counted _ | published _ | bumped _ | reset _ => exact hset _ _ rfl
  | pump i receipt =>
    simp only [State.step, State.advancePump] at h
    split at h
    · obtain ⟨phase, _, rfl⟩ := Option.map_eq_some_iff.mp h
      exact Nat.le_refl _
    · cases h

theorem Reach.ordered {s : State} (h : Reach InTurn s) (hroom : s.calls.length < 2 ^ 64) :
    Ordered s := by
  induction h with
  | new => exact .new
  | @step s s' choice _ hstep hturn ih =>
    have hbefore := Nat.lt_of_le_of_lt (State.length_step hstep) hroom
    have hordered := ih hbefore
    cases choice with
    | run =>
      cases hstep
      exact hordered.invoke rfl nofun
    | leave andWait =>
      cases hstep
      exact hordered.invoke rfl fun _ _ heq => by
        cases heq
        rfl
    | call i => exact hordered.advance hbefore (State.advance_cases hstep) hturn
    | pump i receipt => exact hordered.advancePump hstep

/-! ### When the last call leaves -/

theorem State.advance_returned {s : State} {i : Nat} (h : ∀ c ∈ s.calls, c.returned = true) :
    s.advance i = none := by
  unfold State.advance
  split
  · next phase hcall =>
    have hreturned := h _ (List.mem_of_getElem? hcall)
    cases phase with
    | returned g => rfl
    | _ => cases hreturned
  · next andWait phase hcall =>
    have hreturned := h _ (List.mem_of_getElem? hcall)
    cases phase with
    | returned g => rfl
    | _ => cases hreturned
  · rfl

/-- Once all calls have returned, what goes on changes no run. -/
theorem Continues.keeps {s s' : State} (h : Continues s s')
    (hreturned : ∀ c ∈ s.calls, c.returned = true)
    (hpumps : ∀ p ∈ s.pumps, p.generation ≠ s.runGeneration) :
    s'.calls = s.calls ∧ s'.runGeneration = s.runGeneration ∧
      ∀ p ∈ s'.pumps, p.generation ≠ s.runGeneration := by
  induction h with
  | refl => exact ⟨rfl, rfl, hpumps⟩
  | @call s' s'' i _ hstep ih =>
    rw [State.step, State.advance_returned (by rw [ih.1]; exact hreturned)] at hstep
    cases hstep
  | @pump s' s'' i receipt _ hstep ih =>
    obtain ⟨hcalls, hgeneration, hothers⟩ := ih
    simp only [State.step, State.advancePump] at hstep
    split at hstep
    · next p hp =>
      obtain ⟨phase, _, rfl⟩ := Option.map_eq_some_iff.mp hstep
      refine ⟨hcalls, hgeneration, fun q hq => ?_⟩
      rcases List.mem_or_eq_of_mem_set hq with hq | rfl
      · exact hothers q hq
      · exact hothers p (List.mem_of_getElem? hp)
    · cases hstep

theorem State.pump_stops {s s' : State} {i : Nat} {p : Pump} {receipt : Receipt}
    (hp : s.pumps[i]? = some p) (hgeneration : p.generation ≠ s.runGeneration)
    (hphase : p.phase = .checking ∨ p.phase = .rechecking)
    (hstep : s.step (.pump i receipt) = some s') :
    ∃ p', s'.pumps[i]? = some p' ∧ p'.phase = .stopped := by
  have hnext : s.pumpPhase p receipt = some .stopped := by
    unfold State.pumpPhase
    rcases hphase with hphase | hphase
    all_goals
      rw [hphase]
      simp only
      rw [if_neg (Ne.symm hgeneration)]
  have hlt := (List.getElem?_eq_some_iff.mp hp).1
  simp only [State.step, State.advancePump, hp, hnext, Option.map_some, Option.some.injEq] at hstep
  subst hstep
  exact ⟨{ p with phase := .stopped }, List.getElem?_set_self hlt, rfl⟩

/-- A leave is not lost as long as no run takes its generation, or publishes
itself, when the call invoked last is a leave that has passed that point
before it: once all calls have returned and the last one invoked was a leave, the
engine is idle and stays so, and the pumps stop. -/
theorem leave_takesEffect {s : State} (h : Reach InTurn s) (hroom : s.calls.length < 2 ^ 64)
    (hleft : LeftLast s) : Stays s := by
  have hordered := h.ordered hroom
  obtain ⟨andWait, phase, hlast⟩ := hleft.last
  rw [List.getLast?_eq_getElem?] at hlast
  have hreturned := hleft.returned _ (List.mem_of_getElem? hlast)
  obtain ⟨g', rfl⟩ : ∃ g', phase = .returned g' := by
    cases phase with
    | returned g' => exact ⟨g', rfl⟩
    | _ => cases hreturned
  have hlength : s.calls.length - 1 + 1 = s.calls.length := by
    have hlt := (List.getElem?_eq_some_iff.mp hlast).1
    omega
  have hpumps : ∀ p ∈ s.pumps, p.generation ≠ s.runGeneration := by
    intro p hp
    obtain ⟨phase, hphase, hg⟩ := hordered.spawned p hp
    have hlt := hordered.overtaken hlength hphase hlast hg rfl
    have hle := hordered.below hlast rfl
    omega
  refine ⟨?_, ?_⟩
  · cases hstate : s.state with
    | idle => rfl
    | running i =>
      cases hordered.held hstate hlength hlast
  · intro s' hcontinues i p receipt s'' hp hphase hstep
    obtain ⟨_, hgeneration, hothers⟩ := hcontinues.keeps hleft.returned hpumps
    have hne := hothers p (List.mem_of_getElem? hp)
    rw [← hgeneration] at hne
    exact State.pump_stops hp hne hphase hstep

/-! ### A leave that takes effect, and one that is lost -/

def State.exec (check : State → Choice → Bool) : List Choice → State → Option State
  | [], s => some s
  | choice :: rest, s =>
    if check s choice then (s.step choice).bind fun s' => s'.exec check rest else none

theorem Reach.of_exec {guard : State → Choice → Prop} {check : State → Choice → Bool}
    (hcheck : ∀ {s choice}, check s choice = true → guard s choice) {schedule : List Choice}
    {s s' : State} (hs : Reach guard s) (h : s.exec check schedule = some s') : Reach guard s' := by
  induction schedule generalizing s with
  | nil =>
    cases h
    exact hs
  | cons choice rest ih =>
    simp only [State.exec] at h
    split at h
    · next hpasses =>
      obtain ⟨t, hstep, hrest⟩ := Option.bind_eq_some_iff.mp h
      exact ih (hs.step hstep (hcheck hpasses)) hrest
    · cases h

def steps (i n : Nat) : List Choice := List.replicate n (.call i)

/-- Whether a run in this phase is not to go on behind a call. -/
def RunPhase.overtakenBy (phase : RunPhase) : Call → Bool
  | .run _ => false
  | .leave _ later =>
    match phase with
    | .rested => later.generation.isSome
    | .counted _ => later.reset
    | _ => false

/-- `InTurn` as a check. -/
def inTurn (s : State) : Choice → Bool
  | .call i =>
    match s.calls[i]? with
    | some (.run phase) => s.calls.getLast?.all fun c => !phase.overtakenBy c
    | _ => true
  | _ => true

/-- What the check of a schedule lets through is in turn. -/
theorem inTurn_sound {s : State} {choice : Choice} (h : inTurn s choice = true) :
    InTurn s choice := by
  cases choice with
  | call i =>
    intro phase hphase andWait later hlast
    simp only [inTurn, hphase, hlast, Option.all_some] at h
    refine ⟨?_, ?_⟩
    · rintro rfl
      simpa [RunPhase.overtakenBy] using h
    · rintro ⟨g, rfl⟩
      simpa [RunPhase.overtakenBy] using h
  | _ => trivial

/-- A leave that is invoked while a run starts its transports. -/
def leaveWhileStarting : List Choice :=
  [Choice.run] ++ steps 0 4 ++ [Choice.leave false] ++ steps 1 3 ++ steps 0 4 ++ steps 1 4

theorem leave_takesEffect_starting :
    ∃ s, Reach InTurn s ∧ LeftLast s ∧ s.pumps.length = 3 ∧ Stays s := by
  have hrun : (State.new.exec inTurn leaveWhileStarting).any (fun s =>
      decide ((∀ c ∈ s.calls, c.returned = true) ∧ s.pumps.length = 3 ∧ s.calls.length < 2 ^ 64 ∧
        s.calls.getLast? = some (.leave false (.returned 2)))) = true := by
    decide +kernel
  obtain ⟨s, hexec, hs⟩ := Option.any_eq_true _ _ |>.mp hrun
  obtain ⟨hreturned, hpumps, hroom, hlast⟩ := of_decide_eq_true hs
  have hreach := Reach.of_exec inTurn_sound .new hexec
  have hleft : LeftLast s := ⟨hreturned, _, _, hlast⟩
  exact ⟨s, hreach, hleft, hpumps, leave_takesEffect hreach hroom hleft⟩

/-- A session is left and joined again; while the second run awaits the cleanup
of the first it is left for good, and then the cleanup is done. -/
def rejoinAndLeave : List Choice :=
  [Choice.run] ++ steps 0 8 ++ [Choice.leave false] ++ steps 1 7 ++ [Choice.run] ++ steps 2 1 ++
    [Choice.leave false] ++ steps 3 6 ++ steps 2 8

/-- The calls overlap at awaits only, and the last leave is lost: the engine
runs, and its pumps go on. -/
theorem leave_lost :
    ∃ s, Reach (fun _ _ => True) s ∧ LeftLast s ∧ s.state = .running 2 ∧ ¬ Stays s := by
  have hrun : (State.new.exec (fun _ _ => true) rejoinAndLeave).any (fun s =>
      decide ((∀ c ∈ s.calls, c.returned = true) ∧ s.state = .running 2 ∧
        s.calls.getLast? = some (.leave false (.returned 3)))) = true := by
    decide +kernel
  obtain ⟨s, hexec, hs⟩ := Option.any_eq_true _ _ |>.mp hrun
  obtain ⟨hreturned, hstate, hlast⟩ := of_decide_eq_true hs
  refine ⟨s, Reach.of_exec (fun _ => trivial) .new hexec, ⟨hreturned, _, _, hlast⟩, hstate, ?_⟩
  intro hstays
  cases hstate.symm.trans hstays.idle

end Mistlib.Session
