import Mistlib.Session.Lifecycle

/-!
# A run whose transport does not start

`MistEngine::run` publishes its context and then starts the transports. A start may fail, and
run returns its error there and then. This module follows one call of run, with both outcomes
and with all that other calls do to the engine while it awaits: what is left of it when it has
failed.

Errors are given by their text. What other calls do is one atomic step after the other (`Step`);
a leave moves the generation on and resets the state, another run moves it on and publishes its
own context.
-/

namespace Mistlib.Session

inductive Owner where
  /-- The call of run that is followed. -/
  | own
  | other (call : Nat)
deriving DecidableEq, Repr

/-- What a run and the calls beside it share. -/
structure Shared where
  runGeneration : Nat
  /-- `none` is `Idle`. -/
  running : Option Owner
deriving DecidableEq, Repr

/-- What other calls do, a step at a time. -/
inductive Step where
  | bumps
  | idles
  | publishes (call : Nat)
deriving DecidableEq, Repr

def Shared.apply (e : Shared) : Step → Shared
  | .bumps => { e with runGeneration := nextGeneration e.runGeneration }
  | .idles => { e with running := none }
  | .publishes call => { e with running := some (.other call) }

/-- The engine after the steps of others. -/
def Shared.after (e : Shared) (steps : List Step) : Shared := steps.foldl Shared.apply e

/-- How the transports start; a session may be without a network transport. -/
structure Starts where
  network : Option (Except String Unit)
  transport : Except String Unit

/-- What others do while the run awaits a previous cleanup and the two starts. -/
structure Meanwhile where
  cleanup : List Step
  network : List Step
  transport : List Step

inductive TransportKind where
  | network
  | primary
deriving DecidableEq, Repr

/-- What a call of run comes to. `started` are the transports that have its handler,
which sends to the run's channel; `receiving` says that the channel has a receiver. -/
structure Outcome where
  result : Except String Unit
  engine : Shared
  spawned : List (PumpKind × Nat)
  started : List TransportKind
  receiving : Bool

def Shared.run (e : Shared) (starts : Starts) (meanwhile : Meanwhile) : Outcome :=
  let e := e.after meanwhile.cleanup
  let generation := nextGeneration e.runGeneration
  let e := { e with runGeneration := generation, running := some .own }
  match starts.network with
  | some (.error err) =>
    -- the receiver goes with the call
    ⟨.error err, e.after meanwhile.network, [], [], false⟩
  | network =>
    let started := if network.isSome then [TransportKind.network] else []
    let e := if network.isSome then e.after meanwhile.network else e
    let e := e.after meanwhile.transport
    match starts.transport with
    | .error err => ⟨.error err, e, [], started, false⟩
    | .ok () =>
      ⟨.ok (), e, [(.signaling, generation), (.network, generation), (.tick, generation)],
        started ++ [.primary], true⟩

/-- If the run failed, the engine does not run with its context, none of its tasks is
there, and no transport delivers into a channel that nobody receives from. -/
def Outcome.LeavesNothing (o : Outcome) : Prop :=
  ∀ err, o.result = .error err →
    o.engine.running ≠ some .own ∧ o.spawned = [] ∧ (o.started ≠ [] → o.receiving = true)

/-- The step puts something else in place of a published context. -/
def Step.Replaces : Step → Prop
  | .bumps => False
  | .idles | .publishes _ => True

/-- Both transports start, or the first one to be started fails and meanwhile another
call has replaced the context. -/
def Starts.LeaveNothing (starts : Starts) (meanwhile : Meanwhile) : Prop :=
  match starts.network, starts.transport with
  | some (.error _), _ => ∃ step ∈ meanwhile.network, step.Replaces
  | none, .error _ => ∃ step ∈ meanwhile.transport, step.Replaces
  | some (.ok _), .error _ => False
  | _, .ok _ => True

theorem after_running (steps : List Step) (e : Shared) : (e.after steps).running = some .own ↔
    e.running = some .own ∧ ∀ step ∈ steps, ¬ step.Replaces := by
  induction steps generalizing e with
  | nil => exact ⟨fun h => ⟨h, nofun⟩, And.left⟩
  | cons step rest ih =>
    show ((e.apply step).after rest).running = some .own ↔ _
    rw [ih, List.forall_mem_cons]
    cases step with
    | bumps => exact and_congr_right fun _ => (and_iff_right id).symm
    | idles | publishes call => exact iff_of_false (fun h => nomatch h.1) fun h => h.2.1 trivial

theorem replaced_iff (steps : List Step) (e : Shared) (h : e.running = some .own) :
    (e.after steps).running ≠ some .own ↔ ∃ step ∈ steps, step.Replaces := by
  rw [Ne, after_running, and_iff_right h]
  constructor
  · intro hnot
    by_contra hnone
    exact hnot fun step hstep hreplaces => hnone ⟨step, hstep, hreplaces⟩
  · rintro ⟨step, hstep, hreplaces⟩ hall
    exact hall step hstep hreplaces

/-- A run leaves nothing behind exactly if both transports start, or the first one to be
started fails and another call has replaced the context. -/
theorem run_leavesNothing_iff (e : Shared) (starts : Starts) (meanwhile : Meanwhile) :
    (e.run starts meanwhile).LeavesNothing ↔ starts.LeaveNothing meanwhile := by
  obtain ⟨network, transport⟩ := starts
  -- the engine as the run has published it
  let published : Shared := ⟨nextGeneration (e.after meanwhile.cleanup).runGeneration, some .own⟩
  cases network with
  | none =>
    cases transport with
    | error err =>
      rw [Starts.LeaveNothing, ← replaced_iff meanwhile.transport published rfl]
      exact ⟨fun h => (h err rfl).1, fun h _ _ => ⟨h, rfl, nofun⟩⟩
    | ok _ => exact iff_of_true nofun trivial
  | some network =>
    cases network with
    | error err =>
      rw [Starts.LeaveNothing, ← replaced_iff meanwhile.network published rfl]
      exact ⟨fun h => (h err rfl).1, fun h _ _ => ⟨h, rfl, nofun⟩⟩
    | ok _ =>
      cases transport with
      | error err =>
        refine iff_of_false (fun h => ?_) id
        exact Bool.false_ne_true ((h err rfl).2.2 (List.cons_ne_nil _ _))
      | ok _ => exact iff_of_true nofun trivial

/-- A leave that comes while the transport is being started cleans up after the run. -/
example : Starts.LeaveNothing ⟨none, .error "no transport"⟩ ⟨[], [], [.bumps, .idles]⟩ :=
  ⟨.idles, by decide, trivial⟩

/-- An engine that was idle runs with the context of a run that has failed. -/
theorem failedRun_running : ¬ ∀ (e : Shared) (starts : Starts) (meanwhile : Meanwhile),
    (e.run starts meanwhile).LeavesNothing := by
  intro h
  have hidle := h ⟨0, none⟩ ⟨none, .error "no transport"⟩ ⟨[], [], []⟩
  exact (hidle "no transport" rfl).1 rfl

end Mistlib.Session
