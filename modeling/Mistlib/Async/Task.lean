import Mistlib.Data.Table

/-!
# Tasks that interleave at await points

A task is a program over a signature: it performs operations on a shared state, awaits calls,
starts jobs beside itself and collects what they return. While it awaits, every other task and
the environment may move. A pool is the shared state with the tasks in it, and one step of a
pool is one scheduling decision.

An observer keeps a note on every task and a history of the run. No program reads either.
-/

namespace Async

/-- What tasks can do. An `Op` acts on the shared state between two awaits, a
`Call` is awaited, and a `Job` of a kind is a task whose result has the
kind's type. -/
structure Signature where
  Op : Type
  Res : Op → Type
  Call : Type
  Ans : Call → Type
  Kind : Type
  Job : Kind → Type
  Out : Kind → Type
  Err : Type

inductive Prog (S : Signature) (α : Type) where
  | pure (a : α)
  | throw (e : S.Err)
  | op (o : S.Op) (k : S.Res o → Prog S α)
  | await (c : S.Call) (k : S.Ans c → Prog S α)
  | spawn {κ : S.Kind} (job : S.Job κ) (k : Prog S α)
  /-- The result of the next job of a kind to end, or `none` if this task has
  no job running. -/
  | next (κ : S.Kind) (k : Option (Except S.Err (S.Out κ)) → Prog S α)

namespace Prog

variable {S : Signature} {α β : Type}

def bind : Prog S α → (α → Prog S β) → Prog S β
  | .pure a, f => f a
  | .throw e, _ => .throw e
  | .op o k, f => .op o fun r => (k r).bind f
  | .await c k, f => .await c fun a => (k a).bind f
  | .spawn job k, f => .spawn job (k.bind f)
  | .next κ k, f => .next κ fun r => (k r).bind f

theorem bind_assoc {δ : Type} (p : Prog S α) (f : α → Prog S β) (f' : β → Prog S δ) :
    (p.bind f).bind f' = p.bind fun a => (f a).bind f' := by
  induction p with
  | pure a | throw e => rfl
  | op o k ih => exact congrArg (Prog.op o) (funext ih)
  | await c k ih => exact congrArg (Prog.await c) (funext ih)
  | spawn job k ih => exact congrArg (Prog.spawn job) ih
  | next κ k ih => exact congrArg (Prog.next κ) (funext ih)

instance : Monad (Prog S) where
  pure := .pure
  bind := .bind

/-- Run a program and hand its error, if it has one, to the caller as a value. -/
def attempt : Prog S α → Prog S (Except S.Err α)
  | .pure a => .pure (.ok a)
  | .throw e => .pure (.error e)
  | .op o k => .op o fun r => (k r).attempt
  | .await c k => .await c fun a => (k a).attempt
  | .spawn job k => .spawn job k.attempt
  | .next κ k => .next κ fun r => (k r).attempt

/-- Pass a result on: a value is returned and an error is raised. -/
def ofExcept : Except S.Err α → Prog S α
  | .ok a => .pure a
  | .error e => .throw e

/-- Programs made of programs by handing every step on: what comes of `p` differs from `p`
at most in how it goes on from its result. -/
structure Through (q : Prog S α → Prog S β) : Prop where
  op : ∀ o k, q (.op o k) = .op o fun r => q (k r)
  await : ∀ c k, q (.await c k) = .await c fun a => q (k a)
  spawn : ∀ {κ} (job : S.Job κ) k, q (.spawn job k) = .spawn job (q k)
  next : ∀ κ k, q (.next κ k) = .next κ fun r => q (k r)

theorem Through.id : Through fun p : Prog S α => p :=
  ⟨fun _ _ => rfl, fun _ _ => rfl, fun _ _ => rfl, fun _ _ => rfl⟩

theorem Through.bind (f : α → Prog S β) : Through (Prog.bind · f) :=
  ⟨fun _ _ => rfl, fun _ _ => rfl, fun _ _ => rfl, fun _ _ => rfl⟩

theorem Through.attempt : Through (Prog.attempt : Prog S α → Prog S (Except S.Err α)) :=
  ⟨fun _ _ => rfl, fun _ _ => rfl, fun _ _ => rfl, fun _ _ => rfl⟩

def perform (o : S.Op) : Prog S (S.Res o) := .op o .pure

def call (c : S.Call) : Prog S (S.Ans c) := .await c .pure

end Prog

abbrev Tid := Nat

/-- What operations and calls do to the shared state `σ`, as far as the
environment's part `Ω` in the step leaves it open. -/
structure Machine (S : Signature) (σ Ω : Type) where
  perform : (o : S.Op) → Ω → σ → S.Res o × σ
  /-- What a call does and answers; `none` while it cannot be answered so. -/
  answer : (c : S.Call) → Ω → Tid → σ → Option (S.Ans c × σ)
  code : {κ : S.Kind} → S.Job κ → Prog S (S.Out κ)
  entry : {κ : S.Kind} → S.Job κ → Bool
  /-- What becomes of the state when a task is dropped. -/
  release : Tid → σ → σ
  /-- What may happen to the state while no task runs. -/
  renew : Ω → σ → σ

/-- What is written down about a run: a note `ν` on every task and a history
`γ` of the whole. -/
structure Observer (S : Signature) (σ γ ν : Type) where
  start : {κ : S.Kind} → S.Job κ → ν
  op : (o : S.Op) → S.Res o → σ → γ → ν → γ × ν
  issue : S.Call → ν → ν
  effect : (c : S.Call) → S.Ans c → γ → ν → γ × ν
  spawn : ν → ν
  /-- The note of a task that collects a job with the note given first. -/
  join : ν → ν → ν
  finish : {κ : S.Kind} → S.Job κ → Except S.Err (S.Out κ) → σ → γ → γ

inductive Stage (S : Signature) (α : Type) where
  | ready (p : Prog S α)
  | issued (c : S.Call) (k : S.Ans c → Prog S α)
  | waiting (κ : S.Kind) (k : Option (Except S.Err (S.Out κ)) → Prog S α)
  | ended (r : Except S.Err α)

structure Thread (S : Signature) (ν : Type) where
  parent : Option Tid
  kind : S.Kind
  job : S.Job kind
  stage : Stage S (S.Out kind)
  note : ν

/-- The shared state, the history, the tasks, and the task that runs. -/
structure Pool (S : Signature) (σ γ ν : Type) where
  world : σ
  past : γ
  threads : Table Tid (Thread S ν)
  running : Option Tid

inductive Choice (S : Signature) (Ω : Type) where
  | start (t : Tid) {κ : S.Kind} (job : S.Job κ)
  | resume (t : Tid)
  /-- The running task goes on; `fresh` names the job it may start. -/
  | move (ω : Ω) (fresh : Tid)
  | effect (t : Tid) (ω : Ω)
  | wake (t : Tid) (kid : Option Tid)
  | finish (t : Tid)
  | renew (ω : Ω)

inductive Event (S : Signature) where
  | started (t : Tid) {κ : S.Kind} (job : S.Job κ)
  | resumed (t : Tid)
  | did (t : Tid) (o : S.Op) (r : S.Res o)
  | issued (t : Tid) (c : S.Call)
  | spawned (t kid : Tid)
  | parked (t : Tid)
  | ended (t : Tid)
  | answered (t : Tid) (c : S.Call) (a : S.Ans c)
  | joined (t : Tid) (kid : Option Tid)
  | finished (t : Tid) {κ : S.Kind} (job : S.Job κ) (r : Except S.Err (S.Out κ))
      (dropped : List Tid)
  | renewed

namespace Pool

variable {S : Signature} {σ Ω γ ν : Type} (M : Machine S σ Ω) (O : Observer S σ γ ν)

/-- The jobs a task has started and not yet collected. -/
def kids (p : Pool S σ γ ν) (t : Tid) : List Tid :=
  (p.threads.entries.filter fun e => e.2.parent = some t).map (·.1)

def put (p : Pool S σ γ ν) (t : Tid) (th : Thread S ν) : Pool S σ γ ν :=
  { p with threads := p.threads.insert t th }

/-- A job is started, by a task or from outside. -/
def begin (p : Pool S σ γ ν) (t : Tid) (parent : Option Tid) {κ : S.Kind} (job : S.Job κ) :
    Pool S σ γ ν :=
  p.put t { parent, kind := κ, job, stage := .ready (M.code job), note := O.start job }

/-- The running task `t` goes on by one step of its code. -/
def move (p : Pool S σ γ ν) (t : Tid) (th : Thread S ν) (ω : Ω) (fresh : Tid) :
    Option (Event S × Pool S σ γ ν) :=
  match th.stage with
  | .ready (.op o k) =>
    let (r, world) := M.perform o ω p.world
    let (past, note) := O.op o r p.world p.past th.note
    some (.did t o r, { p with world, past }.put t { th with stage := .ready (k r), note })
  | .ready (.await c k) =>
    some (.issued t c, { p with running := none }.put t
      { th with stage := .issued c k, note := O.issue c th.note })
  | .ready (.spawn job k) =>
    -- Jobs do not start jobs of their own.
    if p.threads.contains fresh ∨ th.parent.isSome then none
    else some (.spawned t fresh,
      (p.put t { th with stage := .ready k, note := O.spawn th.note }).begin M O fresh (some t) job)
  | .ready (.next κ k) =>
    some (.parked t, { p with running := none }.put t { th with stage := .waiting κ k })
  | .ready (.pure a) =>
    some (.ended t, { p with running := none }.put t { th with stage := .ended (.ok a) })
  | .ready (.throw e) =>
    some (.ended t, { p with running := none }.put t { th with stage := .ended (.error e) })
  | _ => none

/-- A call of task `t` takes effect and is answered. -/
def effect (p : Pool S σ γ ν) (t : Tid) (th : Thread S ν) (ω : Ω) :
    Option (Event S × Pool S σ γ ν) :=
  match th.stage with
  | .issued c k =>
    match M.answer c ω t p.world with
    | some (a, world) =>
      let (past, note) := O.effect c a p.past th.note
      some (.answered t c a, { p with world, past }.put t { th with stage := .ready (k a), note })
    | none => none
  | _ => none

def collect (κ : S.Kind) [DecidableEq S.Kind] (kid : Thread S ν) :
    Option (Except S.Err (S.Out κ)) :=
  if h : kid.kind = κ then
    match kid.stage with
    | .ended r => some (h ▸ r)
    | _ => none
  else none

/-- A task that waits for its jobs goes on: with the result of one that has
ended, or with nothing if it has none left. -/
def wake [DecidableEq S.Kind] (p : Pool S σ γ ν) (t : Tid) (th : Thread S ν) (kid : Option Tid) :
    Option (Event S × Pool S σ γ ν) :=
  match th.stage, kid with
  | .waiting _ k, none =>
    if p.kids t = [] then some (.joined t none, p.put t { th with stage := .ready (k none) })
    else none
  | .waiting κ k, some i =>
    match p.threads.get i with
    | some kid =>
      match collect κ kid with
      | some r =>
        if kid.parent = some t then
          some (.joined t (some i), { p with threads := p.threads.erase i }.put t
            { th with stage := .ready (k (some r)), note := O.join kid.note th.note })
        else none
      | none => none
    | none => none
  | _, _ => none

/-- A task started from outside returns; the jobs it leaves behind are
dropped. -/
def finish (p : Pool S σ γ ν) (t : Tid) (th : Thread S ν) : Option (Event S × Pool S σ γ ν) :=
  match th.parent, th.stage with
  | none, .ended r =>
    let dropped := p.kids t
    some (.finished t th.job r dropped,
      { p with
        world := dropped.foldl (fun s i => M.release i s) p.world
        past := O.finish th.job r p.world p.past
        threads := p.threads.retain fun i th => decide (i ≠ t) && decide (th.parent ≠ some t) })
  | _, _ => none

/-- A decision that is carried out while no task runs. -/
def schedule [DecidableEq S.Kind] (p : Pool S σ γ ν) :
    Choice S Ω → Option (Event S × Pool S σ γ ν)
  | .start t job =>
    if p.threads.contains t ∨ ¬ M.entry job then none
    else some (.started t job, p.begin M O t none job)
  | .resume t =>
    match p.threads.get t with
    | some { stage := .ready _, .. } => some (.resumed t, { p with running := some t })
    | _ => none
  | .move _ _ => none
  | .effect t ω => (p.threads.get t).bind fun th => p.effect M O t th ω
  | .wake t kid => (p.threads.get t).bind fun th => p.wake O t th kid
  | .finish t => (p.threads.get t).bind fun th => p.finish M O t th
  | .renew ω =>
    if p.threads.size = 0 then some (.renewed, { p with world := M.renew ω p.world }) else none

/-- One scheduling decision, if the pool allows it. A task that runs is not
interrupted. -/
def step [DecidableEq S.Kind] (p : Pool S σ γ ν) (choice : Choice S Ω) :
    Option (Event S × Pool S σ γ ν) :=
  match p.running, choice with
  | some t, .move ω fresh => (p.threads.get t).bind fun th => p.move M O t th ω fresh
  | some _, _ => none
  | none, choice => p.schedule M O choice

def init (world : σ) (past : γ) : Pool S σ γ ν :=
  { world, past, threads := ∅, running := none }

/-- Follow a schedule as long as every step passes a check. -/
def exec [DecidableEq S.Kind] (check : Pool S σ γ ν → Event S → Bool) :
    List (Choice S Ω) → Pool S σ γ ν → Option (Pool S σ γ ν)
  | [], p => some p
  | choice :: rest, p =>
    match p.step M O choice with
    | some (event, p') => if check p event then p'.exec check rest else none
    | none => none

def all (p : Pool S σ γ ν) (test : Tid → ν → Bool) : Bool :=
  p.threads.entries.all fun e => test e.1 e.2.note

end Pool

/-- Task `t` is resumed and goes on by `n` steps. -/
def Choice.run {S : Signature} {Ω : Type} (t : Tid) (n : Nat) (ω : Ω) (fresh : Tid) :
    List (Choice S Ω) :=
  .resume t :: List.replicate n (.move ω fresh)

/-- The call that task `t` awaits takes effect, and `t` goes on. -/
def Choice.serve {S : Signature} {Ω : Type} (t : Tid) (n : Nat) (ω : Ω) (fresh : Tid) :
    List (Choice S Ω) :=
  .effect t ω :: Choice.run t n ω fresh

end Async
