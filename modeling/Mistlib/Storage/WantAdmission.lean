import Mistlib.Async.Reactive
import Mistlib.Data.Table

/-!
# Admission of WANTs

`WantQueue` decides which requests of a peer are served, which wait and which are dropped. A
worker is started for a request that is served at once; after each block it asks for the next
request, and it ends when it is given none: `active` counts workers, not requests.

`ServedQueue` is the queue with its workers, in any order of their calls. The entry of one key,
with the workers of that key, is a machine of its own, the `Desk`; what holds of a desk holds of
every key of the queue.
-/

namespace Mistlib.Storage

open Reactive (Move Run Part)

inductive WantAdmission (D : Type) where
  | start (descriptor : D)
  | queued
  | dropped
deriving DecidableEq, Repr

@[simp] def WantAdmission.starts {D : Type} : WantAdmission D → Bool
  | .start _ => true
  | _ => false

structure PeerWork (D : Type) where
  active : Nat
  pending : List D
deriving DecidableEq, Repr

namespace PeerWork

variable {D : Type}

/-- The entry that is made for a key that has none. -/
def fresh : PeerWork D where
  active := 0
  pending := []

def enqueue (work : PeerWork D) (descriptor : D) : PeerWork D × WantAdmission D :=
  if work.active < 4 then ({ work with active := work.active + 1 }, .start descriptor)
  else if work.pending.length < 64 then ({ work with pending := work.pending ++ [descriptor] }, .queued)
  else (work, .dropped)

/-- What a worker is given after a block, and the entry that stays. There is no result
where `active` would go below zero. -/
def next (work : PeerWork D) : Option (Option (PeerWork D) × Option D) :=
  match work.pending with
  | descriptor :: rest => some (some { work with pending := rest }, some descriptor)
  | [] =>
    if work.active = 0 then none
    else if work.active - 1 = 0 then some (none, none)
    else some (some { work with active := work.active - 1 }, none)

theorem next_of_active {work : PeerWork D} (h : 0 < work.active) :
    ∃ entry, work.next = some (entry, work.pending.head?) := by
  obtain ⟨active, pending⟩ := work
  cases pending with
  | cons descriptor rest => exact ⟨_, rfl⟩
  | nil =>
    have hne : active ≠ 0 := Nat.ne_of_gt h
    by_cases hlast : active - 1 = 0
    · exact ⟨none, by simp [next, hne, hlast]⟩
    · exact ⟨some { active := active - 1, pending := [] }, by simp [next, hne, hlast]⟩

end PeerWork

structure WantQueue (K D : Type) where
  peers : Table K (PeerWork D)

namespace WantQueue

variable {K D : Type} [DecidableEq K]

def empty : WantQueue K D where
  peers := ∅

def enqueue (q : WantQueue K D) (key : K) (descriptor : D) : WantQueue K D × WantAdmission D :=
  let r := ((q.peers.get key).getD .fresh).enqueue descriptor
  ({ peers := q.peers.insert key r.1 }, r.2)

/-- An entry that has been worked on, which stays or is removed. -/
def put (q : WantQueue K D) (key : K) : Option (PeerWork D) → WantQueue K D
  | some work => { peers := q.peers.insert key work }
  | none => { peers := q.peers.erase key }

def next (q : WantQueue K D) (key : K) : Option (WantQueue K D × Option D) :=
  match q.peers.get key with
  | none => some (q, none)
  | some work => work.next.map fun r => (q.put key r.1, r.2)

theorem get_put (q : WantQueue K D) (key k : K) (entry : Option (PeerWork D)) :
    (q.put key entry).peers.get k = if k = key then entry else q.peers.get k := by
  cases entry with
  | some work => exact Table.get_insert _ _ _ _
  | none => exact Table.get_erase _ _ _

def active (q : WantQueue K D) (key : K) : Nat := ((q.peers.get key).map PeerWork.active).getD 0

def pending (q : WantQueue K D) (key : K) : List D := ((q.peers.get key).map PeerWork.pending).getD []

end WantQueue

/-! ## The desk of one key -/

inductive Answer (D : Type) where
  | admission (descriptor : D) (admission : WantAdmission D)
  | next (out : Option D)
deriving DecidableEq, Repr

namespace Answer

variable {D : Type}

/-- The descriptor of a call that was answered `Start` or `Queued`. -/
def accepted : Answer D → Option D
  | .admission descriptor (.start _) | .admission descriptor .queued => some descriptor
  | _ => none

/-- The descriptor of a call that was answered `Queued`. -/
def queued : Answer D → Option D
  | .admission descriptor .queued => some descriptor
  | _ => none

/-- The descriptor that a worker is given, as it starts or later. -/
def handed : Answer D → Option D
  | .admission _ (.start descriptor) => some descriptor
  | .next out => out
  | _ => none

/-- The descriptor that a worker is given later. -/
def taken : Answer D → Option D
  | .next out => out
  | _ => none

end Answer

/-- The entry of one key and the number of its workers. -/
structure Desk (D : Type) where
  entry : Option (PeerWork D)
  workers : Nat
deriving DecidableEq, Repr

inductive DeskCall (D : Type) where
  | enqueue (descriptor : D)
  | next
deriving DecidableEq, Repr

namespace Desk

variable {D : Type}

def closed : Desk D where
  entry := none
  workers := 0

/-- `Start` makes a worker, and a worker that is given nothing ends. -/
def step (t : Desk D) : DeskCall D → Option (Desk D)
  | .enqueue descriptor =>
    let r := (t.entry.getD .fresh).enqueue descriptor
    some { entry := some r.1, workers := if r.2.starts then t.workers + 1 else t.workers }
  | .next =>
    if t.workers = 0 then none
    else
      match t.entry with
      | none => some { t with workers := t.workers - 1 }
      | some work => work.next.map fun r =>
        { entry := r.1, workers := if r.2.isSome then t.workers else t.workers - 1 }

def answer (m : Move (Desk D) (DeskCall D)) : Answer D :=
  match m.input with
  | .enqueue descriptor => .admission descriptor ((m.before.entry.getD .fresh).enqueue descriptor).2
  | .next => .next (m.before.entry.bind fun work => work.next.bind Prod.snd)

def pending (t : Desk D) : List D := (t.entry.map PeerWork.pending).getD []

/-- A desk with some workers and what waits for them. A key that nobody works for has
no entry. -/
def holding (workers : Nat) (pending : List D) : Desk D where
  entry := if workers = 0 then none else some { active := workers, pending }
  workers

/-- The entry counts the workers, who are at most four; where something waits there are
four of them. -/
structure Sound (t : Desk D) : Prop where
  holds : t = holding t.workers t.pending
  few : t.workers ≤ 4
  short : t.pending.length ≤ 64
  full : t.pending ≠ [] → t.workers = 4

inductive Outcome (t : Desk D) : DeskCall D → Answer D → Desk D → Prop where
  | started (descriptor : D) (hfew : t.workers < 4) (hnone : t.pending = []) :
    Outcome t (.enqueue descriptor) (.admission descriptor (.start descriptor)) (holding (t.workers + 1) [])
  | queued (descriptor : D) (hfull : t.workers = 4) (hroom : t.pending.length < 64) :
    Outcome t (.enqueue descriptor) (.admission descriptor .queued) (holding 4 (t.pending ++ [descriptor]))
  | dropped (descriptor : D) (hfull : t.workers = 4) (hlong : t.pending.length = 64) :
    Outcome t (.enqueue descriptor) (.admission descriptor .dropped) t
  | taken (descriptor : D) (rest : List D) (hfull : t.workers = 4) (hpending : t.pending = descriptor :: rest) :
    Outcome t .next (.next (some descriptor)) (holding 4 rest)
  | ended (hsome : 0 < t.workers) (hnone : t.pending = []) :
    Outcome t .next (.next none) (holding (t.workers - 1) [])

variable {t t' : Desk D} {call : DeskCall D} {workers : Nat} {pending : List D}

@[simp] theorem workers_holding : (holding workers pending).workers = workers := rfl

theorem pending_holding (h : workers = 0 → pending = []) : (holding workers pending).pending = pending := by
  rw [Desk.pending, holding]
  split
  · next hzero => exact (h hzero).symm
  · rfl

@[simp] theorem pending_holding_nil : (holding workers ([] : List D)).pending = [] :=
  pending_holding fun _ => rfl

@[simp] theorem pending_holding_four : (holding 4 pending).pending = pending := rfl

theorem sound_holding (hfew : workers ≤ 4) (hshort : pending.length ≤ 64)
    (hfull : pending ≠ [] → workers = 4) : (holding workers pending).Sound := by
  have hpending : (holding workers pending).pending = pending := by
    refine pending_holding fun hzero => ?_
    by_contra hne
    have := hfull hne
    omega
  refine ⟨?_, hfew, ?_, ?_⟩
  · rw [hpending, workers_holding]
  · rw [hpending]
    exact hshort
  · rw [hpending]
    exact hfull

theorem sound_closed : (closed : Desk D).Sound :=
  sound_holding (Nat.zero_le _) (Nat.zero_le _) fun h => absurd rfl h

namespace Sound

section

variable (h : t.Sound)
include h

theorem pending_eq_nil (hfew : t.workers < 4) : t.pending = [] := by
  by_contra hne
  have := h.full hne
  omega

theorem getD_entry : t.entry.getD .fresh = { active := t.workers, pending := t.pending } := by
  have hentry : t.entry = (holding t.workers t.pending).entry := congrArg Desk.entry h.holds
  rw [hentry, holding]
  split
  · next hzero =>
    rw [h.pending_eq_nil (by omega), hzero]
    rfl
  · rfl

theorem entry_eq (hsome : 0 < t.workers) :
    t.entry = some { active := t.workers, pending := t.pending } := by
  have hentry : t.entry = (holding t.workers t.pending).entry := congrArg Desk.entry h.holds
  rw [hentry, holding, if_neg (Nat.ne_of_gt hsome)]

theorem active_eq : (t.entry.map PeerWork.active).getD 0 = t.workers :=
  calc (t.entry.map PeerWork.active).getD PeerWork.fresh.active
      = (t.entry.getD .fresh).active := Option.getD_map _ _ _
    _ = t.workers := by rw [h.getD_entry]

theorem isSome_entry : t.entry.isSome ↔ 0 < t.workers := by
  have hentry : t.entry = (holding t.workers t.pending).entry := congrArg Desk.entry h.holds
  rw [hentry, holding]
  split
  · next hzero => simp [hzero]
  · next hsome => simpa using Nat.pos_of_ne_zero hsome

theorem enqueue_outcome (descriptor : D) :
    ∃ answer t', Outcome t (.enqueue descriptor) answer t' ∧ step t (.enqueue descriptor) = some t' ∧
      Desk.answer ⟨t, .enqueue descriptor⟩ = answer := by
  have hlookup := h.getD_entry
  by_cases hfew : t.workers < 4
  · have hnone := h.pending_eq_nil hfew
    refine ⟨_, _, .started descriptor hfew hnone, ?_, ?_⟩
    · simp [step, hlookup, PeerWork.enqueue, hfew, hnone, holding]
    · simp [Desk.answer, hlookup, PeerWork.enqueue, hfew]
  · have hfull : t.workers = 4 := Nat.le_antisymm h.few (Nat.not_lt.mp hfew)
    by_cases hroom : t.pending.length < 64
    · refine ⟨_, _, .queued descriptor hfull hroom, ?_, ?_⟩
      · simp [step, hlookup, PeerWork.enqueue, hfull, hroom, holding]
      · simp [Desk.answer, hlookup, PeerWork.enqueue, hfull, hroom]
    · refine ⟨_, _, .dropped descriptor hfull (Nat.le_antisymm h.short (Nat.not_lt.mp hroom)), ?_, ?_⟩
      · have hentry := h.entry_eq (by omega)
        simp [step, hlookup, PeerWork.enqueue, hfew, hroom, ← hentry]
      · simp [Desk.answer, hlookup, PeerWork.enqueue, hfew, hroom]

theorem next_outcome (hsome : 0 < t.workers) :
    ∃ answer t', Outcome t .next answer t' ∧ step t .next = some t' ∧ Desk.answer ⟨t, .next⟩ = answer := by
  have hentry := h.entry_eq hsome
  have hne : t.workers ≠ 0 := Nat.ne_of_gt hsome
  cases hpending : t.pending with
  | nil =>
    rw [hpending] at hentry
    refine ⟨_, _, .ended hsome hpending, ?_, ?_⟩
    · by_cases hlast : t.workers - 1 = 0
      · simp [step, hne, hentry, PeerWork.next, hlast, holding]
      · simp [step, hne, hentry, PeerWork.next, hlast, holding]
    · by_cases hlast : t.workers - 1 = 0
      · simp [Desk.answer, hentry, PeerWork.next, hne, hlast]
      · simp [Desk.answer, hentry, PeerWork.next, hne, hlast]
  | cons descriptor rest =>
    have hfull := h.full (by rw [hpending]; exact List.cons_ne_nil _ _)
    rw [hpending] at hentry
    refine ⟨_, _, .taken descriptor rest hfull hpending, ?_, ?_⟩
    · simp [step, hentry, PeerWork.next, hfull, holding]
    · simp [Desk.answer, hentry, PeerWork.next]

theorem outcome (hstep : step t call = some t') : Outcome t call (answer ⟨t, call⟩) t' := by
  have hexists : ∃ answer t', Outcome t call answer t' ∧ step t call = some t' ∧
      Desk.answer ⟨t, call⟩ = answer := by
    cases call with
    | enqueue descriptor => exact h.enqueue_outcome descriptor
    | next =>
      refine h.next_outcome (Nat.pos_of_ne_zero fun hzero => ?_)
      rw [step, if_pos hzero] at hstep
      cases hstep
  obtain ⟨answer, t'', houtcome, hstep', rfl⟩ := hexists
  cases hstep'.symm.trans hstep
  exact houtcome

end

end Sound

/-- What has been answered so far, the latest answer first, and what still waits: each
accepted descriptor is handed out or waits, once, and those that had to wait are taken
in the order in which they came. -/
structure Kept (answers : List (Answer D)) (t : Desk D) : Prop where
  sound : t.Sound
  once : (answers.filterMap Answer.accepted).Perm (answers.filterMap Answer.handed ++ t.pending)
  inOrder : (answers.filterMap Answer.queued).reverse = (answers.filterMap Answer.taken).reverse ++ t.pending

theorem kept_closed : Kept [] (closed : Desk D) where
  sound := sound_closed
  once := List.Perm.nil
  inOrder := rfl

/-- Each call keeps the desk's answers. -/
theorem Kept.step {answers : List (Answer D)} {answer : Answer D} (h : Kept answers t)
    (houtcome : Outcome t call answer t') : Kept (answer :: answers) t' := by
  obtain ⟨hsound, honce, hinOrder⟩ := h
  cases houtcome with
  | started descriptor hfew hnone =>
    rw [hnone, List.append_nil] at honce hinOrder
    have hsound' : (holding (t.workers + 1) ([] : List D)).Sound :=
      sound_holding (Nat.succ_le_of_lt hfew) (Nat.zero_le _) fun h => absurd rfl h
    refine ⟨hsound', ?_, ?_⟩
    · rw [pending_holding_nil, List.append_nil]
      exact honce.cons descriptor
    · rw [pending_holding_nil, List.append_nil]
      exact hinOrder
  | queued descriptor hfull hroom =>
    have hlength : (t.pending ++ [descriptor]).length ≤ 64 := by
      rw [List.length_append]
      exact hroom
    refine ⟨sound_holding le_rfl hlength fun _ => rfl, ?_, ?_⟩
    · rw [pending_holding_four, ← List.append_assoc]
      exact (honce.cons descriptor).trans (List.perm_append_singleton _ _).symm
    · rw [pending_holding_four, ← List.append_assoc]
      show (descriptor :: answers.filterMap Answer.queued).reverse = _
      rw [List.reverse_cons, hinOrder]
      rfl
  | dropped descriptor hfull hlong => exact ⟨hsound, honce, hinOrder⟩
  | taken descriptor rest hfull hpending =>
    have hlength : rest.length ≤ 64 := by
      have hshort := hsound.short
      rw [hpending, List.length_cons] at hshort
      omega
    rw [hpending] at honce hinOrder
    refine ⟨sound_holding le_rfl hlength fun _ => rfl, ?_, ?_⟩
    · rw [pending_holding_four]
      exact honce.trans List.perm_middle
    · rw [pending_holding_four]
      show _ = (descriptor :: answers.filterMap Answer.taken).reverse ++ rest
      rw [List.reverse_cons, List.append_assoc]
      exact hinOrder
  | ended hsome hnone =>
    rw [hnone, List.append_nil] at honce hinOrder
    have hfew := hsound.few
    refine ⟨sound_holding (by omega) (Nat.zero_le _) fun h => absurd rfl h, ?_, ?_⟩
    · rw [pending_holding_nil, List.append_nil]
      exact honce
    · rw [pending_holding_nil, List.append_nil]
      exact hinOrder

/-- After every run the desk's answers are kept. -/
theorem kept_run {moves : List (Move (Desk D) (DeskCall D))} (run : Run step closed moves t) :
    Kept (moves.map answer) t :=
  run.keeps (P := fun moves t => Kept (moves.map answer) t) kept_closed fun _ _ _ _ h hstep =>
    h.step (h.sound.outcome hstep)

end Desk

/-! ## The queue and its workers -/

/-- The queue, and the key of each worker that was started and has not ended. -/
structure ServedQueue (K D : Type) where
  queue : WantQueue K D
  workers : Table Nat K
  /-- How many workers have been started; the next one has this number. -/
  started : Nat

inductive QueueCall (K D : Type) where
  | enqueue (key : K) (descriptor : D)
  | next (worker : Nat)
deriving DecidableEq, Repr

namespace ServedQueue

variable {K D : Type} [DecidableEq K]

def idle : ServedQueue K D where
  queue := .empty
  workers := ∅
  started := 0

/-- Only a worker that has not been given none asks for more, under the key it was
started for. -/
def step (s : ServedQueue K D) : QueueCall K D → Option (ServedQueue K D)
  | .enqueue key descriptor =>
    let r := s.queue.enqueue key descriptor
    if r.2.starts then
      some { queue := r.1, workers := s.workers.insert s.started key, started := s.started + 1 }
    else some { s with queue := r.1 }
  | .next worker =>
    match s.workers.get worker with
    | none => none
    | some key => (s.queue.next key).map fun r =>
      { s with queue := r.1, workers := if r.2.isSome then s.workers else s.workers.erase worker }

def answer (key : K) (m : Move (ServedQueue K D) (QueueCall K D)) : Option (Answer D) :=
  match m.input with
  | .enqueue k descriptor =>
    if k = key then some (.admission descriptor (m.before.queue.enqueue k descriptor).2) else none
  | .next worker =>
    if m.before.workers.get worker = some key then
      some (.next ((m.before.queue.next key).bind Prod.snd))
    else none

def workersOf (s : ServedQueue K D) (key : K) : Nat := s.workers.sumBy fun k => if k = key then 1 else 0

def desk (s : ServedQueue K D) (key : K) : Desk D where
  entry := s.queue.peers.get key
  workers := s.workersOf key

/-- The moves that are made under a key, as its desk sees them. -/
def deskMove (key : K) (m : Move (ServedQueue K D) (QueueCall K D)) : Option (Move (Desk D) (DeskCall D)) :=
  match m.input with
  | .enqueue k descriptor => if k = key then some ⟨m.before.desk key, .enqueue descriptor⟩ else none
  | .next worker =>
    if m.before.workers.get worker = some key then some ⟨m.before.desk key, .next⟩ else none

def Numbered (s : ServedQueue K D) : Prop := ∀ n, s.started ≤ n → s.workers.get n = none

variable {s s' : ServedQueue K D} {key k : K} {worker : Nat}

/-- Each call keeps the workers numbered. -/
theorem Numbered.step {call : QueueCall K D} (h : s.Numbered) (hstep : s.step call = some s') :
    s'.Numbered := by
  cases call with
  | enqueue k descriptor =>
    simp only [ServedQueue.step] at hstep
    split at hstep
    · cases hstep
      intro n hn
      have hlater : s.started + 1 ≤ n := hn
      show (s.workers.insert s.started k).get n = none
      rw [Table.get_insert, if_neg (by omega)]
      exact h n (by omega)
    · cases hstep
      exact h
  | next worker =>
    simp only [ServedQueue.step] at hstep
    split at hstep
    · cases hstep
    · obtain ⟨r, _, rfl⟩ := Option.map_eq_some_iff.mp hstep
      intro n hn
      show (if _ then _ else _ : Table Nat K).get n = none
      split
      · exact h n hn
      · rw [Table.get_erase]
        split
        · rfl
        · exact h n hn

theorem workersOf_insert (h : s.Numbered) (k key : K) :
    (s.workers.insert s.started k).sumBy (fun x => if x = key then 1 else 0) =
      (if k = key then 1 else 0) + s.workersOf key := by
  rw [Table.sumBy_insert, Table.erase_of_get_none (h s.started le_rfl), workersOf]

theorem workersOf_of_get (hworker : s.workers.get worker = some k) (key : K) :
    s.workersOf key = (if k = key then 1 else 0) +
      (s.workers.erase worker).sumBy (fun x => if x = key then 1 else 0) := by
  rw [workersOf, Table.sumBy_of_get _ hworker]

theorem desk_enqueue (h : s.Numbered) {descriptor : D} (hstep : s.step (.enqueue key descriptor) = some s') :
    (s.desk key).step (.enqueue descriptor) = some (s'.desk key) := by
  have hsame : ((s.desk key).entry.getD .fresh).enqueue descriptor =
      ((s.queue.peers.get key).getD .fresh).enqueue descriptor := rfl
  have hstarts : (s.queue.enqueue key descriptor).2 =
      (((s.queue.peers.get key).getD .fresh).enqueue descriptor).2 := rfl
  simp only [step, hstarts] at hstep
  simp only [Desk.step, hsame]
  split at hstep
  · next hstart =>
    cases hstep
    rw [if_pos hstart]
    simp only [desk, WantQueue.enqueue, workersOf, Table.get_insert_self, workersOf_insert h, if_true,
      Nat.add_comm 1]
  · next hstart =>
    cases hstep
    rw [if_neg hstart]
    simp only [desk, WantQueue.enqueue, workersOf, Table.get_insert_self]

theorem desk_enqueue_other (h : s.Numbered) (hk : k ≠ key) {descriptor : D}
    (hstep : s.step (.enqueue k descriptor) = some s') : s'.desk key = s.desk key := by
  simp only [step] at hstep
  split at hstep
  · cases hstep
    simp only [desk, WantQueue.enqueue, workersOf, Table.get_insert, workersOf_insert h, if_neg hk,
      if_neg hk.symm, Nat.zero_add]
  · cases hstep
    simp only [desk, WantQueue.enqueue, workersOf, Table.get_insert, if_neg hk.symm]

theorem desk_next (hworker : s.workers.get worker = some key) (hstep : s.step (.next worker) = some s') :
    (s.desk key).step .next = some (s'.desk key) := by
  simp only [step, hworker] at hstep
  obtain ⟨⟨queue, out⟩, hnext, rfl⟩ := Option.map_eq_some_iff.mp hstep
  have hworkers := workersOf_of_get hworker key
  rw [if_pos rfl] at hworkers
  have hsome : (s.desk key).workers ≠ 0 := by
    show s.workersOf key ≠ 0
    omega
  have hless : s.workersOf key - 1 = (s.workers.erase worker).sumBy fun x => if x = key then 1 else 0 := by
    omega
  rw [Desk.step, if_neg hsome]
  show (match s.queue.peers.get key with | none => _ | some work => _) = _
  cases hentry : s.queue.peers.get key with
  | none =>
    rw [WantQueue.next, hentry] at hnext
    cases hnext
    exact congrArg some (congrArg (Desk.mk _) hless)
  | some work =>
    rw [WantQueue.next, hentry] at hnext
    obtain ⟨⟨entry, given⟩, hwork, heq⟩ := Option.map_eq_some_iff.mp hnext
    cases heq
    have hentry' : (s.queue.put key entry).peers.get key = entry := by rw [WantQueue.get_put, if_pos rfl]
    show work.next.map _ = some (Desk.mk _ _)
    rw [hwork, hentry']
    cases given with
    | none => exact congrArg some (congrArg (Desk.mk _) hless)
    | some descriptor => rfl

theorem desk_next_other (hk : k ≠ key) (hworker : s.workers.get worker = some k)
    (hstep : s.step (.next worker) = some s') : s'.desk key = s.desk key := by
  simp only [step, hworker] at hstep
  obtain ⟨⟨queue, out⟩, hnext, rfl⟩ := Option.map_eq_some_iff.mp hstep
  have hworkers := workersOf_of_get hworker key
  rw [if_neg hk, Nat.zero_add] at hworkers
  have hentry : queue.peers.get key = s.queue.peers.get key := by
    rw [WantQueue.next] at hnext
    split at hnext
    · cases hnext
      rfl
    · obtain ⟨r, _, heq⟩ := Option.map_eq_some_iff.mp hnext
      cases heq
      rw [WantQueue.get_put, if_neg hk.symm]
  show Desk.mk (queue.peers.get key) _ = Desk.mk _ _
  rw [hentry]
  cases out with
  | none => exact congrArg (Desk.mk _) hworkers.symm
  | some descriptor => rfl

/-- The desk of a key is a machine of its own, which calls under other keys leave as it
is. -/
theorem deskPart (key : K) : Part (step (K := K) (D := D)) Desk.step (deskMove key)
    fun s t => t = s.desk key ∧ s.Numbered where
  own := by
    rintro s call s' t m hstep ⟨rfl, hnumbered⟩ hview
    cases call with
    | enqueue k descriptor =>
      obtain ⟨rfl, rfl⟩ : k = key ∧ ⟨s.desk key, .enqueue descriptor⟩ = m := by
        simpa [deskMove] using hview
      exact ⟨rfl, _, desk_enqueue hnumbered hstep, rfl, hnumbered.step hstep⟩
    | next worker =>
      obtain ⟨hworker, rfl⟩ : s.workers.get worker = some key ∧ ⟨s.desk key, .next⟩ = m := by
        simpa [deskMove] using hview
      exact ⟨rfl, _, desk_next hworker hstep, rfl, hnumbered.step hstep⟩
  other := by
    rintro s call s' t hstep ⟨rfl, hnumbered⟩ hview
    refine ⟨?_, hnumbered.step hstep⟩
    cases call with
    | enqueue k descriptor =>
      have hk : k ≠ key := by simpa [deskMove] using hview
      exact (desk_enqueue_other hnumbered hk hstep).symm
    | next worker =>
      have hnot : s.workers.get worker ≠ some key := by simpa [deskMove] using hview
      cases hworker : s.workers.get worker with
      | none => simp [step, hworker] at hstep
      | some k =>
        have hk : k ≠ key := by
          rintro rfl
          exact hnot hworker
        exact (desk_next_other hk hworker hstep).symm

theorem answer_eq (key : K) (m : Move (ServedQueue K D) (QueueCall K D)) :
    answer key m = (deskMove key m).map Desk.answer := by
  obtain ⟨s, call⟩ := m
  cases call with
  | enqueue k descriptor =>
    simp only [answer, deskMove]
    split
    · next hk =>
      subst hk
      rfl
    · rfl
  | next worker =>
    simp only [answer, deskMove]
    split
    · refine congrArg (fun out => some (Answer.next out)) ?_
      rw [WantQueue.next]
      show _ = (s.queue.peers.get key).bind _
      cases s.queue.peers.get key with
      | none => rfl
      | some work =>
        show (work.next.map _).bind _ = work.next.bind _
        cases work.next with
        | none | some r => rfl
    · rfl

theorem answers_eq (key : K) (moves : List (Move (ServedQueue K D) (QueueCall K D))) :
    moves.filterMap (answer key) = (moves.filterMap (deskMove key)).map Desk.answer := by
  rw [List.map_filterMap]
  exact List.filterMap_congr fun m _ => answer_eq key m

theorem workersOf_pos_iff : 0 < s.workersOf key ↔ ∃ worker, s.workers.get worker = some key := by
  constructor
  · intro hpos
    by_contra hnone
    refine Nat.ne_of_gt hpos (List.sum_eq_zero fun n hn => ?_)
    obtain ⟨k, hk, rfl⟩ := List.mem_map.mp hn
    obtain ⟨worker, hworker⟩ := Table.mem_values_iff.mp hk
    refine if_neg ?_
    rintro rfl
    exact hnone ⟨worker, hworker⟩
  · rintro ⟨worker, hworker⟩
    rw [workersOf_of_get hworker key, if_pos rfl]
    exact Nat.lt_add_right _ Nat.zero_lt_one

/-- What holds under a key after moves that lead to a state. -/
structure Served (key : K) (moves : List (Move (ServedQueue K D) (QueueCall K D))) (s : ServedQueue K D) : Prop where
  few : s.queue.active key ≤ 4
  short : (s.queue.pending key).length ≤ 64
  full : s.queue.pending key ≠ [] → s.queue.active key = 4
  counted : s.queue.active key = s.workersOf key
  /-- A key that nobody works for has no entry. -/
  present : (s.queue.peers.get key).isSome ↔ ∃ worker, s.workers.get worker = some key
  /-- Each accepted descriptor is handed out or waits, once. -/
  once : ((moves.filterMap (answer key)).filterMap Answer.accepted).Perm
    ((moves.filterMap (answer key)).filterMap Answer.handed ++ s.queue.pending key)
  /-- The moves are listed with the latest first. -/
  inOrder : ((moves.filterMap (answer key)).filterMap Answer.queued).reverse =
    ((moves.filterMap (answer key)).filterMap Answer.taken).reverse ++ s.queue.pending key
  started : ∀ descriptor first, (s.queue.enqueue key descriptor).2 = .start first → first = descriptor
  dropped : ∀ descriptor, (s.queue.enqueue key descriptor).2 = .dropped →
    s.queue.active key = 4 ∧ (s.queue.pending key).length = 64
  /-- A worker that asks is answered, with what has waited longest: `active` does not go
  below zero. -/
  answered : ∀ worker, s.workers.get worker = some key →
    ∃ queue, s.queue.next key = some (queue, (s.queue.pending key).head?)

/-- What the desk keeps for each key, the queue keeps. -/
theorem served_of_kept {moves : List (Move (ServedQueue K D) (QueueCall K D))}
    (h : Desk.Kept (moves.filterMap (answer key)) (s.desk key)) : s.Served key moves := by
  obtain ⟨hsound, honce, hinOrder⟩ := h
  have hactive : s.queue.active key = (s.desk key).workers := hsound.active_eq
  have hanswer : ∀ descriptor, ∃ t', Desk.Outcome (s.desk key) (.enqueue descriptor)
      (.admission descriptor (s.queue.enqueue key descriptor).2) t' := by
    intro descriptor
    obtain ⟨_, t', houtcome, _, rfl⟩ := hsound.enqueue_outcome descriptor
    exact ⟨t', houtcome⟩
  refine ⟨?_, hsound.short, ?_, hactive, ?_, honce, hinOrder, ?_, ?_, ?_⟩
  · rw [hactive]
    exact hsound.few
  · rw [hactive]
    exact hsound.full
  · exact hsound.isSome_entry.trans workersOf_pos_iff
  · intro descriptor first hstart
    obtain ⟨t', houtcome⟩ := hanswer descriptor
    rw [hstart] at houtcome
    cases houtcome
    rfl
  · intro descriptor hdrop
    obtain ⟨t', houtcome⟩ := hanswer descriptor
    rw [hdrop] at houtcome
    cases houtcome with
    | dropped _ hfull hlong => exact ⟨hactive.trans hfull, hlong⟩
  · intro worker hworker
    have hsome : 0 < (s.desk key).workers := workersOf_pos_iff.mpr ⟨worker, hworker⟩
    have hentry : s.queue.peers.get key = _ := hsound.entry_eq hsome
    have hactive' : 0 < ({ active := (s.desk key).workers, pending := (s.desk key).pending } : PeerWork D).active :=
      hsome
    obtain ⟨entry, hnext⟩ := PeerWork.next_of_active hactive'
    refine ⟨s.queue.put key entry, ?_⟩
    rw [WantQueue.next, hentry]
    exact congrArg (Option.map _) hnext

/-- In every run each key is served within its bounds and loses nothing, and what
happens under it is a run of its own desk. -/
theorem serves_each_key {moves : List (Move (ServedQueue K D) (QueueCall K D))} (run : Run step idle moves s)
    (key : K) :
    s.Served key moves ∧ Run Desk.step .closed (moves.filterMap (deskMove key)) (s.desk key) ∧
      moves.filterMap (answer key) = (moves.filterMap (deskMove key)).map Desk.answer := by
  obtain ⟨t, hdesk, rfl, _⟩ := run.part (deskPart key) ⟨rfl, fun _ _ => rfl⟩
  have hkept := Desk.kept_run hdesk
  rw [← answers_eq] at hkept
  exact ⟨served_of_kept hkept, hdesk, answers_eq key moves⟩

/-- Five requests of one peer and one of another, then a worker of the first asks twice. -/
def busyCalls : List (QueueCall String Nat) :=
  [.enqueue "a" 0, .enqueue "a" 1, .enqueue "a" 2, .enqueue "b" 9, .enqueue "a" 3, .enqueue "a" 4,
    .next 0, .next 0]

def busyRun : List (Move (ServedQueue String Nat) (QueueCall String Nat)) × ServedQueue String Nat :=
  Reactive.play step idle busyCalls.reverse

theorem serves_each_key_busy : busyRun.2.Served "a" busyRun.1 ∧
    Run Desk.step .closed (busyRun.1.filterMap (deskMove "a")) (busyRun.2.desk "a") ∧
      busyRun.1.filterMap (answer "a") = (busyRun.1.filterMap (deskMove "a")).map Desk.answer :=
  serves_each_key (Reactive.run_play step idle busyCalls.reverse) "a"

example : busyRun.1.length = 8 ∧ busyRun.2.queue.active "a" = 3 ∧ busyRun.2.queue.active "b" = 1 := by
  decide +kernel

end ServedQueue

end Mistlib.Storage
