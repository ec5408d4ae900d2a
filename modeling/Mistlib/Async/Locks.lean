import Mathlib.Data.Fintype.Defs
import Mathlib.Logic.Function.Basic

/-!
# Tasks that take locks

A task is a list of acquisitions and releases. It is scheduled one operation at a time; one that
wants a lock somebody holds stays where it is. Every acquisition says at which site of the
program it is made, so that a rule on acquisitions (`allowed`) can tell functions apart.

That a task keeps to its rule is proved of its code block by block (`Keeps`). Every state of a
run of such tasks is `Orderly`: each task holds a stack of locks its rule allowed, goes on to
follow the rule, and no lock is held twice. Two tasks that wait for each other cannot both ask
for a lock of a higher rank than those they hold (`Deadlocked.not_ascending`).
-/

namespace Locks

variable {ι σ L : Type}

inductive Op (σ L : Type) where
  | acquire (site : σ) (lock : L)
  | release (lock : L)
deriving DecidableEq

/-- A lock taken for the time of a block. -/
def hold (site : σ) (lock : L) (body : List (Op σ L)) : List (Op σ L) :=
  .acquire site lock :: (body ++ [.release lock])

/-- A task: the locks it holds and the sites they were taken at, the latest
first, and what it has still to do. -/
structure Task (σ L : Type) where
  held : List (σ × L)
  rest : List (Op σ L)
deriving DecidableEq

namespace Task

def Holds (t : Task σ L) (lock : L) : Prop := lock ∈ t.held.map Prod.snd

instance [DecidableEq L] (t : Task σ L) (lock : L) : Decidable (t.Holds lock) :=
  inferInstanceAs (Decidable (_ ∈ _))

def Wants (t : Task σ L) (site : σ) (lock : L) : Prop :=
  ∃ rest, t.rest = .acquire site lock :: rest

end Task

section Runs

variable [DecidableEq ι] [Fintype ι] [DecidableEq L]

/-- One operation of a task, or nothing where it has to wait. -/
def step (tasks : ι → Task σ L) (i : ι) : ι → Task σ L :=
  match (tasks i).rest with
  | [] => tasks
  | .acquire site lock :: rest =>
    if ∃ j, (tasks j).Holds lock then tasks
    else Function.update tasks i ⟨(site, lock) :: (tasks i).held, rest⟩
  | .release lock :: rest =>
    Function.update tasks i ⟨(tasks i).held.eraseP fun h => h.2 = lock, rest⟩

/-- The tasks after a schedule, the latest choice first. -/
def after (start : ι → Task σ L) : List ι → ι → Task σ L
  | [] => start
  | i :: past => step (after start past) i

end Runs

/-- Each of two tasks holds a lock the other one is waiting for. -/
def Deadlocked (tasks : ι → Task σ L) (i j : ι) : Prop :=
  (∃ site lock, (tasks i).Wants site lock ∧ (tasks j).Holds lock) ∧
    ∃ site lock, (tasks j).Wants site lock ∧ (tasks i).Holds lock

/-- The lock a task waits for ranks above all it holds. -/
def Ascending (rank : L → Nat) (t : Task σ L) : Prop :=
  ∀ site lock, t.Wants site lock → ∀ other, t.Holds other → rank other < rank lock

theorem Deadlocked.not_ascending {tasks : ι → Task σ L} {i j : ι} (h : Deadlocked tasks i j)
    (rank : L → Nat) (hj : Ascending rank (tasks j)) : ¬ Ascending rank (tasks i) := by
  intro hi
  obtain ⟨⟨site, lock, hwants, hheld⟩, site', lock', hwants', hheld'⟩ := h
  have hup := hi site lock hwants lock' hheld'
  have hdown := hj site' lock' hwants' lock hheld
  exact absurd hup (Nat.lt_asymm hdown)

/-! ## Rules -/

/-- What remains to be done takes only allowed locks and releases the latest one first. -/
def Follows (allowed : List (σ × L) → σ → L → Prop) : List (σ × L) → List (Op σ L) → Prop
  | _, [] => True
  | held, .acquire site lock :: rest =>
    allowed held site lock ∧ Follows allowed ((site, lock) :: held) rest
  | [], .release _ :: _ => False
  | (_, latest) :: held, .release lock :: rest => latest = lock ∧ Follows allowed held rest

/-- Every lock held was allowed over those below it. -/
def Stacked (allowed : List (σ × L) → σ → L → Prop) : List (σ × L) → Prop
  | [] => True
  | (site, lock) :: held => allowed held site lock ∧ Stacked allowed held

/-- A block that may stand before anything that follows the rule. -/
structure Keeps (allowed : List (σ × L) → σ → L → Prop) (held : List (σ × L))
    (block : List (Op σ L)) : Prop where
  before : ∀ rest, Follows allowed held rest → Follows allowed held (block ++ rest)

section Blocks

variable {allowed : List (σ × L) → σ → L → Prop} {held : List (σ × L)}

theorem Keeps.follows {block : List (Op σ L)} (h : Keeps allowed held block) :
    Follows allowed held block := by
  have hblock := h.before [] (by unfold Follows; trivial)
  rwa [List.append_nil] at hblock

theorem keeps_nil : Keeps allowed held [] := ⟨fun _ h => h⟩

theorem Keeps.append {block block' : List (Op σ L)} (h : Keeps allowed held block)
    (h' : Keeps allowed held block') : Keeps allowed held (block ++ block') := by
  refine ⟨fun rest hrest => ?_⟩
  rw [List.append_assoc]
  exact h.before _ (h'.before rest hrest)

theorem Keeps.hold {site : σ} {lock : L} {body : List (Op σ L)} (hallowed : allowed held site lock)
    (hbody : Keeps allowed ((site, lock) :: held) body) :
    Keeps allowed held (hold site lock body) := by
  refine ⟨fun rest hrest => ?_⟩
  rw [Locks.hold, List.cons_append, List.append_assoc]
  exact ⟨hallowed, hbody.before _ ⟨rfl, hrest⟩⟩

theorem Keeps.leaf {site : σ} {lock : L} (hallowed : allowed held site lock) :
    Keeps allowed held (Locks.hold site lock []) :=
  .hold hallowed keeps_nil

theorem Keeps.flatMap {α : Type} {items : List α} {block : α → List (Op σ L)}
    (h : ∀ a ∈ items, Keeps allowed held (block a)) :
    Keeps allowed held (items.flatMap block) := by
  induction items with
  | nil => exact keeps_nil
  | cons a items ih =>
    rw [List.flatMap_cons]
    exact (h a List.mem_cons_self).append (ih fun b hb => h b (List.mem_cons_of_mem a hb))

theorem Keeps.ite {c : Prop} [Decidable c] {block block' : List (Op σ L)}
    (h : Keeps allowed held block) (h' : Keeps allowed held block') :
    Keeps allowed held (if c then block else block') := by
  split
  · exact h
  · exact h'

end Blocks

/-! ## Orderly states -/

structure Orderly (allowed : ι → List (σ × L) → σ → L → Prop) (tasks : ι → Task σ L) : Prop where
  follows : ∀ i, Follows (allowed i) (tasks i).held (tasks i).rest
  stacked : ∀ i, Stacked (allowed i) (tasks i).held
  exclusive : ∀ i j lock, (tasks i).Holds lock → (tasks j).Holds lock → i = j

theorem orderly_start {allowed : ι → List (σ × L) → σ → L → Prop} {code : ι → List (Op σ L)}
    (h : ∀ i, Follows (allowed i) [] (code i)) : Orderly allowed fun i => ⟨[], code i⟩ where
  follows := h
  stacked _ := by unfold Stacked; trivial
  exclusive i j lock hi := absurd hi List.not_mem_nil

section Steps

variable [DecidableEq ι] [Fintype ι] [DecidableEq L]
  {allowed : ι → List (σ × L) → σ → L → Prop} {tasks : ι → Task σ L} {i : ι}

theorem step_acquire {site : σ} {lock : L} {rest : List (Op σ L)}
    (hrest : (tasks i).rest = .acquire site lock :: rest) (hfree : ∀ j, ¬ (tasks j).Holds lock) :
    step tasks i = Function.update tasks i ⟨(site, lock) :: (tasks i).held, rest⟩ := by
  unfold step
  rw [hrest]
  exact if_neg fun ⟨j, hj⟩ => hfree j hj

/-- A step waits, takes the next lock or gives the last one back. -/
theorem step_cases (h : Orderly allowed tasks) :
    step tasks i = tasks ∨
    (∃ site lock rest, (tasks i).rest = .acquire site lock :: rest ∧
      (∀ j, ¬ (tasks j).Holds lock) ∧ allowed i (tasks i).held site lock ∧
      step tasks i = Function.update tasks i ⟨(site, lock) :: (tasks i).held, rest⟩) ∨
    ∃ site lock held rest, (tasks i).rest = .release lock :: rest ∧
      (tasks i).held = (site, lock) :: held ∧
      step tasks i = Function.update tasks i ⟨held, rest⟩ := by
  have hfollows := h.follows i
  unfold step
  cases hrest : (tasks i).rest with
  | nil => exact .inl rfl
  | cons op rest =>
    rw [hrest] at hfollows
    cases op with
    | acquire site lock =>
      by_cases hheld : ∃ j, (tasks j).Holds lock
      · exact .inl (if_pos hheld)
      · exact .inr (.inl ⟨site, lock, rest, rfl, fun j hj => hheld ⟨j, hj⟩, hfollows.1,
          if_neg hheld⟩)
    | release lock =>
      cases hheld : (tasks i).held with
      | nil =>
        rw [hheld] at hfollows
        exact hfollows.elim
      | cons top held =>
        rw [hheld] at hfollows
        obtain ⟨rfl, -⟩ := hfollows
        refine .inr (.inr ⟨top.1, top.2, held, rest, rfl, rfl, ?_⟩)
        simp only [List.eraseP_cons, decide_true, cond_true]

omit [Fintype ι] [DecidableEq L] in
theorem Orderly.update (h : Orderly allowed tasks) {t : Task σ L}
    (hfollows : Follows (allowed i) t.held t.rest) (hstacked : Stacked (allowed i) t.held)
    (hheld : ∀ lock, t.Holds lock → (tasks i).Holds lock ∨ ∀ j, ¬ (tasks j).Holds lock) :
    Orderly allowed (Function.update tasks i t) := by
  have hown : ∀ {k lock}, k ≠ i → t.Holds lock → ¬ (tasks k).Holds lock := by
    intro k lock hne ht hk
    rcases hheld lock ht with hi | hfree
    · exact hne (h.exclusive k i lock hk hi)
    · exact hfree k hk
  refine ⟨fun j => ?_, fun j => ?_, fun j k lock hj hk => ?_⟩
  · rcases eq_or_ne j i with rfl | hne
    · rwa [Function.update_self]
    · rw [Function.update_of_ne hne]
      exact h.follows j
  · rcases eq_or_ne j i with rfl | hne
    · rwa [Function.update_self]
    · rw [Function.update_of_ne hne]
      exact h.stacked j
  · by_cases hji : j = i
    · by_cases hki : k = i
      · rw [hji, hki]
      · rw [hji, Function.update_self] at hj
        rw [Function.update_of_ne hki] at hk
        exact absurd hk (hown hki hj)
    · rw [Function.update_of_ne hji] at hj
      by_cases hki : k = i
      · rw [hki, Function.update_self] at hk
        exact absurd hj (hown hji hk)
      · rw [Function.update_of_ne hki] at hk
        exact h.exclusive j k lock hj hk

/-- Tasks that keep the order of the locks keep it in every step. -/
theorem orderly_step (h : Orderly allowed tasks) (i : ι) : Orderly allowed (step tasks i) := by
  have hfollows := h.follows i
  have hstacked := h.stacked i
  rcases step_cases (i := i) h with heq | ⟨site, lock, rest, hrest, hfree, hallowed, heq⟩ |
    ⟨site, lock, held, rest, hrest, hheld, heq⟩
  · rwa [heq]
  · rw [heq]
    rw [hrest] at hfollows
    refine h.update hfollows.2 ⟨hallowed, hstacked⟩ fun other hother => ?_
    rcases List.mem_cons.mp hother with rfl | hother
    · exact .inr hfree
    · exact .inl hother
  · rw [heq]
    rw [hrest, hheld] at hfollows
    rw [hheld] at hstacked
    refine h.update hfollows.2 hstacked.2 fun other hother => .inl ?_
    rw [Task.Holds, hheld]
    exact List.mem_cons_of_mem _ hother

theorem orderly_after {start : ι → Task σ L} (h : Orderly allowed start) (schedule : List ι) :
    Orderly allowed (after start schedule) := by
  induction schedule with
  | nil => exact h
  | cons i past ih => exact orderly_step ih i

end Steps

end Locks
