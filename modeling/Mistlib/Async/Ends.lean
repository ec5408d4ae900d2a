import Mathlib.Algebra.Order.Group.Multiset
import Mistlib.Async.Discipline

/-!
# What a task ends with

The results a task can end with, told from its code alone: operations and calls give any result
that is possible, and a task that waits for its jobs gets the result of any one that it has
started and not yet collected (`Ends`). Whatever else runs in a pool, a task of it ends with one
of these results (`Pool.Ending.finished`), if it ends.
-/

namespace Async

variable {S : Signature} {σ Ω γ ν : Type}

abbrev AnyJob (S : Signature) := Σ κ : S.Kind, S.Job κ

/-- The results of operations and the answers to calls that may occur. -/
structure Possible (S : Signature) where
  op : (o : S.Op) → S.Res o → Prop
  call : (c : S.Call) → S.Ans c → Prop

def Possible.Allows (P : Possible S) : Event S → Prop
  | .did _ o r => P.op o r
  | .answered _ c a => P.call c a
  | _ => True

/-- `Ends M P jobs p r left`: with `jobs` started and not yet collected, `p` may
end with `r` and leave the jobs `left`. -/
inductive Ends (M : Machine S σ Ω) (P : Possible S) :
    {α : Type} → Multiset (AnyJob S) → Prog S α → Except S.Err α → Multiset (AnyJob S) → Prop
  | pure {α : Type} {jobs : Multiset (AnyJob S)} (a : α) : Ends M P jobs (.pure a) (.ok a) jobs
  | throw {α : Type} {jobs : Multiset (AnyJob S)} (e : S.Err) :
      Ends M P (α := α) jobs (.throw e) (.error e) jobs
  | op {α : Type} {jobs left : Multiset (AnyJob S)} {o : S.Op} {k : S.Res o → Prog S α}
      {r : Except S.Err α} (x : S.Res o) :
      P.op o x → Ends M P jobs (k x) r left → Ends M P jobs (.op o k) r left
  | await {α : Type} {jobs left : Multiset (AnyJob S)} {c : S.Call} {k : S.Ans c → Prog S α}
      {r : Except S.Err α} (x : S.Ans c) :
      P.call c x → Ends M P jobs (k x) r left → Ends M P jobs (.await c k) r left
  | spawn {α : Type} {jobs left : Multiset (AnyJob S)} {κ : S.Kind} {job : S.Job κ} {k : Prog S α}
      {r : Except S.Err α} :
      Ends M P (⟨κ, job⟩ ::ₘ jobs) k r left → Ends M P jobs (.spawn job k) r left
  | next {α : Type} {jobs rest left own : Multiset (AnyJob S)} {κ : S.Kind}
      {k : Option (Except S.Err (S.Out κ)) → Prog S α} {r : Except S.Err α} (job : S.Job κ)
      (x : Except S.Err (S.Out κ)) :
      jobs = ⟨κ, job⟩ ::ₘ rest → Ends M P 0 (M.code job) x own → Ends M P rest (k (some x)) r left →
      Ends M P jobs (.next κ k) r left
  | none {α : Type} {jobs left : Multiset (AnyJob S)} {κ : S.Kind}
      {k : Option (Except S.Err (S.Out κ)) → Prog S α} {r : Except S.Err α} :
      jobs = 0 → Ends M P jobs (k .none) r left → Ends M P jobs (.next κ k) r left

namespace Ends

variable {M : Machine S σ Ω} {P : Possible S} {α β : Type} {jobs left : Multiset (AnyJob S)}

variable {p : Prog S α}

/-- A program with its steps handed on ends as it does from a result of the program. -/
theorem of_through {q : Prog S α → Prog S β} (hq : Prog.Through q) {r : Except S.Err β}
    (h : Ends M P jobs (q p) r left) :
    ∃ r' mid, Ends M P jobs p r' mid ∧ Ends M P mid (q (.ofExcept r')) r left := by
  induction p generalizing jobs with
  | pure a => exact ⟨.ok a, jobs, .pure a, h⟩
  | throw e => exact ⟨.error e, jobs, .throw e, h⟩
  | op o k ih =>
    rw [hq.op] at h
    cases h with
    | op x hx h =>
      obtain ⟨r', mid, hfirst, hrest⟩ := ih x h
      exact ⟨r', mid, .op x hx hfirst, hrest⟩
  | await c k ih =>
    rw [hq.await] at h
    cases h with
    | await x hx h =>
      obtain ⟨r', mid, hfirst, hrest⟩ := ih x h
      exact ⟨r', mid, .await x hx hfirst, hrest⟩
  | spawn job k ih =>
    rw [hq.spawn] at h
    cases h with
    | spawn h =>
      obtain ⟨r', mid, hfirst, hrest⟩ := ih h
      exact ⟨r', mid, .spawn hfirst, hrest⟩
  | next κ k ih =>
    rw [hq.next] at h
    cases h with
    | next job x hjobs hown h =>
      obtain ⟨r', mid, hfirst, hrest⟩ := ih (some x) h
      exact ⟨r', mid, .next job x hjobs hown hfirst, hrest⟩
    | none hjobs h =>
      obtain ⟨r', mid, hfirst, hrest⟩ := ih Option.none h
      exact ⟨r', mid, .none hjobs hfirst, hrest⟩

/-- What a composed program ends with is reached through its first part, or is that part's error. -/
theorem of_bind {f : α → Prog S β} {r : Except S.Err β} (h : Ends M P jobs (p >>= f) r left) :
    (∃ a mid, Ends M P jobs p (.ok a) mid ∧ Ends M P mid (f a) r left) ∨
      ∃ e, r = .error e ∧ Ends M P jobs p (.error e) left := by
  obtain ⟨r', mid, hfirst, hrest⟩ := of_through (.bind f) h
  cases r' with
  | ok a => exact .inl ⟨a, mid, hfirst, hrest⟩
  | error e =>
    cases hrest
    exact .inr ⟨e, rfl, hfirst⟩

/-- A first part that returns hands over to the rest. -/
theorem bind {f : α → Prog S β} {a : α} {mid : Multiset (AnyJob S)} {r : Except S.Err β}
    (h : Ends M P jobs p (.ok a) mid) (hrest : Ends M P mid (f a) r left) :
    Ends M P jobs (p >>= f) r left := by
  change Ends M P jobs (p.bind f) r left
  induction p generalizing jobs with
  | pure b =>
    cases h
    exact hrest
  | throw e => cases h
  | op o k ih =>
    cases h with
    | op x hx h => exact .op x hx (ih x h)
  | await c k ih =>
    cases h with
    | await x hx h => exact .await x hx (ih x h)
  | spawn job k ih =>
    cases h with
    | spawn h => exact .spawn (ih h)
  | next κ k ih =>
    cases h with
    | next job x hjobs hown h => exact .next job x hjobs hown (ih (some x) h)
    | none hjobs h => exact .none hjobs (ih Option.none h)

theorem of_attempt {r : Except S.Err (Except S.Err α)} (h : Ends M P jobs p.attempt r left) :
    ∃ r', r = .ok r' ∧ Ends M P jobs p r' left := by
  obtain ⟨r', mid, hfirst, hrest⟩ := of_through .attempt h
  cases r' with
  | ok a | error e =>
    cases hrest
    exact ⟨_, rfl, hfirst⟩

theorem ofExcept (r : Except S.Err α) : Ends M P jobs (Prog.ofExcept r) r jobs := by
  cases r with
  | ok a => exact .pure a
  | error e => exact .throw e

theorem of_ofExcept {r r' : Except S.Err α} (h : Ends M P jobs (Prog.ofExcept r) r' left) :
    r' = r ∧ left = jobs := by
  cases r with
  | ok a | error e =>
    cases h
    exact ⟨rfl, rfl⟩

theorem of_perform {o : S.Op} {r : Except S.Err (S.Res o)}
    (h : Ends M P jobs (Prog.perform o) r left) : ∃ x, r = .ok x ∧ P.op o x ∧ left = jobs := by
  cases h with
  | op x hx h =>
    cases h
    exact ⟨x, rfl, hx, rfl⟩

theorem of_call {c : S.Call} {r : Except S.Err (S.Ans c)}
    (h : Ends M P jobs (Prog.call c) r left) : ∃ x, r = .ok x ∧ P.call c x ∧ left = jobs := by
  cases h with
  | await x hx h =>
    cases h
    exact ⟨x, rfl, hx, rfl⟩

theorem of_spawn_bind {κ : S.Kind} {job : S.Job κ} {f : Unit → Prog S α} {r : Except S.Err α}
    (h : Ends M P jobs (Prog.spawn job (.pure ()) >>= f) r left) :
    Ends M P (⟨κ, job⟩ ::ₘ jobs) (f ()) r left := by
  cases h with
  | spawn h => exact h

/-- A job that is collected has ended by its own code; none is left only if none was there. -/
theorem of_next_bind {κ : S.Kind} {f : Option (Except S.Err (S.Out κ)) → Prog S α} {r : Except S.Err α}
    (h : Ends M P jobs (Prog.next κ .pure >>= f) r left) :
    (∃ (job : S.Job κ) (x : Except S.Err (S.Out κ)) (own rest : Multiset (AnyJob S)),
      jobs = ⟨κ, job⟩ ::ₘ rest ∧ Ends M P 0 (M.code job) x own ∧ Ends M P rest (f (some x)) r left) ∨
      jobs = 0 ∧ Ends M P jobs (f Option.none) r left := by
  cases h with
  | next job x hjobs hown h => exact .inl ⟨job, x, _, _, hjobs, hown, h⟩
  | none hjobs h => exact .inr ⟨hjobs, h⟩

end Ends

/-! ### Programs that come to an end

`Prog` is an inductive type, so no run of a task is infinite; what can keep it
from ending is a wait that nothing answers. -/

/-- With `jobs` started, `p` may have come to where it is `p'`, with `jobs'`
started and not yet collected. -/
inductive Onward (M : Machine S σ Ω) (P : Possible S) {α : Type} :
    Multiset (AnyJob S) → Prog S α → Multiset (AnyJob S) → Prog S α → Prop
  | refl {jobs : Multiset (AnyJob S)} {p : Prog S α} : Onward M P jobs p jobs p
  | op {jobs jobs' : Multiset (AnyJob S)} {o : S.Op} {k : S.Res o → Prog S α} {p' : Prog S α}
      (x : S.Res o) : P.op o x → Onward M P jobs (k x) jobs' p' → Onward M P jobs (.op o k) jobs' p'
  | await {jobs jobs' : Multiset (AnyJob S)} {c : S.Call} {k : S.Ans c → Prog S α} {p' : Prog S α}
      (x : S.Ans c) :
      P.call c x → Onward M P jobs (k x) jobs' p' → Onward M P jobs (.await c k) jobs' p'
  | spawn {jobs jobs' : Multiset (AnyJob S)} {κ : S.Kind} {job : S.Job κ} {k p' : Prog S α} :
      Onward M P (⟨κ, job⟩ ::ₘ jobs) k jobs' p' → Onward M P jobs (.spawn job k) jobs' p'
  | next {jobs rest jobs' own : Multiset (AnyJob S)} {κ : S.Kind}
      {k : Option (Except S.Err (S.Out κ)) → Prog S α} {p' : Prog S α} (job : S.Job κ)
      (x : Except S.Err (S.Out κ)) :
      jobs = ⟨κ, job⟩ ::ₘ rest → Ends M P 0 (M.code job) x own →
      Onward M P rest (k (some x)) jobs' p' → Onward M P jobs (.next κ k) jobs' p'
  | none {jobs jobs' : Multiset (AnyJob S)} {κ : S.Kind}
      {k : Option (Except S.Err (S.Out κ)) → Prog S α} {p' : Prog S α} :
      jobs = 0 → Onward M P jobs (k .none) jobs' p' → Onward M P jobs (.next κ k) jobs' p'

/-- Something may happen at every operation and every call. -/
structure Possible.Answering (P : Possible S) : Prop where
  op : ∀ o, ∃ x, P.op o x
  call : ∀ c, ∃ x, P.call c x

/-- A program that starts no jobs and waits for none. -/
def Prog.Plain {α : Type} : Prog S α → Prop
  | .pure _ | .throw _ => True
  | .op _ k | .await _ k => ∀ x, (k x).Plain
  | .spawn _ _ | .next _ _ => False

/-- A program that starts jobs of one kind and waits for no others. -/
def Prog.Uniform (κ : S.Kind) {α : Type} : Prog S α → Prop
  | .pure _ | .throw _ => True
  | .op _ k | .await _ k => ∀ x, (k x).Uniform κ
  | @Prog.spawn _ _ κ' _ k => κ' = κ ∧ k.Uniform κ
  | .next κ' k => κ' = κ ∧ ∀ x, (k x).Uniform κ

section Completing

variable {M : Machine S σ Ω} {P : Possible S} {α β : Type} {κ : S.Kind}

variable {p : Prog S α}

theorem Prog.Plain.bind {f : α → Prog S β} (hp : p.Plain) (hf : ∀ a, (f a).Plain) : (p >>= f).Plain := by
  change (p.bind f).Plain
  induction p with
  | pure a => exact hf a
  | throw e => trivial
  | op o k ih | await c k ih => exact fun x => ih x (hp x)
  | spawn job k ih | next κ k ih => exact hp.elim

theorem Prog.Plain.attempt (hp : p.Plain) : p.attempt.Plain := by
  induction p with
  | pure a | throw e => trivial
  | op o k ih | await c k ih => exact fun x => ih x (hp x)
  | spawn job k ih | next κ k ih => exact hp.elim

theorem Prog.Plain.ofExcept (r : Except S.Err α) : (Prog.ofExcept r).Plain := by
  cases r with
  | ok a | error e => trivial

theorem Prog.Plain.uniform (hp : p.Plain) : p.Uniform κ := by
  induction p with
  | pure a | throw e => trivial
  | op o k ih | await c k ih => exact fun x => ih x (hp x)
  | spawn job k ih | next κ k ih => exact hp.elim

theorem Prog.Uniform.bind {f : α → Prog S β} (hp : p.Uniform κ) (hf : ∀ a, (f a).Uniform κ) :
    (p >>= f).Uniform κ := by
  change (p.bind f).Uniform κ
  induction p with
  | pure a => exact hf a
  | throw e => trivial
  | op o k ih | await c k ih => exact fun x => ih x (hp x)
  | spawn job k ih => exact ⟨hp.1, ih hp.2⟩
  | next κ k ih => exact ⟨hp.1, fun x => ih x (hp.2 x)⟩

theorem Prog.Plain.ends (hP : P.Answering) (hp : p.Plain) (jobs : Multiset (AnyJob S)) :
    ∃ r, Ends M P jobs p r jobs := by
  induction p with
  | pure a => exact ⟨_, .pure a⟩
  | throw e => exact ⟨_, .throw e⟩
  | op o k ih =>
    obtain ⟨x, hx⟩ := hP.op o
    obtain ⟨r, hr⟩ := ih x (hp x)
    exact ⟨r, .op x hx hr⟩
  | await c k ih =>
    obtain ⟨x, hx⟩ := hP.call c
    obtain ⟨r, hr⟩ := ih x (hp x)
    exact ⟨r, .await x hx hr⟩
  | spawn job k ih | next κ k ih => exact hp.elim

variable {jobs : Multiset (AnyJob S)}

theorem kind_cons {κ' : S.Kind} (hkind : κ' = κ) (job : S.Job κ') (hjobs : ∀ j ∈ jobs, j.1 = κ) :
    ∀ j ∈ (⟨κ', job⟩ : AnyJob S) ::ₘ jobs, j.1 = κ := by
  intro j hj
  rcases Multiset.mem_cons.mp hj with rfl | hj
  · exact hkind
  · exact hjobs j hj

theorem Prog.Uniform.ends (hP : P.Answering) (hcode : ∀ job : S.Job κ, (M.code job).Plain)
    (hp : p.Uniform κ) (hjobs : ∀ job ∈ jobs, job.1 = κ) :
    ∃ r left, Ends M P jobs p r left := by
  induction p generalizing jobs with
  | pure a => exact ⟨_, _, .pure a⟩
  | throw e => exact ⟨_, _, .throw e⟩
  | op o k ih =>
    obtain ⟨x, hx⟩ := hP.op o
    obtain ⟨r, left, hr⟩ := ih x (hp x) hjobs
    exact ⟨r, left, .op x hx hr⟩
  | await c k ih =>
    obtain ⟨x, hx⟩ := hP.call c
    obtain ⟨r, left, hr⟩ := ih x (hp x) hjobs
    exact ⟨r, left, .await x hx hr⟩
  | spawn job k ih =>
    obtain ⟨r, left, hr⟩ := ih hp.2 (kind_cons hp.1 job hjobs)
    exact ⟨r, left, .spawn hr⟩
  | next κ' k ih =>
    obtain ⟨rfl, hk⟩ := hp
    induction jobs using Multiset.induction_on with
    | empty =>
      obtain ⟨r, left, hr⟩ := ih .none (hk _) hjobs
      exact ⟨r, left, .none rfl hr⟩
    | cons j rest _ =>
      obtain ⟨kind, job⟩ := j
      obtain rfl : kind = κ' := hjobs _ (Multiset.mem_cons_self _ _)
      obtain ⟨x, hx⟩ := (hcode job).ends (M := M) hP 0
      obtain ⟨r, left, hr⟩ := ih (some x) (hk _) fun j hj => hjobs j (Multiset.mem_cons_of_mem hj)
      exact ⟨r, left, .next job x rfl hx hr⟩

theorem Onward.ends (hP : P.Answering) (hcode : ∀ job : S.Job κ, (M.code job).Plain) {p' : Prog S α}
    (hp : p.Uniform κ) {jobs' : Multiset (AnyJob S)} (hjobs : ∀ job ∈ jobs, job.1 = κ)
    (h : Onward M P jobs p jobs' p') :
    ∃ r left, Ends M P jobs' p' r left := by
  induction h with
  | refl => exact hp.ends hP hcode hjobs
  | op x _ _ ih | await x _ _ ih => exact ih (hp x) hjobs
  | spawn _ ih => exact ih hp.2 (kind_cons hp.1 _ hjobs)
  | next job x hrest _ _ ih =>
    subst hrest
    exact ih (hp.2 _) fun j hj => hjobs j (Multiset.mem_cons_of_mem hj)
  | none _ _ ih => exact ih (hp.2 _) hjobs

end Completing

/-! ### The tasks of a pool -/

def Stage.prog {α : Type} : Stage S α → Prog S α
  | .ready p => p
  | .issued c k => .await c k
  | .waiting κ k => .next κ k
  | .ended r => .ofExcept r

/-- The job a thread runs, if `t` has started it. -/
def Thread.share (th : Thread S ν) (t : Tid) : Multiset (AnyJob S) :=
  if th.parent = some t then {⟨th.kind, th.job⟩} else 0

/-- The jobs `t` has started and not yet collected. -/
def jobsOf (threads : Table Tid (Thread S ν)) (t : Tid) : Multiset (AnyJob S) :=
  (threads.values.map fun th => th.share t).sum

section Jobs

variable {threads : Table Tid (Thread S ν)} {t i : Tid} {th : Thread S ν}

theorem jobsOf_insert : jobsOf (threads.insert i th) t = th.share t + jobsOf (threads.erase i) t := by
  simp [jobsOf, Table.values, Table.entries_insert]

theorem jobsOf_of_get (h : threads.get i = some th) :
    jobsOf threads t = th.share t + jobsOf (threads.erase i) t := by
  have hperm := (Table.entries_perm_of_get h).map fun e => e.2.share t
  simpa [jobsOf, Table.values, Function.comp_def] using hperm.sum_eq

theorem jobsOf_advance (h : threads.get i = some th) (stage : Stage S (S.Out th.kind)) (note : ν) :
    jobsOf (threads.insert i { th with stage, note }) t = jobsOf threads t := by
  rw [jobsOf_insert, jobsOf_of_get h]
  rfl

theorem jobsOf_eq_zero (h : ∀ i th, threads.get i = some th → th.parent ≠ some t) :
    jobsOf threads t = 0 := by
  have hnone : ∀ th ∈ threads.values, th.share t = 0 := by
    intro th hth
    obtain ⟨i, hi⟩ := Table.mem_values_iff.mp hth
    exact if_neg (h i th hi)
  unfold jobsOf
  generalize threads.values = values at hnone
  induction values with
  | nil => rfl
  | cons th rest ih =>
    rw [List.map_cons, List.sum_cons, hnone th List.mem_cons_self, zero_add]
    exact ih fun th' hth' => hnone th' (List.mem_cons_of_mem _ hth')

theorem jobsOf_retain {keep : Tid → Thread S ν → Bool}
    (h : ∀ i th, threads.get i = some th → keep i th = false → th.parent ≠ some t) :
    jobsOf (threads.retain keep) t = jobsOf threads t := by
  have hentries : ∀ entries : List (Σ _ : Tid, Thread S ν),
      (∀ e ∈ entries, keep e.1 e.2 = false → e.2.parent ≠ some t) →
      ((entries.filter fun e => keep e.1 e.2).map fun e => e.2.share t).sum =
        (entries.map fun e => e.2.share t).sum := by
    intro entries hgone
    induction entries with
    | nil => rfl
    | cons e rest ih =>
      have hrest := ih fun e' he' => hgone e' (List.mem_cons_of_mem _ he')
      cases hkeep : keep e.1 e.2 with
      | true => simp [hkeep, hrest]
      | false =>
        have hshare : e.2.share t = 0 := if_neg (hgone e List.mem_cons_self hkeep)
        simp [hkeep, hrest, hshare]
  have hretained : (threads.retain keep).entries =
      threads.entries.filter fun e => keep e.1 e.2 := rfl
  have := hentries threads.entries fun e he => h e.1 e.2 (Table.get_eq_some_iff.mpr he)
  simpa [jobsOf, Table.values, hretained, Function.comp_def] using this

end Jobs

/-- Jobs belong to tasks that are there and are no jobs themselves. -/
def Rooted (threads : Table Tid (Thread S ν)) : Prop :=
  ∀ ⦃i t : Tid⦄ ⦃th : Thread S ν⦄, threads.get i = some th → th.parent = some t →
    ∃ th', threads.get t = some th' ∧ th'.parent = none

theorem Rooted.advance {threads : Table Tid (Thread S ν)} {t : Tid} {th : Thread S ν}
    (h : Rooted threads) (hth : threads.get t = some th) (stage : Stage S (S.Out th.kind))
    (note : ν) : Rooted (threads.insert t { th with stage, note }) := by
  intro i s th' hi hparent
  have hthere : ∃ th'', threads.get s = some th'' ∧ th''.parent = none := by
    rw [Table.get_insert] at hi
    split at hi
    · cases hi
      exact h hth hparent
    · exact h hi hparent
  obtain ⟨th'', hs, hnone⟩ := hthere
  rw [Table.get_insert]
  split
  · next heq =>
    subst heq
    exact ⟨_, rfl, (Option.some.inj (hs.symm.trans hth)) ▸ hnone⟩
  · exact ⟨th'', hs, hnone⟩

/-- Every task of a pool can only end as its job says. -/
structure Ending (M : Machine S σ Ω) (P : Possible S) (threads : Table Tid (Thread S ν)) : Prop where
  ends : ∀ {t : Tid} {th : Thread S ν}, threads.get t = some th →
    ∀ {r : Except S.Err (S.Out th.kind)} {left : Multiset (AnyJob S)},
      Ends M P (jobsOf threads t) th.stage.prog r left → ∃ left', Ends M P 0 (M.code th.job) r left'
  rooted : Rooted threads

namespace Ending

variable {M : Machine S σ Ω} {P : Possible S} {threads : Table Tid (Thread S ν)} {t : Tid}
  {th : Thread S ν}

theorem empty : Ending M P (∅ : Table Tid (Thread S ν)) :=
  ⟨fun h => by simp at h, fun i t th h => by simp at h⟩

theorem advance (h : Ending M P threads) (hth : threads.get t = some th)
    {stage : Stage S (S.Out th.kind)} {note : ν}
    (hback : ∀ {r left}, Ends M P (jobsOf threads t) stage.prog r left →
      Ends M P (jobsOf threads t) th.stage.prog r left) :
    Ending M P (threads.insert t { th with stage, note }) := by
  refine ⟨?_, h.rooted.advance hth stage note⟩
  intro i th' hi r left hends
  rw [jobsOf_advance hth] at hends
  rw [Table.get_insert] at hi
  split at hi
  · next heq =>
    subst heq
    cases hi
    exact h.ends hth (hback hends)
  · exact h.ends hi hends

theorem start (hrooted : Rooted threads) (hfree : threads.get t = none) {parent : Option Tid}
    (hparent : ∀ s, parent = some s → ∃ th', threads.get s = some th' ∧ th'.parent = none)
    {κ : S.Kind} (job : S.Job κ) (note : ν)
    (hends : ∀ {i : Tid} {th : Thread S ν}, threads.get i = some th →
      ∀ {r : Except S.Err (S.Out th.kind)} {left : Multiset (AnyJob S)},
        Ends M P ((if parent = some i then {⟨κ, job⟩} else 0) + jobsOf threads i) th.stage.prog r
          left → ∃ left', Ends M P 0 (M.code th.job) r left') :
    Ending M P (threads.insert t
      { parent, kind := κ, job, stage := .ready (M.code job), note }) := by
  have herase : threads.erase t = threads := Table.erase_of_get_none hfree
  have hgone : ∀ {th' : Thread S ν}, threads.get t ≠ some th' := by simp [hfree]
  constructor
  · intro i th' hi r left hr
    rw [jobsOf_insert, herase] at hr
    rw [Table.get_insert] at hi
    split at hi
    · next heq =>
      subst heq
      cases hi
      -- nobody has the new task for a parent
      have hnone : jobsOf threads i = 0 := jobsOf_eq_zero fun j th' hj hp =>
        hgone (hrooted hj hp).choose_spec.1
      have hown : parent ≠ some i := fun hp => hgone (hparent i hp).choose_spec.1
      rw [hnone, Thread.share, if_neg hown] at hr
      exact ⟨left, hr⟩
    · exact hends hi hr
  · intro i s th' hi hp
    have hthere : ∃ th'', threads.get s = some th'' ∧ th''.parent = none := by
      rw [Table.get_insert] at hi
      split at hi
      · cases hi
        exact hparent s hp
      · exact hrooted hi hp
    obtain ⟨th'', hs, hnone⟩ := hthere
    rw [Table.get_insert]
    split
    · next heq =>
      subst heq
      exact absurd hs hgone
    · exact ⟨th'', hs, hnone⟩

theorem collect (h : Ending M P threads) {κ : S.Kind}
    {k : Option (Except S.Err (S.Out κ)) → Prog S (S.Out th.kind)} (hth : threads.get t = some th)
    (hstage : th.stage = .waiting κ k) {i : Tid} {parent : Option Tid} {job : S.Job κ}
    {r : Except S.Err (S.Out κ)} {note : ν}
    (hkid : threads.get i = some { parent, kind := κ, job, stage := .ended r, note })
    (hparent : parent = some t) (note' : ν) :
    Ending M P ((threads.erase i).insert t
      { th with stage := .ready (k (some r)), note := note' }) := by
  obtain ⟨own, hown⟩ := h.ends hkid (Ends.ofExcept r)
  -- a job is nobody's parent
  have hchildless : ∀ {j : Tid} {th' : Thread S ν}, threads.get j = some th' →
      th'.parent ≠ some i := by
    intro j th' hj hp
    obtain ⟨th'', hi, hnone⟩ := h.rooted hj hp
    cases hkid.symm.trans hi
    rw [hparent] at hnone
    cases hnone
  have hself : t ≠ i := by
    rintro rfl
    exact hchildless hkid hparent
  have hget : (threads.erase i).get t = some th := by
    rw [Table.get_erase, if_neg hself, hth]
  have hmine : jobsOf threads t = ⟨κ, job⟩ ::ₘ jobsOf (threads.erase i) t := by
    rw [jobsOf_of_get hkid, Thread.share, if_pos hparent, Multiset.singleton_add]
  have hothers : ∀ s, s ≠ t → jobsOf threads s = jobsOf (threads.erase i) s := by
    intro s hs
    have hnot : parent ≠ some s := fun hp => hs (Option.some.inj (hp.symm.trans hparent))
    rw [jobsOf_of_get hkid, Thread.share, if_neg hnot, zero_add]
  constructor
  · intro s th' hs r' left hr
    rw [jobsOf_advance hget] at hr
    rw [Table.get_insert] at hs
    split at hs
    · next heq =>
      subst heq
      cases hs
      have hbefore : Ends M P (jobsOf threads s) th.stage.prog r' left := by
        rw [hstage]
        exact .next job r hmine hown hr
      exact h.ends hth hbefore
    · next hne =>
      rw [Table.get_erase] at hs
      split at hs
      · cases hs
      · rw [← hothers s hne] at hr
        exact h.ends hs hr
  · intro j s th' hj hp
    have hold : ∃ th₀, threads.get j = some th₀ ∧ th₀.parent = some s := by
      rw [Table.get_insert] at hj
      split at hj
      · next heq =>
        cases hj
        exact ⟨th, heq ▸ hth, hp⟩
      · rw [Table.get_erase] at hj
        split at hj
        · cases hj
        · exact ⟨th', hj, hp⟩
    obtain ⟨th₀, hj₀, hp₀⟩ := hold
    obtain ⟨th'', hs, hnone⟩ := h.rooted hj₀ hp₀
    have hne : s ≠ i := fun hsi => hchildless hj₀ (hsi ▸ hp₀)
    rw [Table.get_insert, Table.get_erase, if_neg hne]
    split
    · next heq =>
      subst heq
      exact ⟨_, rfl, (Option.some.inj (hs.symm.trans hth)) ▸ hnone⟩
    · exact ⟨th'', hs, hnone⟩

theorem leave (h : Ending M P threads) (hth : threads.get t = some th) (hroot : th.parent = none) :
    Ending M P (threads.retain fun i th => decide (i ≠ t) && decide (th.parent ≠ some t)) := by
  have hkept : ∀ {i : Tid} {th : Thread S ν},
      (threads.retain fun i th => decide (i ≠ t) && decide (th.parent ≠ some t)).get i = some th →
        threads.get i = some th ∧ i ≠ t ∧ th.parent ≠ some t := by
    intro i th hi
    rw [Table.get_retain, Option.filter_eq_some_iff] at hi
    simpa using hi
  constructor
  · intro i th hi r left hr
    obtain ⟨hget, hne, _⟩ := hkept hi
    rw [jobsOf_retain] at hr
    · exact h.ends hget hr
    · intro j th' hj hgone hp
      have hgone : j = t ∨ th'.parent = some t := by
        by_contra hkeep
        rw [not_or] at hkeep
        simp [hkeep] at hgone
      rcases hgone with rfl | hkid
      · rw [Option.some.inj (hj.symm.trans hth), hroot] at hp
        cases hp
      · exact hne (Option.some.inj (hp.symm.trans hkid))
  · intro i s th hi hp
    obtain ⟨hget, _, hparent⟩ := hkept hi
    obtain ⟨th', hs, hnone⟩ := h.rooted hget hp
    refine ⟨th', ?_, hnone⟩
    rw [Table.get_retain, hs, Option.filter_some, if_pos]
    have hst : s ≠ t := fun hst => hparent (hst ▸ hp)
    simp [hst, hnone]

end Ending

namespace Pool

variable {M : Machine S σ Ω} {O : Observer S σ γ ν} {P : Possible S} {p p' : Pool S σ γ ν}
  {event : Event S} {t : Tid} {th : Thread S ν}

theorem move_ending (h : Ending M P p.threads) (hth : p.threads.get t = some th) {ω : Ω}
    {fresh : Tid} (hmove : p.move M O t th ω fresh = some (event, p')) (hmay : P.Allows event) :
    Ending M P p'.threads := by
  obtain ⟨parent, kind, job, stage, note⟩ := th
  cases stage with
  | issued c k | waiting κ k | ended r => cases hmove
  | ready prog =>
    cases prog with
    | op o k =>
      cases hmove
      exact h.advance hth fun hr => .op _ hmay hr
    | await c k | next κ k | pure a | throw e =>
      cases hmove
      exact h.advance hth id
    | spawn job' k =>
      simp only [move] at hmove
      split at hmove
      · cases hmove
      · next hfree =>
        cases hmove
        have hnone : p.threads.get fresh = none := by
          simpa [Table.contains] using fun hc => hfree (Or.inl hc)
        have hroot : parent = none := by
          simpa using fun hc => hfree (Or.inr hc)
        have hne : fresh ≠ t := by
          rintro rfl
          rw [hnone] at hth
          cases hth
        refine .start (h.rooted.advance hth (.ready k) (O.spawn note)) ?_ ?_ job' _ ?_
        · exact (Table.get_insert _ _ _ _).trans ((if_neg hne).trans hnone)
        · rintro s ⟨⟩
          exact ⟨_, Table.get_insert_self _ _ _, hroot⟩
        · intro i th' hi r left hr
          rw [jobsOf_advance hth] at hr
          rw [Table.get_insert] at hi
          split at hi
          · next heq =>
            subst heq
            cases hi
            rw [if_pos rfl, Multiset.singleton_add] at hr
            exact h.ends hth (.spawn hr)
          · next hit =>
            rw [if_neg fun hc => hit (Option.some.inj hc).symm, zero_add] at hr
            exact h.ends hi hr

theorem effect_ending (h : Ending M P p.threads) (hth : p.threads.get t = some th) {ω : Ω}
    (heffect : p.effect M O t th ω = some (event, p')) (hmay : P.Allows event) :
    Ending M P p'.threads := by
  obtain ⟨parent, kind, job, stage, note⟩ := th
  cases stage with
  | ready prog | waiting κ k | ended r => cases heffect
  | issued c k =>
    simp only [effect] at heffect
    split at heffect
    · cases heffect
      exact h.advance hth fun hr => .await _ hmay hr
    · cases heffect

theorem wake_ending [DecidableEq S.Kind] (h : Ending M P p.threads)
    (hth : p.threads.get t = some th) {kid : Option Tid}
    (hwake : p.wake O t th kid = some (event, p')) : Ending M P p'.threads := by
  obtain ⟨parent, kind, job, stage, note⟩ := th
  cases stage with
  | ready prog | issued c k | ended r => cases kid <;> cases hwake
  | waiting κ k =>
    cases kid with
    | none =>
      simp only [wake] at hwake
      split at hwake
      · next hkids =>
        cases hwake
        have hnone : jobsOf p.threads t = 0 := jobsOf_eq_zero fun i th' hi hp => by
          have hmem : i ∈ p.kids t := mem_kids.mpr ⟨th', hi, hp⟩
          rw [hkids] at hmem
          cases hmem
        exact h.advance hth fun hr => .none hnone hr
      · cases hwake
    | some i =>
      simp only [wake] at hwake
      split at hwake
      · next kid hkid =>
        split at hwake
        · next r hcollect =>
          split at hwake
          · next hparent =>
            cases hwake
            obtain ⟨kidParent, kidKind, kidJob, kidStage, kidNote⟩ := kid
            simp only [Pool.collect] at hcollect
            split at hcollect
            · next hkind =>
              subst hkind
              cases kidStage with
              | ended r' =>
                cases hcollect
                exact h.collect hth rfl hkid hparent _
              | ready prog | issued c k | waiting κ k => cases hcollect
            · cases hcollect
          · cases hwake
        · cases hwake
      · cases hwake

variable {choice : Choice S Ω}

section

variable [DecidableEq S.Kind]

theorem schedule_ending (h : Ending M P p.threads)
    (hstep : p.schedule M O choice = some (event, p')) (hmay : P.Allows event) :
    Ending M P p'.threads := by
  cases choice with
  | move ω fresh => cases hstep
  | start t job =>
    simp only [schedule] at hstep
    split at hstep
    · cases hstep
    · next hfree =>
      cases hstep
      have hnone : p.threads.get t = none := by
        simpa [Table.contains] using (not_or.mp hfree).1
      refine .start h.rooted hnone (by simp) job _ ?_
      intro i th hi r left hr
      rw [if_neg (by simp), zero_add] at hr
      exact h.ends hi hr
  | resume t | renew ω =>
    simp only [schedule] at hstep
    split at hstep
    · cases hstep
      exact h
    · cases hstep
  | effect t ω =>
    obtain ⟨th, hth, heffect⟩ := Option.bind_eq_some_iff.mp hstep
    exact effect_ending h hth heffect hmay
  | wake t kid =>
    obtain ⟨th, hth, hwake⟩ := Option.bind_eq_some_iff.mp hstep
    exact wake_ending h hth hwake
  | finish t =>
    obtain ⟨th, hth, hfinish⟩ := Option.bind_eq_some_iff.mp hstep
    simp only [finish] at hfinish
    split at hfinish
    · next hroot hstage =>
      cases hfinish
      exact h.leave hth hroot
    · cases hfinish

/-- The tasks of a pool end as their jobs say, after every step in which only
what may occur occurs. -/
theorem step_ending (h : Ending M P p.threads) (hstep : p.step M O choice = some (event, p'))
    (hmay : P.Allows event) : Ending M P p'.threads := by
  simp only [step] at hstep
  split at hstep
  · obtain ⟨th, hth, hmove⟩ := Option.bind_eq_some_iff.mp hstep
    exact move_ending h hth hmove hmay
  · cases hstep
  · exact schedule_ending h hstep hmay

/-- Only a task that has ended returns, and what it leaves behind is dropped. -/
theorem finish_of_step {κ : S.Kind} {job : S.Job κ} {r : Except S.Err (S.Out κ)}
    {dropped : List Tid} (hstep : p.step M O choice = some (.finished t job r dropped, p')) :
    ∃ note, p.threads.get t = some { parent := none, kind := κ, job, stage := .ended r, note } ∧
      p'.world = dropped.foldl (fun s i => M.release i s) p.world := by
  obtain ⟨world, past, threads, running⟩ := p
  cases running with
  | some s =>
    cases choice with
    | move ω fresh =>
      obtain ⟨⟨parent, kind, job', stage, note⟩, hth, hmove⟩ := Option.bind_eq_some_iff.mp hstep
      cases stage with
      | issued c k | waiting κ k | ended r => cases hmove
      | ready prog =>
        cases prog with
        | spawn job k =>
          simp only [move] at hmove
          split at hmove
          · cases hmove
          · cases hmove
        | _ => cases hmove
    | _ => cases hstep
  | none =>
    cases choice with
    | move ω fresh => cases hstep
    | start t job | resume t | renew ω =>
      simp only [step, schedule] at hstep
      split at hstep
      · cases hstep
      · cases hstep
    | effect t ω =>
      obtain ⟨th, hth, heffect⟩ := Option.bind_eq_some_iff.mp hstep
      simp only [effect] at heffect
      split at heffect
      · split at heffect
        · cases heffect
        · cases heffect
      · cases heffect
    | wake t kid =>
      obtain ⟨th, hth, hwake⟩ := Option.bind_eq_some_iff.mp hstep
      simp only [wake] at hwake
      split at hwake
      · split at hwake
        · cases hwake
        · cases hwake
      · split at hwake
        · split at hwake
          · split at hwake
            · cases hwake
            · cases hwake
          · cases hwake
        · cases hwake
      · cases hwake
    | finish t =>
      obtain ⟨⟨parent, kind, job', stage, note⟩, hth, hfinish⟩ := Option.bind_eq_some_iff.mp hstep
      cases stage with
      | ended r' =>
        cases parent with
        | some i => cases hfinish
        | none =>
          cases hfinish
          exact ⟨note, hth, rfl⟩
      | ready prog | issued c k | waiting κ k => cases parent <;> cases hfinish

theorem finished_ends (h : Ending M P p.threads) {κ : S.Kind} {job : S.Job κ}
    {r : Except S.Err (S.Out κ)} {dropped : List Tid}
    (hstep : p.step M O choice = some (.finished t job r dropped, p')) :
    ∃ left, Ends M P 0 (M.code job) r left := by
  obtain ⟨note, hth, _⟩ := finish_of_step hstep
  exact h.ends hth (Ends.ofExcept r)

theorem Reach.ending {C : Contract S σ ν} (hs : Sound M O C) {guard : View σ γ ν → Event S → Prop}
    (hguard : ∀ {v event v'}, Moves M O C v event v' → guard v event → P.Allows event)
    (h : Reach M O guard p p') (hkept : p.Kept M O C) (hending : Ending M P p.threads) :
    Ending M P p'.threads := by
  induction h with
  | refl => exact hending
  | step hreach hstep hmay ih =>
    have hmove := (step_moves hs (Reach.kept hs hreach hkept) hstep).1
    exact step_ending ih hstep (hguard hmove hmay)

end

end Pool

end Async
