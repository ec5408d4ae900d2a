import Mathlib.Logic.Function.Basic
import Mistlib.Async.Task

/-!
# Disciplines for interleaved tasks

A contract says what a task may do given the note on it alone. That a program keeps to a
contract is proved without looking at any other task (`Keeps`). From it follows, for a pool of
such tasks, what each step can be (`Moves`): an invariant of every run is one case analysis on
`Moves` (`Reach.invariant`), with what the contract promises about the task that moved.
-/

namespace Async

variable {S : Signature} {σ Ω γ ν : Type}

/-- What a task may do, given the note on it. -/
structure Contract (S : Signature) (σ ν : Type) where
  /-- What answers may rely on in the shared state. -/
  good : σ → Prop
  /-- The jobs that may be started. -/
  fit : {κ : S.Kind} → S.Job κ → Prop
  op : ν → S.Op → Prop
  issue : ν → S.Call → Prop
  spawn : ν → Prop
  wait : ν → Prop
  /-- What holds of the note on a job that a task has started. -/
  kid : ν → Prop
  /-- What holds when a job ends. -/
  post : {κ : S.Kind} → S.Job κ → Except S.Err (S.Out κ) → ν → Prop

section Keeps

variable (M : Machine S σ Ω) (O : Observer S σ γ ν) (C : Contract S σ ν)

/-- From note `n` on, the program keeps to the contract whatever it is
answered, and ends in `Q`. -/
def Keeps {α : Type} : Prog S α → ν → (Except S.Err α → ν → Prop) → Prop
  | .pure a, n, Q => Q (.ok a) n
  | .throw e, n, Q => Q (.error e) n
  | .op o k, n, Q => C.op n o ∧ ∀ ω s g, C.good s →
      Keeps (k (M.perform o ω s).1) (O.op o (M.perform o ω s).1 s g n).2 Q
  | .await c k, n, Q => C.issue n c ∧ ∀ ω t s g a s', C.good s → M.answer c ω t s = some (a, s') →
      Keeps (k a) (O.effect c a g (O.issue c n)).2 Q
  | .spawn job k, n, Q => (C.fit job ∧ M.entry job = false) ∧ C.spawn n ∧ Keeps k (O.spawn n) Q
  | .next κ k, n, Q => C.wait n ∧ Keeps (k none) n Q ∧
      ∀ (job : S.Job κ) r m, C.fit job → C.post job r m → Keeps (k (some r)) (O.join m n) Q

variable {M O C} {α β : Type}

variable {p : Prog S α} {n : ν}

theorem Keeps.ofExcept {r : Except S.Err α} {Q : Except S.Err α → ν → Prop} (h : Q r n) :
    Keeps M O C (Prog.ofExcept r) n Q := by
  cases r with
  | ok a | error e => exact h

/-- A program with its steps handed on keeps to the contract when it does so from every
result the program may end in. -/
theorem Keeps.through {q : Prog S α → Prog S β} {Q : Except S.Err α → ν → Prop}
    {Q' : Except S.Err β → ν → Prop} (hq : Prog.Through q) (h : Keeps M O C p n Q)
    (hQ : ∀ r n', Q r n' → Keeps M O C (q (.ofExcept r)) n' Q') : Keeps M O C (q p) n Q' := by
  induction p generalizing n with
  | pure a => exact hQ (.ok a) n h
  | throw e => exact hQ (.error e) n h
  | op o k ih =>
    rw [hq.op]
    exact ⟨h.1, fun ω s g hs => ih _ (h.2 ω s g hs)⟩
  | await c k ih =>
    rw [hq.await]
    exact ⟨h.1, fun ω t s g a s' hs ha => ih _ (h.2 ω t s g a s' hs ha)⟩
  | spawn job k ih =>
    rw [hq.spawn]
    exact ⟨h.1, h.2.1, ih h.2.2⟩
  | next κ k ih =>
    rw [hq.next]
    exact ⟨h.1, ih _ h.2.1, fun job r m hf hp => ih _ (h.2.2 job r m hf hp)⟩

theorem Keeps.imp {Q Q' : Except S.Err α → ν → Prop} (h : Keeps M O C p n Q)
    (hQ : ∀ r n', Q r n' → Q' r n') : Keeps M O C p n Q' :=
  Keeps.through .id h fun r n' hr => .ofExcept (hQ r n' hr)

/-- How a result is passed through `bind`. -/
def Keeps.Then (M : Machine S σ Ω) (O : Observer S σ γ ν) (C : Contract S σ ν)
    (f : α → Prog S β) (Q : Except S.Err β → ν → Prop) : Except S.Err α → ν → Prop
  | .ok a, n => Keeps M O C (f a) n Q
  | .error e, n => Q (.error e) n

theorem Keeps.bind {f : α → Prog S β} {Q : Except S.Err β → ν → Prop}
    (h : Keeps M O C p n (Keeps.Then M O C f Q)) : Keeps M O C (p >>= f) n Q :=
  Keeps.through (.bind f) h fun r n' hr => by
    cases r with
    | ok a | error e => exact hr

theorem Keeps.bind_assoc {δ : Type} {f : α → Prog S β} {f' : β → Prog S δ}
    {Q : Except S.Err δ → ν → Prop} (h : Keeps M O C ((p >>= f) >>= f') n Q) :
    Keeps M O C (p >>= fun a => f a >>= f') n Q := by
  show Keeps M O C (p.bind fun a => (f a).bind f') n Q
  rw [← Prog.bind_assoc]
  exact h

theorem Keeps.attempt {Q : Except S.Err (Except S.Err α) → ν → Prop}
    (h : Keeps M O C p n fun r n' => Q (.ok r) n') : Keeps M O C p.attempt n Q :=
  Keeps.through .attempt h fun r n' hr => by
    cases r with
    | ok a | error e => exact hr

theorem Keeps.perform {o : S.Op} {Q : Except S.Err (S.Res o) → ν → Prop} (ho : C.op n o)
    (h : ∀ ω s g, C.good s → Q (.ok (M.perform o ω s).1) (O.op o (M.perform o ω s).1 s g n).2) :
    Keeps M O C (Prog.perform o) n Q :=
  ⟨ho, h⟩

theorem Keeps.call {c : S.Call} {Q : Except S.Err (S.Ans c) → ν → Prop} (hc : C.issue n c)
    (h : ∀ ω t s g a s', C.good s → M.answer c ω t s = some (a, s') →
      Q (.ok a) (O.effect c a g (O.issue c n)).2) :
    Keeps M O C (Prog.call c) n Q :=
  ⟨hc, h⟩

end Keeps

/-- What a contract has to be for a pool of tasks to keep it. -/
structure Sound (M : Machine S σ Ω) (O : Observer S σ γ ν) (C : Contract S σ ν) : Prop where
  op : ∀ {n o ω s}, C.good s → C.op n o → C.good (M.perform o ω s).2
  answer : ∀ {n c ω t s a s'}, C.good s → C.issue n c → M.answer c ω t s = some (a, s') → C.good s'
  release : ∀ {i s}, C.good s → C.good (M.release i s)
  renew : ∀ {ω s}, C.good s → C.good (M.renew ω s)
  entry : ∀ {κ} {job : S.Job κ}, M.entry job = true → C.fit job
  code : ∀ {κ} {job : S.Job κ}, C.fit job → Keeps M O C (M.code job) (O.start job) (C.post job)
  kid_start : ∀ {κ} {job : S.Job κ}, M.entry job = false → C.kid (O.start job)
  kid_op : ∀ {o r s g n}, C.kid n → C.kid (O.op o r s g n).2
  kid_issue : ∀ {c n}, C.kid n → C.kid (O.issue c n)
  kid_effect : ∀ {c a g n}, C.kid n → C.kid (O.effect c a g n).2
  kid_join : ∀ {m n}, C.kid n → C.kid (O.join m n)

structure View (σ γ ν : Type) where
  world : σ
  past : γ
  note : Tid → Option ν
  running : Option Tid

def View.write (v : View σ γ ν) (t : Tid) (n : ν) : View σ γ ν :=
  { v with note := Function.update v.note t (some n) }

@[simp] theorem View.write_world (v : View σ γ ν) (t : Tid) (n : ν) :
    (v.write t n).world = v.world := rfl

theorem View.write_note (v : View σ γ ν) (t i : Tid) (n : ν) :
    (v.write t n).note i = if i = t then some n else v.note i :=
  Function.update_apply v.note t (some n) i

@[simp] theorem View.write_note_self (v : View σ γ ν) (t : Tid) (n : ν) :
    (v.write t n).note t = some n := by
  rw [View.write_note, if_pos rfl]

variable {v : View σ γ ν}

theorem View.write_same {t : Tid} {n : ν} (h : v.note t = some n) : v.write t n = v := by
  have hnote : Function.update v.note t (some n) = v.note :=
    Function.update_eq_self_iff.mpr h.symm
  rw [View.write, hnote]

def View.drop (v : View σ γ ν) (gone : List Tid) : View σ γ ν :=
  { v with note := fun i => if i ∈ gone then none else v.note i }

variable {m : ν}

theorem View.note_of_write {t i : Tid} {n : ν} (h : (v.write t n).note i = some m) :
    (i = t ∧ m = n) ∨ (i ≠ t ∧ v.note i = some m) := by
  rw [View.write_note] at h
  by_cases hi : i = t
  · rw [if_pos hi] at h
    exact Or.inl ⟨hi, (Option.some.inj h).symm⟩
  · rw [if_neg hi] at h
    exact Or.inr ⟨hi, h⟩

theorem View.note_of_drop {gone : List Tid} {i : Tid} (h : (v.drop gone).note i = some m) :
    i ∉ gone ∧ v.note i = some m := by
  simp only [View.drop] at h
  split at h
  · cases h
  · exact ⟨‹_›, h⟩

theorem View.exists_write {w : σ} {g : γ} {r : Option Tid} {t : Tid} {P : ν → Prop}
    (h : ∃ i k, v.note i = some k ∧ P k) (hkeep : ∀ n, v.note t = some n → P n → P m) :
    ∃ i k, (View.write ⟨w, g, v.note, r⟩ t m).note i = some k ∧ P k := by
  obtain ⟨i, k, hi, hP⟩ := h
  by_cases hit : i = t
  · subst hit
    exact ⟨i, m, View.write_note_self _ _ _, hkeep k hi hP⟩
  · refine ⟨i, k, ?_, hP⟩
    rw [View.write_note, if_neg hit]
    exact hi

def Pool.view (p : Pool S σ γ ν) : View σ γ ν where
  world := p.world
  past := p.past
  note t := (p.threads.get t).map (·.note)
  running := p.running

/-- The steps of a pool whose tasks keep to the contract. -/
inductive Moves (M : Machine S σ Ω) (O : Observer S σ γ ν) (C : Contract S σ ν) :
    View σ γ ν → Event S → View σ γ ν → Prop where
  | start {v : View σ γ ν} {t : Tid} {κ : S.Kind} {job : S.Job κ} :
      v.running = none → v.note t = none → M.entry job = true → C.fit job →
      Moves M O C v (.started t job) (v.write t (O.start job))
  | resume {v : View σ γ ν} {t : Tid} {n : ν} :
      v.running = none → v.note t = some n →
      Moves M O C v (.resumed t) { v with running := some t }
  | op {v : View σ γ ν} {t : Tid} {n : ν} {o : S.Op} {ω : Ω} :
      v.running = some t → v.note t = some n → C.good v.world → C.op n o →
      Moves M O C v (.did t o (M.perform o ω v.world).1)
        (View.write { v with
            world := (M.perform o ω v.world).2
            past := (O.op o (M.perform o ω v.world).1 v.world v.past n).1 } t
          (O.op o (M.perform o ω v.world).1 v.world v.past n).2)
  | issue {v : View σ γ ν} {t : Tid} {n : ν} {c : S.Call} :
      v.running = some t → v.note t = some n → C.issue n c →
      Moves M O C v (.issued t c) (View.write { v with running := none } t (O.issue c n))
  | spawn {v : View σ γ ν} {t i : Tid} {n : ν} {κ : S.Kind} {job : S.Job κ} :
      v.running = some t → v.note t = some n → v.note i = none → C.fit job → C.spawn n →
      Moves M O C v (.spawned t i) ((v.write t (O.spawn n)).write i (O.start job))
  | park {v : View σ γ ν} {t : Tid} {n : ν} :
      v.running = some t → v.note t = some n → C.wait n →
      Moves M O C v (.parked t) { v with running := none }
  | ended {v : View σ γ ν} {t : Tid} {n : ν} {κ : S.Kind} {job : S.Job κ}
      {r : Except S.Err (S.Out κ)} :
      v.running = some t → v.note t = some n → C.post job r n →
      Moves M O C v (.ended t) { v with running := none }
  | answer {v : View σ γ ν} {t : Tid} {n : ν} {c : S.Call} {ω : Ω} {a : S.Ans c} {s' : σ} :
      v.running = none → v.note t = some (O.issue c n) → C.good v.world → C.issue n c →
      M.answer c ω t v.world = some (a, s') →
      Moves M O C v (.answered t c a)
        (View.write { v with world := s', past := (O.effect c a v.past (O.issue c n)).1 } t
          (O.effect c a v.past (O.issue c n)).2)
  | join {v : View σ γ ν} {t i : Tid} {n m : ν} {κ : S.Kind} {job : S.Job κ}
      {r : Except S.Err (S.Out κ)} :
      v.running = none → v.note t = some n → C.wait n → v.note i = some m → i ≠ t →
      C.fit job → C.post job r m →
      Moves M O C v (.joined t (some i)) ((v.drop [i]).write t (O.join m n))
  | leave {v : View σ γ ν} {t : Tid} : v.running = none → Moves M O C v (.joined t none) v
  | finish {v : View σ γ ν} {t : Tid} {n : ν} {κ : S.Kind} {job : S.Job κ}
      {r : Except S.Err (S.Out κ)} {dropped : List Tid} :
      v.running = none → v.note t = some n → M.entry job = true → C.post job r n →
      (∀ i ∈ dropped, ∃ m, v.note i = some m ∧ C.kid m) →
      Moves M O C v (.finished t job r dropped)
        { View.drop v (t :: dropped) with
          world := dropped.foldl (fun s i => M.release i s) v.world
          past := O.finish job r v.world v.past }
  | renew {v : View σ γ ν} {ω : Ω} :
      v.running = none → (∀ t, v.note t = none) →
      Moves M O C v .renewed { v with world := M.renew ω v.world }

theorem Moves.of_issued {M : Machine S σ Ω} {O : Observer S σ γ ν} {C : Contract S σ ν}
    {v' : View σ γ ν} {t : Tid} {c : S.Call} (h : Moves M O C v (.issued t c) v') :
    ∃ n, v.note t = some n ∧ C.issue n c := by
  cases h with
  | issue hrun hnote hissue => exact ⟨_, hnote, hissue⟩

section Pool

variable {M : Machine S σ Ω} {O : Observer S σ γ ν} {C : Contract S σ ν}

/-- A task of job `job` keeps to the contract from where it stands. -/
def Stage.Kept (M : Machine S σ Ω) (O : Observer S σ γ ν) (C : Contract S σ ν) {κ : S.Kind}
    (job : S.Job κ) (n : ν) : Stage S (S.Out κ) → Prop
  | .ready p => Keeps M O C p n (C.post job)
  | .issued c k => ∃ n₀, C.issue n₀ c ∧ n = O.issue c n₀ ∧
      ∀ ω t s g a s', C.good s → M.answer c ω t s = some (a, s') →
        Keeps M O C (k a) (O.effect c a g (O.issue c n₀)).2 (C.post job)
  | .waiting κ' k => C.wait n ∧ Keeps M O C (k none) n (C.post job) ∧
      ∀ (job' : S.Job κ') r m, C.fit job' → C.post job' r m →
        Keeps M O C (k (some r)) (O.join m n) (C.post job)
  | .ended r => C.post job r n

structure Thread.Kept (M : Machine S σ Ω) (O : Observer S σ γ ν) (C : Contract S σ ν)
    (th : Thread S ν) : Prop where
  fit : C.fit th.job
  entry : th.parent = none → M.entry th.job = true
  kid : th.parent ≠ none → C.kid th.note
  stage : th.stage.Kept M O C th.job th.note

structure Pool.Kept (M : Machine S σ Ω) (O : Observer S σ γ ν) (C : Contract S σ ν)
    (p : Pool S σ γ ν) : Prop where
  good : C.good p.world
  thread : ∀ {t th}, p.threads.get t = some th → th.Kept M O C

namespace Pool

variable {p p' : Pool S σ γ ν} {t : Tid} {th : Thread S ν} {event : Event S}

theorem view_note (h : p.threads.get t = some th) : p.view.note t = some th.note := by
  simp [view, h]

theorem note_of_done (h : p.threads.size = 0) (t : Tid) : p.view.note t = none := by
  cases hget : p.threads.get t with
  | none => simp [view, hget]
  | some th =>
    have hpos := Table.size_of_get hget
    omega

theorem of_all {test : Tid → ν → Bool} (h : p.all test = true) {n : ν}
    (hn : p.view.note t = some n) : test t n = true := by
  obtain ⟨th, hth, rfl⟩ := Option.map_eq_some_iff.mp hn
  exact List.all_eq_true.mp h _ (Table.get_eq_some_iff.mp hth)

theorem view_put (p : Pool S σ γ ν) (t : Tid) (th : Thread S ν) :
    (p.put t th).view = p.view.write t th.note := by
  simp only [view, put, View.write, View.mk.injEq, true_and]
  refine ⟨?_, trivial⟩
  funext i
  rw [Table.get_insert, Function.update_apply]
  by_cases hi : i = t
  · simp [hi]
  · simp [hi]

theorem Kept.put (h : p.Kept M O C) (hth : th.Kept M O C) : (p.put t th).Kept M O C := by
  refine ⟨h.good, ?_⟩
  intro i th' hi
  rw [Pool.put, Table.get_insert] at hi
  by_cases hit : i = t
  · rw [if_pos hit] at hi
    cases hi
    exact hth
  · rw [if_neg hit] at hi
    exact h.thread hi

theorem Kept.withWorld (h : p.Kept M O C) {world : σ} (hgood : C.good world) (past : γ)
    (running : Option Tid) : Kept M O C { p with world, past, running } :=
  ⟨hgood, h.thread⟩

theorem Kept.idle (h : p.Kept M O C) : Kept M O C { p with running := none } :=
  ⟨h.good, h.thread⟩

/-- A move of the running task is a move of the contract. -/
theorem move_moves (hs : Sound M O C) (hk : p.Kept M O C) (hrun : p.running = some t)
    (hth : p.threads.get t = some th) {ω : Ω} {fresh : Tid}
    (h : p.move M O t th ω fresh = some (event, p')) :
    Moves M O C p.view event p'.view ∧ p'.Kept M O C := by
  obtain ⟨parent, kind, job, stage, note⟩ := th
  have hnote := view_note hth
  -- A task that only stops keeps its note.
  have hstop : View.write { p.view with running := none } t note =
      { p.view with running := none } := View.write_same hnote
  obtain ⟨hfit, hentry, hkid, hstage⟩ := hk.thread hth
  cases stage with
  | issued c k | waiting κ k | ended r => cases h
  | ready prog =>
    cases prog with
    | op o k =>
      cases h
      have hgood := hs.op (ω := ω) hk.good hstage.1
      refine ⟨?_, (hk.withWorld hgood _ _).put
        ⟨hfit, hentry, fun hp => hs.kid_op (hkid hp), hstage.2 _ _ _ hk.good⟩⟩
      rw [view_put]
      exact .op hrun hnote hk.good hstage.1
    | await c k =>
      cases h
      refine ⟨?_, hk.idle.put
        ⟨hfit, hentry, fun hp => hs.kid_issue (hkid hp), note, hstage.1, rfl, hstage.2⟩⟩
      rw [view_put]
      exact .issue hrun hnote hstage.1
    | spawn job' k =>
      simp only [move] at h
      split at h
      · cases h
      · rename_i hfree
        cases h
        have hnone : p.threads.get fresh = none := by
          simpa [Table.contains] using fun hc => hfree (Or.inl hc)
        have hparent : parent = none := by
          simpa using fun hc => hfree (Or.inr hc)
        have hself : Thread.Kept M O C ⟨parent, kind, job, .ready k, O.spawn note⟩ :=
          ⟨hfit, hentry, fun hp => absurd hparent hp, hstage.2.2⟩
        have hnew : Thread.Kept M O C ⟨some t, _, job', .ready (M.code job'), O.start job'⟩ :=
          ⟨hstage.1.1, (by simp), fun _ => hs.kid_start hstage.1.2, hs.code hstage.1.1⟩
        refine ⟨?_, (hk.put hself).put hnew⟩
        rw [begin, view_put, view_put]
        exact .spawn hrun hnote (by simp [view, hnone]) hstage.1.1 hstage.2.1
    | next κ k =>
      cases h
      refine ⟨?_, hk.idle.put ⟨hfit, hentry, hkid, hstage⟩⟩
      rw [view_put]
      exact hstop ▸ Moves.park hrun hnote hstage.1
    | pure a | throw e =>
      cases h
      refine ⟨?_, hk.idle.put ⟨hfit, hentry, hkid, hstage⟩⟩
      rw [view_put]
      exact hstop ▸ Moves.ended hrun hnote hstage

/-- An operation that takes effect is a move of the contract. -/
theorem effect_moves (hs : Sound M O C) (hk : p.Kept M O C) (hrun : p.running = none)
    (hth : p.threads.get t = some th) {ω : Ω} (h : p.effect M O t th ω = some (event, p')) :
    Moves M O C p.view event p'.view ∧ p'.Kept M O C := by
  obtain ⟨parent, kind, job, stage, note⟩ := th
  have hnote := view_note hth
  obtain ⟨hfit, hentry, hkid, hstage⟩ := hk.thread hth
  cases stage with
  | ready prog | waiting κ k | ended r => cases h
  | issued c k =>
    obtain ⟨n, hissue, rfl, hkeeps⟩ := hstage
    simp only [effect] at h
    split at h
    · rename_i a world hans
      cases h
      have hgood := hs.answer hk.good hissue hans
      refine ⟨?_, (hk.withWorld hgood _ _).put
        ⟨hfit, hentry, fun hp => hs.kid_effect (hkid hp), hkeeps _ _ _ _ _ _ hk.good hans⟩⟩
      rw [view_put]
      exact .answer hrun hnote hk.good hissue hans
    · cases h

theorem collect_eq [DecidableEq S.Kind] {κ : S.Kind} {r : Except S.Err (S.Out κ)}
    (h : collect κ th = some r) (hth : th.Kept M O C) :
    ∃ job : S.Job κ, C.fit job ∧ C.post job r th.note := by
  obtain ⟨parent, kind, job, stage, note⟩ := th
  simp only [collect] at h
  split at h
  · rename_i hkind
    subst hkind
    obtain ⟨hfit, _, _, hstage⟩ := hth
    cases stage with
    | ended r' =>
      cases h
      exact ⟨job, hfit, hstage⟩
    | ready p | issued c k | waiting κ k => cases h
  · cases h

theorem view_erase_put (p : Pool S σ γ ν) (i t : Tid) (th : Thread S ν) :
    (Pool.put { p with threads := p.threads.erase i } t th).view =
      (p.view.drop [i]).write t th.note := by
  rw [view_put]
  congr 1
  simp only [view, View.drop, View.mk.injEq, true_and, and_true, List.mem_singleton]
  funext j
  rw [Table.get_erase]
  split
  · rfl
  · rfl

theorem Kept.erase (h : p.Kept M O C) (i : Tid) :
    Kept M O C { p with threads := p.threads.erase i } := by
  refine ⟨h.good, ?_⟩
  intro t th hth
  rw [Table.get_erase] at hth
  split at hth
  · cases hth
  · exact h.thread hth

/-- A task that wakes is a move of the contract. -/
theorem wake_moves [DecidableEq S.Kind] (hs : Sound M O C) (hk : p.Kept M O C) (hrun : p.running = none)
    (hth : p.threads.get t = some th) {kid : Option Tid}
    (h : p.wake O t th kid = some (event, p')) :
    Moves M O C p.view event p'.view ∧ p'.Kept M O C := by
  obtain ⟨parent, kind, job, stage, note⟩ := th
  have hnote := view_note hth
  obtain ⟨hfit, hentry, hown, hstage⟩ := hk.thread hth
  cases stage with
  | ready prog | issued c k | ended r => cases kid <;> cases h
  | waiting κ k =>
    obtain ⟨hwait, hnone, hsome⟩ := hstage
    cases kid with
    | none =>
      simp only [wake] at h
      split at h
      · cases h
        refine ⟨?_, hk.put ⟨hfit, hentry, hown, hnone⟩⟩
        rw [view_put, View.write_same hnote]
        exact .leave hrun
      · cases h
    | some i =>
      simp only [wake] at h
      split at h
      · rename_i kid hkid
        split at h
        · rename_i r hr
          split at h
          · rename_i hparent
            cases h
            obtain ⟨job', hfit', hpost⟩ := collect_eq hr (hk.thread hkid)
            have hne : i ≠ t := by
              intro hit
              subst hit
              rw [hth] at hkid
              cases hkid
              simp [collect] at hr
            refine ⟨?_, (hk.erase i).put
              ⟨hfit, hentry, fun hp => hs.kid_join (hown hp), hsome job' r _ hfit' hpost⟩⟩
            rw [view_erase_put]
            exact .join hrun hnote hwait (view_note hkid) hne hfit' hpost
          · cases h
        · cases h
      · cases h

theorem mem_kids {i : Tid} : i ∈ p.kids t ↔ ∃ th, p.threads.get i = some th ∧ th.parent = some t := by
  simp only [kids, List.mem_map, List.mem_filter, decide_eq_true_eq]
  constructor
  · rintro ⟨⟨j, th⟩, ⟨hmem, hparent⟩, rfl⟩
    exact ⟨th, Table.get_eq_some_iff.mpr hmem, hparent⟩
  · rintro ⟨th, hget, hparent⟩
    exact ⟨⟨i, th⟩, ⟨Table.get_eq_some_iff.mp hget, hparent⟩, rfl⟩

/-- A task that ends is a move of the contract. -/
theorem finish_moves (hs : Sound M O C) (hk : p.Kept M O C) (hrun : p.running = none)
    (hth : p.threads.get t = some th) (h : p.finish M O t th = some (event, p')) :
    Moves M O C p.view event p'.view ∧ p'.Kept M O C := by
  obtain ⟨parent, kind, job, stage, note⟩ := th
  have hnote := view_note hth
  obtain ⟨hfit, hentry, _, hstage⟩ := hk.thread hth
  cases stage with
  | ready prog | issued c k | waiting κ k => cases parent <;> cases h
  | ended r =>
  cases parent with
  | some i => cases h
  | none =>
    cases h
    have hgood : ∀ (gone : List Tid) (s : σ), C.good s →
        C.good (gone.foldl (fun s i => M.release i s) s) := by
      intro gone
      induction gone with
      | nil => exact fun s h => h
      | cons i rest ih => exact fun s h => ih _ (hs.release h)
    constructor
    · have hview : (fun i => ((p.threads.retain fun i th =>
          decide (i ≠ t) && decide (th.parent ≠ some t)).get i).map (·.note)) =
          fun i => if i ∈ t :: p.kids t then none else p.view.note i := by
        funext i
        rw [Table.get_retain]
        by_cases hit : i = t
        · simp [hit, Option.filter]
          cases p.threads.get t <;> rfl
        · cases hget : p.threads.get i with
          | none => simp [view, hget]
          | some th =>
            have hmem : i ∈ p.kids t ↔ th.parent = some t := by
              rw [mem_kids]
              simp [hget]
            by_cases hp : th.parent = some t
            · simp [hit, hmem, hp, Option.filter]
            · simp [hit, hmem, hp, Option.filter, view, hget]
      have hkids : ∀ i ∈ p.kids t, ∃ m, p.view.note i = some m ∧ C.kid m := by
        intro i hi
        obtain ⟨th, hget, hparent⟩ := mem_kids.mp hi
        exact ⟨th.note, view_note hget, (hk.thread hget).kid (by rw [hparent]; simp)⟩
      have hmoves : Moves M O C p.view (.finished t job r (p.kids t)) _ :=
        .finish hrun hnote (hentry rfl) hstage hkids
      simp only [View.drop, ← hview] at hmoves
      exact hmoves
    · refine ⟨hgood _ _ hk.good, ?_⟩
      intro i th hi
      rw [Table.get_retain, Option.filter_eq_some_iff] at hi
      exact hk.thread hi.1

/-- What the scheduler does is a move of the contract. -/
theorem schedule_moves [DecidableEq S.Kind] (hs : Sound M O C) (hk : p.Kept M O C)
    (hrun : p.running = none) {choice : Choice S Ω}
    (h : p.schedule M O choice = some (event, p')) :
    Moves M O C p.view event p'.view ∧ p'.Kept M O C := by
  cases choice with
  | move ω fresh => cases h
  | start t job =>
    simp only [schedule] at h
    split at h
    · cases h
    · rename_i hfree
      cases h
      obtain ⟨hnone, hentry⟩ := not_or.mp hfree
      have hnone : p.threads.get t = none := by simpa [Table.contains] using hnone
      have hentry : M.entry job = true := by simpa using hentry
      refine ⟨?_, hk.put
        ⟨hs.entry hentry, fun _ => hentry, fun hp => absurd rfl hp, hs.code (hs.entry hentry)⟩⟩
      rw [begin, view_put]
      exact .start hrun (by simp [view, hnone]) hentry (hs.entry hentry)
  | resume t =>
    simp only [schedule] at h
    split at h
    · rename_i hth
      cases h
      exact ⟨.resume hrun (view_note hth), hk.good, hk.thread⟩
    · cases h
  | effect t ω =>
    obtain ⟨th, hth, heffect⟩ := Option.bind_eq_some_iff.mp h
    exact effect_moves hs hk hrun hth heffect
  | wake t kid =>
    obtain ⟨th, hth, hwake⟩ := Option.bind_eq_some_iff.mp h
    exact wake_moves hs hk hrun hth hwake
  | finish t =>
    obtain ⟨th, hth, hfinish⟩ := Option.bind_eq_some_iff.mp h
    exact finish_moves hs hk hrun hth hfinish
  | renew ω =>
    simp only [schedule] at h
    split at h
    · rename_i hsize
      cases h
      exact ⟨.renew hrun (note_of_done hsize), hs.renew hk.good, hk.thread⟩
    · cases h

/-- Every step of a pool that keeps to the contract is one of `Moves`, and
the pool keeps to the contract after it. -/
theorem step_moves [DecidableEq S.Kind] (hs : Sound M O C) (hk : p.Kept M O C)
    {choice : Choice S Ω} (h : p.step M O choice = some (event, p')) :
    Moves M O C p.view event p'.view ∧ p'.Kept M O C := by
  simp only [step] at h
  split at h
  · rename_i hrun
    obtain ⟨th, hth, hmove⟩ := Option.bind_eq_some_iff.mp h
    exact move_moves hs hk hrun hth hmove
  · cases h
  · exact schedule_moves hs hk ‹_› h

theorem Kept.init {world : σ} (h : C.good world) (past : γ) :
    Kept M O C (Pool.init world past : Pool S σ γ ν) := by
  refine ⟨h, ?_⟩
  intro t th hth
  simp [Pool.init] at hth

end Pool

/-- The pools reached by steps that all meet a condition. -/
inductive Reach [DecidableEq S.Kind] (M : Machine S σ Ω) (O : Observer S σ γ ν)
    (guard : View σ γ ν → Event S → Prop) (p : Pool S σ γ ν) : Pool S σ γ ν → Prop where
  | refl : Reach M O guard p p
  | step {q q' : Pool S σ γ ν} {choice : Choice S Ω} {event : Event S} :
      Reach M O guard p q → q.step M O choice = some (event, q') → guard q.view event →
      Reach M O guard p q'

namespace Reach

variable [DecidableEq S.Kind] {guard : View σ γ ν → Event S → Prop} {p q : Pool S σ γ ν}

/-- Whatever the tasks do, every reachable pool keeps the contract. -/
theorem kept (hs : Sound M O C) (h : Reach M O guard p q) (hp : p.Kept M O C) : q.Kept M O C := by
  induction h with
  | refl => exact hp
  | step _ hstep _ ih => exact (Pool.step_moves hs ih hstep).2

theorem invariant (hs : Sound M O C) {I : View σ γ ν → Prop}
    (hI : ∀ {v event v'}, Moves M O C v event v' → guard v event → I v → I v')
    (h : Reach M O guard p q) (hp : p.Kept M O C) (hstart : I p.view) : I q.view := by
  induction h with
  | refl => exact hstart
  | step hreach hstep hguard ih =>
    exact hI (Pool.step_moves hs (kept hs hreach hp) hstep).1 hguard ih

theorem trans {r : Pool S σ γ ν} (h : Reach M O guard p q) (h' : Reach M O guard q r) :
    Reach M O guard p r := by
  induction h' with
  | refl => exact h
  | step _ hstep hguard ih => exact .step ih hstep hguard

/-- An executed schedule is a run, when its check implies the guard. -/
theorem of_exec {check : Pool S σ γ ν → Event S → Bool} {schedule : List (Choice S Ω)}
    (h : p.exec M O check schedule = some q)
    (hcheck : ∀ {p event}, check p event = true → guard p.view event) : Reach M O guard p q := by
  induction schedule generalizing p with
  | nil =>
    cases h
    exact .refl
  | cons choice rest ih =>
    simp only [Pool.exec] at h
    split at h
    · rename_i event p' hstep
      split at h
      · exact (Reach.refl.step hstep (hcheck ‹_›)).trans (ih h)
      · cases h
    · cases h

end Reach

end Pool

end Async
