import Mistlib.Async.Ends

/-!
# Tasks that run alone

While a task runs alone nothing moves beside it but the jobs it has started. An outline of its
code asserts, for every place where it awaits, what its jobs keep as they go on (`Triple`). From
outlines of every call that may be made follows what holds when each returns, in every run in
which the calls are made one at a time (`Plan.returned`), and that no other call is issued
(`Plan.asked`).
-/

namespace Async

variable {S : Signature} {σ Ω γ ν : Type}

/-- A job under way, with what is left of its code. -/
structure Hand (S : Signature) where
  kind : S.Kind
  job : S.Job kind
  prog : Prog S (S.Out kind)

/-- What a task that runs alone finds around it: the shared state, the jobs it
has started and not collected, and the note on it. -/
structure Scene (S : Signature) (σ ν : Type) where
  world : σ
  crew : Multiset (Hand S)
  note : ν

structure Terms (S : Signature) (ν : Type) where
  /-- What an operation may return to a task with a given note. -/
  op : ν → (o : S.Op) → S.Res o → Prop
  /-- What a call may be answered. -/
  answer : (c : S.Call) → S.Ans c → Prop
  asks : S.Call → Prop

section Outlines

variable (M : Machine S σ Ω) (O : Observer S σ γ ν) (T : Terms S ν)

def Hand.fresh {κ : S.Kind} (job : S.Job κ) : Hand S := ⟨κ, job, M.code job⟩

/-- A job goes on by one step. It has no jobs of its own to wait for. -/
inductive Hand.Goes : σ → Hand S → σ → Hand S → Prop
  | op {κ : S.Kind} {job : S.Job κ} {o : S.Op} {k : S.Res o → Prog S (S.Out κ)} {n : ν} {ω : Ω}
      {w : σ} : T.op n o (M.perform o ω w).1 →
      Goes w ⟨κ, job, .op o k⟩ (M.perform o ω w).2 ⟨κ, job, k (M.perform o ω w).1⟩
  | answer {κ : S.Kind} {job : S.Job κ} {c : S.Call} {k : S.Ans c → Prog S (S.Out κ)} {ω : Ω}
      {t : Tid} {w w' : σ} {a : S.Ans c} : M.answer c ω t w = some (a, w') → T.answer c a →
      Goes w ⟨κ, job, .await c k⟩ w' ⟨κ, job, k a⟩
  | none {κ κ' : S.Kind} {job : S.Job κ}
      {k : Option (Except S.Err (S.Out κ')) → Prog S (S.Out κ)} {w : σ} :
      Goes w ⟨κ, job, .next κ' k⟩ w ⟨κ, job, k Option.none⟩

/-- An assertion that the jobs of the task keep as they go on. They issue only
calls that the terms know of. -/
structure Stable (A : Scene S σ ν → Prop) : Prop where
  goes : ∀ {w w' : σ} {hand hand' : Hand S} {rest : Multiset (Hand S)} {n : ν},
    A ⟨w, hand ::ₘ rest, n⟩ → hand.Goes M T w w' hand' → A ⟨w', hand' ::ₘ rest, n⟩
  asks : ∀ {w : σ} {κ : S.Kind} {job : S.Job κ} {c : S.Call} {k : S.Ans c → Prog S (S.Out κ)}
    {rest : Multiset (Hand S)} {n : ν}, A ⟨w, ⟨κ, job, .await c k⟩ ::ₘ rest, n⟩ → T.asks c

/-- What an operation does to an assertion. -/
def Performs (A : Scene S σ ν → Prop) (o : S.Op) (C : S.Res o → Scene S σ ν → Prop) : Prop :=
  ∀ {w : σ} {crew : Multiset (Hand S)} {n : ν} {ω : Ω} {g : γ}, A ⟨w, crew, n⟩ →
    T.op n o (M.perform o ω w).1 → C (M.perform o ω w).1
      ⟨(M.perform o ω w).2, crew, (O.op o (M.perform o ω w).1 w g n).2⟩

/-- What the answer to a call does to the assertion that held while the task
waited for it. -/
def Answered (I : Scene S σ ν → Prop) (c : S.Call) (C : S.Ans c → Scene S σ ν → Prop) : Prop :=
  ∀ {w w' : σ} {crew : Multiset (Hand S)} {n : ν} {ω : Ω} {t : Tid} {g : γ} {a : S.Ans c},
    I ⟨w, crew, n⟩ → M.answer c ω t w = some (a, w') → T.answer c a →
    C a ⟨w', crew, (O.effect c a g n).2⟩

/-- What collecting a job, or finding none left, does to the assertion that held
while the task waited. -/
structure Collects (I : Scene S σ ν → Prop) (κ : S.Kind)
    (C : Option (Except S.Err (S.Out κ)) → Scene S σ ν → Prop) : Prop where
  some : ∀ {w : σ} {rest : Multiset (Hand S)} {m n : ν} {job : S.Job κ}
    {r : Except S.Err (S.Out κ)},
    I ⟨w, ⟨κ, job, .ofExcept r⟩ ::ₘ rest, n⟩ → C (.some r) ⟨w, rest, O.join m n⟩
  none : ∀ {w : σ} {n : ν}, I ⟨w, 0, n⟩ → C .none ⟨w, 0, n⟩

/-- From `A` on, a task that runs alone returns only in `B` and fails only in
`E`. -/
def Triple {α : Type} (B : α → Scene S σ ν → Prop) (E : S.Err → Scene S σ ν → Prop) :
    (Scene S σ ν → Prop) → Prog S α → Prop
  | A, .pure a => ∀ x, A x → B a x
  | A, .throw e => ∀ x, A x → E e x
  | A, .op o k => ∃ C : S.Res o → Scene S σ ν → Prop, Performs M O T A o C ∧
      ∀ r, Triple B E (C r) (k r)
  | A, .await c k => ∃ (I : Scene S σ ν → Prop) (C : S.Ans c → Scene S σ ν → Prop),
      (Stable M T I ∧ ∀ {w crew n}, A ⟨w, crew, n⟩ → T.asks c ∧ I ⟨w, crew, O.issue c n⟩) ∧
      (∀ a, Stable M T (C a)) ∧ Answered M O T I c C ∧ ∀ a, Triple B E (C a) (k a)
  | A, .spawn job k => ∃ C : Scene S σ ν → Prop,
      (∀ {w crew n}, A ⟨w, crew, n⟩ → C ⟨w, .fresh M job ::ₘ crew, O.spawn n⟩) ∧ Triple B E C k
  | A, .next κ k => ∃ (I : Scene S σ ν → Prop)
      (C : Option (Except S.Err (S.Out κ)) → Scene S σ ν → Prop),
      (Stable M T I ∧ ∀ {x}, A x → I x) ∧
      (∀ r, Stable M T (C r)) ∧ Collects O I κ C ∧ ∀ r, Triple B E (C r) (k r)

end Outlines

section Hands

variable {M : Machine S σ Ω} {T : Terms S ν} {κ : S.Kind} {job : S.Job κ} {w w' : σ}
  {hand : Hand S}

theorem Hand.Goes.of_op {o : S.Op} {k : S.Res o → Prog S (S.Out κ)}
    (h : Hand.Goes M T w ⟨κ, job, .op o k⟩ w' hand) :
    ∃ n ω, T.op n o (M.perform o ω w).1 ∧ w' = (M.perform o ω w).2 ∧
      hand = ⟨κ, job, k (M.perform o ω w).1⟩ := by
  cases h with
  | op hterms => exact ⟨_, _, hterms, rfl, rfl⟩

theorem Hand.Goes.of_await {c : S.Call} {k : S.Ans c → Prog S (S.Out κ)}
    (h : Hand.Goes M T w ⟨κ, job, .await c k⟩ w' hand) :
    ∃ ω t a, M.answer c ω t w = some (a, w') ∧ T.answer c a ∧ hand = ⟨κ, job, k a⟩ := by
  cases h with
  | answer hanswer hterms => exact ⟨_, _, _, hanswer, hterms, rfl⟩

theorem Hand.not_goes_pure {a : S.Out κ} : ¬ Hand.Goes M T w ⟨κ, job, .pure a⟩ w' hand :=
  fun h => by cases h

theorem Hand.not_goes_throw {e : S.Err} : ¬ Hand.Goes M T w ⟨κ, job, .throw e⟩ w' hand :=
  fun h => by cases h

end Hands

section Rules

variable {M : Machine S σ Ω} {O : Observer S σ γ ν} {T : Terms S ν} {α β : Type}
  {A A' : Scene S σ ν → Prop} {B : α → Scene S σ ν → Prop} {E : S.Err → Scene S σ ν → Prop}

variable {p : Prog S α}

theorem Triple.pre (h : Triple M O T B E A p) (hA : ∀ {x}, A' x → A x) : Triple M O T B E A' p := by
  cases p with
  | pure a | throw e => exact fun x hx => h x (hA hx)
  | op o k =>
    obtain ⟨C, hperforms, hrest⟩ := h
    exact ⟨C, fun hx => hperforms (hA hx), hrest⟩
  | await c k =>
    obtain ⟨I, C, ⟨hstable, hissue⟩, hrest⟩ := h
    exact ⟨I, C, ⟨hstable, fun hx => hissue (hA hx)⟩, hrest⟩
  | spawn job k =>
    obtain ⟨C, hspawn, hrest⟩ := h
    exact ⟨C, fun hx => hspawn (hA hx), hrest⟩
  | next κ k =>
    obtain ⟨I, C, ⟨hstable, hwait⟩, hrest⟩ := h
    exact ⟨I, C, ⟨hstable, fun hx => hwait (hA hx)⟩, hrest⟩

theorem Triple.through {q : Prog S α → Prog S β} {B' : β → Scene S σ ν → Prop}
    {E' : S.Err → Scene S σ ν → Prop} (hq : Prog.Through q) (h : Triple M O T B E A p)
    (hB : ∀ a, Triple M O T B' E' (B a) (q (.pure a)))
    (hE : ∀ e, Triple M O T B' E' (E e) (q (.throw e))) : Triple M O T B' E' A (q p) := by
  induction p generalizing A with
  | pure a => exact (hB a).pre fun hx => h _ hx
  | throw e => exact (hE e).pre fun hx => h _ hx
  | op o k ih =>
    obtain ⟨C, hperforms, hk⟩ := h
    rw [hq.op]
    exact ⟨C, hperforms, fun r => ih r (hk r)⟩
  | await c k ih =>
    obtain ⟨I, C, hissue, hstable, hanswered, hk⟩ := h
    rw [hq.await]
    exact ⟨I, C, hissue, hstable, hanswered, fun a => ih a (hk a)⟩
  | spawn job k ih =>
    obtain ⟨C, hspawn, hk⟩ := h
    rw [hq.spawn]
    exact ⟨C, hspawn, ih hk⟩
  | next κ k ih =>
    obtain ⟨I, C, hwait, hstable, hcollects, hk⟩ := h
    rw [hq.next]
    exact ⟨I, C, hwait, hstable, hcollects, fun r => ih r (hk r)⟩

theorem Triple.post {B' : α → Scene S σ ν → Prop} {E' : S.Err → Scene S σ ν → Prop}
    (h : Triple M O T B E A p) (hB : ∀ {a x}, B a x → B' a x) (hE : ∀ {e x}, E e x → E' e x) :
    Triple M O T B' E' A p :=
  .through .id h (fun _ _ hx => hB hx) fun _ _ hx => hE hx

theorem stable_false : Stable M T (fun _ => False) := ⟨fun h => h.elim, fun h => h.elim⟩

/-- What is never reached keeps any post-condition. -/
theorem Triple.unreached (p : Prog S α) : Triple M O T B E (fun _ => False) p := by
  induction p with
  | pure a | throw e => exact fun _ h => h.elim
  | op o k ih => exact ⟨fun _ _ => False, fun h => h.elim, fun r => ih r⟩
  | await c k ih =>
    exact ⟨_, fun _ _ => False, ⟨stable_false, fun h => h.elim⟩, fun _ => stable_false,
      fun h => h.elim, fun a => ih a⟩
  | spawn job k ih => exact ⟨_, fun h => h.elim, ih⟩
  | next κ k ih =>
    exact ⟨_, fun _ _ => False, ⟨stable_false, fun h => h.elim⟩, fun _ => stable_false,
      ⟨fun h => h.elim, fun h => h.elim⟩, fun r => ih r⟩

theorem Triple.fact {φ : Prop} (h : φ → Triple M O T B E A p) :
    Triple M O T B E (fun x => φ ∧ A x) p := by
  by_cases hφ : φ
  · exact (h hφ).pre fun hx => hx.2
  · exact (Triple.unreached p).pre fun hx => hφ hx.1

/-- Tasks that run alone compose. -/
theorem Triple.bind {f : α → Prog S β} {D : β → Scene S σ ν → Prop} (h : Triple M O T B E A p)
    (hrest : ∀ a, Triple M O T D E (B a) (f a)) :
    Triple M O T D E A (p >>= f) :=
  .through (.bind f) h hrest fun _ _ hx => hx

theorem Triple.attempt {D : Except S.Err α → Scene S σ ν → Prop}
    (h : Triple M O T (fun a => D (.ok a)) (fun e => D (.error e)) A p) :
    Triple M O T D E A p.attempt :=
  .through .attempt h (fun _ _ hx => hx) fun _ _ hx => hx

theorem Triple.perform {o : S.Op} {C : S.Res o → Scene S σ ν → Prop}
    (h : Performs M O T A o C) : Triple M O T C E A (Prog.perform o) :=
  ⟨C, h, fun _ _ hx => hx⟩

theorem Triple.call {c : S.Call} {I : Scene S σ ν → Prop} {C : S.Ans c → Scene S σ ν → Prop}
    (hI : Stable M T I)
    (hissue : ∀ {w crew n}, A ⟨w, crew, n⟩ → T.asks c ∧ I ⟨w, crew, O.issue c n⟩)
    (hC : ∀ a, Stable M T (C a)) (hanswered : Answered M O T I c C) :
    Triple M O T C E A (Prog.call c) :=
  ⟨I, C, ⟨hI, hissue⟩, hC, hanswered, fun _ _ hx => hx⟩

theorem Triple.spawn {κ : S.Kind} {job : S.Job κ} {C : Scene S σ ν → Prop}
    (h : ∀ {w crew n}, A ⟨w, crew, n⟩ → C ⟨w, .fresh M job ::ₘ crew, O.spawn n⟩) :
    Triple M O T (fun _ => C) E A (Prog.spawn job (.pure ())) :=
  ⟨C, h, fun _ hx => hx⟩

theorem Triple.next {κ : S.Kind} {C : Option (Except S.Err (S.Out κ)) → Scene S σ ν → Prop}
    (hA : Stable M T A) (hC : ∀ r, Stable M T (C r)) (hcollects : Collects O A κ C) :
    Triple M O T C E A (Prog.next κ .pure) :=
  ⟨A, C, ⟨hA, fun hx => hx⟩, hC, hcollects, fun _ _ hx => hx⟩

end Rules

/-! ### The jobs of a task in a pool -/

/-- The job a thread runs, as far as it has come. -/
def Thread.hand (th : Thread S ν) : Hand S := ⟨th.kind, th.job, th.stage.prog⟩

def crewOf (threads : Table Tid (Thread S ν)) (t : Tid) : Multiset (Hand S) :=
  ((threads.entries.filter fun e => decide (e.1 ≠ t)).map fun e => e.2.hand : List (Hand S))

section Crew

variable {threads : Table Tid (Thread S ν)} {t i : Tid} {th : Thread S ν}

theorem crewOf_of_get (h : threads.get i = some th) (hne : i ≠ t) :
    crewOf threads t = th.hand ::ₘ crewOf (threads.erase i) t := by
  have hperm := ((Table.entries_perm_of_get h).filter fun e => decide (e.1 ≠ t)).map fun e => e.2.hand
  rw [List.filter_cons_of_pos (by simpa using hne), List.map_cons] at hperm
  exact Multiset.coe_eq_coe.mpr hperm

theorem crewOf_insert (hne : i ≠ t) :
    crewOf (threads.insert i th) t = th.hand ::ₘ crewOf (threads.erase i) t := by
  rw [crewOf, Table.entries_insert, List.filter_cons_of_pos (by simpa using hne), List.map_cons,
    ← Multiset.cons_coe]
  rfl

theorem crewOf_erase_self (h : threads.get t = some th) :
    crewOf (threads.erase t) t = crewOf threads t := by
  have hperm := ((Table.entries_perm_of_get h).filter fun e => decide (e.1 ≠ t)).map fun e => e.2.hand
  rw [List.filter_cons_of_neg (by simp)] at hperm
  exact (Multiset.coe_eq_coe.mpr hperm).symm

theorem crewOf_insert_self (h : threads.get t = some th) {th' : Thread S ν} :
    crewOf (threads.insert t th') t = crewOf threads t := by
  rw [← crewOf_erase_self h, crewOf, Table.entries_insert, List.filter_cons_of_neg (by simp)]
  rfl

theorem crewOf_eq_zero (h : ∀ i th, threads.get i = some th → i = t) : crewOf threads t = 0 := by
  have hnone : (threads.entries.filter fun e => decide (e.1 ≠ t)) = [] := by
    refine List.filter_eq_nil_iff.mpr fun e he => ?_
    simpa using h e.1 e.2 (Table.get_eq_some_iff.mpr he)
  rw [crewOf, hnone]
  rfl

end Crew

/-! ### A pool with one task and its jobs -/

section Attended

variable (M : Machine S σ Ω) (O : Observer S σ γ ν) (T : Terms S ν)

/-- From where it stands a task that runs alone returns only in `B` and fails only
in `E`, if `A` holds now. -/
def Stage.Leads {α : Type} (B : α → Scene S σ ν → Prop) (E : S.Err → Scene S σ ν → Prop)
    (A : Scene S σ ν → Prop) : Stage S α → Prop
  | .ready p => Triple M O T B E A p
  | .issued c k => ∃ C : S.Ans c → Scene S σ ν → Prop, (∀ a, Stable M T (C a)) ∧
      Answered M O T A c C ∧ ∀ a, Triple M O T B E (C a) (k a)
  | .waiting κ k => ∃ C : Option (Except S.Err (S.Out κ)) → Scene S σ ν → Prop,
      (∀ r, Stable M T (C r)) ∧ Collects O A κ C ∧ ∀ r, Triple M O T B E (C r) (k r)
  | .ended r => Triple M O T B E A (.ofExcept r)

/-- The calls that are made one at a time, and what each of them guarantees. -/
structure Plan (S : Signature) (σ ν : Type) where
  fit : {κ : S.Kind} → S.Job κ → Prop
  /-- What holds of the shared state between two calls. -/
  world : σ → Prop
  returns : {κ : S.Kind} → S.Job κ → S.Out κ → Scene S σ ν → Prop
  fails : {κ : S.Kind} → S.Job κ → S.Err → Scene S σ ν → Prop

structure Plan.Sound (W : Plan S σ ν) : Prop where
  code : ∀ {κ : S.Kind} {job : S.Job κ}, W.fit job → Triple M O T (W.returns job) (W.fails job)
    (fun x => W.world x.world ∧ x.crew = 0 ∧ x.note = O.start job) (M.code job)
  returns : ∀ {κ : S.Kind} (job : S.Job κ) (a : S.Out κ), Stable M T (W.returns job a)
  fails : ∀ {κ : S.Kind} (job : S.Job κ) (e : S.Err), Stable M T (W.fails job e)
  returned : ∀ {κ : S.Kind} {job : S.Job κ} {a : S.Out κ} {x : Scene S σ ν},
    W.returns job a x → W.world x.world
  failed : ∀ {κ : S.Kind} {job : S.Job κ} {e : S.Err} {x : Scene S σ ν},
    W.fails job e x → W.world x.world
  release : ∀ {i : Tid} {w : σ}, W.world w → W.world (M.release i w)
  renew : ∀ {ω : Ω} {w : σ}, W.world w → W.world (M.renew ω w)

/-- What happens is on these terms, and a call is started only when no other is
under way, and only a fit one. -/
def Terms.Alone (fit : {κ : S.Kind} → S.Job κ → Prop) (v : View σ γ ν) : Event S → Prop
  | .started _ job => (∀ i, v.note i = none) ∧ fit job
  | .did t o r => ∀ n, v.note t = some n → T.op n o r
  | .answered _ c a => T.answer c a
  | _ => True

/-- What the task `t` of a pool finds around it. -/
def Pool.scene (p : Pool S σ γ ν) (t : Tid) (note : ν) : Scene S σ ν :=
  ⟨p.world, crewOf p.threads t, note⟩

/-- The task `t` runs alone with its jobs, and `A` holds. -/
structure Pool.Attended (W : Plan S σ ν) (p : Pool S σ γ ν) (t : Tid) (th : Thread S ν)
    (A : Scene S σ ν → Prop) : Prop where
  main : p.threads.get t = some th
  parent : th.parent = none
  kids : ∀ {i : Tid} {kid : Thread S ν}, p.threads.get i = some kid → i ≠ t → kid.parent = some t
  holds : A (p.scene t th.note)
  leads : th.stage.Leads M O T (W.returns th.job) (W.fails th.job) A
  stable : p.running ≠ some t → Stable M T A

/-- No call is under way, or one that runs alone. -/
inductive Pool.OneAtATime (W : Plan S σ ν) (p : Pool S σ γ ν) : Prop
  | idle : (∀ i, p.threads.get i = none) → p.running = none → W.world p.world → OneAtATime W p
  | attended {t : Tid} {th : Thread S ν} {A : Scene S σ ν → Prop} :
      p.Attended M O T W t th A → OneAtATime W p

end Attended

section Steps

variable {M : Machine S σ Ω} {O : Observer S σ γ ν} {T : Terms S ν} {W : Plan S σ ν}
  {p p' : Pool S σ γ ν} {t i : Tid} {th : Thread S ν} {A : Scene S σ ν → Prop} {event : Event S}

namespace Pool

variable {past : γ} {running : Option Tid} {note : ν} {A' : Scene S σ ν → Prop}

theorem Attended.advance (h : p.Attended M O T W t th A) {world : σ} {stage : Stage S (S.Out th.kind)}
    (hholds : A' ⟨world, crewOf p.threads t, note⟩)
    (hleads : stage.Leads M O T (W.returns th.job) (W.fails th.job) A')
    (hstable : running ≠ some t → Stable M T A') :
    Attended M O T W ({ p with world, past, running }.put t { th with stage, note }) t
      { th with stage, note } A' where
  main := Table.get_insert_self _ _ _
  parent := h.parent
  kids := by
    intro i kid hi hne
    rw [put, Table.get_insert, if_neg hne] at hi
    exact h.kids hi hne
  holds := by
    rw [scene, put]
    dsimp only
    rw [crewOf_insert_self h.main]
    exact hholds
  leads := hleads
  stable := hstable

variable {kid : Thread S ν}

theorem Attended.aside (h : p.Attended M O T W t th A) (hi : p.threads.get i = some kid) (hne : i ≠ t)
    {world : σ} {stage : Stage S (S.Out kid.kind)} (hstable : Stable M T A)
    (hholds : ∀ rest, A ⟨p.world, kid.hand ::ₘ rest, th.note⟩ →
      A ⟨world, ⟨kid.kind, kid.job, stage.prog⟩ ::ₘ rest, th.note⟩) :
    Attended M O T W ({ p with world, past, running }.put i { kid with stage, note }) t th A where
  main := by
    rw [put, Table.get_insert, if_neg hne.symm]
    exact h.main
  parent := h.parent
  kids := by
    intro j kid' hj hjt
    rw [put, Table.get_insert] at hj
    split at hj
    · cases hj
      have hparent : kid.parent = some t := h.kids hi hne
      exact hparent
    · exact h.kids hj hjt
  holds := by
    have hbefore := h.holds
    rw [scene, crewOf_of_get hi hne] at hbefore
    rw [scene, put]
    dsimp only
    rw [crewOf_insert hne]
    exact hholds _ hbefore
  leads := h.leads
  stable := fun _ => hstable

theorem Attended.silent (h : p.Attended M O T W t th A) (hi : p.threads.get i = some kid) (hne : i ≠ t)
    {stage : Stage S (S.Out kid.kind)} (hstable : Stable M T A) (hprog : stage.prog = kid.stage.prog) :
    Attended M O T W ({ p with past, running }.put i { kid with stage, note }) t th A := by
  have hholds (rest : Multiset (Hand S)) (hA : A ⟨p.world, kid.hand ::ₘ rest, th.note⟩) :
      A ⟨p.world, ⟨kid.kind, kid.job, stage.prog⟩ ::ₘ rest, th.note⟩ := by
    rw [hprog]
    exact hA
  exact h.aside hi hne hstable hholds

variable {κ : S.Kind}

theorem Attended.spawn (h : p.Attended M O T W t th A) {fresh : Tid}
    (hnone : p.threads.get fresh = none) (job : S.Job κ) {k : Prog S (S.Out th.kind)}
    (hholds : A' ⟨p.world, .fresh M job ::ₘ crewOf p.threads t, note⟩)
    (hk : Triple M O T (W.returns th.job) (W.fails th.job) A' k) (hrun : p.running = some t) :
    Attended M O T W ((p.put t { th with stage := .ready k, note }).begin M O fresh (some t) job) t
      { th with stage := .ready k, note } A' := by
  have hne : fresh ≠ t := by
    rintro rfl
    cases hnone.symm.trans h.main
  have habsent : (p.threads.insert t { th with stage := .ready k, note }).get fresh = none := by
    rw [Table.get_insert, if_neg hne, hnone]
  refine ⟨?_, h.parent, ?_, ?_, hk, fun hstop => absurd hrun hstop⟩
  · rw [begin, put, put, Table.get_insert, if_neg hne.symm, Table.get_insert_self]
  · intro i kid hi hit
    rw [begin, put, put, Table.get_insert] at hi
    split at hi
    · cases hi
      rfl
    · rw [Table.get_insert, if_neg hit] at hi
      exact h.kids hi hit
  · rw [scene, begin, put, put]
    dsimp only
    rw [crewOf_insert hne, Table.erase_of_get_none habsent, crewOf_insert_self h.main]
    exact hholds

variable {th' : Thread S ν}

/-- A move on the plan's terms leaves one call at a time. -/
theorem Attended.move (h : p.Attended M O T W t th A) (hW : W.Sound M O T) (hrun : p.running = some i)
    (hi : p.threads.get i = some th') {ω : Ω} {fresh : Tid}
    (hmove : p.move M O i th' ω fresh = some (event, p')) (hguard : T.Alone W.fit p.view event) :
    OneAtATime M O T W p' := by
  by_cases hit : i = t
  · subst hit
    have hmine := h.main
    cases hmine.symm.trans hi
    obtain ⟨parent, kind, job, stage, note⟩ := th
    have hleads := h.leads
    cases stage with
    | issued c k | waiting κ k | ended r => cases hmove
    | ready prog =>
      cases prog with
      | op o k =>
        cases hmove
        obtain ⟨C, hperforms, hk⟩ := hleads
        have hterms : T.op note o (M.perform o ω p.world).1 := hguard note (view_note h.main)
        exact .attended (h.advance (hperforms h.holds hterms) (hk _) fun hne => absurd hrun hne)
      | await c k =>
        cases hmove
        obtain ⟨I, C, ⟨hstable, hissue⟩, hrest⟩ := hleads
        exact .attended (h.advance (hissue h.holds).2 ⟨C, hrest⟩ fun _ => hstable)
      | next κ k =>
        cases hmove
        obtain ⟨I, C, ⟨hstable, hwait⟩, hrest⟩ := hleads
        exact .attended (h.advance (hwait h.holds) ⟨C, hrest⟩ fun _ => hstable)
      | pure a =>
        cases hmove
        exact .attended (h.advance (hleads _ h.holds) (fun _ hx => hx) fun _ => hW.returns job a)
      | throw e =>
        cases hmove
        exact .attended (h.advance (hleads _ h.holds) (fun _ hx => hx) fun _ => hW.fails job e)
      | spawn job' k =>
        simp only [Pool.move] at hmove
        split at hmove
        · cases hmove
        · next hfree =>
          cases hmove
          obtain ⟨C, hspawn, hk⟩ := hleads
          have hnone : p.threads.get fresh = none := by
            simpa [Table.contains] using fun hc => hfree (Or.inl hc)
          exact .attended (h.spawn hnone job' (hspawn h.holds) hk hrun)
  · have hstable : Stable M T A := h.stable fun hrunning => hit (Option.some.inj (hrun.symm.trans hrunning))
    obtain ⟨parent, kind, job, stage, note⟩ := th'
    cases stage with
    | issued c k | waiting κ k | ended r => cases hmove
    | ready prog =>
      cases prog with
      | op o k =>
        cases hmove
        have hterms : T.op note o (M.perform o ω p.world).1 := hguard note (view_note hi)
        exact .attended (h.aside hi hit hstable fun rest hA => hstable.goes hA (.op hterms))
      | await c k | next κ k | pure a | throw e =>
        cases hmove
        exact .attended (h.silent hi hit hstable rfl)
      | spawn job' k =>
        obtain rfl : parent = some t := h.kids hi hit
        simp [Pool.move] at hmove

theorem Attended.effect (h : p.Attended M O T W t th A) (hrun : p.running = none)
    (hi : p.threads.get i = some th') {ω : Ω} (heffect : p.effect M O i th' ω = some (event, p'))
    (hguard : T.Alone W.fit p.view event) :
    OneAtATime M O T W p' := by
  have hstable : Stable M T A := h.stable (by simp [hrun])
  obtain ⟨parent, kind, job, stage, note⟩ := th'
  cases stage with
  | ready prog | waiting κ k | ended r => cases heffect
  | issued c k =>
    simp only [Pool.effect] at heffect
    split at heffect
    · next hanswer =>
      cases heffect
      by_cases hit : i = t
      · subst hit
        cases h.main.symm.trans hi
        obtain ⟨C, hC, hanswered, hk⟩ := h.leads
        exact .attended (h.advance (hanswered h.holds hanswer hguard) (hk _) fun _ => hC _)
      · exact .attended (h.aside hi hit hstable fun rest hA => hstable.goes hA (.answer hanswer hguard))
    · cases heffect

theorem hand_of_collect [DecidableEq S.Kind] {r : Except S.Err (S.Out κ)} (h : collect κ kid = some r) :
    ∃ job : S.Job κ, kid.hand = ⟨κ, job, .ofExcept r⟩ := by
  obtain ⟨parent, kind, job, stage, note⟩ := kid
  simp only [collect] at h
  split at h
  · next hkind =>
    subst hkind
    cases stage with
    | ended r' =>
      cases h
      exact ⟨job, rfl⟩
    | ready p | issued c k | waiting κ k => cases h
  · cases h

theorem Attended.collect (h : p.Attended M O T W t th A) (hi : p.threads.get i = some kid)
    (hne : i ≠ t) {stage : Stage S (S.Out th.kind)}
    (hholds : ∀ rest, A ⟨p.world, kid.hand ::ₘ rest, th.note⟩ → A' ⟨p.world, rest, note⟩)
    (hleads : stage.Leads M O T (W.returns th.job) (W.fails th.job) A') (hstable : Stable M T A') :
    Attended M O T W (Pool.put { p with threads := p.threads.erase i } t { th with stage, note }) t
      { th with stage, note } A' := by
  have hmain : (p.threads.erase i).get t = some th := by
    rw [Table.get_erase, if_neg hne.symm, h.main]
  refine ⟨Table.get_insert_self _ _ _, h.parent, ?_, ?_, hleads, fun _ => hstable⟩
  · intro j kid' hj hjt
    rw [put, Table.get_insert, if_neg hjt, Table.get_erase] at hj
    split at hj
    · cases hj
    · exact h.kids hj hjt
  · have hbefore := h.holds
    rw [scene, crewOf_of_get hi hne] at hbefore
    rw [scene, put]
    dsimp only
    rw [crewOf_insert_self hmain]
    exact hholds _ hbefore

theorem Attended.wake [DecidableEq S.Kind] (h : p.Attended M O T W t th A) (hrun : p.running = none)
    (hi : p.threads.get i = some th') {kid : Option Tid}
    (hwake : p.wake O i th' kid = some (event, p')) : OneAtATime M O T W p' := by
  have hstable : Stable M T A := h.stable (by simp [hrun])
  obtain ⟨parent, kind, job, stage, note⟩ := th'
  cases stage with
  | ready prog | issued c k | ended r => cases kid <;> cases hwake
  | waiting κ k =>
    cases kid with
    | none =>
      simp only [Pool.wake] at hwake
      split at hwake
      · next hkids =>
        cases hwake
        by_cases hit : i = t
        · subst hit
          cases h.main.symm.trans hi
          obtain ⟨C, hC, hcollects, hk⟩ := h.leads
          have hcrew : crewOf p.threads i = 0 := crewOf_eq_zero fun j kid hj => by
            by_contra hji
            have hmem : j ∈ p.kids i := mem_kids.mpr ⟨kid, hj, h.kids hj hji⟩
            rw [hkids] at hmem
            cases hmem
          have hholds := h.holds
          rw [scene, hcrew] at hholds
          have hnone : C none ⟨p.world, crewOf p.threads i, note⟩ := by
            rw [hcrew]
            exact hcollects.none hholds
          exact .attended (h.advance hnone (hk none) fun _ => hC none)
        · exact .attended (h.aside hi hit hstable fun rest hA => hstable.goes hA .none)
      · cases hwake
    | some j =>
      simp only [Pool.wake] at hwake
      split at hwake
      · next kid hj =>
        split at hwake
        · next r hr =>
          split at hwake
          · next hparent =>
            cases hwake
            -- only the task itself has jobs
            obtain rfl : i = t := by
              by_contra hit
              have hjt : j ≠ t := by
                rintro rfl
                rw [Option.some.inj (hj.symm.trans h.main), h.parent] at hparent
                cases hparent
              rw [h.kids hj hjt] at hparent
              exact hit (Option.some.inj hparent).symm
            cases h.main.symm.trans hi
            have hji : j ≠ i := by
              rintro rfl
              rw [Option.some.inj (hj.symm.trans h.main)] at hparent
              cases h.parent.symm.trans hparent
            obtain ⟨C, hC, hcollects, hk⟩ := h.leads
            obtain ⟨job', hhand⟩ := hand_of_collect hr
            refine .attended (h.collect hj hji (fun rest hA => ?_) (hk (some r)) (hC (some r)))
            rw [hhand] at hA
            exact hcollects.some hA
          · cases hwake
        · cases hwake
      · cases hwake

theorem Attended.gone (h : p.Attended M O T W t th A) (i : Tid) :
    (p.threads.retain fun i th => decide (i ≠ t) && decide (th.parent ≠ some t)).get i = none := by
  rw [Table.get_retain, Option.filter_eq_none_iff]
  intro kid hi hkeep
  rw [Bool.and_eq_true, decide_eq_true_eq, decide_eq_true_eq] at hkeep
  exact hkeep.2 (h.kids hi hkeep.1)

theorem world_released (hW : W.Sound M O T) {w : σ} (hworld : W.world w) (dropped : List Tid) :
    W.world (dropped.foldl (fun s i => M.release i s) w) := by
  induction dropped generalizing w with
  | nil => exact hworld
  | cons i rest ih => exact ih (hW.release hworld)

theorem Attended.eq_of_top (h : p.Attended M O T W t th A) (hi : p.threads.get i = some th')
    (htop : th'.parent = none) : i = t ∧ th' = th := by
  have hit : i = t := by
    by_contra hne
    exact Option.some_ne_none t ((h.kids hi hne).symm.trans htop)
  subst hit
  exact ⟨rfl, Option.some.inj (hi.symm.trans h.main)⟩

theorem Attended.finish (h : p.Attended M O T W t th A) (hW : W.Sound M O T) (hrun : p.running = none)
    (hi : p.threads.get i = some th') (hfinish : p.finish M O i th' = some (event, p')) :
    OneAtATime M O T W p' := by
  obtain ⟨parent, kind, job, stage, note⟩ := th'
  cases stage with
  | ready p | issued c k | waiting κ k => cases parent <;> cases hfinish
  | ended r =>
    cases parent with
    | some j => cases hfinish
    | none =>
      obtain ⟨rfl, rfl⟩ := h.eq_of_top hi rfl
      cases hfinish
      refine .idle h.gone hrun (world_released hW ?_ _)
      cases r with
      | ok a => exact hW.returned (h.leads _ h.holds)
      | error e => exact hW.failed (h.leads _ h.holds)

theorem OneAtATime.start (hW : W.Sound M O T) (hnone : ∀ i, p.threads.get i = none)
    (hworld : W.world p.world) {job : S.Job κ} (hfit : W.fit job) (t : Tid) :
    OneAtATime M O T W (p.begin M O t none job) := by
  have hcrew : crewOf (p.begin M O t none job).threads t = 0 := crewOf_eq_zero fun i th hi => by
    by_contra hne
    rw [begin, put, Table.get_insert, if_neg hne, hnone] at hi
    cases hi
  refine .attended (t := t) (A := fun x => W.world x.world ∧ x.crew = 0 ∧ x.note = O.start job)
    ⟨Table.get_insert_self _ _ _, rfl, ?_, ⟨hworld, hcrew, rfl⟩, hW.code hfit, fun _ => ⟨?_, ?_⟩⟩
  · intro i kid hi hne
    rw [begin, put, Table.get_insert, if_neg hne, hnone] at hi
    cases hi
  · rintro w w' hand hand' rest n ⟨_, hcrew, _⟩
    exact absurd hcrew (Multiset.cons_ne_zero)
  · rintro w κ' job' c k rest n ⟨_, hcrew, _⟩
    exact absurd hcrew (Multiset.cons_ne_zero)

theorem OneAtATime.schedule [DecidableEq S.Kind] (hW : W.Sound M O T) (h : p.OneAtATime M O T W)
    (hrun : p.running = none) {choice : Choice S Ω}
    (hstep : p.schedule M O choice = some (event, p')) (hguard : T.Alone W.fit p.view event) :
    p'.OneAtATime M O T W := by
  cases choice with
  | move ω fresh => cases hstep
  | start t job =>
    simp only [Pool.schedule] at hstep
    split at hstep
    · cases hstep
    · cases hstep
      have hnone : ∀ i, p.threads.get i = none := fun i =>
        Option.map_eq_none_iff.mp (hguard.1 i)
      cases h with
      | idle _ _ hworld => exact .start hW hnone hworld hguard.2 t
      | attended h => cases (hnone _).symm.trans h.main
  | resume i =>
    simp only [Pool.schedule] at hstep
    split at hstep
    · next hi =>
      cases hstep
      cases h with
      | idle hnone => cases (hnone i).symm.trans hi
      | attended h =>
        have hstable := h.stable (by simp [hrun])
        exact .attended ⟨h.main, h.parent, h.kids, h.holds, h.leads, fun _ => hstable⟩
    · cases hstep
  | effect i ω =>
    obtain ⟨th, hi, heffect⟩ := Option.bind_eq_some_iff.mp hstep
    cases h with
    | idle hnone => cases (hnone i).symm.trans hi
    | attended h => exact h.effect hrun hi heffect hguard
  | wake i kid =>
    obtain ⟨th, hi, hwake⟩ := Option.bind_eq_some_iff.mp hstep
    cases h with
    | idle hnone => cases (hnone i).symm.trans hi
    | attended h => exact h.wake hrun hi hwake
  | finish i =>
    obtain ⟨th, hi, hfinish⟩ := Option.bind_eq_some_iff.mp hstep
    cases h with
    | idle hnone => cases (hnone i).symm.trans hi
    | attended h => exact h.finish hW hrun hi hfinish
  | renew ω =>
    simp only [Pool.schedule] at hstep
    split at hstep
    · next hsize =>
      cases hstep
      cases h with
      | idle hnone _ hworld => exact .idle hnone hrun (hW.renew hworld)
      | attended h =>
        have hpos := Table.size_of_get h.main
        omega
    · cases hstep

theorem OneAtATime.step [DecidableEq S.Kind] (hW : W.Sound M O T) (h : p.OneAtATime M O T W)
    {choice : Choice S Ω} (hstep : p.step M O choice = some (event, p'))
    (hguard : T.Alone W.fit p.view event) : p'.OneAtATime M O T W := by
  simp only [Pool.step] at hstep
  split at hstep
  · next i hrun =>
    obtain ⟨th, hi, hmove⟩ := Option.bind_eq_some_iff.mp hstep
    cases h with
    | idle hnone => cases (hnone _).symm.trans hi
    | attended h => exact h.move hW hrun hi hmove hguard
  · cases hstep
  · exact h.schedule hW ‹_› hstep hguard

end Pool

end Steps

/-! ### What every call guarantees -/

namespace Plan

variable [DecidableEq S.Kind] {M : Machine S σ Ω} {O : Observer S σ γ ν} {T : Terms S ν}
  {W : Plan S σ ν} {w : σ} {past : γ} {p p' : Pool S σ γ ν} {choice : Choice S Ω}

theorem oneAtATime (hW : W.Sound M O T) (hworld : W.world w)
    (h : Reach M O (T.Alone W.fit) (Pool.init w past) p) : p.OneAtATime M O T W := by
  induction h with
  | refl => exact .idle (fun i => Table.get_empty i) rfl hworld
  | step _ hstep hguard ih => exact ih.step hW hstep hguard

variable {t : Tid}

section

variable (hW : W.Sound M O T) (hworld : W.world w)
  (h : Reach M O (T.Alone W.fit) (Pool.init w past) p) {κ : S.Kind} {job : S.Job κ}
include hW hworld h

/-- A call that returns has done as planned, and what its jobs held is given
back after that. -/
theorem returned {a : S.Out κ} {dropped : List Tid}
    (hstep : p.step M O choice = some (.finished t job (.ok a) dropped, p')) :
    (∃ crew note, W.returns job a ⟨p.world, crew, note⟩) ∧
      p'.world = dropped.foldl (fun s i => M.release i s) p.world := by
  obtain ⟨note, hth, hleft⟩ := Pool.finish_of_step hstep
  refine ⟨?_, hleft⟩
  cases oneAtATime hW hworld h with
  | idle hnone => cases (hnone t).symm.trans hth
  | @attended s th A h =>
    obtain ⟨rfl, rfl⟩ := h.eq_of_top hth rfl
    exact ⟨_, _, h.leads _ h.holds⟩

theorem failed {e : S.Err} {dropped : List Tid}
    (hstep : p.step M O choice = some (.finished t job (.error e) dropped, p')) :
    ∃ crew note, W.fails job e ⟨p.world, crew, note⟩ := by
  obtain ⟨note, hth, _⟩ := Pool.finish_of_step hstep
  cases oneAtATime hW hworld h with
  | idle hnone => cases (hnone t).symm.trans hth
  | @attended s th A h =>
    obtain ⟨rfl, rfl⟩ := h.eq_of_top hth rfl
    exact ⟨_, _, h.leads _ h.holds⟩

end

theorem issued_of_step {c : S.Call} (hstep : p.step M O choice = some (.issued t c, p')) :
    p.running = some t ∧ ∃ th k, p.threads.get t = some th ∧ th.stage = .ready (.await c k) := by
  simp only [Pool.step] at hstep
  split at hstep
  · next i hrun =>
    obtain ⟨⟨parent, kind, job, stage, note⟩, hi, hmove⟩ := Option.bind_eq_some_iff.mp hstep
    cases stage with
    | issued c k | waiting κ k | ended r => cases hmove
    | ready prog =>
      cases prog with
      | await c k =>
        cases hmove
        exact ⟨hrun, _, k, hi, rfl⟩
      | spawn job' k =>
        simp only [Pool.move] at hmove
        split at hmove
        · cases hmove
        · cases hmove
      | _ => cases hmove
  · cases hstep
  · rename_i choice _ _ _
    cases choice with
    | move ω fresh => cases hstep
    | start i job | resume i | renew ω =>
      simp only [Pool.schedule] at hstep
      split at hstep
      · cases hstep
      · cases hstep
    | effect i ω =>
      obtain ⟨th, hi, heffect⟩ := Option.bind_eq_some_iff.mp hstep
      simp only [Pool.effect] at heffect
      split at heffect
      · split at heffect
        · cases heffect
        · cases heffect
      · cases heffect
    | wake i kid =>
      obtain ⟨th, hi, hwake⟩ := Option.bind_eq_some_iff.mp hstep
      simp only [Pool.wake] at hwake
      split at hwake
      · split at hwake
        · cases hwake
        · cases hwake
      · split at hwake
        · split at hwake
          · split at hwake
            · cases hwake
            · cases hwake
          · cases hwake
        · cases hwake
      · cases hwake
    | finish i =>
      obtain ⟨⟨parent, kind, job, stage, note⟩, hi, hfinish⟩ := Option.bind_eq_some_iff.mp hstep
      cases stage <;> cases parent <;> cases hfinish

theorem asked (hW : W.Sound M O T) (hworld : W.world w)
    (h : Reach M O (T.Alone W.fit) (Pool.init w past) p) {c : S.Call}
    (hstep : p.step M O choice = some (.issued t c, p')) : T.asks c := by
  obtain ⟨hrun, th, k, hth, hstage⟩ := issued_of_step hstep
  cases oneAtATime hW hworld h with
  | idle hnone => cases (hnone t).symm.trans hth
  | @attended s th' A h =>
    by_cases hts : t = s
    · subst hts
      cases h.main.symm.trans hth
      have hleads := h.leads
      rw [hstage] at hleads
      obtain ⟨_, _, ⟨_, hissue⟩, _⟩ := hleads
      exact (hissue h.holds).1
    · have hstable := h.stable fun hmine => hts (Option.some.inj (hrun.symm.trans hmine))
      have hholds := h.holds
      rw [Pool.scene, crewOf_of_get hth hts, Thread.hand, hstage] at hholds
      exact hstable.asks hholds

end Plan

end Async
