import Mathlib.Data.List.Basic

/-!
# Checked indexing

A program that indexes a vector beyond its end, or takes a lock that another
thread left in a panic, panics. A computation that may do so is one in
`Except Panic`; a vector is a list.

`foldlM_completes` is the rule for loops.
-/

inductive Panic where
  | indexOutOfBounds (len index : Nat)
  | poisoned
deriving DecidableEq, Repr

abbrev Checked (α : Type) := Except Panic α

namespace Checked

variable {α β : Type}

def Completes (x : Checked α) : Prop := ∃ a, x = .ok a

def index (v : List α) (i : Nat) : Checked α :=
  match v[i]? with
  | some a => .ok a
  | none => .error (.indexOutOfBounds v.length i)

/-- `&v[i..j]`. -/
def slice (v : List α) (i j : Nat) : Checked (List α) :=
  if i ≤ j ∧ j ≤ v.length then .ok ((v.drop i).take (j - i)) else .error (.indexOutOfBounds v.length j)

def update (v : List α) (i : Nat) (a : α) : Checked (List α) :=
  if i < v.length then .ok (v.set i a) else .error (.indexOutOfBounds v.length i)

def addAt [Add α] (v : List α) (i : Nat) (a : α) : Checked (List α) := do
  let old ← index v i
  update v i (old + a)

theorem completes_ok (a : α) : Completes (.ok a) := ⟨a, rfl⟩

theorem not_completes_error (p : Panic) : ¬ Completes (.error p : Checked α) := by
  rintro ⟨a, h⟩
  cases h

@[simp] theorem ok_bind (a : α) (f : α → Checked β) : ((Except.ok a : Checked α) >>= f) = f a := rfl

theorem bind_eq_ok {x : Checked α} {f : α → Checked β} {b : β} :
    x >>= f = .ok b ↔ ∃ a, x = .ok a ∧ f a = .ok b := by
  cases x with
  | ok a =>
    constructor
    · exact fun h => ⟨a, rfl, h⟩
    · rintro ⟨a', ha, h⟩
      cases ha
      exact h
  | error p =>
    refine iff_of_false (fun h => ?_) fun ⟨a, ha, _⟩ => ?_
    · cases h
    · cases ha

theorem completes_bind {x : Checked α} {f : α → Checked β} :
    Completes (x >>= f) ↔ ∃ a, x = .ok a ∧ (f a).Completes := by
  constructor
  · rintro ⟨b, h⟩
    obtain ⟨a, ha, hb⟩ := bind_eq_ok.mp h
    exact ⟨a, ha, b, hb⟩
  · rintro ⟨a, ha, b, hb⟩
    exact ⟨b, bind_eq_ok.mpr ⟨a, ha, hb⟩⟩

variable {v : List α} {i : Nat}

theorem index_completes : (index v i).Completes ↔ i < v.length := by
  unfold index
  cases h : v[i]? with
  | some a => exact iff_of_true (completes_ok a) (List.getElem?_eq_some_iff.mp h).1
  | none =>
    exact iff_of_false (not_completes_error _) (Nat.not_lt.mpr (List.getElem?_eq_none_iff.mp h))

theorem index_ok {a : α} (h : v[i]? = some a) : index v i = .ok a := by
  rw [index, h]

theorem slice_ok {j : Nat} (hij : i ≤ j) (hj : j ≤ v.length) : slice v i j = .ok ((v.drop i).take (j - i)) :=
  if_pos ⟨hij, hj⟩

variable {w : List α} {a : α}

theorem update_eq_ok : update v i a = .ok w ↔ i < v.length ∧ v.set i a = w := by
  unfold update
  split
  · next h => exact ⟨fun heq => ⟨h, Except.ok.inj heq⟩, fun ⟨_, heq⟩ => congrArg _ heq⟩
  · next h => exact iff_of_false (fun heq => not_completes_error _ ⟨_, heq⟩) fun h' => h h'.1

theorem update_completes : (update v i a).Completes ↔ i < v.length :=
  ⟨fun ⟨_, h⟩ => (update_eq_ok.mp h).1, fun h => ⟨_, update_eq_ok.mpr ⟨h, rfl⟩⟩⟩

theorem length_of_update (h : update v i a = .ok w) : w.length = v.length := by
  rw [← (update_eq_ok.mp h).2, List.length_set]

theorem addAt_completes [Add α] : (addAt v i a).Completes ↔ i < v.length := by
  rw [addAt, completes_bind]
  constructor
  · rintro ⟨old, -, h⟩
    exact update_completes.mp h
  · intro h
    obtain ⟨old, hold⟩ := index_completes.mpr h
    exact ⟨old, hold, update_completes.mpr h⟩

theorem addAt_ok [Add α] (h : i < v.length) (a : α) :
    ∃ w, addAt v i a = .ok w ∧ w.length = v.length := by
  obtain ⟨old, hold⟩ := index_completes.mpr h
  exact ⟨v.set i (old + a), bind_eq_ok.mpr ⟨old, hold, update_eq_ok.mpr ⟨h, rfl⟩⟩,
    List.length_set⟩

theorem length_of_addAt [Add α] (h : addAt v i a = .ok w) : w.length = v.length := by
  obtain ⟨old, -, hupdate⟩ := bind_eq_ok.mp h
  exact length_of_update hupdate

section Loops

variable {f : β → α → Checked β} {P : β → Prop} {Q : α → Prop}

variable {b : β}

/-- What each turn keeps, a loop that completes keeps. -/
theorem foldlM_keeps (hkeeps : ∀ b a b', P b → f b a = .ok b' → P b') {items : List α} {b' : β}
    (hb : P b) (h : items.foldlM f b = .ok b') : P b' := by
  induction items generalizing b with
  | nil =>
    cases h
    exact hb
  | cons a items ih =>
    rw [List.foldlM_cons, bind_eq_ok] at h
    obtain ⟨next, hnext, hrest⟩ := h
    exact ih (hkeeps b a next hb hnext) hrest

theorem foldlM_ok (items : List α) (hround : ∀ b, ∀ a ∈ items, P b → ∃ b', f b a = .ok b' ∧ P b')
    (hb : P b) : ∃ b', items.foldlM f b = .ok b' ∧ P b' := by
  induction items generalizing b with
  | nil => exact ⟨b, rfl, hb⟩
  | cons a items ih =>
    obtain ⟨next, hnext, hkept⟩ := hround b a List.mem_cons_self hb
    obtain ⟨last, hlast, hend⟩ :=
      ih (fun b a hmem => hround b a (List.mem_cons_of_mem _ hmem)) hkept
    exact ⟨last, List.foldlM_cons.trans (bind_eq_ok.mpr ⟨next, hnext, hlast⟩), hend⟩

theorem foldlM_completes (hkeeps : ∀ b a b', P b → f b a = .ok b' → P b')
    (hround : ∀ b a, P b → ((f b a).Completes ↔ Q a)) (items : List α) (hb : P b) :
    (items.foldlM f b).Completes ↔ ∀ a ∈ items, Q a := by
  induction items generalizing b with
  | nil => exact iff_of_true (completes_ok b) nofun
  | cons a items ih =>
    rw [List.foldlM_cons, completes_bind, List.forall_mem_cons]
    constructor
    · rintro ⟨next, hnext, hrest⟩
      exact ⟨(hround b a hb).mp ⟨next, hnext⟩, (ih (hkeeps b a next hb hnext)).mp hrest⟩
    · rintro ⟨ha, hitems⟩
      obtain ⟨next, hnext⟩ := (hround b a hb).mpr ha
      exact ⟨next, hnext, (ih (hkeeps b a next hb hnext)).mpr hitems⟩

end Loops

theorem mapM_completes {f : α → Checked β} {items : List α} :
    (items.mapM f).Completes ↔ ∀ a ∈ items, (f a).Completes := by
  induction items with
  | nil => exact iff_of_true (completes_ok []) nofun
  | cons a items ih =>
    rw [List.mapM_cons, completes_bind, List.forall_mem_cons, ← ih]
    constructor
    · rintro ⟨b, hb, hrest⟩
      obtain ⟨bs, hbs, -⟩ := completes_bind.mp hrest
      exact ⟨⟨b, hb⟩, bs, hbs⟩
    · rintro ⟨⟨b, hb⟩, bs, hbs⟩
      exact ⟨b, hb, completes_bind.mpr ⟨bs, hbs, completes_ok _⟩⟩

end Checked
