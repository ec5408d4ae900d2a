import Mathlib.Algebra.Ring.Nat
import Mathlib.Data.List.Count
import Mathlib.Tactic.Common

/-!
# Calls in progress

Concurrent calls are the entries of a list, in the order in which they were begun, each with how
far it has come. A call begins at the end of the list, and a step of the call `i` puts its next
phase in its place.
-/

namespace Calls

variable {κ : Type} {calls : List κ} {i j : Nat} {c c' d : κ} {P : κ → Prop} {p : κ → Bool}

theorem get_set (h : calls[i]? = some c) (c' : κ) (j : Nat) :
    (calls.set i c')[j]? = if j = i then some c' else calls[j]? := by
  have hlt := (List.getElem?_eq_some_iff.mp h).1
  rw [List.getElem?_set]
  by_cases hj : j = i
  · rw [if_pos hj.symm, if_pos hlt, if_pos hj]
  · rw [if_neg (Ne.symm hj), if_neg hj]

theorem get_begin (j : Nat) :
    (calls ++ [c])[j]? = if j = calls.length then some c else calls[j]? := by
  rw [List.getElem?_append]
  by_cases hj : j = calls.length
  · subst hj
    simp
  · rw [if_neg hj]
    split
    · rfl
    · next hge =>
      have hout : calls[j]? = none := List.getElem?_eq_none (by omega)
      have hpast : [c][j - calls.length]? = none := List.getElem?_eq_none (by simp; omega)
      rw [hout, hpast]

theorem cases_of_get (h : calls[i]? = some c) {more : List κ}
    (hd : (calls.set i c' ++ more)[j]? = some d) :
    (j = i ∧ d = c') ∨ (j ≠ i ∧ calls[j]? = some d) ∨ d ∈ more := by
  rw [List.getElem?_append] at hd
  split at hd
  · rw [get_set h] at hd
    split at hd
    · next hj => exact .inl ⟨hj, (Option.some.inj hd).symm⟩
    · next hj => exact .inr (.inl ⟨hj, hd⟩)
  · exact .inr (.inr (List.mem_of_getElem? hd))

theorem get_self (h : calls[i]? = some c) (c' : κ) (more : List κ) :
    (calls.set i c' ++ more)[i]? = some c' := by
  have hlt := (List.getElem?_eq_some_iff.mp h).1
  rw [List.getElem?_append_left (by simpa using hlt), get_set h, if_pos rfl]

theorem get_other (h : calls[i]? = some c) (c' : κ) (more : List κ) (hj : j ≠ i)
    (hd : calls[j]? = some d) : (calls.set i c' ++ more)[j]? = some d := by
  have hlt := (List.getElem?_eq_some_iff.mp hd).1
  rw [List.getElem?_append_left (by simpa using hlt), get_set h, if_neg hj, hd]

/-- A fact about all calls survives replacing one call. -/
theorem forall_set (h : ∀ d ∈ calls, P d) (hc : P c') : ∀ d ∈ calls.set i c', P d := by
  intro d hd
  rcases List.mem_or_eq_of_mem_set hd with hd | rfl
  · exact h d hd
  · exact hc

theorem forall_begin (h : ∀ d ∈ calls, P d) (hc : P c) : ∀ d ∈ calls ++ [c], P d := by
  intro d hd
  rcases List.mem_append.mp hd with hd | hd
  · exact h d hd
  · exact List.mem_singleton.mp hd ▸ hc

theorem mem_set (h : calls[i]? = some c) (c' : κ) (hd : d ∈ calls) : d = c ∨ d ∈ calls.set i c' := by
  obtain ⟨j, hj⟩ := List.mem_iff_getElem?.mp hd
  by_cases hij : j = i
  · subst hij
    exact .inl (Option.some.inj (hj.symm.trans h))
  · exact .inr (List.mem_of_getElem? (by rw [get_set h, if_neg hij, hj]))

theorem exists_set (h : calls[i]? = some c) (hc : P c → P c') (hex : ∃ d ∈ calls, P d) :
    ∃ d ∈ calls.set i c', P d := by
  obtain ⟨d, hd, hP⟩ := hex
  rcases mem_set h c' hd with rfl | hd
  · exact ⟨c', List.mem_of_getElem? (by rw [get_set h, if_pos rfl]), hc hP⟩
  · exact ⟨d, hd, hP⟩

theorem exists_self (h : calls[i]? = some c) (hc : P c') : ∃ d ∈ calls.set i c', P d :=
  ⟨c', List.mem_of_getElem? (by rw [get_set h, if_pos rfl]), hc⟩

theorem get_before (h : calls[j]? = some d) (more : List κ) : (calls ++ more)[j]? = some d := by
  rw [List.getElem?_append_left (List.getElem?_eq_some_iff.mp h).1, h]

theorem countP_set (h : calls[i]? = some c) (c' : κ) (p : κ → Bool) :
    (calls.set i c').countP p + (if p c then 1 else 0) = calls.countP p + (if p c' then 1 else 0) := by
  obtain ⟨hlt, rfl⟩ := List.getElem?_eq_some_iff.mp h
  have hpos : (if p calls[i] then 1 else 0) ≤ calls.countP p := by
    split
    · next hp => exact List.countP_pos_iff.mpr ⟨_, List.getElem_mem hlt, hp⟩
    · exact Nat.zero_le _
  rw [List.countP_set hlt]
  omega

theorem countP_begin (c : κ) (p : κ → Bool) :
    (calls ++ [c]).countP p = calls.countP p + (if p c then 1 else 0) := by
  rw [List.countP_append, List.countP_singleton]

theorem sum_set (h : calls[i]? = some c) (c' : κ) (f : κ → Nat) :
    ((calls.set i c').map f).sum + f c = (calls.map f).sum + f c' := by
  induction calls generalizing i with
  | nil => cases h
  | cons d rest ih =>
    cases i with
    | zero =>
      cases h
      simp only [List.set_cons_zero, List.map_cons, List.sum_cons]
      omega
    | succ i =>
      have hrest := ih h
      simp only [List.set_cons_succ, List.map_cons, List.sum_cons]
      omega

theorem sum_begin (c : κ) (f : κ → Nat) : ((calls ++ [c]).map f).sum = (calls.map f).sum + f c := by
  rw [List.map_append, List.sum_append, List.map_singleton, List.sum_singleton]

theorem split (h : calls[i]? = some c) : ∃ before after, calls = before ++ c :: after ∧
    (∀ c', calls.set i c' = before ++ c' :: after) ∧ calls.eraseIdx i = before ++ after := by
  obtain ⟨hlt, rfl⟩ := List.getElem?_eq_some_iff.mp h
  refine ⟨calls.take i, calls.drop (i + 1), ?_, fun c' => ?_, List.eraseIdx_eq_take_drop_succ _ _⟩
  · rw [← List.drop_eq_getElem_cons hlt, List.take_append_drop]
  · rw [List.set_eq_take_append_cons_drop, if_pos hlt]

theorem of_get (h : ∀ d ∈ calls, P d) (hc : calls[i]? = some c) : P c :=
  h c (List.mem_of_getElem? hc)

end Calls
