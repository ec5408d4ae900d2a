import Mathlib.Data.List.Basic
import Mathlib.Data.List.Count
import Mathlib.Tactic.Common

/-!
# Fair semaphores

A counting semaphore with a line of clients that wait for a permit. A permit that is released goes
to the first in line, and a client that finds none free goes to the end of it.
-/

structure Semaphore (κ : Type) where
  free : Nat
  line : List κ
deriving DecidableEq, Repr

namespace Semaphore

variable {κ : Type}

/-- The semaphore after a client asked for a permit, and whether it has one at once. -/
def acquire (s : Semaphore κ) (c : κ) : Semaphore κ × Bool :=
  if 0 < s.free then ({ s with free := s.free - 1 }, true) else ({ s with line := s.line ++ [c] }, false)

/-- The semaphore after a release, and the client that has the permit now. -/
def release (s : Semaphore κ) : Semaphore κ × Option κ :=
  match s.line with
  | [] => ({ s with free := s.free + 1 }, none)
  | c :: rest => ({ s with line := rest }, some c)

variable {s : Semaphore κ} {c d : κ} {n m : Nat}

theorem mem_acquire (h : d ≠ c) : c ∈ (s.acquire d).1.line ↔ c ∈ s.line := by
  unfold acquire
  split
  · exact Iff.rfl
  · rw [List.mem_append, List.mem_singleton]
    exact or_iff_left h.symm

theorem mem_release (h : c ∈ s.line) : s.release.2 = some c ∨ c ∈ s.release.1.line := by
  unfold release
  split
  · next hline => simp [hline] at h
  · next first rest hline =>
    rw [hline] at h
    exact (List.mem_cons.mp h).imp (fun hc => congrArg some hc.symm) id

theorem mem_of_mem_release (h : c ∈ s.release.1.line) : c ∈ s.line := by
  unfold release at h
  split at h
  · exact h
  · next first rest hline =>
    rw [hline]
    exact List.mem_cons_of_mem _ h

theorem mem_of_release (h : s.release.2 = some c) : c ∈ s.line := by
  unfold release at h
  split at h
  · cases h
  · next first rest hline =>
    cases h
    rw [hline]
    exact List.mem_cons_self

section Waiting

variable [DecidableEq κ]

/-- A client that waits, if it does, waits once and for fewer than `n` releases. -/
structure Within (s : Semaphore κ) (c : κ) (n : Nat) : Prop where
  once : s.line.count c ≤ 1
  ahead : c ∈ s.line → s.line.idxOf c < n

theorem Within.mono (h : s.Within c n) (hle : n ≤ m) : s.Within c m :=
  ⟨h.once, fun hc => Nat.lt_of_lt_of_le (h.ahead hc) hle⟩

theorem Within.of_notMem (h : c ∉ s.line) : s.Within c n :=
  ⟨by rw [List.count_eq_zero.mpr h]; exact Nat.zero_le 1, fun hc => absurd hc h⟩

theorem Within.acquire (h : s.Within c n) (hd : d ≠ c) : (s.acquire d).1.Within c n := by
  unfold Semaphore.acquire
  split
  · exact ⟨h.once, h.ahead⟩
  · refine ⟨?_, fun hc => ?_⟩
    · rw [List.count_append, List.count_singleton, if_neg (by simpa using hd)]
      exact h.once
    · have hmem : c ∈ s.line := (List.mem_append.mp hc).resolve_right fun hlast =>
        hd (List.mem_singleton.mp hlast).symm
      rw [List.idxOf_append_of_mem hmem]
      exact h.ahead hmem

theorem Within.acquire_self (h : c ∉ s.line) (hline : s.free = 0 → s.line.length < n) :
    (s.acquire c).1.Within c n := by
  unfold Semaphore.acquire
  split
  · exact .of_notMem h
  · next hnone =>
    refine ⟨?_, fun _ => ?_⟩
    · have hcount : (s.line ++ [c]).count c = 1 := by
        rw [List.count_append, List.count_eq_zero.mpr h, List.count_singleton_self]
      exact Nat.le_of_eq hcount
    · rw [List.idxOf_append_of_notMem h, List.idxOf_cons_self, Nat.add_zero]
      exact hline (by omega)

/-- A release brings everybody in line one place nearer. -/
theorem Within.release (h : s.Within c (n + 1)) : s.release.1.Within c n := by
  obtain ⟨honce, hahead⟩ := h
  unfold Semaphore.release
  split
  · next hline => exact .of_notMem (by simp [hline])
  · next first rest hline =>
    rw [hline] at honce hahead
    by_cases hfirst : first = c
    · subst hfirst
      rw [List.count_cons_self] at honce
      have hgone : rest.count first = 0 := by omega
      exact .of_notMem (List.count_eq_zero.mp hgone)
    · rw [List.count_cons_of_ne hfirst] at honce
      refine ⟨honce, fun hc => ?_⟩
      have hbehind := hahead (List.mem_cons_of_mem _ hc)
      rw [List.idxOf_cons_ne _ hfirst] at hbehind
      exact Nat.lt_of_succ_lt_succ hbehind

theorem notMem_release (h : s.Within c n) (hc : s.release.2 = some c) : c ∉ s.release.1.line := by
  obtain ⟨honce, _⟩ := h
  unfold release at hc ⊢
  split at hc
  · cases hc
  · next first rest hline =>
    cases hc
    rw [hline, List.count_cons_self] at honce
    have hgone : rest.count c = 0 := by omega
    exact List.count_eq_zero.mp hgone

end Waiting

end Semaphore
