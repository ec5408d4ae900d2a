import Mathlib.Data.List.Sort

/-!
# Lists by a comparison

Sorting by a comparison, and the least and the greatest element under one. The
sort is stable, the least element is the first of its equals and the greatest one
the last.
-/

namespace Comparing

variable {α : Type} {cmp : α → α → Ordering} {l : List α} {x : α}

def sortBy (cmp : α → α → Ordering) (l : List α) : List α := l.mergeSort fun a b => cmp a b != .gt

/-- Sorting loses nothing and adds nothing. -/
theorem sortBy_perm (cmp : α → α → Ordering) (l : List α) : (sortBy cmp l).Perm l := List.mergeSort_perm l _

theorem mem_sortBy : x ∈ sortBy cmp l ↔ x ∈ l := (sortBy_perm cmp l).mem_iff

def minBy (cmp : α → α → Ordering) : List α → Option α
  | [] => none
  | first :: rest => some (rest.foldl (fun least x => if cmp least x = .gt then x else least) first)

def maxBy (cmp : α → α → Ordering) : List α → Option α
  | [] => none
  | first :: rest => some (rest.foldl (fun greatest x => if cmp greatest x = .gt then greatest else x) first)

theorem foldl_mem {choose : α → α → α} (hchoose : ∀ a b, choose a b = a ∨ choose a b = b) (first : α)
    (rest : List α) : rest.foldl choose first ∈ first :: rest := by
  induction rest generalizing first with
  | nil => exact List.mem_cons_self
  | cons x rest ih =>
    rw [List.foldl_cons]
    rcases List.mem_cons.mp (ih (choose first x)) with heq | hmem
    · rw [heq]
      rcases hchoose first x with hfirst | hx
      · rw [hfirst]
        exact List.mem_cons_self
      · rw [hx]
        exact List.mem_cons_of_mem _ List.mem_cons_self
    · exact List.mem_cons_of_mem _ (List.mem_cons_of_mem _ hmem)

theorem mem_of_minBy (h : minBy cmp l = some x) : x ∈ l := by
  cases l with
  | nil => cases h
  | cons first rest =>
    cases h
    refine foldl_mem (fun a b => ?_) first rest
    split
    · exact .inr rfl
    · exact .inl rfl

theorem mem_of_maxBy (h : maxBy cmp l = some x) : x ∈ l := by
  cases l with
  | nil => cases h
  | cons first rest =>
    cases h
    refine foldl_mem (fun a b => ?_) first rest
    split
    · exact .inl rfl
    · exact .inr rfl

end Comparing
