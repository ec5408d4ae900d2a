import Mathlib.Algebra.Ring.Nat
import Mathlib.Data.List.Infix

/-!
# The shortest prefix that weighs enough

To come by a weight from items in a given order, one takes them from the front and stops as soon
as they weigh enough. `Portion` says what is taken, and `Portion.unique` that there is only one.
-/

namespace Mistlib

/-- The shortest prefix of the items that weighs what is needed; all of them where
together they weigh less. -/
structure Portion {α : Type*} (weight : α → Nat) (need : Nat) (items taken : List α) : Prop where
  front : taken <+: items
  enough : need ≤ (taken.map weight).sum ∨ taken = items
  /-- Without its last item it is too light. -/
  tight : ∀ rest last, taken = rest ++ [last] → (rest.map weight).sum < need

namespace Portion

variable {α : Type*} {weight : α → Nat} {need : Nat} {items taken taken' : List α} {x : α}

theorem of_nil : Portion weight need [] [] where
  front := List.prefix_rfl
  enough := Or.inr rfl
  tight := by
    intro rest last h
    simp at h

theorem of_none_needed : Portion weight 0 items [] where
  front := List.nil_prefix
  enough := Or.inl (Nat.zero_le _)
  tight := by
    intro rest last h
    simp at h

theorem cons (hneed : 0 < need) (h : Portion weight (need - weight x) items taken) :
    Portion weight need (x :: items) (x :: taken) where
  front := List.cons_prefix_cons.mpr ⟨rfl, h.front⟩
  enough := by
    rw [List.map_cons, List.sum_cons]
    obtain henough | hall := h.enough
    · left
      omega
    · right
      rw [hall]
  tight := by
    intro rest last heq
    cases rest with
    | nil => exact hneed
    | cons y rest =>
      rw [List.cons_append, List.cons.injEq] at heq
      obtain ⟨rfl, heq⟩ := heq
      have hlight := h.tight rest last heq
      rw [List.map_cons, List.sum_cons]
      omega

theorem shortest (h : Portion weight need items taken) {part : List α} (hpart : part <+: items)
    (henough : need ≤ (part.map weight).sum) : taken <+: part := by
  refine List.prefix_of_prefix_length_le h.front hpart (Nat.not_lt.mp fun hlt => ?_)
  -- a shorter part is within what was taken before the last item
  obtain rfl | ⟨rest, last, rfl⟩ := List.eq_nil_or_concat' taken
  · exact Nat.not_lt_zero _ hlt
  have hrest : rest <+: items := (List.prefix_append rest [last]).trans h.front
  have hlength : part.length ≤ rest.length := by
    rw [List.length_append, List.length_singleton] at hlt
    omega
  obtain ⟨more, rfl⟩ := List.prefix_of_prefix_length_le hpart hrest hlength
  have hlight := h.tight _ last rfl
  rw [List.map_append, List.sum_append] at hlight
  omega

/-- A need and a list leave one portion. -/
theorem unique (h : Portion weight need items taken) (h' : Portion weight need items taken') :
    taken = taken' := by
  have hfront : ∀ {t t' : List α}, Portion weight need items t → Portion weight need items t' →
      t <+: t' := by
    intro t t' ht ht'
    obtain henough | rfl := ht'.enough
    · exact ht.shortest ht'.front henough
    · exact ht.front
  exact (hfront h h').eq_of_length_le (hfront h' h).length_le

end Portion

end Mistlib
