import Mathlib.Data.List.GetD
import Mathlib.Data.List.Nodup
import Mathlib.Data.List.Sort
import Mathlib.Data.List.Destutter

/-!
# Walking back on a ring

A list read as a ring, its last element before its first. Walking back from a
place meets every other place once, nearest first: what is before it in the
list, from the end, and then what is behind it, from the end.
-/

namespace Ring

variable {α β : Type*}

/-- What is met walking back from place `i` around the ring. -/
def before (l : List α) (i : Nat) : List α := (l.take i).reverse ++ (l.drop (i + 1)).reverse

variable {l : List α} {i : Nat}

theorem length_before (h : i < l.length) : (before l i).length = l.length - 1 := by
  simp only [before, List.length_append, List.length_reverse, List.length_take, List.length_drop]
  omega

theorem map_range_eq_before (h : i < l.length) (d : α) :
    (List.range' 1 (l.length - 1)).map (fun offset =>
      l.getD ((i + l.length - offset) % l.length) d) = before l i := by
  refine List.ext_getElem (by rw [List.length_map, List.length_range', length_before h]) ?_
  intro k hk _
  rw [List.length_map, List.length_range'] at hk
  have hlt : (i + l.length - (1 + k)) % l.length < l.length := Nat.mod_lt _ (by omega)
  simp only [List.getElem_map, List.getElem_range', Nat.one_mul, before]
  rw [List.getD_eq_getElem l d hlt]
  by_cases hki : k < i
  · have hmod : (i + l.length - (1 + k)) % l.length = i - 1 - k := by
      rw [show i + l.length - (1 + k) = i - 1 - k + l.length by omega, Nat.add_mod_right,
        Nat.mod_eq_of_lt (by omega)]
    have hlen : k < (l.take i).reverse.length := by
      rw [List.length_reverse, List.length_take]
      omega
    rw [List.getElem_append_left hlen, List.getElem_reverse, List.getElem_take]
    congr 1
    rw [hmod, List.length_take]
    omega
  · have hmod : (i + l.length - (1 + k)) % l.length = i + l.length - (1 + k) :=
      Nat.mod_eq_of_lt (by omega)
    have hlen : (l.take i).reverse.length ≤ k := by
      rw [List.length_reverse, List.length_take]
      omega
    rw [List.getElem_append_right hlen, List.getElem_reverse, List.getElem_drop]
    congr 1
    rw [hmod, List.length_reverse, List.length_take, List.length_drop]
    omega

theorem cons_before_perm (h : i < l.length) : (l[i] :: before l i).Perm l := by
  have hsplit : l = l.take i ++ l[i] :: l.drop (i + 1) := by
    rw [List.getElem_cons_drop, List.take_append_drop]
  calc (l[i] :: before l i).Perm (l[i] :: (l.take i ++ l.drop (i + 1))) :=
        ((List.reverse_perm _).append (List.reverse_perm _)).cons _
    _ |>.Perm (l.take i ++ l[i] :: l.drop (i + 1)) := List.perm_middle.symm
    _ |>.Perm l := List.Perm.of_eq hsplit.symm

theorem map_before (f : α → β) (l : List α) (i : Nat) :
    (before l i).map f = before (l.map f) i := by
  rw [before, before, List.map_append, List.map_reverse, List.map_reverse, List.map_take,
    List.map_drop]

theorem insertionSort_eq_of_perm {r : α → α → Prop} [DecidableRel r] [Std.Total r] [IsTrans α r]
    [Std.Antisymm r] {l' : List α} (h : l.Perm l') :
    l.insertionSort r = l'.insertionSort r := by
  have hperm : (l.insertionSort r).Perm (l'.insertionSort r) :=
    calc (l.insertionSort r).Perm l := List.perm_insertionSort r l
      _ |>.Perm l' := h
      _ |>.Perm (l'.insertionSort r) := (List.perm_insertionSort r l').symm
  exact hperm.eq_of_pairwise' (List.pairwise_insertionSort r l) (List.pairwise_insertionSort r l')

theorem destutter_eq_self {f : α → β} [DecidableEq β] (h : (l.map f).Nodup) :
    l.destutter (fun a b => f a ≠ f b) = l := by
  have hchain : l.IsChain fun a b => f a ≠ f b := (List.pairwise_map.mp h).isChain
  exact List.destutter_of_isChain _ _ hchain

end Ring
