import Std.Data.ExtTreeMap
import Mathlib.Data.List.Nodup
import Mathlib.Data.List.Perm.Basic

/-!
# Orders of last use

`Recency` is what a least-recently-used index stands for: the keys in use, the one
used last at the end. An index is a tree map from times to keys; `Lists` says that
its iteration order is such an order. A use at a time later than all others moves a
key to the end, in the index as in the order.
-/

open Std (ExtTreeMap)

/-- Keys in the order of their last use, each of them once. -/
@[ext] structure Recency (κ : Type*) where
  keys : List κ
  nodup : keys.Nodup

namespace Recency

variable {κ : Type*}

def empty : Recency κ := ⟨[], List.nodup_nil⟩

section Uses

variable [DecidableEq κ]

def drop (r : Recency κ) (key : κ) : Recency κ := ⟨r.keys.erase key, r.nodup.erase key⟩

theorem notMem_drop (r : Recency κ) (key : κ) : key ∉ (r.drop key).keys :=
  r.nodup.not_mem_erase

theorem drop_of_notMem {r : Recency κ} {key : κ} (h : key ∉ r.keys) : r.drop key = r :=
  Recency.ext (List.erase_of_not_mem h)

/-- A key is used, whether it was in use or not. -/
def use (r : Recency κ) (key : κ) : Recency κ where
  keys := (r.drop key).keys ++ [key]
  nodup := by
    refine List.Nodup.append (r.drop key).nodup (List.nodup_singleton key) ?_
    intro k hk hkey
    obtain rfl := List.mem_singleton.mp hkey
    exact r.notMem_drop k hk

theorem use_drop (r : Recency κ) (key : κ) : (r.drop key).use key = r.use key :=
  Recency.ext (by simp only [use, drop_of_notMem (r.notMem_drop key)])

/-- A key that is in use is used again. -/
def reuse (r : Recency κ) (key : κ) : Recency κ := if key ∈ r.keys then r.use key else r

end Uses

/-- An index iterates over the keys in this order. -/
def Lists (r : Recency κ) (index : ExtTreeMap Nat κ) : Prop :=
  index.toList.map Prod.snd = r.keys

theorem lists_empty : (empty : Recency κ).Lists ∅ := rfl

theorem entries_ext {l l' : List (Nat × κ)} (hl : l.Pairwise fun e e' => e.1 < e'.1)
    (hl' : l'.Pairwise fun e e' => e.1 < e'.1) (h : ∀ e, e ∈ l ↔ e ∈ l') : l = l' := by
  have hnodup : ∀ {l : List (Nat × κ)}, (l.Pairwise fun e e' => e.1 < e'.1) → l.Nodup := by
    intro l hasc
    refine hasc.imp fun {e e'} hlt heq => ?_
    rw [heq] at hlt
    exact Nat.lt_irrefl _ hlt
  have hperm := (List.perm_ext_iff_of_nodup (hnodup hl) (hnodup hl')).mpr h
  exact hperm.eq_of_pairwise (fun e e' _ _ hlt hgt => absurd hlt (Nat.lt_asymm hgt)) hl hl'

theorem toList_ascending (index : ExtTreeMap Nat κ) :
    index.toList.Pairwise fun e e' => e.1 < e'.1 :=
  ExtTreeMap.ordered_keys_toList.imp fun h => Nat.compare_eq_lt.mp h

theorem toList_insert_last {index : ExtTreeMap Nat κ} {time : Nat} (key : κ)
    (hlast : ∀ e ∈ index.toList, e.1 < time) :
    (index.insert time key).toList = index.toList ++ [(time, key)] := by
  refine entries_ext (toList_ascending _) ?_ ?_
  · refine List.pairwise_append.mpr ⟨toList_ascending index, List.pairwise_singleton _ _, ?_⟩
    intro e he e' he'
    obtain rfl := List.mem_singleton.mp he'
    exact hlast e he
  · rintro ⟨t, k⟩
    rw [ExtTreeMap.mem_toList_iff_getElem?_eq_some, ExtTreeMap.getElem?_insert, List.mem_append,
      List.mem_singleton, ExtTreeMap.mem_toList_iff_getElem?_eq_some, Prod.mk.injEq]
    by_cases ht : time = t
    · subst ht
      have hnone : index[time]? ≠ some k := fun hk =>
        Nat.lt_irrefl time (hlast (time, k) (ExtTreeMap.mem_toList_iff_getElem?_eq_some.mpr hk))
      simp [hnone, eq_comm]
    · have hne : ¬ t = time := fun h => ht h.symm
      simp [ht, hne]

theorem toList_erase (index : ExtTreeMap Nat κ) (time : Nat) :
    (index.erase time).toList = index.toList.filter fun e => e.1 ≠ time := by
  refine entries_ext (toList_ascending _) ((toList_ascending index).sublist List.filter_sublist) ?_
  rintro ⟨t, k⟩
  rw [ExtTreeMap.mem_toList_iff_getElem?_eq_some, ExtTreeMap.getElem?_erase, List.mem_filter,
    ExtTreeMap.mem_toList_iff_getElem?_eq_some, decide_eq_true_eq]
  by_cases ht : time = t
  · subst ht
    simp
  · have hne : ¬ t = time := fun h => ht h.symm
    simp [ht, hne]

section Lists

variable {r : Recency κ} {index : ExtTreeMap Nat κ}

variable {key : κ}

theorem Lists.mem_keys (h : r.Lists index) : key ∈ r.keys ↔ ∃ time : Nat, index[time]? = some key := by
  rw [← h, List.mem_map]
  constructor
  · rintro ⟨⟨time, k⟩, he, rfl⟩
    exact ⟨time, ExtTreeMap.mem_toList_iff_getElem?_eq_some.mp he⟩
  · rintro ⟨time, htime⟩
    exact ⟨(time, key), ExtTreeMap.mem_toList_iff_getElem?_eq_some.mpr htime, rfl⟩

theorem Lists.size (h : r.Lists index) : index.size = r.keys.length := by
  rw [← h, List.length_map, ExtTreeMap.length_toList]

variable {time : Nat}

theorem Lists.unique (h : r.Lists index) {time' : Nat} (htime : index[time]? = some key)
    (htime' : index[time']? = some key) : time = time' := by
  have hnodup : (index.toList.map Prod.snd).Nodup := by
    rw [h]
    exact r.nodup
  have heq := List.inj_on_of_nodup_map hnodup
    (ExtTreeMap.mem_toList_iff_getElem?_eq_some.mpr htime)
    (ExtTreeMap.mem_toList_iff_getElem?_eq_some.mpr htime') rfl
  exact congrArg Prod.fst heq

variable [DecidableEq κ]

theorem Lists.drop (h : r.Lists index) (htime : index[time]? = some key) :
    (r.drop key).Lists (index.erase time) := by
  show (index.erase time).toList.map Prod.snd = r.keys.erase key
  rw [toList_erase, r.nodup.erase_eq_filter, ← h, List.filter_map]
  refine congrArg (List.map Prod.snd) (List.filter_congr ?_)
  rintro ⟨t, k⟩ he
  have hk := ExtTreeMap.mem_toList_iff_getElem?_eq_some.mp he
  have hiff : t = time ↔ k = key := by
    constructor
    · rintro rfl
      exact Option.some.inj (hk.symm.trans htime)
    · rintro rfl
      exact h.unique hk htime
  by_cases hk : k = key
  · simp [hiff, hk]
  · simp [hiff, hk]

theorem Lists.insert (h : r.Lists index) (hnew : key ∉ r.keys)
    (hlast : ∀ t k, index[t]? = some k → t < time) : (r.use key).Lists (index.insert time key) := by
  show (index.insert time key).toList.map Prod.snd = r.keys.erase key ++ [key]
  rw [toList_insert_last key fun e he =>
    hlast e.1 e.2 (ExtTreeMap.mem_toList_iff_getElem?_eq_some.mp he), List.map_append, h,
    List.erase_of_not_mem hnew]
  rfl

/-- A use moves the key to the latest time. -/
theorem Lists.move (h : r.Lists index) {old : Nat} (hold : index[old]? = some key)
    (hlast : ∀ t k, index[t]? = some k → t < time) :
    (r.use key).Lists ((index.erase old).insert time key) := by
  rw [← r.use_drop key]
  refine (h.drop hold).insert (r.notMem_drop key) fun t k ht => ?_
  rw [ExtTreeMap.getElem?_erase] at ht
  split at ht
  · cases ht
  · exact hlast t k ht

end Lists

end Recency
