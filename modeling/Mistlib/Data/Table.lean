import Mathlib.Data.List.AList
import Mathlib.Data.List.Perm.Basic
import Mathlib.Algebra.Order.BigOperators.Group.List
import Mathlib.Algebra.Order.Ring.Nat

/-!
# Tables

A hash map of the source is an association list with one entry a key. Lookup, insertion and
erasure are the ones of `AList`. This module adds `retain`, an update of every value, a count
and a sum over the values, and says how each answers a lookup.

The order of the entries stands for the iteration order of the hash map, which nothing fixes.
`Table.Shuffle` relates two tables that differ in that order alone.
-/

/-- A finite map from `K` to `V`. -/
def Table (K : Type*) (V : Type*) := AList (fun _ : K => V)

namespace Table

variable {K V : Type*}

def entries (t : Table K V) : List (Σ _ : K, V) := AList.entries t

def empty : Table K V := (∅ : AList fun _ : K => V)

instance : EmptyCollection (Table K V) := ⟨empty⟩

instance : Inhabited (Table K V) := ⟨∅⟩

def size (t : Table K V) : Nat := t.entries.length

def keys (t : Table K V) : List K := t.entries.map (·.1)

def values (t : Table K V) : List V := t.entries.map (·.2)

def sumBy (f : V → Nat) (t : Table K V) : Nat := (t.values.map f).sum

def retain (p : K → V → Bool) (t : Table K V) : Table K V where
  entries := t.entries.filter fun e => p e.1 e.2
  nodupKeys := List.NodupKeys.sublist List.filter_sublist t.nodupKeys

def mapVals (f : K → V → V) (t : Table K V) : Table K V where
  entries := t.entries.map fun e => ⟨e.1, f e.1 e.2⟩
  nodupKeys := by
    rw [List.NodupKeys, List.keys, List.map_map]
    exact t.nodupKeys

def map {W : Type*} (f : V → W) (t : Table K V) : Table K W where
  entries := t.entries.map fun e => ⟨e.1, f e.2⟩
  nodupKeys := by
    rw [List.NodupKeys, List.keys, List.map_map]
    exact t.nodupKeys

/-- `iter().min_by_key(..)`: the first entry with the least measure, in
iteration order. -/
def minByKey (f : V → Nat) : List (Σ _ : K, V) → Option (Σ _ : K, V)
  | [] => none
  | e :: es =>
    match minByKey f es with
    | none => some e
    | some m => if f m.2 < f e.2 then some m else some e

/-- The same entries in another iteration order. -/
def Shuffle (t u : Table K V) : Prop := t.entries.Perm u.entries

theorem Shuffle.refl (t : Table K V) : t.Shuffle t := List.Perm.refl _

theorem keys_nodup (t : Table K V) : t.keys.Nodup := t.nodupKeys

variable [DecidableEq K]

instance [DecidableEq V] : DecidableEq (Table K V) := fun t u =>
  decidable_of_iff (t.entries = u.entries) AList.ext_iff.symm

def get (t : Table K V) (k : K) : Option V := AList.lookup k t

def contains (t : Table K V) (k : K) : Bool := (t.get k).isSome

def insert (t : Table K V) (k : K) (v : V) : Table K V := AList.insert k v t

def erase (t : Table K V) (k : K) : Table K V := AList.erase k t

def modify (t : Table K V) (k : K) (f : V → V) : Table K V :=
  t.mapVals fun k' v => if k' = k then f v else v

variable {k : K} {v : V}

theorem get_eq_some_iff {t : Table K V} : t.get k = some v ↔ (⟨k, v⟩ : Σ _ : K, V) ∈ t.entries :=
  AList.mem_lookup_iff

variable {u : Table K V}

variable {t : Table K V}

theorem Shuffle.get (h : t.Shuffle u) (k : K) : t.get k = u.get k :=
  AList.perm_lookup h

@[simp] theorem get_empty (k : K) : (∅ : Table K V).get k = none := AList.lookup_empty k

theorem get_insert (t : Table K V) (k k' : K) (v : V) :
    (t.insert k v).get k' = if k' = k then some v else t.get k' := by
  by_cases h : k' = k
  · subst h
    rw [if_pos rfl]
    exact AList.lookup_insert t
  · rw [if_neg h]
    exact AList.lookup_insert_ne h

@[simp] theorem get_insert_self (t : Table K V) (k : K) (v : V) :
    (t.insert k v).get k = some v := by
  simp [get_insert]

theorem get_erase (t : Table K V) (k k' : K) :
    (t.erase k).get k' = if k' = k then none else t.get k' := by
  by_cases h : k' = k
  · subst h
    rw [if_pos rfl]
    exact AList.lookup_erase k' t
  · rw [if_neg h]
    exact AList.lookup_erase_ne h

@[simp] theorem get_retain (p : K → V → Bool) (t : Table K V) (k : K) :
    (t.retain p).get k = (t.get k).filter (p k) := by
  ext v
  rw [get_eq_some_iff, Option.filter_eq_some_iff, get_eq_some_iff]
  simp only [entries, retain, List.mem_filter]

@[simp] theorem get_mapVals (f : K → V → V) (t : Table K V) (k : K) :
    (t.mapVals f).get k = (t.get k).map (f k) := by
  ext v
  rw [get_eq_some_iff, Option.map_eq_some_iff]
  simp only [entries, mapVals, List.mem_map]
  constructor
  · rintro ⟨⟨k', v'⟩, hmem, heq⟩
    cases heq
    exact ⟨v', get_eq_some_iff.mpr hmem, rfl⟩
  · rintro ⟨v', hlook, rfl⟩
    exact ⟨⟨k, v'⟩, get_eq_some_iff.mp hlook, rfl⟩

theorem mapVals_congr {f g : K → V → V} (h : ∀ k v, t.get k = some v → f k v = g k v) :
    t.mapVals f = t.mapVals g := by
  apply AList.ext
  refine List.map_congr_left fun e he => ?_
  rw [h e.1 e.2 (get_eq_some_iff.mpr he)]

@[simp] theorem get_modify (t : Table K V) (k k' : K) (f : V → V) :
    (t.modify k f).get k' = if k' = k then (t.get k').map f else t.get k' := by
  by_cases h : k' = k
  · simp [modify, h]
  · simp [modify, h]

theorem contains_iff : t.contains k ↔ ∃ v, t.get k = some v :=
  Option.isSome_iff_exists

theorem mem_keys_iff : k ∈ t.keys ↔ ∃ v, t.get k = some v := by
  simp only [keys, List.mem_map, get_eq_some_iff]
  constructor
  · rintro ⟨⟨k', v⟩, hmem, rfl⟩
    exact ⟨v, hmem⟩
  · rintro ⟨v, hmem⟩
    exact ⟨⟨k, v⟩, hmem, rfl⟩

theorem mem_values_iff : v ∈ t.values ↔ ∃ k, t.get k = some v := by
  simp only [values, List.mem_map, get_eq_some_iff]
  constructor
  · rintro ⟨⟨k, v'⟩, hmem, rfl⟩
    exact ⟨k, hmem⟩
  · rintro ⟨k, hmem⟩
    exact ⟨⟨k, v⟩, hmem, rfl⟩

theorem entries_insert (t : Table K V) (k : K) (v : V) :
    (t.insert k v).entries = ⟨k, v⟩ :: (t.erase k).entries :=
  AList.entries_insert

theorem entries_perm_of_get (h : t.get k = some v) :
    t.entries.Perm (⟨k, v⟩ :: (t.erase k).entries) := by
  rw [← entries_insert]
  refine (List.perm_ext_iff_of_nodup t.nodupKeys.nodup (t.insert k v).nodupKeys.nodup).mpr ?_
  rintro ⟨k', v'⟩
  change _ ∈ t.entries ↔ _ ∈ (t.insert k v).entries
  rw [← get_eq_some_iff, ← get_eq_some_iff, get_insert]
  by_cases hk : k' = k
  · subst hk
    simp [h]
  · simp [hk]

theorem size_of_get (h : t.get k = some v) : t.size = (t.erase k).size + 1 := by
  simpa [size] using (entries_perm_of_get h).length_eq

/-- A sum over a table, with one entry taken out. -/
theorem sumBy_of_get (f : V → Nat) (h : t.get k = some v) :
    t.sumBy f = f v + (t.erase k).sumBy f := by
  have hperm := (entries_perm_of_get h).map (fun e => f e.2)
  simpa [sumBy, values, Function.comp_def] using hperm.sum_eq

theorem erase_of_get_none (h : t.get k = none) : t.erase k = t := by
  apply AList.ext
  exact List.kerase_of_notMem_keys (AList.lookup_eq_none.mp h)

theorem size_insert (t : Table K V) (k : K) (v : V) :
    (t.insert k v).size = (t.erase k).size + 1 := by
  simp [size, entries_insert]

theorem sumBy_insert (f : V → Nat) (t : Table K V) (k : K) (v : V) :
    (t.insert k v).sumBy f = f v + (t.erase k).sumBy f := by
  simp [sumBy, values, entries_insert]

/-- The keys with a measure of their values. -/
def measures (f : V → Nat) (t : Table K V) : List (K × Nat) := t.entries.map fun e => (e.1, f e.2)

theorem mem_measures {f : V → Nat} {n : Nat} :
    (k, n) ∈ t.measures f ↔ (t.get k).map f = some n := by
  simp only [measures, List.mem_map, Option.map_eq_some_iff, get_eq_some_iff]
  constructor
  · rintro ⟨⟨k', v⟩, hmem, heq⟩
    cases heq
    exact ⟨v, hmem, rfl⟩
  · rintro ⟨v, hmem, rfl⟩
    exact ⟨⟨k, v⟩, hmem, rfl⟩

omit [DecidableEq K] in
theorem measures_nodup (f : V → Nat) (t : Table K V) : (t.measures f).Nodup := by
  refine List.Nodup.of_map Prod.fst ?_
  rw [measures, List.map_map]
  exact t.nodupKeys

theorem sumBy_congr {W : Type*} {f : V → Nat} {g : W → Nat} {t : Table K V} {u : Table K W}
    (h : ∀ k, (t.get k).map f = (u.get k).map g) : t.sumBy f = u.sumBy g := by
  have hperm : (t.measures f).Perm (u.measures g) := by
    refine (List.perm_ext_iff_of_nodup (measures_nodup f t) (measures_nodup g u)).mpr ?_
    rintro ⟨k, n⟩
    rw [mem_measures, mem_measures, h]
  have hsum := (hperm.map Prod.snd).sum_eq
  simpa [measures, sumBy, values, Function.comp_def] using hsum

theorem entries_filter_key (t : Table K V) (k : K) :
    t.entries.filter (·.1 = k) = ((t.get k).map fun v => (⟨k, v⟩ : Σ _ : K, V)).toList := by
  have hnodup : (t.entries.filter (·.1 = k)).Nodup := t.nodupKeys.nodup.filter _
  cases hget : t.get k with
  | none =>
    refine List.filter_eq_nil_iff.mpr fun e he => ?_
    simp only [decide_eq_true_eq]
    rintro rfl
    have : t.get e.1 = some e.2 := get_eq_some_iff.mpr he
    rw [hget] at this
    cases this
  | some v =>
    refine List.perm_singleton.mp ((List.perm_ext_iff_of_nodup hnodup (List.nodup_singleton _)).mpr ?_)
    rintro ⟨k', v'⟩
    simp only [List.mem_filter, decide_eq_true_eq, List.mem_singleton, ← get_eq_some_iff]
    constructor
    · rintro ⟨hmem, rfl⟩
      rw [hget] at hmem
      cases hmem
      rfl
    · intro h
      cases h
      exact ⟨hget, rfl⟩

/-! ### The least entry -/

section Least

variable {f : V → Nat}

variable {entries : List (Σ _ : K, V)}

omit [DecidableEq K] in
theorem minByKey_eq_none : minByKey f entries = none ↔ entries = [] := by
  cases entries with
  | nil => exact iff_of_true rfl rfl
  | cons e rest =>
    refine iff_of_false ?_ (List.cons_ne_nil _ _)
    simp only [minByKey]
    split
    · exact Option.some_ne_none _
    · split <;> exact Option.some_ne_none _

omit [DecidableEq K] in
theorem minByKey_mem {e : Σ _ : K, V} (h : minByKey f entries = some e) : e ∈ entries := by
  induction entries with
  | nil => cases h
  | cons e' rest ih =>
    simp only [minByKey] at h
    split at h
    · cases h
      exact List.mem_cons_self
    · next m hm =>
      split at h
      · cases h
        exact List.mem_cons_of_mem _ (ih hm)
      · cases h
        exact List.mem_cons_self

omit [DecidableEq K] in
theorem minByKey_le {e x : Σ _ : K, V} (h : minByKey f entries = some e) (hx : x ∈ entries) :
    f e.2 ≤ f x.2 := by
  induction entries generalizing e with
  | nil => cases h
  | cons e' rest ih =>
    simp only [minByKey] at h
    split at h
    · next hnone =>
      cases h
      rw [minByKey_eq_none.mp hnone] at hx
      rw [List.mem_singleton.mp hx]
    · next m hm =>
      split at h
      · next hlt =>
        cases h
        rcases List.mem_cons.mp hx with rfl | hx
        · exact Nat.le_of_lt hlt
        · exact ih hm hx
      · next hnot =>
        cases h
        rcases List.mem_cons.mp hx with rfl | hx
        · exact le_rfl
        · exact Nat.le_trans (Nat.le_of_not_lt hnot) (ih hm hx)

end Least

/-! ### Images -/

section Image

variable {W : Type*} (f : V → W) (t : Table K V)

omit [DecidableEq K] in
theorem entries_map : (t.map f).entries = t.entries.map fun e => ⟨e.1, f e.2⟩ := rfl

omit [DecidableEq K] in
@[simp] theorem size_map : (t.map f).size = t.size := by
  simp [size, entries_map]

@[simp] theorem get_map (k : K) : (t.map f).get k = (t.get k).map f := by
  ext w
  simp only [get_eq_some_iff, entries_map, List.mem_map, Option.map_eq_some_iff]
  constructor
  · rintro ⟨⟨k', v⟩, hmem, heq⟩
    cases heq
    exact ⟨v, hmem, rfl⟩
  · rintro ⟨v, hmem, rfl⟩
    exact ⟨⟨k, v⟩, hmem, rfl⟩

@[simp] theorem contains_map (k : K) : (t.map f).contains k = t.contains k := by
  simp [contains]

theorem erase_map (k : K) : (t.map f).erase k = (t.erase k).map f := by
  apply AList.ext
  change List.kerase k (t.entries.map fun e => (⟨e.1, f e.2⟩ : Σ _ : K, W)) =
    (List.kerase k t.entries).map fun e => ⟨e.1, f e.2⟩
  induction t.entries with
  | nil => rfl
  | cons e rest ih =>
    by_cases h : k = e.1
    · have h' : k = (⟨e.1, f e.2⟩ : Σ _ : K, W).1 := h
      rw [List.map_cons, List.kerase_cons_eq h, List.kerase_cons_eq h']
    · have h' : k ≠ (⟨e.1, f e.2⟩ : Σ _ : K, W).1 := h
      rw [List.map_cons, List.kerase_cons_ne h, List.kerase_cons_ne h', List.map_cons, ih]

theorem insert_map (k : K) (v : V) : (t.map f).insert k (f v) = (t.insert k v).map f := by
  apply AList.ext
  change ((t.map f).insert k (f v)).entries = ((t.insert k v).map f).entries
  rw [entries_insert, entries_map, entries_insert, erase_map]
  rfl

omit [DecidableEq K] in
theorem minByKey_map (g : W → Nat) (entries : List (Σ _ : K, V)) :
    minByKey g (entries.map fun e => (⟨e.1, f e.2⟩ : Σ _ : K, W)) =
      (minByKey (fun v => g (f v)) entries).map fun e => ⟨e.1, f e.2⟩ := by
  induction entries with
  | nil => rfl
  | cons e rest ih =>
    simp only [List.map_cons, minByKey, ih]
    cases minByKey (fun v => g (f v)) rest with
    | none => rfl
    | some m =>
      simp only [Option.map_some]
      split <;> rfl

omit [DecidableEq K] in
theorem mapVals_map {g : K → W → W} {g' : K → V → V} (h : ∀ k v, g k (f v) = f (g' k v)) :
    (t.map f).mapVals g = (t.mapVals g').map f := by
  apply AList.ext
  change (t.entries.map fun e => (⟨e.1, f e.2⟩ : Σ _ : K, W)).map _ = (t.entries.map _).map _
  rw [List.map_map, List.map_map]
  refine List.map_congr_left fun e _ => ?_
  simp only [Function.comp_apply, h]

omit [DecidableEq K] in
theorem Shuffle.of_map {u : Table K W} (h : (t.map f).Shuffle u) :
    ∃ v : Table K V, t.Shuffle v ∧ v.map f = u := by
  have hlift := congrFun₂ (List.eq_map_comp_perm fun e : (Σ _ : K, V) => (⟨e.1, f e.2⟩ : Σ _ : K, W))
    u.entries t.entries
  have hperm := h.symm
  obtain ⟨entries, hentries, hsame⟩ := hlift.mpr hperm
  have hnodup : entries.NodupKeys := (List.perm_nodupKeys hsame.symm).mp t.nodupKeys
  refine ⟨⟨entries, hnodup⟩, hsame.symm, ?_⟩
  apply AList.ext
  exact hentries.symm

end Image

omit [DecidableEq K] in
theorem size_retain_le (p : K → V → Bool) (t : Table K V) : (t.retain p).size ≤ t.size :=
  List.length_filter_le _ _

omit [DecidableEq K] in
theorem sumBy_retain_le (f : V → Nat) (p : K → V → Bool) (t : Table K V) :
    (t.retain p).sumBy f ≤ t.sumBy f := by
  have hsub : ((t.retain p).values.map f).Sublist (t.values.map f) :=
    (List.filter_sublist.map _).map f
  exact hsub.sum_le_sum fun n _ => Nat.zero_le n

theorem sumBy_le_of_get {f : V → Nat} {t : Table K V}
    (h : ∀ k, ((t.get k).map f).getD 0 ≤ ((u.get k).map f).getD 0) : t.sumBy f ≤ u.sumBy f := by
  generalize hn : t.size = n
  induction n generalizing t u with
  | zero =>
    have hnil : t.entries = [] := List.eq_nil_of_length_eq_zero hn
    rw [sumBy, values, hnil]
    exact Nat.zero_le _
  | succ n ih =>
    obtain ⟨e, es, hes⟩ := List.exists_cons_of_length_eq_add_one hn
    have hget : t.get e.1 = some e.2 := get_eq_some_iff.mpr (by rw [hes]; exact List.mem_cons_self)
    have hsize : (t.erase e.1).size = n := by
      have := size_of_get hget
      omega
    have hhead := h e.1
    rw [hget, Option.map_some, Option.getD_some] at hhead
    rw [sumBy_of_get f hget]
    cases hu : u.get e.1 with
    | none =>
      rw [hu, Option.map_none, Option.getD_none] at hhead
      have hrest : (t.erase e.1).sumBy f ≤ u.sumBy f := by
        refine ih (fun k => ?_) hsize
        rw [get_erase]
        split
        · exact Nat.zero_le _
        · exact h k
      omega
    | some w =>
      rw [hu, Option.map_some, Option.getD_some] at hhead
      have hrest : (t.erase e.1).sumBy f ≤ (u.erase e.1).sumBy f := by
        refine ih (fun k => ?_) hsize
        rw [get_erase, get_erase]
        split
        · exact le_rfl
        · exact h k
      rw [sumBy_of_get f hu]
      omega

theorem sumBy_le_of_subset {f : V → Nat} {t : Table K V}
    (h : ∀ {k v}, t.get k = some v → u.get k = some v) : t.sumBy f ≤ u.sumBy f := by
  refine sumBy_le_of_get fun k => ?_
  cases ht : t.get k with
  | none => exact Nat.zero_le _
  | some v => rw [h ht]

omit [DecidableEq K] in
theorem size_eq_sumBy (t : Table K V) : t.size = t.sumBy fun _ => 1 := by
  simp [size, sumBy, values, Function.comp_def]

theorem size_le_of_subset {t : Table K V} (h : ∀ {k v}, t.get k = some v → u.get k = some v) :
    t.size ≤ u.size := by
  rw [size_eq_sumBy, size_eq_sumBy]
  exact sumBy_le_of_subset h

/-! ## Tables from lists -/

/-- The table of a list of pairs, the later one of two with the same key. -/
def collect (pairs : List (K × V)) : Table K V := pairs.foldl (fun t e => t.insert e.1 e.2) ∅

theorem get_foldl_insert {pairs : List (K × V)} (hkeys : (pairs.map Prod.fst).Nodup) (t : Table K V) (k : K) (v : V) :
    (pairs.foldl (fun t e => t.insert e.1 e.2) t).get k = some v ↔
      (k, v) ∈ pairs ∨ k ∉ pairs.map Prod.fst ∧ t.get k = some v := by
  induction pairs generalizing t with
  | nil => simp
  | cons e rest ih =>
    obtain ⟨hnew, hrest⟩ := List.nodup_cons.mp hkeys
    rw [List.foldl_cons, ih hrest, get_insert]
    by_cases hk : k = e.1
    · subst hk
      have hnot : (e.1, v) ∉ rest := fun hmem => hnew (List.mem_map.mpr ⟨_, hmem, rfl⟩)
      simp [hnew, hnot, Prod.ext_iff, eq_comm]
    · simp [hk, Prod.ext_iff]

theorem get_collect {pairs : List (K × V)} (hkeys : (pairs.map Prod.fst).Nodup) :
    (collect pairs).get k = some v ↔ (k, v) ∈ pairs := by
  unfold collect
  rw [get_foldl_insert hkeys]
  simp

end Table
