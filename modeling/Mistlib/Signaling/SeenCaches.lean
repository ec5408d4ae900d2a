import Mathlib.Data.List.Dedup
import Mistlib.Signaling.Admission

/-!
# What the duplicate suppression remembers

The router drops envelopes it has seen, and the signaling layer events. Both keep a `TtlCache`;
the router lets message id 0 pass without a look at it. Here a cache is followed through any run
of such calls at times that do not decrease, the ties of the eviction falling either way.

An entry goes when its time is up, or when it is the oldest one of a full cache and a new key
comes. Then all the others and the new key were inserted at its time or later (`Kept.retained`),
so a key with fewer of those is remembered in full.
-/

namespace Mistlib

open Overlay

namespace Signaling

variable {K : Type} [DecidableEq K]

/-- One call of a cache; `fresh` is its answer, that the key is new. -/
structure Lookup (K : Type) where
  key : K
  time : Instant
  fresh : Bool

/-- A cache with what is special about its use: the keys that pass it by, and the call. -/
structure CacheUse (K : Type) where
  exempt : K → Bool
  checkAndInsert : TtlCache K → K → Instant → Bool × TtlCache K

namespace CacheUse

def overlaySeen : CacheUse (NodeId × Nat) where
  exempt key := key.2 = 0
  checkAndInsert c key now := OverlaySeenCache.checkAndInsert c key.1 key.2 now

def dedupe : CacheUse String where
  exempt _ := false
  checkAndInsert c key now := DedupeCache.checkAndInsert c key now

variable (use : CacheUse K)

/-- The cache and its calls, the latest first. -/
inductive Reached (ttl : Duration) (maxEntries : Nat) : TtlCache K → List (Lookup K) → Prop
  | new : Reached ttl maxEntries (.new ttl maxEntries) []
  /-- The map may come to be in another iteration order. -/
  | shuffle {c : TtlCache K} {past : List (Lookup K)} (before : Reached ttl maxEntries c past)
      (t : Table K Instant) (same : c.entries.Shuffle t) :
      Reached ttl maxEntries { c with entries := t } past
  | call {c : TtlCache K} {past : List (Lookup K)} (before : Reached ttl maxEntries c past) (key : K)
      (now : Instant) (later : ∀ x ∈ past, x.time ≤ now) :
      Reached ttl maxEntries (use.checkAndInsert c key now).2
        (⟨key, now, (use.checkAndInsert c key now).1⟩ :: past)

/-- The call put its key into the cache. -/
def inserts (x : Lookup K) : Bool := x.fresh && !use.exempt x.key

/-- The other keys that were put into the cache at the time or later. -/
def others (past : List (Lookup K)) (key : K) (time : Instant) : List K :=
  ((past.filter fun x => use.inserts x && decide (x.key ≠ key ∧ time ≤ x.time)).map (·.key)).dedup

/-- The cache remembers what it promises. -/
structure Remembers (c : TtlCache K) (past : List (Lookup K)) (ttl : Duration) (maxEntries : Nat) : Prop where
  bounded : c.entries.size ≤ maxEntries
  exempt : ∀ key, use.exempt key = true → c.entries.get key = none
  /-- Only what was inserted less than `ttl` ago counts as seen. -/
  sound : ∀ key now, (∀ x ∈ past, x.time ≤ now) → (use.checkAndInsert c key now).1 = false →
    ∃ x ∈ past, use.inserts x = true ∧ x.key = key ∧ now < x.time + ttl
  /-- What was inserted is seen until its time is up, unless too many others came. -/
  retains : ∀ x ∈ past, use.inserts x = true → (use.others past x.key x.time).length < maxEntries →
    ∀ now, (∀ y ∈ past, y.time ≤ now) → now < x.time + ttl → (use.checkAndInsert c x.key now).1 = false

end CacheUse

/-! ## A call -/

end Signaling

namespace Overlay.TtlCache

variable {K : Type} [DecidableEq K] {c : TtlCache K} {key : K} {now : Instant}

/-- The call that both uses have in common. -/
def checkAndInsert (c : TtlCache K) (key : K) (now : Instant) : Bool × TtlCache K :=
  let c := c.sweep now
  if c.entries.contains key then (false, c)
  else
    let c := c.evictOldestUntilBelowLimit
    (true, { c with entries := c.entries.insert key now })

/-- What the eviction takes was the oldest entry, at a time when there were too many. -/
theorem get_evictRounds {maxEntries : Nat} (rounds : Nat) {entries : Table K Instant} {t : Instant}
    (h : entries.get key = some t) : (evictRounds maxEntries rounds entries).get key = some t ∨
      ∃ full : Table K Instant, (∀ k t', full.get k = some t' → entries.get k = some t' ∧ t ≤ t') ∧
        full.get key = some t ∧ maxEntries ≤ full.size := by
  induction rounds generalizing entries with
  | zero => exact .inl h
  | succ rounds ih =>
    unfold evictRounds
    split
    · next hfull =>
      split
      · next e he =>
        by_cases holdest : key = e.1
        · have hget : entries.get e.1 = some e.2 := Table.get_eq_some_iff.mpr (Table.minByKey_mem he)
          rw [holdest, hget] at h
          cases h
          refine .inr ⟨entries, fun k t' hk => ⟨hk, ?_⟩, holdest ▸ hget, hfull⟩
          exact Table.minByKey_le he (Table.get_eq_some_iff.mp hk)
        · have hkept : (entries.erase e.1).get key = some t := by rw [Table.get_erase, if_neg holdest, h]
          refine (ih hkept).imp_right ?_
          rintro ⟨full, hsub, hget, hsize⟩
          refine ⟨full, fun k t' hk => ?_, hget, hsize⟩
          obtain ⟨hin, hle⟩ := hsub k t' hk
          rw [Table.get_erase] at hin
          split at hin
          · cases hin
          · exact ⟨hin, hle⟩
      · exact .inl h
    · exact .inl h

theorem size_evictRounds {maxEntries : Nat} (hmax : 1 ≤ maxEntries) {rounds : Nat}
    {entries : Table K Instant} (hrounds : entries.size ≤ rounds) :
    (evictRounds maxEntries rounds entries).size < maxEntries := by
  induction rounds generalizing entries with
  | zero => exact Nat.lt_of_le_of_lt hrounds hmax
  | succ rounds ih =>
    unfold evictRounds
    split
    · next hfull =>
      split
      · next e he =>
        have hget : entries.get e.1 = some e.2 := Table.get_eq_some_iff.mpr (Table.minByKey_mem he)
        have hsize := Table.size_of_get hget
        exact ih (by omega)
      · next hnone =>
        have hempty : entries.size = 0 := by
          rw [Table.size, Table.minByKey_eq_none.mp hnone]
          rfl
        omega
    · next hroom => exact Nat.lt_of_not_le hroom

end Overlay.TtlCache

namespace Signaling

/-- The call is that of the `TtlCache` for all keys but those that pass it by. -/
structure CacheUse.Plain {K : Type} [DecidableEq K] (use : CacheUse K) : Prop where
  passes : ∀ c key now, use.exempt key = true → use.checkAndInsert c key now = (true, c)
  looks : ∀ c key now, use.exempt key = false → use.checkAndInsert c key now = c.checkAndInsert key now

theorem CacheUse.overlaySeen_plain : CacheUse.overlaySeen.Plain where
  passes _ _ _ h := if_pos (of_decide_eq_true h)
  looks _ _ _ h := if_neg (of_decide_eq_false h)

theorem CacheUse.dedupe_plain : CacheUse.dedupe.Plain where
  passes _ _ _ h := Bool.noConfusion h
  looks _ _ _ _ := rfl

/-! ## What a run keeps -/

namespace CacheUse

variable {K : Type} [DecidableEq K] {use : CacheUse K} {c : TtlCache K} {past : List (Lookup K)} {key : K}
  {time now : Instant} {ttl : Duration} {maxEntries : Nat}

theorem mem_others {k : K} : k ∈ use.others past key time ↔
    ∃ x ∈ past, use.inserts x = true ∧ x.key ≠ key ∧ time ≤ x.time ∧ x.key = k := by
  simp only [others, List.mem_dedup, List.mem_map, List.mem_filter, Bool.and_eq_true, decide_eq_true_eq]
  constructor
  · rintro ⟨x, ⟨hx, hinserts, hne, hle⟩, rfl⟩
    exact ⟨x, hx, hinserts, hne, hle, rfl⟩
  · rintro ⟨x, hx, hinserts, hne, hle, rfl⟩
    exact ⟨x, ⟨hx, hinserts, hne, hle⟩, rfl⟩

theorem length_le_others {keys : List K} (hnodup : keys.Nodup) (hmem : ∀ k ∈ keys, k ∈ use.others past key time) :
    keys.length ≤ (use.others past key time).length :=
  (List.subperm_of_subset hnodup hmem).length_le

theorem others_cons_le (x : Lookup K) :
    (use.others past key time).length ≤ (use.others (x :: past) key time).length := by
  refine length_le_others (List.nodup_dedup _) fun k hk => ?_
  obtain ⟨y, hy, hinserts, hne, hle, rfl⟩ := mem_others.mp hk
  exact mem_others.mpr ⟨y, List.mem_cons_of_mem _ hy, hinserts, hne, hle, rfl⟩

/-- What the cache holds was inserted, and what was inserted is held until its time is
up, unless too many other keys came. -/
structure Kept (use : CacheUse K) (ttl : Duration) (maxEntries : Nat) (c : TtlCache K)
    (past : List (Lookup K)) : Prop where
  limits : c.ttl = ttl ∧ c.maxEntries = maxEntries
  bounded : c.entries.size ≤ maxEntries
  recorded : ∀ key t, c.entries.get key = some t →
    ∃ x ∈ past, use.inserts x = true ∧ x.key = key ∧ x.time = t
  retained : ∀ x ∈ past, use.inserts x = true → (use.others past x.key x.time).length < maxEntries →
    (∃ t, c.entries.get x.key = some t ∧ x.time ≤ t) ∨ ∃ y ∈ past, x.time + ttl ≤ y.time

namespace Kept

theorem new (ttl : Duration) (maxEntries : Nat) : Kept use ttl maxEntries (.new ttl maxEntries) [] :=
  ⟨⟨rfl, rfl⟩, Nat.zero_le _, by simp [TtlCache.new], nofun⟩

theorem shuffle (h : Kept use ttl maxEntries c past) {t : Table K Instant} (same : c.entries.Shuffle t) :
    Kept use ttl maxEntries { c with entries := t } past where
  limits := h.limits
  bounded := by
    have hsize : c.entries.size = t.size := same.length_eq
    exact hsize ▸ h.bounded
  recorded key t' hget := h.recorded key t' ((same.get key).trans hget)
  retained x hx hinserts hfew := by
    rw [← same.get x.key]
    exact h.retained x hx hinserts hfew

theorem passOver (h : Kept use ttl maxEntries c past) {x : Lookup K} (hx : use.inserts x = false) :
    Kept use ttl maxEntries c (x :: past) where
  limits := h.limits
  bounded := h.bounded
  recorded key t hget := by
    obtain ⟨y, hy, hkey⟩ := h.recorded key t hget
    exact ⟨y, List.mem_cons_of_mem _ hy, hkey⟩
  retained := by
    intro y hy hinserts hfew
    rcases List.mem_cons.mp hy with rfl | hy
    · exact absurd (hx.symm.trans hinserts) Bool.false_ne_true
    · rcases h.retained y hy hinserts (Nat.lt_of_le_of_lt (others_cons_le x) hfew) with hheld | ⟨z, hz, hle⟩
      · exact .inl hheld
      · exact .inr ⟨z, List.mem_cons_of_mem _ hz, hle⟩

theorem age_lt_iff {now time ttl : Nat} (h : time ≤ now) : now - time < ttl ↔ now < time + ttl := by
  omega

theorem sweep_get (h : Kept use ttl maxEntries c past) (hlater : ∀ x ∈ past, x.time ≤ now) {t : Instant}
    (hget : c.entries.get key = some t) : (c.sweep now).entries.get key = some t ∨ t + ttl ≤ now := by
  obtain ⟨x, hx, -, -, rfl⟩ := h.recorded key t hget
  have hle := hlater x hx
  simp only [TtlCache.sweep, Table.get_retain, hget, Option.filter_some, h.limits.1]
  by_cases hyoung : now - x.time < ttl
  · exact .inl (if_pos (decide_eq_true hyoung))
  · exact .inr (Nat.not_lt.mp (mt (age_lt_iff hle).mpr hyoung))

theorem sweep_of_get {t : Instant} (hget : (c.sweep now).entries.get key = some t) :
    c.entries.get key = some t ∧ now - t < c.ttl := by
  simp only [TtlCache.sweep, Table.get_retain] at hget
  obtain ⟨hget, hyoung⟩ := Option.filter_eq_some_iff.mp hget
  exact ⟨hget, of_decide_eq_true hyoung⟩

section

variable (h : Kept use ttl maxEntries c past)
include h

theorem crowded (hlater : ∀ x ∈ past, x.time ≤ now) (hplain : use.exempt key = false)
    (hnew : (c.sweep now).entries.get key = none) {k : K} {t : Instant} {full : Table K Instant}
    (hsub : ∀ k' t', full.get k' = some t' → (c.sweep now).entries.get k' = some t' ∧ t ≤ t')
    (hget : full.get k = some t) (hle : time ≤ t) :
    full.size ≤ (use.others (⟨key, now, true⟩ :: past) k time).length := by
  have hnotIn : key ∉ full.keys := by
    intro hin
    obtain ⟨t', ht'⟩ := Table.mem_keys_iff.mp hin
    rw [(hsub key t' ht').1] at hnew
    cases hnew
  have hin : k ∈ full.keys := Table.mem_keys_iff.mpr ⟨t, hget⟩
  have hnodup : (key :: full.keys.erase k).Nodup :=
    List.nodup_cons.mpr ⟨fun hmem => hnotIn (List.mem_of_mem_erase hmem), full.keys_nodup.erase k⟩
  have hlength : (key :: full.keys.erase k).length = full.size := by
    rw [List.length_cons, List.length_erase_of_mem hin]
    have hkeys : full.keys.length = full.size := List.length_map _
    have hpos := List.length_pos_of_mem hin
    omega
  rw [← hlength]
  refine length_le_others hnodup fun k' hk' => ?_
  rcases List.mem_cons.mp hk' with rfl | hk'
  · have hnow : time ≤ now := by
      obtain ⟨x, hx, -, -, rfl⟩ := h.recorded k t (sweep_of_get (hsub k t hget).1).1
      exact Nat.le_trans hle (hlater x hx)
    refine mem_others.mpr ⟨⟨k', now, true⟩, List.mem_cons_self, by simp [inserts, hplain], ?_, hnow, rfl⟩
    rintro rfl
    exact hnotIn hin
  · obtain ⟨hne, hmem⟩ := (List.Nodup.mem_erase_iff full.keys_nodup).mp hk'
    obtain ⟨t', ht'⟩ := Table.mem_keys_iff.mp hmem
    obtain ⟨hheld, hafter⟩ := hsub k' t' ht'
    obtain ⟨x, hx, hinserts, rfl, rfl⟩ := h.recorded k' t' (sweep_of_get hheld).1
    exact mem_others.mpr ⟨x, List.mem_cons_of_mem _ hx, hinserts, hne, Nat.le_trans hle hafter, rfl⟩

theorem insert (hmax : 1 ≤ maxEntries) (hlater : ∀ x ∈ past, x.time ≤ now)
    (hplain : use.exempt key = false) (hnew : (c.sweep now).entries.get key = none) :
    Kept use ttl maxEntries
      { (c.sweep now).evictOldestUntilBelowLimit with
        entries := (c.sweep now).evictOldestUntilBelowLimit.entries.insert key now }
      (⟨key, now, true⟩ :: past) := by
  have hlimit : (c.sweep now).maxEntries = maxEntries := h.limits.2
  have hkept : ∀ k t, (c.sweep now).evictOldestUntilBelowLimit.entries.get k = some t →
      (c.sweep now).entries.get k = some t := fun k t hget => TtlCache.get_of_evictRounds hget
  have hinserts : use.inserts ⟨key, now, true⟩ = true := by simp [inserts, hplain]
  refine ⟨h.limits, ?_, ?_, ?_⟩
  · have hroom : (c.sweep now).evictOldestUntilBelowLimit.entries.size < maxEntries :=
      hlimit ▸ TtlCache.size_evictRounds (hlimit.symm ▸ hmax) le_rfl
    have hgone : (c.sweep now).evictOldestUntilBelowLimit.entries.get key = none := by
      by_contra hsome
      obtain ⟨t, ht⟩ := Option.ne_none_iff_exists'.mp hsome
      rw [hkept key t ht] at hnew
      cases hnew
    rw [Table.size_insert, Table.erase_of_get_none hgone]
    exact hroom
  · intro k t hget
    rw [Table.get_insert] at hget
    split at hget
    · next heq =>
      cases hget
      exact ⟨_, List.mem_cons_self, hinserts, heq.symm, rfl⟩
    · obtain ⟨x, hx, hrecorded⟩ := h.recorded k t (sweep_of_get (hkept k t hget)).1
      exact ⟨x, List.mem_cons_of_mem _ hx, hrecorded⟩
  · intro x hx hx' hfew
    simp only [Table.get_insert]
    rcases List.mem_cons.mp hx with rfl | hx
    · exact .inl ⟨now, if_pos rfl, le_rfl⟩
    · rcases h.retained x hx hx' (Nat.lt_of_le_of_lt (others_cons_le _) hfew) with ⟨t, hget, hle⟩ | ⟨y, hy, hup⟩
      · rcases h.sweep_get hlater hget with hswept | hup
        · rcases TtlCache.get_evictRounds (c.sweep now).entries.size hswept with hstays | ⟨full, hsub, hfull, hsize⟩
          · have hne : x.key ≠ key := by
              intro heq
              rw [← heq, hswept] at hnew
              cases hnew
            exact .inl ⟨t, by rw [if_neg hne]; exact hstays, hle⟩
          · have hmany := h.crowded hlater hplain hnew hsub hfull hle
            rw [hlimit] at hsize
            omega
        · exact .inr ⟨_, List.mem_cons_self, Nat.le_trans (Nat.add_le_add_right hle _) hup⟩
      · exact .inr ⟨y, List.mem_cons_of_mem _ hy, hup⟩

theorem sweep (hlater : ∀ x ∈ past, x.time ≤ now) {x : Lookup K} (hx : use.inserts x = false)
    (htime : x.time = now) : Kept use ttl maxEntries (c.sweep now) (x :: past) where
  limits := h.limits
  bounded := Nat.le_trans (Table.size_retain_le _ _) h.bounded
  recorded k t hget := (h.passOver hx).recorded k t (sweep_of_get hget).1
  retained := by
    intro y hy hinserts hfew
    rcases (h.passOver hx).retained y hy hinserts hfew with ⟨t, hget, hle⟩ | hup
    · rcases h.sweep_get hlater hget with hswept | hup
      · exact .inl ⟨t, hswept, hle⟩
      · exact .inr ⟨x, List.mem_cons_self, htime ▸ Nat.le_trans (Nat.add_le_add_right hle _) hup⟩
    · exact .inr hup

theorem call (plain : use.Plain) (hmax : 1 ≤ maxEntries) (hlater : ∀ x ∈ past, x.time ≤ now)
    (key : K) : Kept use ttl maxEntries (use.checkAndInsert c key now).2
      (⟨key, now, (use.checkAndInsert c key now).1⟩ :: past) := by
  cases hexempt : use.exempt key with
  | true =>
    rw [plain.passes c key now hexempt]
    exact h.passOver (by simp [inserts, hexempt])
  | false =>
    rw [plain.looks c key now hexempt]
    unfold TtlCache.checkAndInsert
    simp only
    split
    · exact h.sweep hlater (by simp [inserts]) rfl
    · next hnew => exact h.insert hmax hlater hexempt (Option.not_isSome_iff_eq_none.mp hnew)

theorem remembers (plain : use.Plain) : use.Remembers c past ttl maxEntries where
  bounded := h.bounded
  exempt key hexempt := by
    by_contra hsome
    obtain ⟨t, ht⟩ := Option.ne_none_iff_exists'.mp hsome
    obtain ⟨x, -, hinserts, rfl, -⟩ := h.recorded key t ht
    simp [inserts, hexempt] at hinserts
  sound key now hlater hseen := by
    cases hexempt : use.exempt key with
    | true =>
      rw [plain.passes c key now hexempt] at hseen
      cases hseen
    | false =>
      rw [plain.looks c key now hexempt] at hseen
      unfold TtlCache.checkAndInsert at hseen
      simp only at hseen
      split at hseen
      · next hin =>
        obtain ⟨t, ht⟩ := Table.contains_iff.mp hin
        obtain ⟨hget, hyoung⟩ := sweep_of_get ht
        obtain ⟨x, hx, hinserts, hkey, rfl⟩ := h.recorded key t hget
        rw [h.limits.1] at hyoung
        have hle := hlater x hx
        exact ⟨x, hx, hinserts, hkey, (age_lt_iff hle).mp hyoung⟩
      · cases hseen
  retains x hx hinserts hfew now hlater hyoung := by
    have hexempt : use.exempt x.key = false := by
      simp only [inserts, Bool.and_eq_true, Bool.not_eq_true'] at hinserts
      exact hinserts.2
    rw [plain.looks c x.key now hexempt]
    have hheld : (c.sweep now).entries.contains x.key = true := by
      rcases h.retained x hx hinserts hfew with ⟨t, hget, hle⟩ | ⟨y, hy, hup⟩
      · rcases h.sweep_get hlater hget with hswept | hup
        · exact Table.contains_iff.mpr ⟨t, hswept⟩
        · exact absurd (Nat.lt_of_lt_of_le hyoung (Nat.add_le_add_right hle _)) (Nat.not_lt.mpr hup)
      · exact absurd hyoung (Nat.not_lt.mpr (Nat.le_trans hup (hlater y hy)))
    unfold TtlCache.checkAndInsert
    simp only [hheld, if_true]

end

end Kept

/-- A reached cache holds what was inserted until its time is up. -/
theorem Reached.kept (plain : use.Plain) (hmax : 1 ≤ maxEntries) (h : use.Reached ttl maxEntries c past) :
    Kept use ttl maxEntries c past := by
  induction h with
  | new => exact .new ttl maxEntries
  | shuffle _ t same ih => exact ih.shuffle same
  | call _ key now later ih => exact ih.call plain hmax later key

end CacheUse

open CacheUse in
/-- **What the caches remember.** In any run, the router's cache and the signaling
layer's ones stay within their bound, take for seen what was inserted less than `ttl`
ago and nothing else, and keep a key to which fewer than `maxEntries` others came. -/
theorem seenCaches_remember {ttl : Duration} {maxEntries : Nat} (hmax : 1 ≤ maxEntries) :
    (∀ c past, overlaySeen.Reached ttl maxEntries c past → overlaySeen.Remembers c past ttl maxEntries) ∧
      ∀ c past, dedupe.Reached ttl maxEntries c past → dedupe.Remembers c past ttl maxEntries :=
  ⟨fun _ _ h => (h.kept overlaySeen_plain hmax).remembers overlaySeen_plain,
    fun _ _ h => (h.kept dedupe_plain hmax).remembers dedupe_plain⟩

open CacheUse in
/-- Two envelopes fill the router's cache, and the first one is still known. -/
theorem seenCaches_remember_two : ∃ c past, overlaySeen.Reached 10 2 c past ∧
    past.map (·.key) = [(⟨"a"⟩, 6), (⟨"a"⟩, 5)] ∧ overlaySeen.Remembers c past 10 2 ∧
      (overlaySeen.checkAndInsert c (⟨"a"⟩, 5) 3).1 = false := by
  have hnew : overlaySeen.Reached 10 2 (.new 10 2) [] := .new
  have hfirst := hnew.call (⟨"a"⟩, 5) 0 nofun
  have hsecond := hfirst.call (⟨"a"⟩, 6) 1 (by simp)
  have hremembers := (seenCaches_remember (by decide)).1 _ _ hsecond
  exact ⟨_, _, hsecond, rfl, hremembers, by decide⟩

end Signaling
end Mistlib
