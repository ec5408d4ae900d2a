import Mistlib.Data.Portion
import Mistlib.Storage.LruOrder

/-!
# The choice of victims

A manager with too many bytes names blocks to untrack in one of two ways: by a scan of its index
that passes over pinned blocks, or by popping a heap of scores that holds no pinned block. Each
takes a portion of the blocks that may go, in the order of last use or of the heap.
-/

namespace Mistlib.Storage.StorageManager

variable {m : StorageManager} {cid c : Cid} {entry : BlockMeta}

/-! ### Untracking several blocks -/

def bytesOf (m : StorageManager) (cid : Cid) : Nat := ((m.blocksMeta.get cid).map BlockMeta.size).getD 0

def untrackAll (m : StorageManager) (cids : List Cid) : StorageManager := cids.foldl untrackBlock m

theorem bytesOf_eq (h : m.blocksMeta.get cid = some entry) : m.bytesOf cid = entry.size := by
  rw [bytesOf, h]
  rfl

theorem bytesOf_untrackBlock (hne : c ≠ cid) : (m.untrackBlock cid).bytesOf c = m.bytesOf c := by
  unfold untrackBlock
  split
  · rw [bytesOf, Table.get_erase, if_neg hne, bytesOf]
  · rfl

theorem Exact.usage_untrackBlock (h : m.Exact) (cid : Cid) :
    (m.untrackBlock cid).currentUsage + m.bytesOf cid = m.currentUsage := by
  unfold StorageManager.untrackBlock
  split
  · next entry hentry =>
    have hcovered : entry.size ≤ m.currentUsage := by
      rw [h, bytes, Table.sumBy_of_get BlockMeta.size hentry]
      exact Nat.le_add_right _ _
    rw [bytesOf_eq hentry]
    exact Nat.sub_add_cancel hcovered
  · next hnone =>
    rw [bytesOf, hnone]
    rfl

theorem loose_untrackBlock : (m.untrackBlock cid).Loose c ↔ c ≠ cid ∧ m.Loose c := by
  simp only [Loose, tracks_untrackBlock, pinned_untrackBlock, exists_and_left, and_assoc]

variable {cids : List Cid}

theorem Exact.usage_untrackAll (h : m.Exact) (hnodup : cids.Nodup) :
    (m.untrackAll cids).currentUsage + (cids.map m.bytesOf).sum = m.currentUsage := by
  induction cids generalizing m with
  | nil => rfl
  | cons cid rest ih =>
    obtain ⟨hnew, hrest⟩ := List.nodup_cons.mp hnodup
    have hsame : rest.map m.bytesOf = rest.map (m.untrackBlock cid).bytesOf := by
      refine List.map_congr_left fun c hc => (bytesOf_untrackBlock ?_).symm
      rintro rfl
      exact hnew hc
    rw [List.map_cons, List.sum_cons, hsame]
    calc (m.untrackAll (cid :: rest)).currentUsage + (m.bytesOf cid + (rest.map (m.untrackBlock cid).bytesOf).sum)
        = ((m.untrackBlock cid).untrackAll rest).currentUsage +
            (rest.map (m.untrackBlock cid).bytesOf).sum + m.bytesOf cid := by
          rw [untrackAll, List.foldl_cons, untrackAll]
          omega
      _ = (m.untrackBlock cid).currentUsage + m.bytesOf cid := by rw [ih (h.untrackBlock cid) hrest]
      _ = m.currentUsage := h.usage_untrackBlock cid

theorem loose_untrackAll : (m.untrackAll cids).Loose c ↔ c ∉ cids ∧ m.Loose c := by
  induction cids generalizing m with
  | nil => simp [untrackAll]
  | cons cid rest ih =>
    show ((m.untrackBlock cid).untrackAll rest).Loose c ↔ _
    rw [ih, loose_untrackBlock, List.mem_cons, not_or]
    exact and_left_comm.trans and_assoc.symm

/-! ### What a choice owes -/

/-- Blocks whose untracking brings a manager that has too many bytes down to a target,
and no further than it takes. -/
structure Relieves (m : StorageManager) (target : Nat) (victims : List Cid) : Prop where
  nodup : victims.Nodup
  loose : ∀ cid ∈ victims, m.Loose cid
  calm : m.currentUsage ≤ m.maxCapacityBytes → victims = []
  sufficient : m.maxCapacityBytes < m.currentUsage → (m.untrackAll victims).currentUsage ≤ target ∨
    ∀ cid, ¬ (m.untrackAll victims).Loose cid
  minimal : ∀ rest last, victims = rest ++ [last] → target < (m.untrackAll rest).currentUsage

variable {target : Nat} {order victims : List Cid}

theorem relieves_nil (h : m.currentUsage ≤ m.maxCapacityBytes) : m.Relieves target [] where
  nodup := List.nodup_nil
  loose := List.forall_mem_nil _
  calm _ := rfl
  sufficient hover := absurd h (Nat.not_le_of_lt hover)
  minimal := by
    intro rest last heq
    simp at heq

theorem Exact.relieves_of_portion (h : m.Exact) (hover : m.maxCapacityBytes < m.currentUsage)
    (htarget : target ≤ m.maxCapacityBytes) (hnodup : order.Nodup) (hloose : ∀ cid, cid ∈ order ↔ m.Loose cid)
    (hportion : Portion m.bytesOf (m.currentUsage - target) order victims) : m.Relieves target victims where
  nodup := hnodup.sublist hportion.front.sublist
  loose cid hmem := (hloose cid).mp (hportion.front.subset hmem)
  calm hle := absurd hle (Nat.not_le_of_lt hover)
  sufficient _ := by
    have husage := h.usage_untrackAll (hnodup.sublist hportion.front.sublist)
    obtain henough | rfl := hportion.enough
    · left
      omega
    · right
      intro cid hcid
      obtain ⟨hnew, hold⟩ := loose_untrackAll.mp hcid
      exact hnew ((hloose cid).mpr hold)
  minimal rest last heq := by
    have hrest : rest <+: order := (List.prefix_append rest [last]).trans (heq ▸ hportion.front)
    have husage := h.usage_untrackAll (hnodup.sublist hrest.sublist)
    have htight := hportion.tight rest last heq
    omega

/-! ### The two choices -/

def unpinned (m : StorageManager) (cids : List Cid) : List Cid := cids.filter fun cid => decide (cid ∉ m.pinned)

theorem portion_lruVictims {remaining : Nat} (hneed : 0 < remaining)
    (htracked : ∀ cid ∈ cids, ∃ entry, m.blocksMeta.get cid = some entry) :
    Portion m.bytesOf remaining (m.unpinned cids) (m.lruVictims cids remaining) := by
  induction cids generalizing remaining with
  | nil => exact .of_nil
  | cons cid rest ih =>
    obtain ⟨⟨entry, hentry⟩, hrest⟩ := List.forall_mem_cons.mp htracked
    rw [lruVictims, unpinned]
    by_cases hpin : cid ∈ m.pinned
    · rw [if_pos hpin, List.filter_cons_of_neg (by simpa using hpin)]
      exact ih hneed hrest
    · rw [if_neg hpin, List.filter_cons_of_pos (by simpa using hpin), hentry]
      show Portion _ _ _ (if remaining - entry.size = 0 then _ else _)
      split
      · next hdone =>
        refine .cons hneed ?_
        rw [bytesOf_eq hentry, hdone]
        exact .of_none_needed
      · next hmore =>
        refine .cons hneed ?_
        rw [bytesOf_eq hentry]
        exact ih (Nat.pos_of_ne_zero hmore) hrest

theorem portion_popVictims {entries : List (Σ _ : Cid, BlockMeta)} {remaining : Nat}
    (htracked : ∀ e ∈ entries, m.blocksMeta.get e.1 = some e.2) :
    Portion m.bytesOf remaining (entries.map (·.1)) (popVictims entries remaining) := by
  induction entries generalizing remaining with
  | nil => exact .of_nil
  | cons e rest ih =>
    obtain ⟨hentry, hrest⟩ := List.forall_mem_cons.mp htracked
    rw [popVictims, List.map_cons]
    split
    · next hneed =>
      refine .cons hneed ?_
      rw [bytesOf_eq hentry]
      exact ih hrest
    · next hdone =>
      obtain rfl : remaining = 0 := Nat.eq_zero_of_not_pos hdone
      exact .of_none_needed

variable {r : Recency Cid}

theorem Ordered.mem_unpinned (h : m.Ordered r) : cid ∈ m.unpinned r.keys ↔ m.Loose cid := by
  rw [unpinned, List.mem_filter, h.mem_keys, decide_eq_true_eq, Loose]
  refine and_congr_left fun _ => ?_
  constructor
  · rintro ⟨entry, hentry⟩
    exact ⟨entry.size, entry, hentry, rfl⟩
  · rintro ⟨_, entry, hentry, _⟩
    exact ⟨entry, hentry⟩

theorem Ordered.portion_evictionCandidates (h : m.Ordered r)
    (hover : m.maxCapacityBytes < m.currentUsage) :
    Portion m.bytesOf (m.currentUsage - m.maxCapacityBytes) (m.unpinned r.keys) m.evictionCandidates := by
  rw [evictionCandidates, if_neg (Nat.not_le_of_lt hover), h.lists]
  exact portion_lruVictims (Nat.sub_pos_of_lt hover) fun _ => h.mem_keys.mp

theorem relieves_evictionCandidates (hordered : m.Ordered r) (hexact : m.Exact) :
    m.Relieves m.maxCapacityBytes m.evictionCandidates := by
  obtain hle | hover := Nat.lt_or_ge m.maxCapacityBytes m.currentUsage |>.symm
  · rw [evictionCandidates, if_pos hle]
    exact relieves_nil hle
  · exact hexact.relieves_of_portion hover le_rfl (r.nodup.filter _)
      (fun _ => hordered.mem_unpinned) (hordered.portion_evictionCandidates hover)

theorem mem_scored (scores : Scores) {e : Σ _ : Cid, BlockMeta} :
    e ∈ m.scored scores ↔ m.blocksMeta.get e.1 = some e.2 ∧ e.1 ∉ m.pinned := by
  rw [scored, List.mem_mergeSort, List.mem_filter, decide_eq_true_eq, Table.get_eq_some_iff]

theorem scored_nodup (m : StorageManager) (scores : Scores) : ((m.scored scores).map (·.1)).Nodup := by
  have hperm : ((m.scored scores).map (·.1)).Perm
      ((m.blocksMeta.entries.filter fun e => decide (e.1 ∉ m.pinned)).map (·.1)) :=
    (List.mergeSort_perm _ _).map _
  exact hperm.nodup_iff.mpr (m.blocksMeta.keys_nodup.sublist (List.filter_sublist.map _))

theorem relieves_spatialEvictionCandidates (h : m.Exact) (scores : Scores)
    (htarget : scores.target m.maxCapacityBytes ≤ m.maxCapacityBytes) :
    m.Relieves (scores.target m.maxCapacityBytes) (m.spatialEvictionCandidates scores) := by
  obtain hle | hover := Nat.lt_or_ge m.maxCapacityBytes m.currentUsage |>.symm
  · rw [spatialEvictionCandidates, if_pos hle]
    exact relieves_nil hle
  · rw [spatialEvictionCandidates, if_neg (Nat.not_le_of_lt hover)]
    refine h.relieves_of_portion hover htarget (m.scored_nodup scores) (fun cid => ?_)
      (portion_popVictims fun e he => ((mem_scored scores).mp he).1)
    rw [List.mem_map]
    constructor
    · rintro ⟨e, he, rfl⟩
      exact loose_of_mem_scored he
    · rintro ⟨⟨_, entry, hentry, _⟩, hpin⟩
      exact ⟨⟨cid, entry⟩, (mem_scored scores).mpr ⟨hentry, hpin⟩, rfl⟩

theorem maxCapacityBytes_apply (m : StorageManager) (op : ManagerOp) :
    (op.apply m).maxCapacityBytes = m.maxCapacityBytes := by
  cases op with
  | trackBlock cid size position =>
    show (m.trackBlock cid size position).maxCapacityBytes = _
    unfold trackBlock
    split
    · rfl
    · rfl
  | touch cid =>
    show (m.touch cid).maxCapacityBytes = _
    unfold touch
    split
    · rfl
    · rfl
  | untrackBlock cid =>
    show (m.untrackBlock cid).maxCapacityBytes = _
    unfold untrackBlock
    split
    · rfl
    · rfl
  | setPinned pinned => rfl

theorem maxCapacityBytes_after (maxCapacityBytes : Nat) (ops : List ManagerOp) :
    (after maxCapacityBytes ops).maxCapacityBytes = maxCapacityBytes := by
  induction ops using List.reverseRecOn with
  | nil => rfl
  | append_singleton ops op ih =>
    rw [after, List.foldl_append]
    exact (maxCapacityBytes_apply _ op).trans ih

/-- After any operations both choices bring the usage down to where it should be as far
as unpinned blocks allow, with no block too many, and the scan takes the shortest
sufficient prefix of the unpinned blocks in the order of last use. -/
theorem after_relieves (maxCapacityBytes : Nat) (ops : List ManagerOp) (scores : Scores)
    (htarget : scores.target maxCapacityBytes ≤ maxCapacityBytes) :
    (after maxCapacityBytes ops).Relieves maxCapacityBytes (after maxCapacityBytes ops).evictionCandidates ∧
      (after maxCapacityBytes ops).Relieves (scores.target maxCapacityBytes)
        ((after maxCapacityBytes ops).spatialEvictionCandidates scores) ∧
      (maxCapacityBytes < (after maxCapacityBytes ops).currentUsage → ∀ victims,
        Portion (after maxCapacityBytes ops).bytesOf
          ((after maxCapacityBytes ops).currentUsage - maxCapacityBytes)
          ((after maxCapacityBytes ops).unpinned (lastUses ops).keys) victims ↔
            victims = (after maxCapacityBytes ops).evictionCandidates) := by
  obtain ⟨hordered, hexact, _⟩ := after_kept maxCapacityBytes ops
  have hplain := relieves_evictionCandidates hordered hexact
  have hspatial := relieves_spatialEvictionCandidates hexact scores
  have hscan := hordered.portion_evictionCandidates
  rw [maxCapacityBytes_after] at hplain hspatial hscan
  refine ⟨hplain, hspatial htarget, fun hover victims => ?_⟩
  constructor
  · exact fun h => h.unique (hscan hover)
  · rintro rfl
    exact hscan hover

/-- A pinned block, an empty one and two that may go, over a capacity of ten bytes. -/
def crowdedOps : List ManagerOp :=
  [.trackBlock "pinned" 6 none, .trackBlock "empty" 0 none, .trackBlock "old" 3 none,
    .trackBlock "new" 3 none, .setPinned {"pinned"}]

/-- Scores that leave the blocks in the order of the table. -/
def levelScores : Scores where
  first _ _ := true
  target capacity := capacity * 95 / 100
  decays _ _ _ := false

theorem after_relieves_crowded :
    (after 10 crowdedOps).Relieves 10 (after 10 crowdedOps).evictionCandidates ∧
      (after 10 crowdedOps).Relieves 9 ((after 10 crowdedOps).spatialEvictionCandidates levelScores) ∧
      (10 < (after 10 crowdedOps).currentUsage → ∀ victims,
        Portion (after 10 crowdedOps).bytesOf ((after 10 crowdedOps).currentUsage - 10)
          ((after 10 crowdedOps).unpinned (lastUses crowdedOps).keys) victims ↔
            victims = (after 10 crowdedOps).evictionCandidates) :=
  after_relieves 10 crowdedOps levelScores (by decide)

example : (after 10 crowdedOps).evictionCandidates = ["empty", "old"] := by decide +kernel

end Mistlib.Storage.StorageManager
