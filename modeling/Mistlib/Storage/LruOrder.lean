import Mistlib.Data.Recency
import Mistlib.Storage.Manager

/-!
# The order of the blocks

`StorageManager` keeps what it tracks in two maps and a counter, and each of `track_block`,
`touch` and `untrack_block` updates them one by one. Behind them is the order of the last track
or touch; the index of the manager lists the blocks in it, and is the inverse of the times the
blocks carry. The clock counts at most the operations of a run.
-/

namespace Mistlib.Storage

open Std (ExtTreeMap)

inductive ManagerOp where
  | trackBlock (cid : Cid) (size : Nat) (position : Option Vector3)
  | touch (cid : Cid)
  | untrackBlock (cid : Cid)
  | setPinned (pinned : Finset Cid)

def ManagerOp.apply (m : StorageManager) : ManagerOp → StorageManager
  | .trackBlock cid size position => m.trackBlock cid size position
  | .touch cid => m.touch cid
  | .untrackBlock cid => m.untrackBlock cid
  | .setPinned pinned => m.setPinned pinned

/-- What an operation does to the order of last use. -/
def ManagerOp.uses (r : Recency Cid) : ManagerOp → Recency Cid
  | .trackBlock cid _ _ => r.use cid
  | .touch cid => r.reuse cid
  | .untrackBlock cid => r.drop cid
  | .setPinned _ => r

namespace StorageManager

/-- A manager after operations, from a fresh one on. -/
def after (maxCapacityBytes : Nat) (ops : List ManagerOp) : StorageManager :=
  ops.foldl ManagerOp.apply (new maxCapacityBytes)

/-- The tracked blocks after operations, in the order of their last track or touch. -/
def lastUses (ops : List ManagerOp) : Recency Cid := ops.foldl ManagerOp.uses .empty

/-- The index is the inverse of the times the entries carry. -/
def Inverse (index : ExtTreeMap Nat Cid) (entries : Table Cid BlockMeta) : Prop :=
  ∀ time cid, index[time]? = some cid ↔ ∃ entry, entries.get cid = some entry ∧ entry.lastAccessed = time

namespace Inverse

variable {index : ExtTreeMap Nat Cid} {entries : Table Cid BlockMeta} {cid : Cid} {entry : BlockMeta}

section

variable (h : Inverse index entries)
include h

theorem indexed (hentry : entries.get cid = some entry) : index[entry.lastAccessed]? = some cid :=
  (h _ _).mpr ⟨entry, hentry, rfl⟩

theorem lastAccessed_inj {cid' : Cid} {entry' : BlockMeta} (hentry : entries.get cid = some entry)
    (hentry' : entries.get cid' = some entry') (heq : entry.lastAccessed = entry'.lastAccessed) :
    cid = cid' := by
  have hindexed := h.indexed hentry
  rw [heq, h.indexed hentry'] at hindexed
  exact (Option.some.inj hindexed).symm

theorem erase (hentry : entries.get cid = some entry) :
    Inverse (index.erase entry.lastAccessed) (entries.erase cid) := by
  intro time c
  simp only [ExtTreeMap.getElem?_erase, Table.get_erase, Nat.compare_eq_eq]
  by_cases hc : c = cid
  · subst hc
    rw [if_pos rfl]
    refine iff_of_false (fun hk => ?_) fun ⟨_, he, _⟩ => nomatch he
    split at hk
    · cases hk
    · next hne =>
      obtain ⟨e, he, htime⟩ := (h time c).mp hk
      cases he.symm.trans hentry
      exact hne htime
  · rw [if_neg hc]
    split
    · next heq =>
      refine iff_of_false nofun ?_
      rintro ⟨e, he, htime⟩
      exact hc (h.lastAccessed_inj he hentry (htime.trans heq.symm))
    · exact h time c

theorem insert (entry : BlockMeta) (hnew : entries.get cid = none)
    (hlate : ∀ c e, entries.get c = some e → e.lastAccessed < entry.lastAccessed) :
    Inverse (index.insert entry.lastAccessed cid) (entries.insert cid entry) := by
  intro time c
  simp only [ExtTreeMap.getElem?_insert, Table.get_insert, Nat.compare_eq_eq]
  by_cases hc : c = cid
  · subst hc
    rw [if_pos rfl]
    split
    · next heq => exact iff_of_true rfl ⟨entry, rfl, heq⟩
    · next hne =>
      rw [h time c, hnew]
      refine iff_of_false (fun ⟨_, he, _⟩ => nomatch he) ?_
      rintro ⟨e, he, htime⟩
      cases he
      exact hne htime
  · rw [if_neg hc]
    split
    · next heq =>
      refine iff_of_false (fun hsome => hc (Option.some.inj hsome).symm) ?_
      rintro ⟨e, he, htime⟩
      have hlt := hlate c e he
      omega
    · exact h time c

theorem move (entry' : BlockMeta) (hentry : entries.get cid = some entry)
    (hlate : ∀ c e, entries.get c = some e → e.lastAccessed < entry'.lastAccessed) :
    Inverse ((index.erase entry.lastAccessed).insert entry'.lastAccessed cid)
      (entries.insert cid entry') := by
  have hgone : (entries.erase cid).get cid = none := by rw [Table.get_erase, if_pos rfl]
  have hmoved := (h.erase hentry).insert entry' hgone fun c e he => by
    rw [Table.get_erase] at he
    split at he
    · cases he
    · exact hlate c e he
  intro time c
  rw [hmoved time c, Table.get_insert, Table.get_insert, Table.get_erase]
  split
  · rfl
  · rfl

end

end Inverse

/-- The index is the inverse of the times of the entries, which have passed, and it
iterates in the order of last use. -/
structure Ordered (m : StorageManager) (r : Recency Cid) : Prop where
  inverse : Inverse m.lruIndex m.blocksMeta
  past : ∀ cid entry, m.blocksMeta.get cid = some entry → entry.lastAccessed ≤ m.clock
  lists : r.Lists m.lruIndex

namespace Ordered

variable {m : StorageManager} {r : Recency Cid} {cid : Cid} {entry : BlockMeta}

section

variable (h : m.Ordered r)
include h

theorem mem_keys : cid ∈ r.keys ↔ ∃ entry, m.blocksMeta.get cid = some entry := by
  rw [h.lists.mem_keys]
  constructor
  · rintro ⟨time, htime⟩
    obtain ⟨entry, hentry, _⟩ := (h.inverse time cid).mp htime
    exact ⟨entry, hentry⟩
  · rintro ⟨entry, hentry⟩
    exact ⟨_, h.inverse.indexed hentry⟩

theorem late (c : Cid) (e : BlockMeta) (he : m.blocksMeta.get c = some e) :
    e.lastAccessed < m.clock + 1 :=
  Nat.lt_succ_of_le (h.past c e he)

theorem time_lt {time : Nat} (htime : m.lruIndex[time]? = some cid) : time < m.clock + 1 := by
  obtain ⟨entry, hentry, rfl⟩ := (h.inverse time cid).mp htime
  exact h.late cid entry hentry

theorem size : m.lruIndex.size = m.blocksMeta.size := by
  have hkeys : r.keys.Perm m.blocksMeta.keys := by
    refine (List.perm_ext_iff_of_nodup r.nodup m.blocksMeta.keys_nodup).mpr fun cid => ?_
    rw [h.mem_keys, Table.mem_keys_iff]
  rw [h.lists.size, hkeys.length_eq, Table.keys, List.length_map, Table.size]

theorem notMem_keys (hnone : m.blocksMeta.get cid = none) : cid ∉ r.keys := by
  intro hmem
  obtain ⟨e, he⟩ := h.mem_keys.mp hmem
  rw [hnone] at he
  cases he

theorem past_insert (size : Nat) (position : Option Vector3) (c : Cid) (e : BlockMeta)
    (he : (m.blocksMeta.insert cid ⟨m.clock + 1, size, position⟩).get c = some e) :
    e.lastAccessed ≤ m.clock + 1 := by
  rw [Table.get_insert] at he
  split at he
  · cases he
    exact le_rfl
  · exact Nat.le_succ_of_le (h.past c e he)

theorem renew (hentry : m.blocksMeta.get cid = some entry) (position : Option Vector3) :
    (m.renew cid entry position).Ordered (r.use cid) where
  inverse := h.inverse.move ⟨m.clock + 1, entry.size, position⟩ hentry h.late
  past := h.past_insert entry.size position
  lists := h.lists.move (h.inverse.indexed hentry) fun _ _ => h.time_lt

theorem trackBlock (cid : Cid) (size : Nat) (position : Option Vector3) :
    (m.trackBlock cid size position).Ordered (r.use cid) := by
  unfold StorageManager.trackBlock
  split
  · exact h.renew ‹_› _
  · next hnone =>
    exact ⟨h.inverse.insert ⟨m.clock + 1, size, position⟩ hnone h.late, h.past_insert size position,
      h.lists.insert (h.notMem_keys hnone) fun _ _ => h.time_lt⟩

theorem touch (cid : Cid) : (m.touch cid).Ordered (r.reuse cid) := by
  unfold StorageManager.touch Recency.reuse
  split
  · next entry hentry =>
    rw [if_pos (h.mem_keys.mpr ⟨entry, hentry⟩)]
    exact h.renew hentry _
  · next hnone =>
    rw [if_neg (h.notMem_keys hnone)]
    exact h

theorem untrackBlock (cid : Cid) : (m.untrackBlock cid).Ordered (r.drop cid) := by
  unfold StorageManager.untrackBlock
  split
  · next entry hentry =>
    refine ⟨h.inverse.erase hentry, fun c e he => ?_, h.lists.drop (h.inverse.indexed hentry)⟩
    rw [Table.get_erase] at he
    split at he
    · cases he
    · exact h.past c e he
  · next hnone =>
    rw [Recency.drop_of_notMem (h.notMem_keys hnone)]
    exact h

theorem apply (op : ManagerOp) : (op.apply m).Ordered (op.uses r) := by
  cases op with
  | trackBlock cid size position => exact h.trackBlock cid size position
  | touch cid => exact h.touch cid
  | untrackBlock cid => exact h.untrackBlock cid
  | setPinned pinned => exact { h with }

end

end Ordered

theorem ordered_new (maxCapacityBytes : Nat) : (new maxCapacityBytes).Ordered .empty where
  inverse := by
    intro time cid
    simp [new]
  past := by
    intro cid entry h
    simp [new] at h
  lists := Recency.lists_empty

theorem exact_apply {m : StorageManager} (h : m.Exact) (op : ManagerOp) : (op.apply m).Exact := by
  cases op with
  | trackBlock cid size position => exact h.trackBlock cid size position
  | touch cid => exact h.touch cid
  | untrackBlock cid => exact h.untrackBlock cid
  | setPinned pinned => exact h

theorem clock_apply (m : StorageManager) (op : ManagerOp) : (op.apply m).clock ≤ m.clock + 1 := by
  cases op with
  | trackBlock cid size position =>
    show (m.trackBlock cid size position).clock ≤ _
    unfold trackBlock
    split
    · exact le_rfl
    · exact le_rfl
  | touch cid =>
    show (m.touch cid).clock ≤ _
    unfold touch
    split
    · exact le_rfl
    · exact Nat.le_succ _
  | untrackBlock cid =>
    show (m.untrackBlock cid).clock ≤ _
    unfold untrackBlock
    split
    · exact Nat.le_succ _
    · exact Nat.le_succ _
  | setPinned pinned => exact Nat.le_succ _

/-- After any operations the index is in the order of last use. -/
theorem after_kept (maxCapacityBytes : Nat) (ops : List ManagerOp) :
    (after maxCapacityBytes ops).Ordered (lastUses ops) ∧ (after maxCapacityBytes ops).Exact ∧
      (after maxCapacityBytes ops).clock ≤ ops.length := by
  induction ops using List.reverseRecOn with
  | nil => exact ⟨ordered_new maxCapacityBytes, rfl, le_rfl⟩
  | append_singleton ops op ih =>
    obtain ⟨hordered, hexact, hclock⟩ := ih
    rw [after, lastUses, List.foldl_append, List.foldl_append]
    refine ⟨hordered.apply op, exact_apply hexact op, ?_⟩
    rw [List.length_append]
    exact Nat.le_trans (clock_apply _ op) (Nat.succ_le_succ hclock)

/-- The books of a manager, with its blocks in the order of last use. -/
structure Bookkept (m : StorageManager) (order : List Cid) : Prop where
  usage : m.currentUsage = m.bytes
  inverse : Inverse m.lruIndex m.blocksMeta
  cardinality : m.lruIndex.size = m.blocksMeta.size
  distinct : ∀ {cid cid' entry entry'}, m.blocksMeta.get cid = some entry →
    m.blocksMeta.get cid' = some entry' → entry.lastAccessed = entry'.lastAccessed → cid = cid'
  past : ∀ cid entry, m.blocksMeta.get cid = some entry → entry.lastAccessed ≤ m.clock
  /-- Untracking a block takes no more from the usage than is there. -/
  covered : ∀ cid entry, m.blocksMeta.get cid = some entry → entry.size ≤ m.currentUsage
  order : m.lruIndex.toList.map Prod.snd = order

/-- The books are right after any operations, and the clock has moved at most once for
each of them. -/
theorem after_bookkept (maxCapacityBytes : Nat) (ops : List ManagerOp) :
    (after maxCapacityBytes ops).Bookkept (lastUses ops).keys ∧
      (after maxCapacityBytes ops).clock ≤ ops.length := by
  obtain ⟨hordered, hexact, hclock⟩ := after_kept maxCapacityBytes ops
  refine ⟨⟨hexact, hordered.inverse, hordered.size, hordered.inverse.lastAccessed_inj, hordered.past, ?_,
    hordered.lists⟩, hclock⟩
  intro cid entry hentry
  rw [hexact, bytes, Table.sumBy_of_get BlockMeta.size hentry]
  exact Nat.le_add_right _ _

end StorageManager

end Mistlib.Storage
