import Std.Data.ExtTreeMap
import Mathlib.Data.Finset.Basic
import Mathlib.Data.Finset.Dedup
import Mistlib.Data.Table
import Mistlib.Storage.Frame

/-!
# Which blocks are kept

`StorageManager` accounts for the blocks of a store and picks victims when there are too many
bytes; `PinRegistry` lists the blocks that must stay.

Scores and distances are floating point in the source. They enter in three places only: the order
in which the heap of scored blocks is popped, the capacity to come down to, and the decision of
a decay roll. `Scores` stands for them, and nothing below depends on what they are. Byte counts
and the clock are `u64` in the source and natural numbers here.
-/

namespace Mistlib

/-- A position, as the bit patterns of its coordinates. -/
structure Vector3 where
  x : UInt32
  y : UInt32
  z : UInt32
deriving DecidableEq, Repr

namespace Storage

open Std (ExtTreeMap)

structure BlockMeta where
  lastAccessed : Nat
  size : Nat
  position : Option Vector3
deriving DecidableEq, Repr

structure Scores where
  /-- Whether the heap pops the first block before the second. -/
  first : (Σ _ : Cid, BlockMeta) → (Σ _ : Cid, BlockMeta) → Bool
  /-- The bytes to come down to: 95 % of the capacity, rounded. -/
  target : Nat → Nat
  /-- Whether a block with a position is beyond the retention radius and
  loses its roll in a sweep. -/
  decays : Cid → Vector3 → Nat → Bool

structure StorageManager where
  maxCapacityBytes : Nat
  currentUsage : Nat
  blocksMeta : Table Cid BlockMeta
  lruIndex : ExtTreeMap Nat Cid
  clock : Nat
  pinned : Finset Cid

namespace StorageManager

def new (maxCapacityBytes : Nat) : StorageManager where
  maxCapacityBytes
  currentUsage := 0
  blocksMeta := ∅
  lruIndex := ∅
  clock := 0
  pinned := ∅

def setPinned (m : StorageManager) (pinned : Finset Cid) : StorageManager := { m with pinned }

/-- Move a tracked block to the new end of the index. -/
def renew (m : StorageManager) (cid : Cid) (entry : BlockMeta) (position : Option Vector3) :
    StorageManager :=
  { m with
    clock := m.clock + 1
    lruIndex := (m.lruIndex.erase entry.lastAccessed).insert (m.clock + 1) cid
    blocksMeta := m.blocksMeta.insert cid { entry with lastAccessed := m.clock + 1, position } }

def trackBlock (m : StorageManager) (cid : Cid) (size : Nat) (position : Option Vector3) :
    StorageManager :=
  match m.blocksMeta.get cid with
  | some entry => m.renew cid entry (if position.isSome then position else entry.position)
  | none =>
    { m with
      clock := m.clock + 1
      blocksMeta := m.blocksMeta.insert cid { lastAccessed := m.clock + 1, size, position }
      lruIndex := m.lruIndex.insert (m.clock + 1) cid
      currentUsage := m.currentUsage + size }

def touch (m : StorageManager) (cid : Cid) : StorageManager :=
  match m.blocksMeta.get cid with
  | some entry => m.renew cid entry entry.position
  | none => m

def untrackBlock (m : StorageManager) (cid : Cid) : StorageManager :=
  match m.blocksMeta.get cid with
  | some entry =>
    { m with
      blocksMeta := m.blocksMeta.erase cid
      lruIndex := m.lruIndex.erase entry.lastAccessed
      currentUsage := m.currentUsage - entry.size }
  | none => m

/-- Go through blocks, least recently used first, until enough bytes are
chosen. Pinned blocks are passed over. -/
def lruVictims (m : StorageManager) : List Cid → Nat → List Cid
  | [], _ => []
  | cid :: rest, remaining =>
    if cid ∈ m.pinned then m.lruVictims rest remaining
    else
      match m.blocksMeta.get cid with
      | some entry =>
        if remaining - entry.size = 0 then [cid]
        else cid :: m.lruVictims rest (remaining - entry.size)
      | none => m.lruVictims rest remaining

def evictionCandidates (m : StorageManager) : List Cid :=
  if m.currentUsage ≤ m.maxCapacityBytes then []
  else m.lruVictims (m.lruIndex.toList.map Prod.snd) (m.currentUsage - m.maxCapacityBytes)

/-- Pop scored blocks until enough bytes are chosen. -/
def popVictims : List (Σ _ : Cid, BlockMeta) → Nat → List Cid
  | [], _ => []
  | entry :: rest, remaining =>
    if remaining > 0 then entry.1 :: popVictims rest (remaining - entry.2.size) else []

/-- The tracked blocks that may be chosen, in the order the heap pops them. -/
def scored (m : StorageManager) (scores : Scores) : List (Σ _ : Cid, BlockMeta) :=
  (m.blocksMeta.entries.filter fun e => decide (e.1 ∉ m.pinned)).mergeSort scores.first

def spatialEvictionCandidates (m : StorageManager) (scores : Scores) : List Cid :=
  if m.currentUsage ≤ m.maxCapacityBytes then []
  else popVictims (m.scored scores) (m.currentUsage - scores.target m.maxCapacityBytes)

/-- The blocks a sweep drops; only blocks with a position are. -/
def decayCandidates (m : StorageManager) (scores : Scores) (selfPositions : List Vector3)
    (sweepCounter : Nat) : List Cid :=
  if selfPositions.isEmpty then []
  else
    ((m.scored scores).filter fun e =>
      e.2.position.any fun position => scores.decays e.1 position sweepCounter).map (·.1)

/-! ### What is tracked -/

/-- The content ids that have an entry. -/
def Tracks (m : StorageManager) (cid : Cid) (size : Nat) : Prop :=
  ∃ entry, m.blocksMeta.get cid = some entry ∧ entry.size = size

def bytes (m : StorageManager) : Nat := m.blocksMeta.sumBy BlockMeta.size

variable {m : StorageManager} {cid c : Cid} {size n : Nat}

theorem tracks_renew {entry : BlockMeta} (h : m.blocksMeta.get cid = some entry)
    (position : Option Vector3) : (m.renew cid entry position).Tracks c n ↔ m.Tracks c n := by
  simp only [Tracks, renew, Table.get_insert]
  by_cases hc : c = cid
  · subst hc
    simp [h]
  · simp [hc]

theorem bytes_renew {entry : BlockMeta} (h : m.blocksMeta.get cid = some entry)
    (position : Option Vector3) : (m.renew cid entry position).bytes = m.bytes := by
  simp only [bytes, renew, Table.sumBy_insert]
  rw [Table.sumBy_of_get BlockMeta.size h]

theorem tracks_touch : (m.touch cid).Tracks c n ↔ m.Tracks c n := by
  unfold touch
  split
  · exact tracks_renew ‹_› _
  · exact Iff.rfl

theorem tracks_trackBlock {position : Option Vector3} :
    (m.trackBlock cid size position).Tracks c n ↔
      m.Tracks c n ∨ (c = cid ∧ n = size ∧ m.blocksMeta.get cid = none) := by
  unfold trackBlock
  split
  · rename_i entry h
    rw [tracks_renew h]
    simp [h]
  · rename_i h
    simp only [Tracks, Table.get_insert]
    by_cases hc : c = cid
    · subst hc
      simp [h, eq_comm]
    · simp [hc]

theorem tracks_untrackBlock : (m.untrackBlock cid).Tracks c n ↔ c ≠ cid ∧ m.Tracks c n := by
  unfold untrackBlock
  split
  · simp only [Tracks, Table.get_erase]
    by_cases hc : c = cid
    · simp [hc]
    · simp [hc]
  · rename_i h
    constructor
    · intro htracks
      refine ⟨?_, htracks⟩
      rintro rfl
      obtain ⟨entry, hentry, _⟩ := htracks
      rw [h] at hentry
      cases hentry
    · exact fun htracks => htracks.2

/-- The usage counts the entries' bytes. -/
def Exact (m : StorageManager) : Prop := m.currentUsage = m.bytes

/-- A touch keeps the usage the sum of the entries. -/
theorem Exact.touch (h : m.Exact) (cid : Cid) : (m.touch cid).Exact := by
  unfold StorageManager.touch
  split
  · exact h.trans (bytes_renew ‹_› _).symm
  · exact h

theorem Exact.trackBlock (h : m.Exact) (cid : Cid) (size : Nat) (position : Option Vector3) :
    (m.trackBlock cid size position).Exact := by
  unfold StorageManager.trackBlock
  split
  · exact h.trans (bytes_renew ‹_› _).symm
  · rename_i hnone
    show m.currentUsage + size = Table.sumBy _ _
    rw [Table.sumBy_insert, Table.erase_of_get_none hnone, h]
    exact Nat.add_comm _ _

theorem Exact.untrackBlock (h : m.Exact) (cid : Cid) : (m.untrackBlock cid).Exact := by
  unfold StorageManager.untrackBlock
  split
  · rename_i entry hentry
    show m.currentUsage - entry.size = Table.sumBy _ _
    rw [h, bytes, Table.sumBy_of_get BlockMeta.size hentry]
    exact Nat.add_sub_cancel_left _ _
  · exact h

/-! ### What leaves the protected set alone -/

@[simp] theorem pinned_touch (m : StorageManager) (cid : Cid) : (m.touch cid).pinned = m.pinned := by
  unfold touch
  split
  · rfl
  · rfl

@[simp] theorem pinned_trackBlock (m : StorageManager) (cid : Cid) (size : Nat) (position : Option Vector3) :
    (m.trackBlock cid size position).pinned = m.pinned := by
  unfold trackBlock
  split
  · rfl
  · rfl

@[simp] theorem pinned_untrackBlock (m : StorageManager) (cid : Cid) :
    (m.untrackBlock cid).pinned = m.pinned := by
  unfold untrackBlock
  split
  · rfl
  · rfl

/-! ### What is chosen -/

/-- A block that may go: it is tracked and not pinned. -/
def Loose (m : StorageManager) (cid : Cid) : Prop := (∃ n, m.Tracks cid n) ∧ cid ∉ m.pinned

theorem loose_of_mem_lruVictims {cids : List Cid} {remaining : Nat}
    (h : cid ∈ m.lruVictims cids remaining) : m.Loose cid := by
  induction cids generalizing remaining with
  | nil => cases h
  | cons c rest ih =>
    unfold lruVictims at h
    split at h
    · exact ih h
    · rename_i hpin
      split at h
      · rename_i entry hentry
        split at h
        · obtain rfl := List.mem_singleton.mp h
          exact ⟨⟨_, entry, hentry, rfl⟩, hpin⟩
        · rcases List.mem_cons.mp h with rfl | hrest
          · exact ⟨⟨_, entry, hentry, rfl⟩, hpin⟩
          · exact ih hrest
      · exact ih h

theorem loose_of_mem_scored {scores : Scores} {e : Σ _ : Cid, BlockMeta}
    (h : e ∈ m.scored scores) : m.Loose e.1 := by
  obtain ⟨c, entry⟩ := e
  simp only [scored, List.mem_mergeSort, List.mem_filter, decide_eq_true_eq] at h
  exact ⟨⟨_, entry, Table.get_eq_some_iff.mpr h.1, rfl⟩, h.2⟩

theorem mem_of_mem_popVictims {entries : List (Σ _ : Cid, BlockMeta)} {remaining : Nat}
    (h : cid ∈ popVictims entries remaining) : ∃ e ∈ entries, e.1 = cid := by
  induction entries generalizing remaining with
  | nil => cases h
  | cons e rest ih =>
    unfold popVictims at h
    split at h
    · rcases List.mem_cons.mp h with rfl | hrest
      · exact ⟨e, List.mem_cons_self, rfl⟩
      · obtain ⟨e', he', heq⟩ := ih hrest
        exact ⟨e', List.mem_cons_of_mem _ he', heq⟩
    · cases h

/-- The blocks chosen for eviction are tracked and not pinned. -/
theorem loose_of_mem_evictionCandidates (h : cid ∈ m.evictionCandidates) : m.Loose cid := by
  unfold evictionCandidates at h
  split at h
  · cases h
  · exact loose_of_mem_lruVictims h

theorem loose_of_mem_spatialEvictionCandidates {scores : Scores}
    (h : cid ∈ m.spatialEvictionCandidates scores) : m.Loose cid := by
  unfold spatialEvictionCandidates at h
  split at h
  · cases h
  · obtain ⟨e, he, rfl⟩ := mem_of_mem_popVictims h
    exact loose_of_mem_scored he

theorem loose_of_mem_decayCandidates {scores : Scores} {positions : List Vector3} {sweep : Nat}
    (h : cid ∈ m.decayCandidates scores positions sweep) : m.Loose cid := by
  unfold decayCandidates at h
  split at h
  · cases h
  · obtain ⟨e, he, rfl⟩ := List.mem_map.mp h
    exact loose_of_mem_scored (List.mem_filter.mp he).1

end StorageManager

/-! ## Pins -/

def REGISTRY_VERSION : Nat := 1

/-- The pinned roots, each with the blocks it protects. -/
structure PinRegistry where
  v : Nat
  roots : Table Cid (List Cid)
deriving DecidableEq

namespace PinRegistry

def new : PinRegistry := { v := REGISTRY_VERSION, roots := ∅ }

def isPinned (r : PinRegistry) (root : Cid) : Bool := r.roots.contains root

def pin (r : PinRegistry) (root : Cid) (cids : List Cid) : PinRegistry :=
  { r with roots := r.roots.insert root cids }

def unpin (r : PinRegistry) (root : Cid) : PinRegistry := { r with roots := r.roots.erase root }

def pinnedCids (r : PinRegistry) : Finset Cid := r.roots.values.flatten.toFinset

/-- Equal as registries: the same version and the same entries. -/
structure Same (r r' : PinRegistry) : Prop where
  version : r.v = r'.v
  entries : ∀ root, r.roots.get root = r'.roots.get root

theorem Same.refl (r : PinRegistry) : r.Same r := ⟨rfl, fun _ => rfl⟩

end PinRegistry

/-- The text a registry is stored as. The format belongs to a serialization
library that cannot fail to print a registry; what the engine relies on is
that it reads back what was printed, up to the order of a hash map. -/
structure RegistryText where
  print : PinRegistry → Bytes
  parse : Bytes → Except String PinRegistry
  roundTrip : ∀ r, ∃ r', parse (print r) = .ok r' ∧ r'.Same r

/-- A registry read from text; another version is refused. -/
def RegistryText.fromJson (text : RegistryText) (data : Bytes) : Except MistError PinRegistry :=
  match text.parse data with
  | .error e => .error (.serialization e)
  | .ok registry =>
    if registry.v ≠ REGISTRY_VERSION then
      .error (.serialization
        s!"pin registry version {registry.v} unsupported (expected {REGISTRY_VERSION})")
    else .ok registry

theorem RegistryText.version_fromJson {text : RegistryText} {data : Bytes} {r : PinRegistry}
    (h : text.fromJson data = .ok r) : r.v = REGISTRY_VERSION := by
  unfold fromJson at h
  split at h
  · cases h
  · split at h
    · cases h
    · cases h
      exact not_not.mp ‹_›

theorem RegistryText.fromJson_print (text : RegistryText) {r : PinRegistry}
    (h : r.v = REGISTRY_VERSION) : ∃ r', text.fromJson (text.print r) = .ok r' ∧ r'.Same r := by
  obtain ⟨r', hparse, hsame⟩ := text.roundTrip r
  refine ⟨r', ?_, hsame⟩
  have hversion : r'.v = REGISTRY_VERSION := hsame.version.trans h
  simp only [fromJson, hparse, hversion, ne_eq, not_true_eq_false, if_false]

end Storage

end Mistlib
