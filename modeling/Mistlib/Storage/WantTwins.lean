import Mistlib.Storage.Transfer
import Mistlib.Storage.WantChannels

/-!
# The registry with and without a waiter

Two runs are compared, the registry with a registration and without it
(`Twin`): step by step they agree on the other waiters and on every assembly
that one of these covers. What can tell them apart is what is counted over all
assemblies, and a waiter that is alone on a path once all the others there
are over their limits.
-/

namespace Mistlib.Storage

open WantState

/-! ## The registry without a registration -/

/-- The registry without the waiter of a channel. -/
def WantState.without (s : WantState) (tx : Channel) : WantState :=
  { s with pending := (s.pending.mapVals fun _ wants =>
      wants.filter fun want => want.tx ≠ tx).retain fun _ wants => !wants.isEmpty }

/-- `bare` agrees with `s` on the waiters other than that of `tx`, and on
every assembly that one of them covers. -/
structure Twin (tx : Channel) (s bare : WantState) : Prop where
  wants : ∀ cid, bare.wants cid = (s.wants cid).filter fun want => want.tx ≠ tx
  assemblies : ∀ {cid sender room}, bare.Covered cid sender room →
    bare.assemblies.get (cid, sender, room) = s.assemblies.get (cid, sender, room)

section

variable {s s' bare bare' : WantState} {env : Surroundings} {look : Nat} {cid : Cid}
  {sender : NodeId} {room : Room} {tx : Channel}

theorem WantState.get_prune_of_covered (h : (s.prune env look).Covered cid sender room) :
    (s.prune env look).assemblies.get (cid, sender, room) =
      s.assemblies.get (cid, sender, room) := by
  obtain ⟨want, hmem, hcovers⟩ := h
  have haccepts : (s.prune env look).accepts (fun _ => false) cid sender room = true := by
    refine List.any_eq_true.mpr ⟨want, hmem, ?_⟩
    rw [hcovers]
    rfl
  exact get_assemblies_prune haccepts

namespace Twin

theorem without (s : WantState) (tx : Channel) : Twin tx s (s.without tx) where
  wants cid := getD_get_filtered s.pending _ cid
  assemblies _ := rfl

section

variable (h : Twin tx s bare)
include h

theorem mem_wants {want : PendingWant} :
    want ∈ bare.wants cid ↔ want ∈ s.wants cid ∧ want.tx ≠ tx := by
  rw [h.wants, List.mem_filter, decide_eq_true_eq]

theorem covered (hcovered : bare.Covered cid sender room) : s.Covered cid sender room := by
  obtain ⟨want, hmem, hcovers⟩ := hcovered
  exact ⟨want, (h.mem_wants.mp hmem).1, hcovers⟩

theorem awaits {size : Nat} {other : Channel} (ha : bare.Awaits cid sender room size other) :
    s.Awaits cid sender room size other := by
  obtain ⟨want, hmem, hwant⟩ := ha
  exact ⟨want, (h.mem_wants.mp hmem).1, hwant⟩

theorem lose (hs : s'.assemblies = s.assemblies) (hbare : bare'.assemblies = bare.assemblies)
    (hcovered : ∀ {cid sender room}, bare'.Covered cid sender room → bare.Covered cid sender room)
    (hwants : ∀ cid, bare'.wants cid = (s'.wants cid).filter fun want => want.tx ≠ tx) :
    Twin tx s' bare' where
  wants := hwants
  assemblies hc := by
    rw [hs, hbare]
    exact h.assemblies (hcovered hc)

theorem prune (env : Surroundings) (look : Nat) :
    Twin tx (s.prune env look) (bare.prune env look) := by
  have hwants : ∀ cid, (bare.prune env look).wants cid =
      ((s.prune env look).wants cid).filter fun want => want.tx ≠ tx := by
    intro cid
    simp only [wants_prune, h.wants, List.filter_filter, Bool.and_comm]
  refine ⟨hwants, fun {cid sender room} hc => ?_⟩
  have hs : (s.prune env look).Covered cid sender room := by
    obtain ⟨want, hmem, hcovers⟩ := hc
    rw [hwants] at hmem
    exact ⟨want, List.mem_of_mem_filter hmem, hcovers⟩
  rw [get_prune_of_covered hc, get_prune_of_covered hs]
  exact h.assemblies hc.of_prune

theorem modify (cid : Cid) {f : List PendingWant → List PendingWant} (hnil : f [] = [])
    (hcovers : ∀ wants, ∀ want' ∈ f wants, ∃ want ∈ wants, ∀ sender room, want'.covers sender room = true → want.covers sender room = true)
    (hothers : ∀ wants, (f wants).filter (fun want => want.tx ≠ tx) = f (wants.filter fun want => want.tx ≠ tx)) :
    Twin tx { s with pending := s.pending.modify cid f } { bare with pending := bare.pending.modify cid f } := by
  refine h.lose rfl rfl (fun {cid' sender room} hc => ?_) fun cid' => ?_
  · obtain ⟨want', hmem, hwant'⟩ := hc
    rw [wants_modify _ _ _ _ hnil] at hmem
    split at hmem
    · next heq =>
      subst heq
      obtain ⟨want, hin, hwant⟩ := hcovers _ want' hmem
      exact ⟨want, hin, hwant sender room hwant'⟩
    · exact ⟨want', hmem, hwant'⟩
  · rw [wants_modify _ _ _ _ hnil, wants_modify _ _ _ _ hnil, h.wants, h.wants]
    split
    · exact (hothers _).symm
    · rfl

theorem observe (cid : Cid) (sender : NodeId) (room : Room) (accepted : Bool) (now : Instant) :
    Twin tx (s.observe cid sender room accepted now) (bare.observe cid sender room accepted now) := by
  refine h.modify cid rfl (fun wants want' hmem => ?_) fun wants => ?_
  · obtain ⟨want, hin, rfl⟩ := List.mem_map.mp hmem
    refine ⟨want, hin, fun sender' room' hcovers => ?_⟩
    split at hcovers <;> exact hcovers
  · rw [List.filter_map]
    congr 2
    funext want
    rw [Function.comp_apply]
    split <;> rfl

theorem advanceProgress (sender : NodeId) (now : Instant) :
    Twin tx (s.advanceProgress sender now) (bare.advanceProgress sender now) :=
  ⟨h.wants, h.assemblies⟩

theorem enforceByteLimits (env : Surroundings) (look : Nat) (cid : Cid) (sender : NodeId)
    (room : Room) (bytes : Nat) : Twin tx (s.enforceByteLimits env look cid sender room bytes).1
      (bare.enforceByteLimits env look cid sender room bytes).1 := by
  apply Twin.prune
  refine h.modify cid rfl (fun wants want hmem => ?_) fun wants => ?_
  · exact ⟨want, List.mem_of_mem_filter hmem, fun _ _ hcovers => hcovers⟩
  · simp only [List.filter_filter, Bool.and_comm]

theorem insert (key : AssemblyKey) (entry : ChunkAssembly) :
    Twin tx { s with assemblies := s.assemblies.insert key entry }
      { bare with assemblies := bare.assemblies.insert key entry } := by
  refine ⟨h.wants, fun {cid sender room} hc => ?_⟩
  simp only [Table.get_insert]
  split
  · rfl
  · exact h.assemblies hc

theorem erase (key : AssemblyKey) : Twin tx { s with assemblies := s.assemblies.erase key }
      { bare with assemblies := bare.assemblies.erase key } := by
  refine ⟨h.wants, fun {cid sender room} hc => ?_⟩
  simp only [Table.get_erase]
  split
  · rfl
  · exact h.assemblies hc

end

end Twin

/-! ## Handing a payload on -/

theorem WantState.fulfill_spec (env : Surroundings) (look : Nat) (sender : NodeId) (room : Room)
    (data : Bytes) (h : s.wants cid ≠ []) :
    ∃ s' : WantState, (s.fulfill env look cid sender room data).1 = s'.prune env (look + 1) ∧
      s'.assemblies = s.assemblies ∧
      (∀ cid', s'.wants cid' =
        if cid' = cid then (s.wants cid).filter fun want => !want.covers sender room
        else s.wants cid') ∧
      (s.fulfill env look cid sender room data).2 =
        ((s.wants cid).filter fun want =>
          !env.closed look want.tx && want.covers sender room).map fun want => ⟨cid, want, data⟩ := by
  unfold WantState.fulfill
  cases hp : s.pending.get cid with
  | none =>
    rw [WantState.wants, hp] at h
    exact absurd rfl h
  | some wants =>
    have hwants : s.wants cid = wants := by rw [WantState.wants, hp, Option.getD_some]
    refine ⟨_, rfl, rfl, fun cid' => ?_, ?_⟩
    · rw [hwants]
      simp only [WantState.wants]
      split
      · next hempty =>
        rw [Table.get_erase]
        split
        · rw [List.isEmpty_iff.mp hempty]
          rfl
        · rfl
      · rw [Table.get_insert, Table.get_erase]
        split <;> rfl
    · dsimp only
      rw [hwants, List.filter_filter]

theorem WantState.Covered.ne_nil (h : s.Covered cid sender room) : s.wants cid ≠ [] := by
  obtain ⟨want, hmem, -⟩ := h
  exact List.ne_nil_of_mem hmem

theorem WantState.Covered.observe (h : s.Covered cid sender room) (accepted : Bool) (now : Instant) :
    (s.observe cid sender room accepted now).Covered cid sender room := by
  obtain ⟨want, hmem, hcovers⟩ := h
  rw [WantState.observe, WantState.Covered, wants_modify _ _ _ _ rfl, if_pos rfl]
  refine ⟨_, List.mem_map_of_mem hmem, ?_⟩
  rw [if_pos hcovers]
  exact hcovers

/-! ## What an operation does with and without a waiter -/

/-- The effects agree on the other waiters, on what these cover and on what they are handed. -/
structure TwinEffects (tx : Channel) (full bare : Effect) : Prop where
  state : Twin tx full.state bare.state
  deliveries : bare.deliveries = full.deliveries.filter fun d => d.want.tx ≠ tx

theorem TwinEffects.of_eq {full bare : Effect} {after after' : WantState} {deliveries deliveries' : List Delivery}
    (hfull : full.state = after ∧ full.deliveries = deliveries)
    (hbare : bare.state = after' ∧ bare.deliveries = deliveries') (h : Twin tx after after')
    (hdeliveries : deliveries' = deliveries.filter fun d => d.want.tx ≠ tx) : TwinEffects tx full bare := by
  refine ⟨?_, ?_⟩
  · rw [hfull.1, hbare.1]
    exact h
  · rw [hfull.2, hbare.2]
    exact hdeliveries

namespace Twin

theorem fulfill (h : Twin tx s bare) (env : Surroundings) (look : Nat) (data : Bytes)
    (hcovered : bare.Covered cid sender room) :
    Twin tx (s.fulfill env look cid sender room data).1
        (bare.fulfill env look cid sender room data).1 ∧
      (bare.fulfill env look cid sender room data).2 =
        (s.fulfill env look cid sender room data).2.filter fun d => d.want.tx ≠ tx := by
  obtain ⟨s', hs', ha, hw, hd⟩ := fulfill_spec env look sender room data (h.covered hcovered).ne_nil
  obtain ⟨bare', hbare', ha', hw', hd'⟩ := fulfill_spec env look sender room data hcovered.ne_nil
  constructor
  · rw [hs', hbare']
    apply Twin.prune
    refine h.lose ha ha' (fun {cid' sender' room'} hc => ?_) fun cid' => ?_
    · obtain ⟨want, hmem, hcovers⟩ := hc
      rw [hw'] at hmem
      split at hmem
      · next heq =>
        subst heq
        exact ⟨want, List.mem_of_mem_filter hmem, hcovers⟩
      · exact ⟨want, hmem, hcovers⟩
    · rw [hw, hw', h.wants, h.wants]
      split
      · simp only [List.filter_filter, Bool.and_comm]
      · rfl
  · rw [hd, hd', h.wants, List.filter_map, List.filter_filter, List.filter_filter]
    congr 2
    funext want
    rw [Function.comp_apply, Bool.and_comm]

/-! ### Alone on a path -/

theorem observe_alone (h : Twin tx s bare) (hnone : ¬ bare.Covered cid sender room)
    (accepted : Bool) (now : Instant) :
    Twin tx (s.observe cid sender room accepted now) bare := by
  refine ⟨fun cid' => ?_, h.assemblies⟩
  rw [WantState.observe, wants_modify _ _ _ _ rfl]
  split
  · next heq =>
    subst heq
    have hsame := (h.observe cid' sender room accepted now).wants cid'
    simp only [WantState.observe, wants_modify _ _ _ _ (List.map_nil), if_true] at hsame
    rw [← hsame]
    symm
    rw [List.map_congr_left (g := id), List.map_id]
    intro want hmem
    exact if_neg fun hcovers => hnone ⟨want, hmem, hcovers⟩
  · exact h.wants cid'

theorem advanceProgress_alone (h : Twin tx s bare) (sender : NodeId) (now : Instant) :
    Twin tx (s.advanceProgress sender now) bare := ⟨h.wants, h.assemblies⟩

theorem assembly_alone (h : Twin tx s bare) (hnone : ¬ bare.Covered cid sender room)
    {assemblies : Table AssemblyKey ChunkAssembly}
    (hothers : ∀ key, key ≠ (cid, sender, room) → assemblies.get key = s.assemblies.get key) :
    Twin tx { s with assemblies } bare := by
  refine ⟨h.wants, fun {cid' sender' room'} hc => ?_⟩
  rw [hothers]
  · exact h.assemblies hc
  · rintro heq
    cases heq
    exact hnone hc

theorem fulfill_alone (h : Twin tx s bare) (env : Surroundings) (look : Nat) (data : Bytes)
    (hnone : ¬ bare.Covered cid sender room) (hcovered : s.Covered cid sender room)
    (hopen : ∀ cid, ∀ want ∈ bare.wants cid, env.closed (look + 1) want.tx = false) :
    Twin tx (s.fulfill env look cid sender room data).1 bare ∧
      (s.fulfill env look cid sender room data).2.filter (fun d => d.want.tx ≠ tx) = [] := by
  obtain ⟨s', hs', ha, hw, hd⟩ := fulfill_spec env look sender room data hcovered.ne_nil
  have hwants : ∀ cid', bare.wants cid' = (s'.wants cid').filter fun want => want.tx ≠ tx := by
    intro cid'
    rw [hw]
    split
    · next heq =>
      subst heq
      rw [List.filter_comm, ← h.wants]
      symm
      apply List.filter_eq_self.mpr
      intro want hmem
      rw [Bool.not_eq_true', Bool.eq_false_iff]
      exact fun hcovers => hnone ⟨want, hmem, hcovers⟩
    · exact h.wants cid'
  constructor
  · have hpruned : ∀ cid', bare.wants cid' =
        ((s'.prune env (look + 1)).wants cid').filter fun want => want.tx ≠ tx := by
      intro cid'
      rw [wants_prune, List.filter_comm, ← hwants]
      symm
      apply List.filter_eq_self.mpr
      intro want hmem
      rw [hopen cid' want hmem]
      rfl
    rw [hs']
    refine ⟨hpruned, fun {cid' sender' room'} hc => ?_⟩
    have hkept : (s'.prune env (look + 1)).Covered cid' sender' room' := by
      obtain ⟨want, hmem, hcovers⟩ := hc
      rw [hpruned] at hmem
      exact ⟨want, List.mem_of_mem_filter hmem, hcovers⟩
    rw [get_prune_of_covered hkept, ha]
    exact h.assemblies hc
  · rw [hd, List.filter_eq_nil_iff]
    intro d hmem
    obtain ⟨want, hin, rfl⟩ := List.mem_map.mp hmem
    obtain ⟨hin, hcovers⟩ := List.mem_filter.mp hin
    rw [Bool.and_eq_true] at hcovers
    rw [decide_eq_true_eq]
    exact fun hother => hnone ⟨want, h.mem_wants.mpr ⟨hin, hother⟩, hcovers.2⟩

/-! ### A chunk that is stored -/

theorem storeChunk (h : Twin tx s bare) (hcovered : bare.Covered cid sender room)
    (env : Surroundings) (i total : Nat) (data : Bytes) :
    TwinEffects tx (s.storeChunk env room cid sender i total data)
      (bare.storeChunk env room cid sender i total data) := by
  unfold WantState.storeChunk
  dsimp only
  rw [h.assemblies hcovered]
  generalize ((s.assemblies.get (cid, sender, room)).getD (.new total)).place i data = entry
  have hcounted := ((h.insert (cid, sender, room) entry).observe cid sender room true
    env.now).advanceProgress sender env.now
  have hcovered' := Covered.observe (s := { bare with assemblies := _ }) hcovered true env.now
  by_cases hcomplete : entry.receivedChunks = entry.totalChunks
  · rw [if_pos hcomplete, if_pos hcomplete]
    obtain ⟨hstate, hdeliveries⟩ :=
      (hcounted.erase (cid, sender, room)).fulfill env 4 entry.full hcovered'
    exact ⟨hstate, hdeliveries⟩
  · rw [if_neg hcomplete, if_neg hcomplete]
    exact ⟨hcounted, rfl⟩

theorem storeChunk_alone (h : Twin tx s bare) (hnone : ¬ bare.Covered cid sender room)
    (hcovered : s.Covered cid sender room) {env : Surroundings}
    (hopen : ∀ cid, ∀ want ∈ bare.wants cid, env.closed 5 want.tx = false) (i total : Nat)
    (data : Bytes) :
    Twin tx (s.storeChunk env room cid sender i total data).state bare ∧
      (s.storeChunk env room cid sender i total data).deliveries.filter
        (fun d => d.want.tx ≠ tx) = [] := by
  unfold WantState.storeChunk
  dsimp only
  generalize ((s.assemblies.get (cid, sender, room)).getD (.new total)).place i data = entry
  have hcounted : Twin tx ((({ s with
      assemblies := s.assemblies.insert (cid, sender, room) entry } : WantState).observe cid
        sender room true env.now).advanceProgress sender env.now) bare :=
    ((h.assembly_alone hnone fun key hne => by rw [Table.get_insert, if_neg hne]).observe_alone hnone true
      env.now).advanceProgress_alone sender env.now
  have hcovered' := Covered.observe (s := { s with assemblies := _ }) hcovered true env.now
  split
  · exact (hcounted.assembly_alone hnone fun key hne => by rw [Table.get_erase, if_neg hne]).fulfill_alone env 4
      entry.full hnone hcovered' hopen
  · exact ⟨hcounted, rfl⟩

end Twin

end

/-! ### The limits -/

/-- The limits on all assemblies have no room for `n` bytes more. -/
def WantState.Crowded (s : WantState) (key : AssemblyKey) (n : Nat) : Prop :=
  ¬ s.assemblies.contains key ∧ s.assemblies.size ≥ MAX_WANT_ASSEMBLIES ∨
    s.assemblies.sumBy ChunkAssembly.bytes + n > MAX_WANT_ASSEMBLY_BYTES
deriving Decidable

/-- What a chunk finds once it has been counted as received. -/
def WantState.seen (s : WantState) (env : Surroundings) (room : Room) (cid : Cid)
    (sender : NodeId) : WantState :=
  (s.prune env 0).observe cid sender room false env.now

/-- What is left once the waiters that a chunk takes over their limits are gone. -/
def WantState.within (s : WantState) (env : Surroundings) (room : Room) (cid : Cid)
    (sender : NodeId) (data : Bytes) : WantState :=
  (s.enforceByteLimits env 2 cid sender room
    (s.assembledBytes (cid, sender, room) + data.length)).1

section

variable {s bare : WantState} {env : Surroundings} {cid : Cid} {sender : NodeId} {room : Room}
  {tx other : Channel} {i total : Nat} {data : Bytes}

theorem WantState.not_covered_enforceByteLimits (env : Surroundings) (look : Nat) {bytes : Nat}
    (hover : ∀ want ∈ s.wants cid, want.covers sender room = true → want.overLimit bytes = true) :
    ¬ (s.enforceByteLimits env look cid sender room bytes).1.Covered cid sender room := by
  intro hc
  obtain ⟨want, hmem, hcovers⟩ := Covered.of_prune hc
  rw [wants_modify _ _ _ _ rfl, if_pos rfl] at hmem
  obtain ⟨hin, hkept⟩ := List.mem_filter.mp hmem
  dsimp only at hkept
  rw [hcovers, hover want hin hcovers] at hkept
  cases hkept

theorem WantState.get_within (h : (s.within env room cid sender data).Covered cid sender room) :
    (s.within env room cid sender data).assemblies.get (cid, sender, room) =
      s.assemblies.get (cid, sender, room) :=
  get_prune_of_covered h

theorem WantState.open_enforceByteLimits {look look' bytes : Nat}
    (hopen : ∀ cid, ∀ want ∈ s.wants cid, env.closed look' want.tx = false) :
    ∀ cid', ∀ want ∈ (s.enforceByteLimits env look cid sender room bytes).1.wants cid',
      env.closed look' want.tx = false := by
  intro cid' want hmem
  obtain ⟨old, hold, htx, -⟩ := (Sheds.enforceByteLimits s env look cid sender room bytes).waits
    ⟨want, hmem, rfl, rfl⟩
  rw [← htx]
  exact hopen cid' old hold

/-- What refuses a chunk whose header and slot are right. -/
def WantState.Refuses (s : WantState) (env : Surroundings) (room : Room) (cid : Cid)
    (sender : NodeId) (data : Bytes) : Prop :=
  ¬ (s.within env room cid sender data).accepts (env.closed 3) cid sender room ∨
    s.assembledBytes (cid, sender, room) + data.length > MAX_WANT_BLOCK_BYTES ∨
    (s.within env room cid sender data).Crowded (cid, sender, room) data.length

theorem WantState.limitChunk_refused (h : s.Refuses env room cid sender data) (i total : Nat) :
    (s.limitChunk env room cid sender i total data).state = s.within env room cid sender data ∧
      (s.limitChunk env room cid sender i total data).deliveries = [] := by
  unfold WantState.limitChunk
  dsimp only
  split
  · exact ⟨rfl, rfl⟩
  · next hpass =>
    split
    · exact ⟨rfl, rfl⟩
    · next hcount =>
      split
      · exact ⟨rfl, rfl⟩
      · next hbytes =>
        rcases h with hnobody | hblock | hcrowd | hsum
        · exact absurd (.inl hnobody) hpass
        · exact absurd (.inr hblock) hpass
        · exact absurd hcrowd hcount
        · exact absurd hsum hbytes

theorem WantState.limitChunk_taken (h : ¬ s.Refuses env room cid sender data) (i total : Nat) :
    let stored := (s.within env room cid sender data).storeChunk env room cid sender i total data
    (s.limitChunk env room cid sender i total data).state = stored.state ∧
      (s.limitChunk env room cid sender i total data).deliveries = stored.deliveries := by
  obtain ⟨haccepts, hrest⟩ := not_or.mp h
  obtain ⟨hblock, hroom⟩ := not_or.mp hrest
  obtain ⟨hcount, hbytes⟩ := not_or.mp hroom
  unfold WantState.limitChunk
  dsimp only
  rw [if_neg, if_neg, if_neg]
  · exact ⟨rfl, rfl⟩
  · exact hbytes
  · exact hcount
  · exact not_or.mpr ⟨haccepts, hblock⟩

namespace Twin

section

variable (h : Twin tx s bare)
include h

theorem assembledBytes (hcovered : bare.Covered cid sender room) :
    bare.assembledBytes (cid, sender, room) = s.assembledBytes (cid, sender, room) := by
  rw [WantState.assembledBytes, WantState.assembledBytes, h.assemblies hcovered]

theorem within (hcovered : bare.Covered cid sender room) (env : Surroundings) (data : Bytes) :
    Twin tx (s.within env room cid sender data) (bare.within env room cid sender data) := by
  rw [WantState.within, WantState.within, h.assembledBytes hcovered]
  exact h.enforceByteLimits env 2 cid sender room _

theorem crowded {live : Channel → Prop} (hattended : bare.Attended live)
    (hcovered : bare.Covered cid sender room) {n : Nat}
    (hcrowded : bare.Crowded (cid, sender, room) n) : s.Crowded (cid, sender, room) n := by
  have hsubset : ∀ {key a}, bare.assemblies.get key = some a → s.assemblies.get key = some a := by
    intro key a hget
    obtain ⟨want, hmem, hcovers, -⟩ := hattended key a hget
    rw [← h.assemblies ⟨want, hmem, hcovers⟩]
    exact hget
  rcases hcrowded with ⟨hnew, hcount⟩ | hbytes
  · left
    rw [Table.contains, ← h.assemblies hcovered]
    exact ⟨hnew, Nat.le_trans hcount (Table.size_le_of_subset hsubset)⟩
  · right
    exact Nat.lt_of_lt_of_le hbytes
      (Nat.add_le_add_right (Table.sumBy_le_of_subset hsubset) n)

/-- Another waiter takes the chunk, and if there is no room for it there is
none without the waiter either. -/
theorem limitChunk (hopen : ∀ look, env.closed look other = false)
    (hawaits : bare.Awaits cid sender room (s.assembledBytes (cid, sender, room) + data.length) other)
    (hroom : s.assembledBytes (cid, sender, room) + data.length ≤ MAX_WANT_BLOCK_BYTES →
      (s.within env room cid sender data).Crowded (cid, sender, room) data.length →
      (bare.within env room cid sender data).Crowded (cid, sender, room) data.length)
    (i total : Nat) : TwinEffects tx (s.limitChunk env room cid sender i total data)
      (bare.limitChunk env room cid sender i total data) := by
  have hcovered : bare.Covered cid sender room :=
    Covered.of_accepts (hawaits.accepts (fun _ => false) rfl)
  have hbytes := h.assembledBytes hcovered
  have hwithin := h.within hcovered env data
  have hawaits' := hawaits.enforceByteLimits (hopen 2) (Nat.le_of_eq (congrArg (· + data.length) hbytes))
  have haccepts := hawaits'.accepts (env.closed 3) (hopen 3)
  have haccepts' := (hwithin.awaits hawaits').accepts (env.closed 3) (hopen 3)
  have hcovered' := Covered.of_accepts haccepts
  by_cases hrefuses : s.Refuses env room cid sender data
  · have hbare : bare.Refuses env room cid sender data := by
      rcases hrefuses with hnobody | hblock | hcrowded
      · exact absurd haccepts' hnobody
      · exact .inr (.inl (hbytes ▸ hblock))
      · by_cases hblock : s.assembledBytes (cid, sender, room) + data.length ≤ MAX_WANT_BLOCK_BYTES
        · exact .inr (.inr (hroom hblock hcrowded))
        · exact .inr (.inl (hbytes ▸ Nat.lt_of_not_le hblock))
    exact .of_eq (limitChunk_refused hrefuses i total) (limitChunk_refused hbare i total) hwithin rfl
  · have hbare : ¬ bare.Refuses env room cid sender data := by
      rintro (hnobody | hblock | hcrowded)
      · exact hnobody haccepts
      · exact hrefuses (.inr (.inl (hbytes ▸ hblock)))
      · exact hrefuses (.inr (.inr (hwithin.crowded (attended_prune _ env 2) hcovered' hcrowded)))
    have hstored := hwithin.storeChunk hcovered' env i total data
    exact .of_eq (limitChunk_taken hrefuses i total) (limitChunk_taken hbare i total) hstored.state
      hstored.deliveries

theorem limitChunk_alone (hcovered : bare.Covered cid sender room)
    (hover : ∀ want ∈ bare.wants cid, want.covers sender room = true →
      want.overLimit (s.assembledBytes (cid, sender, room) + data.length) = true)
    (hopen : ∀ cid, ∀ want ∈ bare.wants cid, ∀ look, env.closed look want.tx = false)
    (i total : Nat) : TwinEffects tx (s.limitChunk env room cid sender i total data)
      (bare.limitChunk env room cid sender i total data) := by
  have hwithin := h.within hcovered env data
  have hnone : ¬ (bare.within env room cid sender data).Covered cid sender room := by
    apply not_covered_enforceByteLimits env 2
    rw [h.assembledBytes hcovered]
    exact hover
  have hopen' : ∀ cid', ∀ want ∈ (bare.within env room cid sender data).wants cid',
      env.closed 5 want.tx = false :=
    open_enforceByteLimits fun cid' want hmem => hopen cid' want hmem 5
  have hbare : bare.Refuses env room cid sender data :=
    .inl fun haccepts => hnone (Covered.of_accepts haccepts)
  have hrefused := limitChunk_refused hbare i total
  by_cases hrefuses : s.Refuses env room cid sender data
  · exact .of_eq (limitChunk_refused hrefuses i total) hrefused hwithin rfl
  · have hown := Covered.of_accepts (not_not.mp (not_or.mp hrefuses).1)
    obtain ⟨hstored, hnobody⟩ := hwithin.storeChunk_alone hnone hown hopen' i total data
    exact .of_eq (limitChunk_taken hrefuses i total) hrefused hstored hnobody.symm

end

end Twin

/-! ### A chunk -/

/-- The header of a chunk is legal and agrees with what is there, and its slot is free. -/
structure WantState.Fits (s : WantState) (key : AssemblyKey) (i total : Nat) : Prop where
  index : i < total
  legal : total ≤ MAX_WANT_CHUNKS
  layout : (s.entryOf key total).totalChunks = total
  free : (s.entryOf key total).chunk i = none

theorem WantState.prune_observe : (s.prune env 0).observe cid sender room false env.now = s.seen env room cid sender :=
  rfl

theorem WantState.fulfillChunkDataIn_fits
    (haccepts : (s.seen env room cid sender).accepts (env.closed 1) cid sender room = true)
    (h : (s.seen env room cid sender).Fits (cid, sender, room) i total) (data : Bytes) :
    s.fulfillChunkDataIn env room cid sender i total data =
      (s.seen env room cid sender).limitChunk env room cid sender i total data := by
  have hindex := h.index
  have hlegal := h.legal
  have hlayout := h.layout
  have hfree := h.free
  unfold WantState.fulfillChunkDataIn
  dsimp only
  rw [prune_observe, if_neg (by omega), if_neg (not_not.mpr haccepts)]
  cases hget : (s.seen env room cid sender).assemblies.get (cid, sender, room) with
  | none => rfl
  | some entry =>
    rw [entryOf, hget, Option.getD_some] at hlayout hfree
    dsimp only
    rw [if_neg (not_not.mpr hlayout), if_neg (Option.not_isSome_iff_eq_none.mpr hfree)]

/-- A chunk that nothing has room for changes nothing. -/
theorem WantState.fulfillChunkDataIn_unfit
    (h : ¬ ((s.seen env room cid sender).accepts (env.closed 1) cid sender room = true ∧
      (s.seen env room cid sender).Fits (cid, sender, room) i total)) (data : Bytes) :
    (s.fulfillChunkDataIn env room cid sender i total data).state = s.seen env room cid sender ∧
      (s.fulfillChunkDataIn env room cid sender i total data).deliveries = [] := by
  unfold WantState.fulfillChunkDataIn
  dsimp only
  rw [prune_observe]
  split
  · exact ⟨rfl, rfl⟩
  · next hheader =>
    split
    · exact ⟨rfl, rfl⟩
    · next hpass =>
      have haccepts := not_not.mp hpass
      cases hget : (s.seen env room cid sender).assemblies.get (cid, sender, room) with
      | none =>
        refine absurd ⟨haccepts, by omega, by omega, ?_, ?_⟩ h
        · rw [entryOf, hget]
          rfl
        · rw [entryOf, hget, Option.getD_none, ChunkAssembly.chunk_new]
      | some entry =>
        dsimp only
        split
        · exact ⟨rfl, rfl⟩
        · next hlayout =>
          split
          · exact ⟨rfl, rfl⟩
          · next hfree =>
            refine absurd ⟨haccepts, by omega, by omega, ?_, ?_⟩ h
            · rw [entryOf, hget]
              exact not_not.mp hlayout
            · rw [entryOf, hget]
              exact Option.not_isSome_iff_eq_none.mp hfree

theorem WantState.get_seen (h : (s.seen env room cid sender).Covered cid sender room) :
    (s.seen env room cid sender).assemblies.get (cid, sender, room) =
      s.assemblies.get (cid, sender, room) :=
  get_prune_of_covered h.of_observe

theorem WantState.assembledBytes_seen (h : (s.seen env room cid sender).Covered cid sender room) :
    (s.seen env room cid sender).assembledBytes (cid, sender, room) =
      s.assembledBytes (cid, sender, room) := by
  rw [WantState.assembledBytes, WantState.assembledBytes, get_seen h]

theorem WantState.fits_congr {t : WantState} {key : Cid × NodeId × Room}
    (h : t.assemblies.get key = s.assemblies.get key) : t.Fits key i total ↔ s.Fits key i total := by
  have hentry : t.entryOf key total = s.entryOf key total := by
    rw [entryOf, entryOf, h]
  constructor
  · rintro ⟨hindex, hlegal, hlayout, hfree⟩
    exact ⟨hindex, hlegal, hentry ▸ hlayout, hentry ▸ hfree⟩
  · rintro ⟨hindex, hlegal, hlayout, hfree⟩
    exact ⟨hindex, hlegal, hentry.symm ▸ hlayout, hentry.symm ▸ hfree⟩

theorem WantState.fits_seen (h : (s.seen env room cid sender).Covered cid sender room) :
    (s.seen env room cid sender).Fits (cid, sender, room) i total ↔
      s.Fits (cid, sender, room) i total :=
  fits_congr (get_seen h)

namespace Twin

theorem seen (h : Twin tx s bare) (env : Surroundings) (room : Room) (cid : Cid)
    (sender : NodeId) :
    Twin tx (s.seen env room cid sender) (bare.seen env room cid sender) :=
  (h.prune env 0).observe cid sender room false env.now

/-- The checks before the limits come out the same while another waiter is there. -/
theorem fulfillChunkDataIn (h : Twin tx s bare) (hopen : env.closed 1 other = false)
    {size : Nat} (hawaits : (bare.seen env room cid sender).Awaits cid sender room size other)
    (hlimits : s.Fits (cid, sender, room) i total →
      TwinEffects tx ((s.seen env room cid sender).limitChunk env room cid sender i total data)
        ((bare.seen env room cid sender).limitChunk env room cid sender i total data)) :
    TwinEffects tx (s.fulfillChunkDataIn env room cid sender i total data)
      (bare.fulfillChunkDataIn env room cid sender i total data) := by
  have hseen := h.seen env room cid sender
  have haccepts' := hawaits.accepts (env.closed 1) hopen
  have haccepts := (hseen.awaits hawaits).accepts (env.closed 1) hopen
  have hcovered := Covered.of_accepts haccepts'
  have hfits : (bare.seen env room cid sender).Fits (cid, sender, room) i total ↔
      (s.seen env room cid sender).Fits (cid, sender, room) i total :=
    fits_congr (hseen.assemblies hcovered)
  by_cases hfit : (s.seen env room cid sender).Fits (cid, sender, room) i total
  · rw [fulfillChunkDataIn_fits haccepts hfit, fulfillChunkDataIn_fits haccepts' (hfits.mpr hfit)]
    exact hlimits ((fits_seen (Covered.of_accepts haccepts)).mp hfit)
  · exact .of_eq (fulfillChunkDataIn_unfit (fun hf => hfit hf.2) data)
      (fulfillChunkDataIn_unfit (fun hf => hfit (hfits.mp hf.2)) data) hseen rfl

end Twin

/-! ### A whole block -/

theorem WantState.fulfillDataIn_refused
    (h : ¬ (data.length ≤ MAX_WANT_BLOCK_BYTES ∧ ((s.seen env room cid sender).enforceByteLimits env
      1 cid sender room data.length).1.accepts (env.closed 2) cid sender room = true)) :
    (s.fulfillDataIn env room cid sender data).state =
        ((s.seen env room cid sender).enforceByteLimits env 1 cid sender room data.length).1 ∧
      (s.fulfillDataIn env room cid sender data).deliveries = [] := by
  unfold WantState.fulfillDataIn
  dsimp only
  rw [prune_observe, if_neg h]
  exact ⟨rfl, rfl⟩

theorem WantState.fulfillDataIn_taken
    (h : data.length ≤ MAX_WANT_BLOCK_BYTES ∧ ((s.seen env room cid sender).enforceByteLimits env
      1 cid sender room data.length).1.accepts (env.closed 2) cid sender room = true) :
    let limited :=
      ((s.seen env room cid sender).enforceByteLimits env 1 cid sender room data.length).1
    let counted := (limited.observe cid sender room true env.now).advanceProgress sender env.now
    (s.fulfillDataIn env room cid sender data).state =
        (counted.fulfill env 3 cid sender room data).1 ∧
      (s.fulfillDataIn env room cid sender data).deliveries =
        (counted.fulfill env 3 cid sender room data).2 := by
  unfold WantState.fulfillDataIn
  dsimp only
  rw [prune_observe, if_pos h]
  exact ⟨rfl, rfl⟩

namespace Twin

theorem fulfillDataIn (h : Twin tx s bare) (hopen : ∀ look, env.closed look other = false)
    (hawaits : (bare.seen env room cid sender).Awaits cid sender room data.length other) :
    TwinEffects tx (s.fulfillDataIn env room cid sender data)
      (bare.fulfillDataIn env room cid sender data) := by
  have hlimited := (h.seen env room cid sender).enforceByteLimits env 1 cid sender room data.length
  have hawaits' := hawaits.enforceByteLimits (hopen 1) (Nat.le_refl data.length)
  have haccepts' := hawaits'.accepts (env.closed 2) (hopen 2)
  have haccepts := (hlimited.awaits hawaits').accepts (env.closed 2) (hopen 2)
  by_cases hblock : data.length ≤ MAX_WANT_BLOCK_BYTES
  · have hcounted := (hlimited.observe cid sender room true env.now).advanceProgress sender env.now
    obtain ⟨htwin, hsame⟩ :=
      hcounted.fulfill env 3 data ((Covered.of_accepts haccepts').observe true env.now)
    exact .of_eq (fulfillDataIn_taken ⟨hblock, haccepts⟩) (fulfillDataIn_taken ⟨hblock, haccepts'⟩) htwin hsame
  · exact .of_eq (fulfillDataIn_refused fun hpass => hblock hpass.1)
      (fulfillDataIn_refused fun hpass => hblock hpass.1) hlimited rfl

theorem fulfillDataIn_alone (h : Twin tx s bare)
    (hover : ∀ want ∈ (bare.seen env room cid sender).wants cid, want.covers sender room = true →
      want.overLimit data.length = true)
    (hopen : ∀ cid', ∀ want ∈ (bare.seen env room cid sender).wants cid', ∀ look,
      env.closed look want.tx = false) :
    TwinEffects tx (s.fulfillDataIn env room cid sender data)
      (bare.fulfillDataIn env room cid sender data) := by
  have hlimited := (h.seen env room cid sender).enforceByteLimits env 1 cid sender room data.length
  have hnone := not_covered_enforceByteLimits env 1 hover
  have hrefused := fulfillDataIn_refused fun hpass => hnone (Covered.of_accepts hpass.2)
  by_cases hpass : data.length ≤ MAX_WANT_BLOCK_BYTES ∧ ((s.seen env room cid
      sender).enforceByteLimits env 1 cid sender room data.length).1.accepts (env.closed 2) cid
        sender room = true
  · have hcounted :=
      (hlimited.observe_alone hnone true env.now).advanceProgress_alone sender env.now
    obtain ⟨htwin, hnobody⟩ := hcounted.fulfill_alone env 3 data hnone
      ((Covered.of_accepts hpass.2).observe true env.now)
      (open_enforceByteLimits fun cid' want hmem => hopen cid' want hmem 4)
    exact .of_eq (fulfillDataIn_taken hpass) hrefused htwin hnobody.symm
  · exact .of_eq (fulfillDataIn_refused hpass) hrefused hlimited rfl

end Twin

end

end Mistlib.Storage
