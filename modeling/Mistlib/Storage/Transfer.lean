import Mistlib.Storage.FrameCodec
import Mistlib.Storage.WantRun

/-!
# The transfer of a block

The sender cuts a block into frames, the receiver recognises each frame and
hands it to its registry. Whatever the order and the repetitions in which the
frames arrive, an open registration on their path ends up with the block.
-/

namespace Mistlib.Storage

open WantState

/-! ## Cutting -/

variable (cid : Cid) {data : Bytes} {chunkSize total : Nat}

theorem chunkSizeForLimit_bounds (limit : Option Nat) :
    MIN_CHUNK_SIZE ≤ chunkSizeForLimit cid limit ∧
      chunkSizeForLimit cid limit ≤ HAVE_CHUNK_SIZE := by
  have hdefault : MIN_CHUNK_SIZE ≤ HAVE_CHUNK_SIZE ∧ HAVE_CHUNK_SIZE ≤ HAVE_CHUNK_SIZE := by decide
  cases limit with
  | none => exact hdefault
  | some n =>
    simp only [chunkSizeForLimit]
    split
    · next h =>
      refine ⟨?_, Nat.min_le_right _ _⟩
      rw [Nat.le_min]
      exact ⟨h.2, hdefault.1⟩
    · exact hdefault

theorem chunks_cover (dataLen : Nat) {chunkSize : Nat} (hpos : 0 < chunkSize) :
    dataLen ≤ (dataLen + chunkSize - 1) / chunkSize * chunkSize ∧
      ∀ i < (dataLen + chunkSize - 1) / chunkSize, i * chunkSize < dataLen := by
  constructor
  · have hmod := Nat.div_add_mod (dataLen + chunkSize - 1) chunkSize
    have hlt := Nat.mod_lt (dataLen + chunkSize - 1) hpos
    rw [Nat.mul_comm] at hmod
    omega
  · intro i hi
    have hnext : (i + 1) * chunkSize ≤ dataLen + chunkSize - 1 :=
      (Nat.le_div_iff_mul_le hpos).mp hi
    rw [Nat.succ_mul] at hnext
    omega

theorem haveChunkCount_legal {dataLen chunkSize : Nat} (hdata : dataLen ≤ MAX_WANT_BLOCK_BYTES)
    (hchunk : MIN_CHUNK_SIZE ≤ chunkSize) :
    ∃ total, haveChunkCount dataLen chunkSize = some total ∧ total ≤ MAX_WANT_CHUNKS ∧
      dataLen ≤ total * chunkSize ∧ ∀ i < total, i * chunkSize < dataLen := by
  have hpos : 0 < chunkSize := Nat.lt_of_lt_of_le (by decide) hchunk
  obtain ⟨hcover, htight⟩ := chunks_cover dataLen hpos
  have hlegal : (dataLen + chunkSize - 1) / chunkSize ≤ MAX_WANT_CHUNKS := by
    by_contra hover
    have hlast := htight MAX_WANT_CHUNKS (by omega)
    have hmin : MAX_WANT_CHUNKS * MIN_CHUNK_SIZE ≤ MAX_WANT_CHUNKS * chunkSize :=
      Nat.mul_le_mul_left _ hchunk
    have hconst : MAX_WANT_CHUNKS * MIN_CHUNK_SIZE = MAX_WANT_BLOCK_BYTES := by decide
    omega
  have hwire : ¬ (dataLen + chunkSize - 1) / chunkSize > U16_MAX := by
    have hconst : MAX_WANT_CHUNKS ≤ U16_MAX := by decide
    omega
  refine ⟨(dataLen + chunkSize - 1) / chunkSize, ?_, hlegal, hcover, htight⟩
  simp only [haveChunkCount, if_neg hwire]

/-- Every chunk that is counted begins within the block. -/
theorem chunk_begins (hpos : 0 < chunkSize) (h : haveChunkCount data.length chunkSize = some total)
    {index : Nat} (hindex : index < total) : index * chunkSize < data.length := by
  unfold haveChunkCount at h
  simp only at h
  split at h
  · cases h
  · cases h
    exact (chunks_cover data.length hpos).2 index hindex

def slice (data : Bytes) (chunkSize i : Nat) : Bytes :=
  (data.take (min ((i + 1) * chunkSize) data.length)).drop (i * chunkSize)

theorem flatMap_slice_take (data : Bytes) (chunkSize n : Nat) :
    (List.range n).flatMap (slice data chunkSize) = data.take (n * chunkSize) := by
  induction n with
  | zero => simp
  | succ n ih =>
    rw [List.range_succ, List.flatMap_append, ih]
    simp only [List.flatMap_cons, List.flatMap_nil, List.append_nil, slice]
    have htake : data.take (min ((n + 1) * chunkSize) data.length) =
        data.take ((n + 1) * chunkSize) := by
      rw [Nat.min_comm, ← List.take_take]
      simp
    have hle : n * chunkSize ≤ (n + 1) * chunkSize := Nat.mul_le_mul_right _ (Nat.le_succ n)
    rw [htake]
    conv_rhs => rw [← List.take_append_drop (n * chunkSize) (data.take ((n + 1) * chunkSize))]
    rw [List.take_take, Nat.min_eq_left hle]

theorem flatMap_slice (hcover : data.length ≤ total * chunkSize) :
    (List.range total).flatMap (slice data chunkSize) = data := by
  rw [flatMap_slice_take, List.take_of_length_le hcover]

/-! ## Recognising -/

def frameOf (cid : Cid) (data : Bytes) (chunkSize total i : Nat) : StorageFrame :=
  if total ≤ 1 then .haveBlock cid data else .haveChunk cid i total (slice data chunkSize i)

theorem buildHavePayload_eq {chunkSize i : Nat} (total : Nat)
    (h : total ≤ 1 ∨ i * chunkSize < data.length) :
    buildHavePayload cid data i total chunkSize = some (frameOf cid data chunkSize total i).build := by
  unfold buildHavePayload frameOf
  split
  · rfl
  · next hmany =>
    have hstart := h.resolve_left hmany
    have hnext : (i + 1) * chunkSize = i * chunkSize + chunkSize := Nat.succ_mul _ _
    exact if_pos (by omega)

theorem classify_buildHavePayload {cid : Cid} (h : isValidCid cid = true) {data raw : Bytes}
    {chunkSize total i : Nat} (htotal : total ≤ MAX_WANT_CHUNKS) (hi : i < max total 1)
    (hraw : buildHavePayload cid data i total chunkSize = some raw) :
    classifyStorageFrame raw = some (frameOf cid data chunkSize total i) := by
  unfold buildHavePayload at hraw
  unfold frameOf
  split at hraw
  · next hone =>
    cases hraw
    rw [if_pos hone]
    exact classify_buildHaveMessage h data
  · next hmany =>
    obtain ⟨-, hraw⟩ := Option.ite_none_right_eq_some.mp hraw
    cases hraw
    rw [if_neg hmany]
    exact classify_buildHaveChunkMessage h (by omega) htotal _

theorem mapM_eq_some {α β : Type} {f : α → Option β} {xs : List α} {ys : List β} :
    xs.mapM f = some ys ↔ xs.map f = ys.map some := by
  induction xs generalizing ys with
  | nil => cases ys <;> simp
  | cons x rest ih => cases ys <;> simp [List.mapM_cons, Option.bind_eq_some_iff, ih]

/-- The frames are those of the indices, in order. -/
theorem sendBlockFrames_eq_some {cid : Cid} {frames : List Bytes} :
    sendBlockFrames cid data chunkSize total = some frames ↔
      (List.range (max total 1)).map (buildHavePayload cid data · total chunkSize) = frames.map some :=
  mapM_eq_some

theorem sendBlockFrames_built (htight : ∀ i < total, i * chunkSize < data.length) :
    sendBlockFrames cid data chunkSize total =
      some ((List.range (max total 1)).map fun i => (frameOf cid data chunkSize total i).build) := by
  rw [sendBlockFrames_eq_some, List.map_map]
  refine List.map_congr_left fun i hi => buildHavePayload_eq cid total ?_
  have hindex := List.mem_range.mp hi
  by_cases hone : total ≤ 1
  · exact .inl hone
  · exact .inr (htight i (by omega))

theorem mem_sendBlockFrames {cid : Cid} {data raw : Bytes} {frames : List Bytes}
    (hframes : sendBlockFrames cid data chunkSize total = some frames) :
    raw ∈ frames ↔ ∃ i < max total 1, buildHavePayload cid data i total chunkSize = some raw := by
  have hmem : raw ∈ frames ↔ some raw ∈ frames.map some := by simp
  rw [hmem, ← sendBlockFrames_eq_some.mp hframes]
  simp

/-! ## Receiving -/

def WantOp.ofFrame (room : Room) (sender : NodeId) : StorageFrame → Option WantOp
  | .haveBlock cid data => some (.fulfill room cid sender data)
  | .haveChunk cid chunkIndex chunkTotal data =>
    some (.fulfillChunk room cid sender chunkIndex chunkTotal data)
  | _ => none

/-- A raw payload arrives from `sender` through `room`. -/
def WantState.receive (s : WantState) (room : Room) (sender : NodeId) (raw : Bytes)
    (env : Surroundings) : Effect :=
  match (classifyStorageFrame raw).bind (WantOp.ofFrame room sender) with
  | some op => op.apply env s
  | none => { state := s }

/-- Payloads arrive one after the other; what the waiters are handed meanwhile. -/
def WantState.receiveAll (room : Room) (sender : NodeId) :
    WantState → List (Bytes × Surroundings) → List Delivery
  | _, [] => []
  | s, (raw, env) :: rest =>
    (s.receive room sender raw env).deliveries ++
      receiveAll room sender (s.receive room sender raw env).state rest

/-- A waiter of channel `tx` wants the block from this sender through this
room and takes blocks of this size. -/
def WantState.Awaits (s : WantState) (cid : Cid) (sender : NodeId) (room : Room) (size : Nat)
    (tx : Channel) : Prop :=
  ∃ want ∈ s.wants cid, want.tx = tx ∧ want.covers sender room = true ∧
    want.overLimit size = false

/-- Somebody wants the block from this sender through this room. -/
def WantState.Covered (s : WantState) (cid : Cid) (sender : NodeId) (room : Room) : Prop :=
  ∃ want ∈ s.wants cid, want.covers sender room = true

/-- The limits of the registry leave room for a block of this size. -/
structure WantState.Budget (s : WantState) (key : AssemblyKey) (size : Nat) : Prop where
  count : s.assemblies.contains key ∨ s.assemblies.size < MAX_WANT_ASSEMBLIES
  bytes : s.assemblies.sumBy ChunkAssembly.bytes + size ≤
    MAX_WANT_ASSEMBLY_BYTES + s.assembledBytes key

/-- What is put together for the key so far, if anything, is a part of the
block cut like this. -/
def WantState.Resumable (s : WantState) (key : AssemblyKey) (data : Bytes)
    (chunkSize total : Nat) : Prop :=
  ∀ a, s.assemblies.get key = some a → a.WellFormed ∧ a.totalChunks = total ∧
    a.receivedChunks < total ∧ ∀ i part, a.chunk i = some part → part = slice data chunkSize i

namespace WantState

variable {s : WantState} {env : Surroundings} {look : Nat} {cid : Cid} {sender : NodeId}
  {room : Room} {size : Nat} {tx : Channel}

/-- A registration whose receiver lives outlasts a prune. -/
theorem Awaits.prune (h : s.Awaits cid sender room size tx) (hopen : env.closed look tx = false) :
    (s.prune env look).Awaits cid sender room size tx := by
  obtain ⟨want, hmem, rfl, hcovers, hlimit⟩ := h
  exact ⟨want, mem_wants_prune.mpr ⟨hmem, hopen⟩, rfl, hcovers, hlimit⟩

theorem Awaits.observe (h : s.Awaits cid sender room size tx) (accepted : Bool) (now : Instant) :
    (s.observe cid sender room accepted now).Awaits cid sender room size tx := by
  obtain ⟨want, hmem, rfl, hcovers, hlimit⟩ := h
  rw [WantState.observe]
  unfold WantState.Awaits
  rw [wants_modify _ _ _ _ rfl, if_pos rfl]
  refine ⟨_, List.mem_map_of_mem hmem, ?_⟩
  rw [if_pos hcovers]
  exact ⟨rfl, hcovers, hlimit⟩

variable {bytes : Nat}

theorem overLimit_mono {want : PendingWant} (h : want.overLimit size = false) (hle : bytes ≤ size) :
    want.overLimit bytes = false := by
  unfold PendingWant.overLimit at h ⊢
  split at h
  · simp only [decide_eq_false_iff_not] at h ⊢
    omega
  · rfl

theorem Awaits.enforceByteLimits (h : s.Awaits cid sender room size tx)
    (hopen : env.closed look tx = false) (hle : bytes ≤ size) :
    (s.enforceByteLimits env look cid sender room bytes).1.Awaits cid sender room size tx := by
  apply Awaits.prune _ hopen
  obtain ⟨want, hmem, rfl, hcovers, hlimit⟩ := h
  unfold WantState.Awaits
  rw [wants_modify _ _ _ _ rfl, if_pos rfl]
  refine ⟨want, List.mem_filter.mpr ⟨hmem, ?_⟩, rfl, hcovers, hlimit⟩
  simp [overLimit_mono hlimit hle]

theorem Awaits.accepts (h : s.Awaits cid sender room size tx) (closed : Channel → Bool)
    (hopen : closed tx = false) : s.accepts closed cid sender room = true := by
  obtain ⟨want, hmem, rfl, hcovers, _⟩ := h
  exact List.any_eq_true.mpr ⟨want, hmem, by simp [hopen, hcovers]⟩

/-- What is accepted on a path is wanted there. -/
theorem Covered.of_accepts {closed : Channel → Bool} (h : s.accepts closed cid sender room = true) :
    s.Covered cid sender room := by
  obtain ⟨want, hmem, hwant⟩ := List.any_eq_true.mp h
  simp only [Bool.and_eq_true] at hwant
  exact ⟨want, hmem, hwant.2⟩

theorem Covered.of_prune (h : (s.prune env look).Covered cid sender room) :
    s.Covered cid sender room := by
  obtain ⟨want, hmem, hcovers⟩ := h
  exact ⟨want, (mem_wants_prune.mp hmem).1, hcovers⟩

theorem Covered.of_observe {accepted : Bool} {now : Instant}
    (h : (s.observe cid sender room accepted now).Covered cid sender room) :
    s.Covered cid sender room := by
  obtain ⟨want', hmem, hcovers⟩ := h
  rw [WantState.observe, wants_modify _ _ _ _ rfl, if_pos rfl] at hmem
  obtain ⟨want, hin, rfl⟩ := List.mem_map.mp hmem
  refine ⟨want, hin, ?_⟩
  split at hcovers
  · next h => exact h
  · exact hcovers

theorem Covered.of_enforceByteLimits
    (h : (s.enforceByteLimits env look cid sender room bytes).1.Covered cid sender room) :
    s.Covered cid sender room := by
  obtain ⟨want, hmem, hcovers⟩ := Covered.of_prune h
  rw [wants_modify _ _ _ _ rfl, if_pos rfl] at hmem
  exact ⟨want, List.mem_of_mem_filter hmem, hcovers⟩

theorem not_covered_fulfill (data : Bytes) :
    ¬ (s.fulfill env look cid sender room data).1.Covered cid sender room := by
  intro h
  unfold WantState.fulfill at h
  split at h
  · next hnone =>
    obtain ⟨want, hmem, _⟩ := h
    simp [WantState.wants, hnone] at hmem
  · next wants hwants =>
    obtain ⟨want, hmem, hcovers⟩ := Covered.of_prune h
    simp only [WantState.wants] at hmem
    split at hmem
    · rw [Table.get_erase, if_pos rfl] at hmem
      cases hmem
    · rw [Table.get_insert_self, Option.getD_some] at hmem
      have hout := (List.mem_filter.mp hmem).2
      simp [hcovers] at hout

theorem Awaits.fulfill (h : s.Awaits cid sender room size tx) (hopen : env.closed look tx = false)
    (data : Bytes) : ∃ d ∈ (s.fulfill env look cid sender room data).2,
      d.cid = cid ∧ d.want.tx = tx ∧ d.data = data := by
  obtain ⟨want, hmem, rfl, hcovers, _⟩ := h
  unfold WantState.wants at hmem
  unfold WantState.fulfill
  cases hp : s.pending.get cid with
  | none =>
    rw [hp] at hmem
    cases hmem
  | some wants =>
    rw [hp, Option.getD_some] at hmem
    refine ⟨⟨cid, want, data⟩, List.mem_map_of_mem ?_, rfl, rfl, rfl⟩
    exact List.mem_filter.mpr ⟨List.mem_filter.mpr ⟨hmem, hcovers⟩, by simp [hopen]⟩

/-! ### One chunk -/

/-- `s'` has the same for the key and no more than `s` altogether. -/
structure Steady (key : AssemblyKey) (s s' : WantState) : Prop where
  same : s'.assemblies.get key = s.assemblies.get key
  size : s'.assemblies.size ≤ s.assemblies.size
  bytes : s'.assemblies.sumBy ChunkAssembly.bytes ≤ s.assemblies.sumBy ChunkAssembly.bytes

variable {key : AssemblyKey} {s' : WantState}

theorem Steady.assembledBytes (h : Steady key s s') : s'.assembledBytes key = s.assembledBytes key := by
  unfold WantState.assembledBytes
  rw [h.same]

theorem Steady.budget (h : Steady key s s') (hb : s.Budget key size) : s'.Budget key size where
  count := by
    rcases hb.count with hin | hsize
    · refine Or.inl ?_
      rw [Table.contains, h.same]
      exact hin
    · exact Or.inr (Nat.lt_of_le_of_lt h.size hsize)
  bytes := by
    have hown := h.assembledBytes
    have hless := h.bytes
    have hroom := hb.bytes
    omega

theorem Steady.resumable (h : Steady key s s') {data : Bytes} {chunkSize total : Nat}
    (hr : s.Resumable key data chunkSize total) :
    s'.Resumable key data chunkSize total := by
  intro a ha
  exact hr a (h.same ▸ ha)

theorem Steady.prune (h : (s.prune env look).Awaits cid sender room size tx) :
    Steady (cid, sender, room) s (s.prune env look) where
  same := get_assemblies_prune (h.accepts (fun _ => false) rfl)
  size := Table.size_retain_le _ _
  bytes := Table.sumBy_retain_le _ _ _

theorem Steady.enforceByteLimits
    (h : (s.enforceByteLimits env look cid sender room bytes).1.Awaits cid sender room size tx) :
    Steady (cid, sender, room) s (s.enforceByteLimits env look cid sender room bytes).1 :=
  let p := Steady.prune h
  { p with }

theorem sumBy_assemblies (s : WantState) (key : AssemblyKey) :
    s.assemblies.sumBy ChunkAssembly.bytes =
      s.assembledBytes key + (s.assemblies.erase key).sumBy ChunkAssembly.bytes := by
  unfold assembledBytes
  cases hget : s.assemblies.get key with
  | none => simp [Table.erase_of_get_none hget]
  | some a => exact Table.sumBy_of_get _ hget

/-- An entry that holds nothing but chunks of the block. -/
structure PartOf (a : ChunkAssembly) (data : Bytes) (chunkSize total : Nat) : Prop where
  wellFormed : a.WellFormed
  total : a.totalChunks = total
  parts : ∀ i part, a.chunk i = some part → part = slice data chunkSize i

theorem Resumable.entryOf {data : Bytes} {chunkSize total : Nat}
    (h : s.Resumable key data chunkSize total) :
    PartOf (s.entryOf key total) data chunkSize total ∧
      (s.entryOf key total).bytes = s.assembledBytes key := by
  unfold WantState.entryOf WantState.assembledBytes
  cases hget : s.assemblies.get key with
  | none =>
    refine ⟨⟨ChunkAssembly.new_wellFormed total, rfl, ?_⟩, rfl⟩
    intro i part hi
    simp at hi
  | some a =>
    obtain ⟨hwf, htotal, _, hparts⟩ := h a hget
    exact ⟨⟨hwf, htotal, hparts⟩, rfl⟩

namespace PartOf

variable {a : ChunkAssembly} {data : Bytes} {chunkSize total i : Nat}

section

variable (h : PartOf a data chunkSize total)
include h

theorem slot (hi : i < total) : i < a.chunks.length := by
  rw [h.wellFormed.slots, h.total]
  exact hi

theorem place (hi : i < total) (hfree : a.chunk i = none) :
    PartOf (a.place i (slice data chunkSize i)) data chunkSize total where
  wellFormed := h.wellFormed.place (h.total.symm ▸ hi) hfree _
  total := h.total
  parts := by
    intro j part hj
    rw [ChunkAssembly.chunk_place _ (h.slot hi)] at hj
    split at hj
    · next heq =>
      cases hj
      rw [heq]
    · exact h.parts j part hj

theorem bytes_le (hcover : data.length ≤ total * chunkSize) : a.bytes ≤ data.length := by
  rw [h.wellFormed.size, h.wellFormed.full_eq, h.total]
  conv_rhs => rw [← flatMap_slice hcover]
  rw [List.length_flatMap, List.length_flatMap]
  apply List.sum_le_sum
  intro i _
  cases hc : a.chunk i with
  | none => exact Nat.zero_le _
  | some part =>
    rw [h.parts i part hc]
    exact le_rfl

theorem full_eq (hcover : data.length ≤ total * chunkSize)
    (hcomplete : a.receivedChunks = a.totalChunks) : a.full = data := by
  rw [h.wellFormed.full_eq, h.total]
  conv_rhs => rw [← flatMap_slice hcover]
  apply List.flatMap_congr
  intro j hj
  obtain ⟨part, hpart⟩ := h.wellFormed.complete hcomplete
    (h.total.symm ▸ List.mem_range.mp hj : j < a.totalChunks)
  rw [hpart, Option.getD_some, h.parts j part hpart]

end

end PartOf

def Holds (s : WantState) (key : AssemblyKey) (i : Nat) : Prop :=
  ∃ a part, s.assemblies.get key = some a ∧ a.chunk i = some part

/-- After a chunk: the waiter still waits and holds that chunk and all it
held before, or it has been handed the block and nobody on the path is left. -/
def Advances (s : WantState) (cid : Cid) (sender : NodeId) (room : Room) (data : Bytes)
    (chunkSize total i : Nat) (tx : Channel) (e : Effect) : Prop :=
  (e.deliveries = [] ∧ e.state.Awaits cid sender room data.length tx ∧
      e.state.Budget (cid, sender, room) data.length ∧
      e.state.Resumable (cid, sender, room) data chunkSize total ∧
      e.state.Holds (cid, sender, room) i ∧
      ∀ j, s.Holds (cid, sender, room) j → e.state.Holds (cid, sender, room) j) ∨
    ((∃ d ∈ e.deliveries, d.cid = cid ∧ d.want.tx = tx ∧ d.data = data) ∧
      (∀ d ∈ e.deliveries, d.data = data) ∧ ¬ e.state.Covered cid sender room)

variable {data : Bytes} {chunkSize total i : Nat}

theorem storeChunk_advances (hcover : data.length ≤ total * chunkSize) (hi : i < total)
    (hawaits : s.Awaits cid sender room data.length tx)
    (hbudget : s.Budget (cid, sender, room) data.length)
    (hresume : s.Resumable (cid, sender, room) data chunkSize total)
    (hfree : (s.entryOf (cid, sender, room) total).chunk i = none)
    (hopen : ∀ look, env.closed look tx = false) :
    s.Advances cid sender room data chunkSize total i tx
      (s.storeChunk env room cid sender i total (slice data chunkSize i)) := by
  obtain ⟨hpart, _⟩ := hresume.entryOf
  have hplaced := hpart.place hi hfree
  have hchunk := ChunkAssembly.chunk_place (s.entryOf (cid, sender, room) total) (hpart.slot hi)
    (slice data chunkSize i)
  unfold storeChunk
  simp only
  rw [show (s.assemblies.get (cid, sender, room)).getD (.new total) =
    s.entryOf (cid, sender, room) total from rfl]
  generalize (s.entryOf (cid, sender, room) total).place i (slice data chunkSize i) = entry
    at hplaced hchunk ⊢
  have hawaits' : ((({ s with assemblies := s.assemblies.insert (cid, sender, room) entry }
      : WantState).observe cid sender room true env.now).advanceProgress sender env.now).Awaits
        cid sender room data.length tx :=
    Awaits.observe (s := { s with assemblies := s.assemblies.insert (cid, sender, room) entry })
      hawaits true env.now
  split
  · next hcomplete =>
    have hfull := hplaced.full_eq hcover hcomplete
    refine Or.inr ⟨?_, ?_, not_covered_fulfill _⟩
    · rw [hfull]
      exact Awaits.fulfill (s := { ((({ s with
          assemblies := s.assemblies.insert (cid, sender, room) entry } : WantState).observe cid
          sender room true env.now).advanceProgress sender env.now) with
          assemblies := (s.assemblies.insert (cid, sender, room) entry).erase (cid, sender, room) })
        hawaits' (hopen 4) data
    · intro d hd
      exact (mem_fulfill hd).2.1.trans hfull
  · next hmissing =>
    have hget : ((({ s with assemblies := s.assemblies.insert (cid, sender, room) entry }
        : WantState).observe cid sender room true env.now).advanceProgress sender
          env.now).assemblies.get (cid, sender, room) = some entry := Table.get_insert_self _ _ _
    refine Or.inl ⟨rfl, hawaits', ?_, ?_, ⟨entry, slice data chunkSize i, hget, ?_⟩, ?_⟩
    · refine ⟨Or.inl (Table.contains_iff.mpr ⟨_, hget⟩), ?_⟩
      have hbefore := hbudget.bytes
      rw [sumBy_assemblies s (cid, sender, room)] at hbefore
      have hafter : (s.assemblies.insert (cid, sender, room) entry).sumBy ChunkAssembly.bytes =
          entry.bytes + (s.assemblies.erase (cid, sender, room)).sumBy ChunkAssembly.bytes :=
        Table.sumBy_insert _ _ _ _
      have hown : ((({ s with assemblies := s.assemblies.insert (cid, sender, room) entry }
          : WantState).observe cid sender room true env.now).advanceProgress sender
            env.now).assembledBytes (cid, sender, room) = entry.bytes := by
        rw [assembledBytes, hget]
        rfl
      rw [hown]
      show (s.assemblies.insert (cid, sender, room) entry).sumBy ChunkAssembly.bytes +
        data.length ≤ _
      omega
    · intro a ha
      cases hget.symm.trans ha
      refine ⟨hplaced.wellFormed, hplaced.total, ?_, hplaced.parts⟩
      have hle : entry.receivedChunks ≤ entry.totalChunks := by
        rw [hplaced.wellFormed.received, ← hplaced.wellFormed.slots]
        exact List.countP_le_length
      have htotal := hplaced.total
      omega
    · rw [hchunk, if_pos rfl]
    · rintro j ⟨a, part, ha, hj⟩
      have hold : (s.entryOf (cid, sender, room) total).chunk j = some part := by
        rw [entryOf, ha]
        exact hj
      by_cases heq : j = i
      · exact ⟨entry, slice data chunkSize i, hget, by rw [hchunk, if_pos heq]⟩
      · exact ⟨entry, part, hget, by rw [hchunk, if_neg heq, hold]⟩

theorem Holds.steady (h : Steady key s s') {i : Nat} (hi : s.Holds key i) : s'.Holds key i := by
  obtain ⟨a, part, ha, hpart⟩ := hi
  exact ⟨a, part, h.same.trans ha, hpart⟩

theorem Advances.steady {e : Effect} (h : Steady (cid, sender, room) s s')
    (ha : s'.Advances cid sender room data chunkSize total i tx e) :
    s.Advances cid sender room data chunkSize total i tx e := by
  rcases ha with ⟨hnobody, hawaits, hbudget, hresume, hnew, hold⟩ | hdone
  · exact Or.inl ⟨hnobody, hawaits, hbudget, hresume, hnew, fun j hj => hold j (hj.steady h)⟩
  · exact Or.inr hdone

theorem limitChunk_advances (hdata : data.length ≤ MAX_WANT_BLOCK_BYTES)
    (hcover : data.length ≤ total * chunkSize) (hi : i < total)
    (hawaits : s.Awaits cid sender room data.length tx)
    (hbudget : s.Budget (cid, sender, room) data.length)
    (hresume : s.Resumable (cid, sender, room) data chunkSize total)
    (hfree : (s.entryOf (cid, sender, room) total).chunk i = none)
    (hopen : ∀ look, env.closed look tx = false) :
    s.Advances cid sender room data chunkSize total i tx
      (s.limitChunk env room cid sender i total (slice data chunkSize i)) := by
  obtain ⟨hpart, hown⟩ := hresume.entryOf
  have hbytes : s.assembledBytes (cid, sender, room) + (slice data chunkSize i).length ≤
      data.length := by
    rw [← hown]
    exact (hpart.place hi hfree).bytes_le hcover
  unfold limitChunk
  simp only
  generalize hsize : s.assembledBytes (cid, sender, room) + (slice data chunkSize i).length =
    bytes at hbytes ⊢
  have hlimited := hawaits.enforceByteLimits (hopen 2) hbytes
  have hsteady := Steady.enforceByteLimits hlimited
  have hsame : (s.enforceByteLimits env 2 cid sender room bytes).1.entryOf
      (cid, sender, room) total = s.entryOf (cid, sender, room) total := by
    rw [entryOf, entryOf, hsteady.same]
  have hbudget' := hsteady.budget hbudget
  have hresume' := hsteady.resumable hresume
  have hown' := hsteady.assembledBytes
  apply Advances.steady hsteady
  generalize (s.enforceByteLimits env 2 cid sender room bytes).1 = s'
    at hlimited hsame hbudget' hresume' hown' ⊢
  have hpass : ¬ (¬ s'.accepts (env.closed 3) cid sender room = true ∨
      bytes > MAX_WANT_BLOCK_BYTES) := by
    simp only [hlimited.accepts (env.closed 3) (hopen 3), not_true_eq_false, false_or]
    omega
  have hcount : ¬ (¬ s'.assemblies.contains (cid, sender, room) = true ∧
      s'.assemblies.size ≥ MAX_WANT_ASSEMBLIES) := by
    rintro ⟨hout, hfull⟩
    rcases hbudget'.count with hin | hless
    · exact hout hin
    · omega
  have hroom := hbudget'.bytes
  rw [if_neg hpass, if_neg hcount, if_neg (by omega)]
  exact storeChunk_advances hcover hi hlimited hbudget' hresume' (hsame ▸ hfree) hopen

theorem fulfillChunkDataIn_advances (hdata : data.length ≤ MAX_WANT_BLOCK_BYTES)
    (htotal : total ≤ MAX_WANT_CHUNKS) (hcover : data.length ≤ total * chunkSize) (hi : i < total)
    (hawaits : s.Awaits cid sender room data.length tx)
    (hbudget : s.Budget (cid, sender, room) data.length)
    (hresume : s.Resumable (cid, sender, room) data chunkSize total)
    (hopen : ∀ look, env.closed look tx = false) :
    s.Advances cid sender room data chunkSize total i tx
      (s.fulfillChunkDataIn env room cid sender i total (slice data chunkSize i)) := by
  have hpruned := hawaits.prune (hopen 0)
  have hsteady : Steady (cid, sender, room) s
      ((s.prune env 0).observe cid sender room false env.now) :=
    let p := Steady.prune hpruned
    { p with }
  have hseen := hpruned.observe false env.now
  have hbudget' := hsteady.budget hbudget
  have hresume' := hsteady.resumable hresume
  unfold fulfillChunkDataIn
  simp only
  apply Advances.steady hsteady
  generalize (s.prune env 0).observe cid sender room false env.now = s'
    at hseen hbudget' hresume' ⊢
  rw [if_neg (by omega), if_neg (by simp [hseen.accepts (env.closed 1) (hopen 1)])]
  cases hget : s'.assemblies.get (cid, sender, room) with
  | none =>
    apply limitChunk_advances hdata hcover hi hseen hbudget' hresume' _ hopen
    simp [entryOf, hget]
  | some a =>
    obtain ⟨_, ht, _, _⟩ := hresume' a hget
    simp only
    rw [if_neg (not_not.mpr ht)]
    split
    · next hdup =>
      obtain ⟨part, hpart⟩ := Option.isSome_iff_exists.mp hdup
      exact Or.inl ⟨rfl, hseen, hbudget', hresume', ⟨a, part, hget, hpart⟩, fun j hj => hj⟩
    · next hnew =>
      apply limitChunk_advances hdata hcover hi hseen hbudget' hresume' _ hopen
      simpa [entryOf, hget] using hnew

/-- A whole block completes the waiter. -/
theorem fulfillDataIn_completes (hdata : data.length ≤ MAX_WANT_BLOCK_BYTES)
    (hawaits : s.Awaits cid sender room data.length tx) (hopen : ∀ look, env.closed look tx = false) :
    (∃ d ∈ (s.fulfillDataIn env room cid sender data).deliveries,
        d.cid = cid ∧ d.want.tx = tx ∧ d.data = data) ∧
      (∀ d ∈ (s.fulfillDataIn env room cid sender data).deliveries, d.data = data) ∧
      ¬ (s.fulfillDataIn env room cid sender data).state.Covered cid sender room := by
  have hlimited := ((hawaits.prune (hopen 0)).observe false env.now).enforceByteLimits (hopen 1)
    (Nat.le_refl data.length)
  unfold fulfillDataIn
  simp only
  generalize (((s.prune env 0).observe cid sender room false env.now).enforceByteLimits env 1 cid
    sender room data.length).1 = s' at hlimited ⊢
  rw [if_pos ⟨hdata, hlimited.accepts (env.closed 2) (hopen 2)⟩]
  have hcounted : ((s'.observe cid sender room true env.now).advanceProgress sender
      env.now).Awaits cid sender room data.length tx := hlimited.observe true env.now
  refine ⟨hcounted.fulfill (hopen 3) data, ?_, not_covered_fulfill data⟩
  intro d hd
  exact (mem_fulfill hd).2.1

theorem fulfillDataIn_ignored (data : Bytes) (h : ¬ s.Covered cid sender room) :
    (s.fulfillDataIn env room cid sender data).deliveries = [] ∧
      ¬ (s.fulfillDataIn env room cid sender data).state.Covered cid sender room := by
  have hlimited : ¬ (((s.prune env 0).observe cid sender room false env.now).enforceByteLimits env 1
      cid sender room data.length).1.Covered cid sender room :=
    fun hc => h hc.of_enforceByteLimits.of_observe.of_prune
  unfold fulfillDataIn
  simp only
  split
  · next hpass => exact absurd (Covered.of_accepts hpass.2) hlimited
  · exact ⟨rfl, hlimited⟩

theorem fulfillChunkDataIn_ignored (i total : Nat) (data : Bytes)
    (h : ¬ s.Covered cid sender room) :
    (s.fulfillChunkDataIn env room cid sender i total data).deliveries = [] ∧
      ¬ (s.fulfillChunkDataIn env room cid sender i total data).state.Covered cid sender room := by
  have hseen : ¬ ((s.prune env 0).observe cid sender room false env.now).Covered cid sender room :=
    fun hc => h hc.of_observe.of_prune
  unfold fulfillChunkDataIn
  simp only
  split
  · exact ⟨rfl, hseen⟩
  · split
    · exact ⟨rfl, hseen⟩
    · next hpass => exact absurd (Covered.of_accepts (not_not.mp hpass)) hseen

/-! ### All frames -/

theorem receive_frame (hcid : isValidCid cid = true) {data raw : Bytes}
    (htotal : total ≤ MAX_WANT_CHUNKS) (hi : i < max total 1)
    (hraw : buildHavePayload cid data i total chunkSize = some raw) :
    s.receive room sender raw env =
      if total ≤ 1 then s.fulfillDataIn env room cid sender data
      else s.fulfillChunkDataIn env room cid sender i total (slice data chunkSize i) := by
  unfold receive
  rw [classify_buildHavePayload hcid htotal hi hraw]
  by_cases hone : total ≤ 1
  · rw [frameOf, if_pos hone, if_pos hone]
    rfl
  · rw [frameOf, if_neg hone, if_neg hone]
    rfl

theorem receiveAll_ignored (hcid : isValidCid cid = true) {chunkSize total : Nat}
    (htotal : total ≤ MAX_WANT_CHUNKS) {frames : List Bytes}
    (hframes : sendBlockFrames cid data chunkSize total = some frames)
    {feed : List (Bytes × Surroundings)} (hfeed : ∀ x ∈ feed, x.1 ∈ frames)
    (h : ¬ s.Covered cid sender room) : s.receiveAll room sender feed = [] := by
  induction feed generalizing s with
  | nil => rfl
  | cons x rest ih =>
    obtain ⟨raw, env⟩ := x
    obtain ⟨i, hi, hraw⟩ := (mem_sendBlockFrames hframes).mp (hfeed _ List.mem_cons_self)
    have hstep : (s.receive room sender raw env).deliveries = [] ∧
        ¬ (s.receive room sender raw env).state.Covered cid sender room := by
      rw [receive_frame hcid htotal hi hraw]
      split
      · exact fulfillDataIn_ignored data h
      · exact fulfillChunkDataIn_ignored i total _ h
    rw [receiveAll, hstep.1, List.nil_append]
    exact ih (fun y hy => hfeed y (List.mem_cons_of_mem _ hy)) hstep.2

theorem Resumable.not_all_held {chunkSize total : Nat} (h : s.Resumable key data chunkSize total)
    (hpos : 0 < total) (hall : ∀ i < total, s.Holds key i) : False := by
  obtain ⟨a, _, ha, _⟩ := hall 0 hpos
  obtain ⟨hwf, ht, hless, _⟩ := h a ha
  have hfull : a.chunks.countP Option.isSome = a.chunks.length := by
    rw [List.countP_eq_length]
    intro part hmem
    obtain ⟨i, hi, hpart⟩ := List.mem_iff_getElem.mp hmem
    obtain ⟨a', part', ha', hchunk⟩ := hall i (by rw [← ht, ← hwf.slots]; exact hi)
    cases ha.symm.trans ha'
    rw [ChunkAssembly.chunk, List.getElem?_eq_getElem hi, hpart] at hchunk
    cases part with
    | none => cases hchunk
    | some part => rfl
  rw [hwf.received, hfull, hwf.slots] at hless
  omega

/-- Chunks in any order and repetition complete the waiter. -/
theorem receiveAll_chunks (hcid : isValidCid cid = true) {chunkSize total : Nat}
    (hdata : data.length ≤ MAX_WANT_BLOCK_BYTES) (htotal : total ≤ MAX_WANT_CHUNKS)
    (hcover : data.length ≤ total * chunkSize) (hmany : 1 < total) {frames : List Bytes}
    (hframes : sendBlockFrames cid data chunkSize total = some frames)
    {feed : List (Bytes × Surroundings)}
    (hfeed : ∀ x ∈ feed, x.1 ∈ frames ∧ ∀ look, x.2.closed look tx = false)
    (hawaits : s.Awaits cid sender room data.length tx)
    (hbudget : s.Budget (cid, sender, room) data.length)
    (hresume : s.Resumable (cid, sender, room) data chunkSize total)
    (hcoming : ∀ i < total, s.Holds (cid, sender, room) i ∨
      ∃ x ∈ feed, buildHavePayload cid data i total chunkSize = some x.1) :
    (∃ d ∈ s.receiveAll room sender feed, d.cid = cid ∧ d.want.tx = tx ∧ d.data = data) ∧
      ∀ d ∈ s.receiveAll room sender feed, d.data = data := by
  induction feed generalizing s with
  | nil =>
    exfalso
    apply hresume.not_all_held (by omega)
    intro i hi
    rcases hcoming i hi with hheld | ⟨x, hx, _⟩
    · exact hheld
    · cases hx
  | cons x rest ih =>
    obtain ⟨raw, env⟩ := x
    obtain ⟨hraw, hopen⟩ := hfeed _ List.mem_cons_self
    have hrest : ∀ y ∈ rest, y.1 ∈ frames ∧ ∀ look, y.2.closed look tx = false :=
      fun y hy => hfeed y (List.mem_cons_of_mem _ hy)
    obtain ⟨i, hi, hraw⟩ := (mem_sendBlockFrames hframes).mp hraw
    have hi' : i < total := by omega
    rw [receiveAll, receive_frame hcid htotal hi hraw, if_neg (by omega)]
    rcases fulfillChunkDataIn_advances hdata htotal hcover hi' hawaits hbudget hresume hopen with
      ⟨hnobody, hawaits', hbudget', hresume', hnew, hold⟩ | ⟨hdone, hright, hnobody⟩
    · rw [hnobody, List.nil_append]
      apply ih hrest hawaits' hbudget' hresume'
      intro j hj
      rcases hcoming j hj with hheld | ⟨y, hy, heq⟩
      · exact Or.inl (hold j hheld)
      · rcases List.mem_cons.mp hy with hfirst | hlater
        · -- Equal frames carry equal chunks.
          subst hfirst
          have hframes : frameOf cid data chunkSize total i = frameOf cid data chunkSize total j := by
            have h₁ := classify_buildHavePayload hcid htotal hi hraw
            have h₂ := classify_buildHavePayload hcid htotal (by omega : j < max total 1) heq
            exact Option.some.inj (h₁.symm.trans h₂)
          simp only [frameOf, if_neg (Nat.not_le.mpr hmany), StorageFrame.haveChunk.injEq] at hframes
          exact Or.inl (hframes.2.1 ▸ hnew)
        · exact Or.inr ⟨y, hlater, heq⟩
    · rw [receiveAll_ignored hcid htotal hframes (fun y hy => (hrest y hy).1) hnobody,
        List.append_nil]
      exact ⟨hdone, hright⟩

end WantState

/-- The transfer of a block. For every valid content id, every block of legal
size and every limit of the peer, the block has a legal number of chunks and
every frame is recognised for what it carries. Fed in any order and with any
repetitions to a registry that holds an open registration on the path, the
frames complete the waiter with exactly the block, provided that the
registration takes a block of that size, that the registry's budgets are not
used up by others, and that what it had put together on that path before, if
anything, is a part of the same block cut the same way. -/
theorem block_transfer {cid : Cid} (hcid : isValidCid cid = true) {data : Bytes}
    (hdata : data.length ≤ MAX_WANT_BLOCK_BYTES) (limit : Option Nat) :
    ∃ total frames, haveChunkCount data.length (chunkSizeForLimit cid limit) = some total ∧
      total ≤ MAX_WANT_CHUNKS ∧
      sendBlockFrames cid data (chunkSizeForLimit cid limit) total = some frames ∧
      (∀ raw ∈ frames, classifyStorageFrame raw = some (.haveBlock cid data) ∨
          ∃ i part, classifyStorageFrame raw = some (.haveChunk cid i total part)) ∧
      ∀ (s : WantState) (sender : NodeId) (room : Room) (tx : Channel)
        (feed : List (Bytes × Surroundings)),
        s.Awaits cid sender room data.length tx → s.Budget (cid, sender, room) data.length →
        (1 < total → s.Resumable (cid, sender, room) data (chunkSizeForLimit cid limit) total) →
        (∀ x ∈ feed, x.1 ∈ frames ∧ ∀ look, x.2.closed look tx = false) →
        (∀ raw ∈ frames, ∃ x ∈ feed, x.1 = raw) →
        (∃ d ∈ s.receiveAll room sender feed, d.cid = cid ∧ d.want.tx = tx ∧ d.data = data) ∧
          ∀ d ∈ s.receiveAll room sender feed, d.data = data := by
  obtain ⟨total, hcount, hlegal, hcover, htight⟩ :=
    haveChunkCount_legal hdata (chunkSizeForLimit_bounds cid limit).1
  have hframes := sendBlockFrames_built cid htight
  refine ⟨total, _, hcount, hlegal, hframes, ?_, ?_⟩
  · intro raw hraw
    obtain ⟨i, hi, hraw⟩ := (mem_sendBlockFrames hframes).mp hraw
    rw [classify_buildHavePayload hcid hlegal hi hraw]
    unfold frameOf
    split
    · exact Or.inl rfl
    · exact Or.inr ⟨_, _, rfl⟩
  · intro s sender room tx feed hawaits hbudget hresume hfeed hall
    by_cases hmany : 1 < total
    · apply receiveAll_chunks hcid hdata hlegal hcover hmany hframes hfeed hawaits hbudget (hresume hmany)
      intro i hi
      have hbuilt := buildHavePayload_eq cid total (.inr (htight i hi))
      obtain ⟨x, hx, heq⟩ := hall _ ((mem_sendBlockFrames hframes).mpr ⟨i, by omega, hbuilt⟩)
      rw [← heq] at hbuilt
      exact Or.inr ⟨x, hx, hbuilt⟩
    · -- A single frame: the first arrival completes the waiter.
      cases feed with
      | nil =>
        have hbuilt : buildHavePayload cid data 0 total (chunkSizeForLimit cid limit) = _ :=
          buildHavePayload_eq cid total (.inl (Nat.not_lt.mp hmany))
        obtain ⟨x, hx, _⟩ := hall _ ((mem_sendBlockFrames hframes).mpr ⟨0, by omega, hbuilt⟩)
        cases hx
      | cons x rest =>
        obtain ⟨raw, env⟩ := x
        obtain ⟨hraw, hopen⟩ := hfeed _ List.mem_cons_self
        obtain ⟨i, hi, hraw⟩ := (mem_sendBlockFrames hframes).mp hraw
        rw [receiveAll, receive_frame hcid hlegal hi hraw, if_pos (by omega)]
        obtain ⟨hdone, hright, hnobody⟩ := fulfillDataIn_completes hdata hawaits hopen
        rw [receiveAll_ignored hcid hlegal hframes
          (fun y hy => (hfeed y (List.mem_cons_of_mem _ hy)).1) hnobody, List.append_nil]
        exact ⟨hdone, hright⟩

/-! ### A waiter that has started, one with a small limit, and one that was misled -/

namespace Waiting

def bob : NodeId := ⟨"b"⟩

def env : Surroundings := ⟨fun _ _ => false, fun _ => false, 5⟩

def after (ops : List WantOp) : WantState :=
  ops.foldl (fun s op => (op.apply env s).state) .default

def asked : List WantOp := [.registerForPeers "ba" [bob] false, .trackPath 1 "room"]

/-- A limit that leaves 1024 bytes for a chunk. -/
def limit : Option Nat := some 1544

def block : Bytes := List.replicate 1025 7

/-- The frames of a block, each fed once. -/
def feed (data : Bytes) (total : Nat) : List (Bytes × Surroundings) :=
  ((sendBlockFrames "ba" data 1024 total).getD []).map fun raw => (raw, env)

/-- The frame of one chunk of the block. -/
def chunkOf (i : Nat) : Bytes := (frameOf "ba" block 1024 2 i).build

theorem block_begun : ∀ i < 2, i * 1024 < block.length := by
  rw [block, List.length_replicate]
  omega

end Waiting

open Waiting in
/-- A waiter that wants a block of two chunks gets it, also if the second one comes first, and twice. -/
theorem block_transfer_twoChunks :
    ∃ d ∈ (after asked).receiveAll "room" bob [(chunkOf 1, env), (chunkOf 1, env), (chunkOf 0, env)],
      d.cid = "ba" ∧ d.want.tx = 0 ∧ d.data = block := by
  have hlength : block.length = 1025 := List.length_replicate
  have hsize : chunkSizeForLimit "ba" limit = 1024 := by decide
  obtain ⟨total, frames, hcount, _, hframes, _, hcompletes⟩ :=
    block_transfer (by decide : isValidCid "ba" = true) (by rw [hlength]; decide : block.length ≤ _) limit
  rw [hsize] at hcount hframes hcompletes
  obtain rfl : total = 2 := by
    rw [hlength] at hcount
    exact Option.some.inj (hcount.symm.trans (by decide))
  obtain rfl : frames = [chunkOf 0, chunkOf 1] :=
    Option.some.inj (hframes.symm.trans (sendBlockFrames_built "ba" block_begun))
  have hawaits : (after asked).Awaits "ba" bob "room" block.length 0 :=
    ⟨{ id := 1, paths := ["room"], resets := 0, progress := ⟨0, 0, none⟩, peers := [bob], tx := 0
       byteLimit := none }, by decide, rfl, by decide, rfl⟩
  have hbudget : (after asked).Budget ("ba", bob, "room") block.length := by
    rw [hlength]
    exact ⟨Or.inr (by decide), by decide⟩
  have hfresh : (after asked).Resumable ("ba", bob, "room") block 1024 2 := by
    intro a ha
    have hnone : (after asked).assemblies.get ("ba", bob, "room") = none := by decide
    rw [hnone] at ha
    cases ha
  refine (hcompletes (after asked) bob "room" 0 _ hawaits hbudget (fun _ => hfresh) ?_ ?_).1
  · simp [env]
  · simp

open Waiting in
/-- An open registration is not enough: a bounded attempt refuses the block
it has asked for, and frames that contradict the layout an assembly was
started with are refused one and all. -/
theorem block_transfer_refused :
    ((∃ want ∈ (after (asked ++ [.setByteLimit 1 0])).wants "ba",
        want.covers bob "room" = true ∧ env.closed 0 want.tx = false) ∧
      (after (asked ++ [.setByteLimit 1 0])).Budget ("ba", bob, "room") 1 ∧
      haveChunkCount 1 (chunkSizeForLimit "ba" limit) = some 1 ∧
      (after (asked ++ [.setByteLimit 1 0])).receiveAll "room" bob (feed [7] 1) = []) ∧
    ((∃ want ∈ (after (asked ++ [.fulfillChunk "room" "ba" bob 0 3 [1]])).wants "ba",
        want.covers bob "room" = true ∧ env.closed 0 want.tx = false) ∧
      (after (asked ++ [.fulfillChunk "room" "ba" bob 0 3 [1]])).Budget ("ba", bob, "room")
        block.length ∧
      haveChunkCount block.length (chunkSizeForLimit "ba" limit) = some 2 ∧
      (after (asked ++ [.fulfillChunk "room" "ba" bob 0 3 [1]])).receiveAll "room" bob
        (feed block 2) = []) := by
  have hlength : block.length = 1025 := List.length_replicate
  have hsize : chunkSizeForLimit "ba" limit = 1024 := by decide
  rw [hlength, hsize]
  refine ⟨⟨by decide, ⟨Or.inr (by decide), by decide⟩, by decide, by decide⟩,
    ⟨by decide, ⟨Or.inr (by decide), by decide⟩, by decide, ?_⟩⟩
  have hfirst : buildHavePayload "ba" block 0 2 1024 = some (chunkOf 0) :=
    buildHavePayload_eq "ba" 2 (.inr (block_begun 0 (by decide)))
  have hsecond : buildHavePayload "ba" block 1 2 1024 = some (chunkOf 1) :=
    buildHavePayload_eq "ba" 2 (.inr (block_begun 1 (by decide)))
  rw [feed, sendBlockFrames_built "ba" block_begun]
  show receiveAll "room" bob _ [(chunkOf 0, env), (chunkOf 1, env)] = []
  rw [receiveAll, receiveAll, receiveAll, List.append_nil]
  rw [receive_frame (by decide) (by decide) (by decide) hfirst, if_neg (by decide)]
  rw [receive_frame (by decide) (by decide) (by decide) hsecond, if_neg (by decide)]
  -- What the chunks hold is not looked at.
  generalize slice block 1024 0 = first
  generalize slice block 1024 1 = second
  rfl

end Mistlib.Storage
