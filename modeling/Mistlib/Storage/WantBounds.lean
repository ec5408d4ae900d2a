import Mistlib.Storage.WantRun

/-!
# The bounds of the WANT registry

Remote peers choose the chunks, their totals and their order. What they can make the registry
hold is bounded all the same. A registration and a chunk that opens a slot are checked against
the limits before anything is stored, and every other operation can only lose waiters and
assemblies (`Sheds`).

Every assembly is also attended: some waiter still wants its content id from its sender through
its room. Pruning drops the others.
-/

namespace Mistlib.Storage

open WantState

/-! ## Assemblies -/

/-- An assembly that lacks a chunk and is within the limits of a block. -/
structure ChunkAssembly.Partial (a : ChunkAssembly) : Prop extends a.WellFormed where
  unfinished : a.receivedChunks < a.totalChunks
  total : a.totalChunks ≤ MAX_WANT_CHUNKS
  block : a.bytes ≤ MAX_WANT_BLOCK_BYTES

theorem ChunkAssembly.WellFormed.bytes_eq {a : ChunkAssembly} (h : a.WellFormed) :
    a.bytes = (a.chunks.map fun part => (part.getD []).length).sum := by
  rw [h.size, ChunkAssembly.full, List.length_flatMap]

theorem ChunkAssembly.bytes_place (a : ChunkAssembly) (chunkIndex : Nat) (data : Bytes) :
    (a.place chunkIndex data).bytes = a.bytes + data.length := rfl

theorem ChunkAssembly.bytes_new (chunkTotal : Nat) : (ChunkAssembly.new chunkTotal).bytes = 0 := rfl

/-! ## The limits -/

structure WantState.Bounded (s : WantState) : Prop where
  pending : s.pending.sumBy List.length ≤ MAX_PENDING_WANTS
  assemblies : s.assemblies.size ≤ MAX_WANT_ASSEMBLIES
  bytes : s.assemblies.sumBy ChunkAssembly.bytes ≤ MAX_WANT_ASSEMBLY_BYTES
  unfinished : ∀ {key a}, s.assemblies.get key = some a → a.Partial

namespace WantState

theorem Bounded.default : WantState.default.Bounded where
  pending := Nat.zero_le _
  assemblies := Nat.zero_le _
  bytes := Nat.zero_le _
  unfinished h := by
    rw [WantState.default, Table.get_empty] at h
    cases h

variable {s s' : WantState}

theorem pending_of_wants (h : ∀ cid, (s'.wants cid).length ≤ (s.wants cid).length) :
    s'.pending.sumBy List.length ≤ s.pending.sumBy List.length := by
  have hwants : ∀ (s : WantState) cid,
      ((s.pending.get cid).map List.length).getD 0 = (s.wants cid).length := by
    intro s cid
    rw [WantState.wants]
    cases s.pending.get cid <;> rfl
  exact Table.sumBy_le_of_get fun cid => by
    rw [hwants, hwants]
    exact h cid

theorem Bounded.shed (h : s.Bounded) (hshed : Sheds s s') : s'.Bounded where
  pending := (pending_of_wants hshed.toFewer.length_le).trans h.pending
  assemblies := (Table.size_le_of_subset hshed.assemblies).trans h.assemblies
  bytes := (Table.sumBy_le_of_subset hshed.assemblies).trans h.bytes
  unfinished ha := h.unfinished (hshed.assemblies ha)

theorem Bounded.register (h : s.Bounded) (env : Surroundings) (cid : Cid) (peers : List NodeId)
    (isLocal : Bool) :
    (s.registerAttemptForPeers env cid peers isLocal).2.Bounded := by
  have hpruned := h.shed (.prune s env 0)
  unfold registerAttemptForPeers
  dsimp only
  split
  · exact { hpruned with }
  · next hadmitted =>
    refine ⟨?_, hpruned.assemblies, hpruned.bytes, hpruned.unfinished⟩
    have hroom : (s.prune env 0).pending.sumBy List.length < MAX_PENDING_WANTS := by
      simp only [not_or, Nat.not_le, ge_iff_le] at hadmitted
      exact hadmitted.2.2.2.2
    have hold : (s.prune env 0).pending.sumBy List.length =
        ((s.prune env 0).wants cid).length +
          ((s.prune env 0).pending.erase cid).sumBy List.length := by
      rw [WantState.wants]
      cases hget : (s.prune env 0).pending.get cid with
      | none => rw [Table.erase_of_get_none hget, Option.getD_none, List.length_nil, Nat.zero_add]
      | some wants => rw [Table.sumBy_of_get _ hget, Option.getD_some]
    simp only [Table.sumBy_insert, List.length_append, List.length_singleton]
    change ((s.prune env 0).wants cid).length + 1 +
      ((s.prune env 0).pending.erase cid).sumBy List.length ≤ MAX_PENDING_WANTS
    omega

variable {chunkIndex chunkTotal : Nat} {data : Bytes}

theorem Bounded.insert (h : s.Bounded) {key : AssemblyKey} {entry : ChunkAssembly}
    (hentry : entry = (s.entryOf key chunkTotal).place chunkIndex data)
    (hcount : s.assemblies.contains key = false → s.assemblies.size < MAX_WANT_ASSEMBLIES)
    (hbytes : s.assemblies.sumBy ChunkAssembly.bytes + data.length ≤ MAX_WANT_ASSEMBLY_BYTES)
    (hpart : entry.Partial) :
    ({ s with assemblies := s.assemblies.insert key entry } : WantState).Bounded := by
  refine ⟨h.pending, ?_, ?_, fun {key' a} hget => ?_⟩
  · rw [Table.size_insert]
    cases hget : s.assemblies.get key with
    | none =>
      have hnew : s.assemblies.contains key = false := by rw [Table.contains, hget]; rfl
      rw [Table.erase_of_get_none hget]
      exact hcount hnew
    | some a =>
      rw [← Table.size_of_get hget]
      exact h.assemblies
  · rw [Table.sumBy_insert]
    refine Nat.le_trans (Nat.le_of_eq ?_) hbytes
    rw [hentry, ChunkAssembly.bytes_place, entryOf]
    cases hget : s.assemblies.get key with
    | none =>
      rw [Table.erase_of_get_none hget, Option.getD_none, ChunkAssembly.bytes_new]
      omega
    | some a =>
      rw [Table.sumBy_of_get _ hget, Option.getD_some]
      omega
  · rw [Table.get_insert] at hget
    split at hget
    · cases hget
      exact hpart
    · exact h.unfinished hget

variable {room : Room} {cid : Cid} {sender : NodeId}

theorem Bounded.storeChunk (h : s.Bounded) (env : Surroundings)
    (hcount : s.assemblies.contains (cid, sender, room) = false → s.assemblies.size < MAX_WANT_ASSEMBLIES)
    (hbytes : s.assemblies.sumBy ChunkAssembly.bytes + data.length ≤ MAX_WANT_ASSEMBLY_BYTES)
    (hindex : chunkIndex < chunkTotal) (hchunks : chunkTotal ≤ MAX_WANT_CHUNKS)
    (htotal : (s.entryOf (cid, sender, room) chunkTotal).totalChunks = chunkTotal)
    (hfree : (s.entryOf (cid, sender, room) chunkTotal).chunk chunkIndex = none)
    (hblock : s.assembledBytes (cid, sender, room) + data.length ≤ MAX_WANT_BLOCK_BYTES) :
    (s.storeChunk env room cid sender chunkIndex chunkTotal data).state.Bounded := by
  have hwf : (s.entryOf (cid, sender, room) chunkTotal).WellFormed := by
    rw [entryOf]
    cases hget : s.assemblies.get (cid, sender, room) with
    | none => exact ChunkAssembly.new_wellFormed chunkTotal
    | some a => exact (h.unfinished hget).toWellFormed
  have hreceived : (s.entryOf (cid, sender, room) chunkTotal).receivedChunks < chunkTotal := by
    rw [entryOf] at htotal ⊢
    cases hget : s.assemblies.get (cid, sender, room) with
    | none => exact Nat.lt_of_le_of_lt (Nat.zero_le _) hindex
    | some a =>
      rw [hget] at htotal
      exact Nat.lt_of_lt_of_eq (h.unfinished hget).unfinished htotal
  have hbytes' : (s.entryOf (cid, sender, room) chunkTotal).bytes =
      s.assembledBytes (cid, sender, room) := by
    rw [entryOf, assembledBytes]
    cases s.assemblies.get (cid, sender, room) <;> rfl
  have hplaced := hwf.place (htotal.symm ▸ hindex) hfree data
  unfold WantState.storeChunk
  dsimp only
  change (if ((s.entryOf (cid, sender, room) chunkTotal).place chunkIndex data).receivedChunks =
    ((s.entryOf (cid, sender, room) chunkTotal).place chunkIndex data).totalChunks then _
    else _ : Effect).state.Bounded
  split
  · -- The finished entry goes, and with it what this operation has put in.
    have hcounted := Sheds.observe s cid sender room true env.now
    refine h.shed (Sheds.trans ?_ (.fulfill _ env 4 cid sender room _))
    refine ⟨⟨hcounted.wants, hcounted.made⟩, fun {key a} hget => ?_⟩
    simp only [Table.get_erase] at hget
    split at hget
    · cases hget
    · next hne =>
      change (s.assemblies.insert (cid, sender, room) _).get key = some a at hget
      rwa [Table.get_insert, if_neg hne] at hget
  · next hunfinished =>
    have hpart : ((s.entryOf (cid, sender, room) chunkTotal).place chunkIndex data).Partial :=
      { toWellFormed := hplaced
        unfinished := by
          change (s.entryOf (cid, sender, room) chunkTotal).receivedChunks + 1 <
            (s.entryOf (cid, sender, room) chunkTotal).totalChunks
          change ¬ (s.entryOf (cid, sender, room) chunkTotal).receivedChunks + 1 =
            (s.entryOf (cid, sender, room) chunkTotal).totalChunks at hunfinished
          omega
        total := by
          change (s.entryOf (cid, sender, room) chunkTotal).totalChunks ≤ MAX_WANT_CHUNKS
          rwa [htotal]
        block := by rwa [ChunkAssembly.bytes_place, hbytes'] }
    have hinserted := h.insert rfl hcount hbytes hpart
    exact hinserted.shed ((Sheds.observe _ cid sender room true env.now).trans
      (.advanceProgress _ sender env.now))

theorem Bounded.limitChunk (h : s.Bounded) (env : Surroundings) (data : Bytes)
    (hindex : chunkIndex < chunkTotal) (hchunks : chunkTotal ≤ MAX_WANT_CHUNKS)
    (htotal : (s.entryOf (cid, sender, room) chunkTotal).totalChunks = chunkTotal)
    (hfree : (s.entryOf (cid, sender, room) chunkTotal).chunk chunkIndex = none) :
    (s.limitChunk env room cid sender chunkIndex chunkTotal data).state.Bounded := by
  have hlimited := h.shed (.enforceByteLimits s env 2 cid sender room
    (s.assembledBytes (cid, sender, room) + data.length))
  unfold WantState.limitChunk
  dsimp only
  split
  · exact hlimited
  · next haccepts =>
    obtain ⟨haccepts, hblock⟩ := not_or.mp haccepts
    have hkept := accepts_limited (not_not.mp haccepts)
    split
    · exact hlimited
    · next hcount =>
      split
      · exact hlimited
      · next hbytes =>
        refine hlimited.storeChunk env (fun hnew => ?_) (Nat.le_of_not_lt hbytes) hindex hchunks ?_
          ?_ ?_
        · by_contra hfull
          exact hcount ⟨by rw [hnew]; exact Bool.false_ne_true, Nat.le_of_not_lt hfull⟩
        · rwa [entryOf, hkept]
        · rwa [entryOf, hkept]
        · rw [assembledBytes, hkept]
          exact Nat.le_of_not_lt hblock

theorem Bounded.fulfillChunkDataIn (h : s.Bounded) (env : Surroundings) (room : Room) (cid : Cid)
    (sender : NodeId) (chunkIndex chunkTotal : Nat) (data : Bytes) :
    (s.fulfillChunkDataIn env room cid sender chunkIndex chunkTotal data).state.Bounded := by
  have hseen := h.shed ((Sheds.prune s env 0).trans (.observe _ cid sender room false env.now))
  unfold WantState.fulfillChunkDataIn
  dsimp only
  generalize (s.prune env 0).observe cid sender room false env.now = s' at hseen ⊢
  split
  · exact hseen
  · next hheader =>
    split
    · exact hseen
    · split
      · next entry hentry =>
        have hown : s'.entryOf (cid, sender, room) chunkTotal = entry := by
          rw [entryOf, hentry, Option.getD_some]
        split
        · exact hseen
        · next htotal =>
          split
          · exact hseen
          · next hslot =>
            refine hseen.limitChunk env data (by omega) (by omega) ?_ ?_
            · rw [hown]
              exact not_not.mp htotal
            · rw [hown]
              exact Option.not_isSome_iff_eq_none.mp hslot
      · next hentry =>
        have hown : s'.entryOf (cid, sender, room) chunkTotal = .new chunkTotal := by
          rw [entryOf, hentry, Option.getD_none]
        refine hseen.limitChunk env data (by omega) (by omega) ?_ ?_
        · rw [hown]
          rfl
        · rw [hown, ChunkAssembly.chunk_new]

theorem Bounded.apply (h : s.Bounded) (op : WantOp) (env : Surroundings) :
    (op.apply env s).state.Bounded := by
  have hquiet (hq : op.Quiet) : (op.apply env s).state.Bounded := h.shed (hq.step env s).1
  cases op with
  | registerForPeers cid peers isLocal => exact h.register env cid peers isLocal
  | fulfill room cid sender data => exact h.shed (s.fulfillDataIn_step env room cid sender data).1
  | fulfillChunk room cid sender chunkIndex chunkTotal data =>
    exact h.fulfillChunkDataIn env room cid sender chunkIndex chunkTotal data
  | _ => exact hquiet trivial

/-! ## Every assembly is attended -/

/-- For every assembly some live waiter wants its content id from its sender
through its room. -/
def Attended (s : WantState) (live : Channel → Prop) : Prop :=
  ∀ key a, s.assemblies.get key = some a →
    ∃ want ∈ s.wants key.1, want.covers key.2.1 key.2.2 = true ∧ live want.tx

variable {live live' : Channel → Prop}

/-- After a prune a live waiter wants every assembly. -/
theorem attended_prune (s : WantState) (env : Surroundings) (look : Nat) :
    (s.prune env look).Attended fun tx => env.closed look tx = false := by
  intro key a hget
  have hkept : ((s.prune env look).wants key.1).any
      (fun want => want.covers key.2.1 key.2.2) = true := by
    simp only [WantState.prune, WantState.wants, Table.get_retain,
      Option.filter_eq_some_iff] at hget ⊢
    exact hget.2
  obtain ⟨want, hmem, hcovers⟩ := List.any_eq_true.mp hkept
  exact ⟨want, hmem, hcovers, (mem_wants_prune.mp hmem).2⟩

theorem Attended.grow (h : s.Attended live)
    (ha : ∀ {key a}, s'.assemblies.get key = some a → s.assemblies.get key = some a)
    (hw : ∀ cid, ∀ want ∈ s.wants cid, ∃ want' ∈ s'.wants cid, want'.tx = want.tx ∧
      ∀ sender room, want.covers sender room = true → want'.covers sender room = true) :
    s'.Attended live := by
  intro key a hget
  obtain ⟨want, hmem, hcovers, hlive⟩ := h key a (ha hget)
  obtain ⟨want', hmem', htx, hcovers'⟩ := hw key.1 want hmem
  exact ⟨want', hmem', hcovers' _ _ hcovers, htx ▸ hlive⟩

theorem Attended.relabel (h : s'.Attended live) (hshed : Sheds s s')
    (hlive : ∀ cid, ∀ want ∈ s.wants cid, live' want.tx) : s'.Attended live' := by
  intro key a hget
  obtain ⟨want, hmem, hcovers, -⟩ := h key a hget
  obtain ⟨old, hold, htx, -⟩ := hshed.waits ⟨want, hmem, rfl, rfl⟩
  exact ⟨want, hmem, hcovers, htx ▸ hlive _ old hold⟩

theorem Attended.observe (h : s.Attended live) (cid : Cid) (sender : NodeId) (room : Room)
    (accepted : Bool) (now : Instant) :
    (s.observe cid sender room accepted now).Attended live := by
  refine h.grow (fun h => h) fun cid' want hmem => ?_
  rw [WantState.observe, wants_modify _ _ _ _ rfl]
  split
  · next heq =>
    subst heq
    refine ⟨_, List.mem_map_of_mem hmem, ?_⟩
    split <;> exact ⟨rfl, fun _ _ h => h⟩
  · exact ⟨want, hmem, rfl, fun _ _ h => h⟩

theorem Attended.advanceProgress (h : s.Attended live) (sender : NodeId) (now : Instant) :
    (s.advanceProgress sender now).Attended live := h

theorem mem_updateFirst_of_mem {α : Type} {p : α → Bool} {f : α → α} {x : α} {xs : List α}
    (h : x ∈ xs) : x ∈ WantState.updateFirst p f xs ∨ f x ∈ WantState.updateFirst p f xs := by
  induction xs with
  | nil => cases h
  | cons y ys ih =>
    rw [WantState.updateFirst]
    rcases List.mem_cons.mp h with rfl | hold
    · split
      · exact .inr List.mem_cons_self
      · exact .inl List.mem_cons_self
    · split
      · exact .inl (List.mem_cons_of_mem _ hold)
      · exact (ih hold).imp (List.mem_cons_of_mem _) (List.mem_cons_of_mem _)

theorem Attended.updateAttempt (h : s.Attended live) (attempt : Nat) {f : PendingWant → PendingWant}
    (hf : ∀ want, (f want).tx = want.tx ∧ ∀ sender room, want.covers sender room = true →
      (f want).covers sender room = true) :
    (s.updateAttempt attempt f).Attended live := by
  unfold WantState.updateAttempt
  split
  · refine h.grow (fun h => h) fun cid' want hmem => ?_
    rw [wants_modify _ _ _ _ rfl]
    split
    · next heq =>
      subst heq
      rcases mem_updateFirst_of_mem hmem with hsame | hchanged
      · exact ⟨want, hsame, rfl, fun _ _ h => h⟩
      · exact ⟨_, hchanged, hf want⟩
    · exact ⟨want, hmem, rfl, fun _ _ h => h⟩
  · exact h

theorem attended_fulfill (env : Surroundings) (look : Nat) (sender : NodeId) (room : Room)
    (data : Bytes) (h : s.wants cid ≠ []) :
    (s.fulfill env look cid sender room data).1.Attended
      fun tx => env.closed (look + 1) tx = false := by
  unfold WantState.fulfill
  split
  · next hnone =>
    rw [WantState.wants, hnone] at h
    exact absurd rfl h
  · exact attended_prune _ env (look + 1)

theorem wants_ne_nil_of_accepts {closed : Channel → Bool} (h : s.accepts closed cid sender room = true) :
    s.wants cid ≠ [] := by
  obtain ⟨want, hmem, -⟩ := List.any_eq_true.mp h
  exact List.ne_nil_of_mem hmem

theorem wants_observe_ne_nil {accepted : Bool} {now : Instant} (h : s.wants cid ≠ []) :
    (s.observe cid sender room accepted now).wants cid ≠ [] := by
  rw [WantState.observe, wants_modify _ _ _ _ rfl, if_pos rfl]
  exact fun hnil => h (List.map_eq_nil_iff.mp hnil)

theorem attended_resetPath (s : WantState) (env : Surroundings) (sender : Option NodeId)
    (room : Room) :
    (s.resetPath env sender room).Attended fun tx => env.closed 0 tx = false := by
  refine (attended_prune s env 0).grow (fun hget => ?_) fun cid want hmem => ?_
  · simp only [WantState.resetPath, Table.get_retain, Option.filter_eq_some_iff] at hget
    exact hget.1
  · simp only [WantState.wants, WantState.resetPath, Table.get_mapVals]
    rw [WantState.wants] at hmem
    cases hget : (s.prune env 0).pending.get cid with
    | none =>
      rw [hget] at hmem
      cases hmem
    | some wants =>
      rw [hget] at hmem
      refine ⟨_, List.mem_map_of_mem hmem, ?_⟩
      split <;> exact ⟨rfl, fun _ _ h => h⟩

theorem attended_storeChunk {env : Surroundings} (h : s.Attended fun tx => env.closed 2 tx = false)
    (hopen : ∀ cid, ∀ want ∈ s.wants cid, env.closed 2 want.tx = false)
    (haccepts : s.accepts (env.closed 3) cid sender room = true) :
    let e := s.storeChunk env room cid sender chunkIndex chunkTotal data
    e.outcome = .completed ∧ e.state.Attended (fun tx => env.closed 5 tx = false) ∨
      e.outcome = .accepted ∧ e.state.Attended (fun tx => env.closed 2 tx = false) := by
  have hwants := wants_ne_nil_of_accepts haccepts
  dsimp only
  unfold WantState.storeChunk
  dsimp only
  split
  · exact .inl ⟨rfl, attended_fulfill env 4 sender room _
      (wants_observe_ne_nil (s := { s with assemblies := _ }) hwants)⟩
  · refine .inr ⟨rfl, Attended.advanceProgress (Attended.observe ?_ cid sender room true env.now)
      sender env.now⟩
    intro key a hget
    change (s.assemblies.insert (cid, sender, room) _).get key = some a at hget
    rw [Table.get_insert] at hget
    split at hget
    · next heq =>
      subst heq
      obtain ⟨want, hmem, hwant⟩ := List.any_eq_true.mp haccepts
      rw [Bool.and_eq_true] at hwant
      exact ⟨want, hmem, hwant.2, hopen cid want hmem⟩
    · exact h key a hget

theorem attended_limitChunk (s : WantState) (env : Surroundings) (room : Room) (cid : Cid)
    (sender : NodeId) (chunkIndex chunkTotal : Nat) (data : Bytes) :
    let e := s.limitChunk env room cid sender chunkIndex chunkTotal data
    e.outcome = .completed ∧ e.state.Attended (fun tx => env.closed 5 tx = false) ∨
      e.outcome = .accepted ∧ e.state.Attended (fun tx => env.closed 2 tx = false) ∨
      e.outcome = .rejected ∧ e.state.Attended (fun tx => env.closed 2 tx = false) ∧
        Sheds s e.state := by
  have hattended : (s.enforceByteLimits env 2 cid sender room
      (s.assembledBytes (cid, sender, room) + data.length)).1.Attended
        fun tx => env.closed 2 tx = false := attended_prune _ env 2
  have hopen : ∀ cid', ∀ want ∈ (s.enforceByteLimits env 2 cid sender room
      (s.assembledBytes (cid, sender, room) + data.length)).1.wants cid',
        env.closed 2 want.tx = false := fun cid' want hmem => (mem_wants_prune.mp hmem).2
  have hshed := Sheds.enforceByteLimits s env 2 cid sender room
    (s.assembledBytes (cid, sender, room) + data.length)
  dsimp only
  unfold WantState.limitChunk
  dsimp only
  split
  · exact .inr (.inr ⟨rfl, hattended, hshed⟩)
  · next haccepts =>
    split
    · exact .inr (.inr ⟨rfl, hattended, hshed⟩)
    · split
      · exact .inr (.inr ⟨rfl, hattended, hshed⟩)
      · rcases attended_storeChunk hattended hopen (not_not.mp (not_or.mp haccepts).1) with h | h
        · exact .inl h
        · exact .inr (.inl h)

end WantState

/-- The look of the last prune that an operation with this outcome is certain to make. -/
def WantOp.prunedAt : WantOp → Outcome → Option Nat
  | .setByteLimit .., _ | .trackPath .., _ => none
  | .fulfill .., .completed => some 4
  | .fulfill .., _ => some 1
  | .fulfillChunk .., .completed => some 5
  | .fulfillChunk .., .accepted => some 2
  | _, _ => some 0

namespace WantState

theorem attended_fulfillChunkDataIn (s : WantState) (env : Surroundings) (room : Room) (cid : Cid)
    (sender : NodeId) (chunkIndex chunkTotal : Nat) (data : Bytes) :
    let e := s.fulfillChunkDataIn env room cid sender chunkIndex chunkTotal data
    e.outcome = .completed ∧ e.state.Attended (fun tx => env.closed 5 tx = false) ∨
      e.outcome = .accepted ∧ e.state.Attended (fun tx => env.closed 2 tx = false) ∨
      (e.outcome = .rejected ∨ e.outcome = .duplicate) ∧
        e.state.Attended (fun tx => env.closed 0 tx = false) := by
  have hseen : ((s.prune env 0).observe cid sender room false env.now).Attended
      fun tx => env.closed 0 tx = false :=
    (attended_prune s env 0).observe cid sender room false env.now
  have hopen : ∀ cid', ∀ want ∈ ((s.prune env 0).observe cid sender room false env.now).wants cid',
      env.closed 0 want.tx = false := by
    intro cid' want hmem
    obtain ⟨old, hold, htx, -⟩ := (Sheds.observe (s.prune env 0) cid sender room false
      env.now).waits ⟨want, hmem, rfl, rfl⟩
    rw [← htx]
    exact (mem_wants_prune.mp hold).2
  dsimp only
  unfold WantState.fulfillChunkDataIn
  dsimp only
  generalize (s.prune env 0).observe cid sender room false env.now = s' at hseen hopen ⊢
  -- A chunk that reaches the limits and is refused there.
  have hlimited : ∀ chunkIndex chunkTotal,
      let e := s'.limitChunk env room cid sender chunkIndex chunkTotal data
      e.outcome = .completed ∧ e.state.Attended (fun tx => env.closed 5 tx = false) ∨
        e.outcome = .accepted ∧ e.state.Attended (fun tx => env.closed 2 tx = false) ∨
        (e.outcome = .rejected ∨ e.outcome = .duplicate) ∧
          e.state.Attended (fun tx => env.closed 0 tx = false) := by
    intro chunkIndex chunkTotal
    rcases s'.attended_limitChunk env room cid sender chunkIndex chunkTotal data with
      h | h | ⟨hout, hattended, hshed⟩
    · exact .inl h
    · exact .inr (.inl h)
    · exact .inr (.inr ⟨.inl hout, hattended.relabel hshed hopen⟩)
  split
  · exact .inr (.inr ⟨.inl rfl, hseen⟩)
  · split
    · exact .inr (.inr ⟨.inl rfl, hseen⟩)
    · split
      · split
        · exact .inr (.inr ⟨.inl rfl, hseen⟩)
        · split
          · exact .inr (.inr ⟨.inr rfl, hseen⟩)
          · exact hlimited chunkIndex chunkTotal
      · exact hlimited chunkIndex chunkTotal

theorem attended_fulfillDataIn (s : WantState) (env : Surroundings) (room : Room) (cid : Cid)
    (sender : NodeId) (data : Bytes) :
    let e := s.fulfillDataIn env room cid sender data
    e.outcome = .completed ∧ e.state.Attended (fun tx => env.closed 4 tx = false) ∨
      e.outcome = .rejected ∧ e.state.Attended (fun tx => env.closed 1 tx = false) := by
  dsimp only
  unfold WantState.fulfillDataIn
  dsimp only
  split
  · next haccepted =>
    exact .inl ⟨rfl, attended_fulfill env 3 sender room data
      (wants_observe_ne_nil (wants_ne_nil_of_accepts haccepted.2))⟩
  · exact .inr ⟨rfl, attended_prune _ env 1⟩

/-- After the prune of an operation every assembly is attended by a waiter
that was there and live when it was made. -/
theorem attended_apply {op : WantOp} {env : Surroundings} {s : WantState} {look : Nat}
    (h : op.prunedAt (op.apply env s).outcome = some look) :
    (op.apply env s).state.Attended fun tx => env.closed look tx = false := by
  cases op with
  | registerForPeers cid peers isLocal =>
    cases h
    refine (attended_prune s env 0).grow (fun hget => ?_) fun cid' want hmem => ?_
    · simp only [WantOp.apply, registerAttemptForPeers] at hget
      split at hget <;> exact hget
    · simp only [WantOp.apply, registerAttemptForPeers]
      split
      · exact ⟨want, hmem, rfl, fun _ _ h => h⟩
      · refine ⟨want, ?_, rfl, fun _ _ h => h⟩
        rw [WantState.wants, Table.get_insert]
        split
        · next heq =>
          subst heq
          exact List.mem_append_left _ hmem
        · exact hmem
  | setByteLimit attempt maxBytes | trackPath attempt room => cases h
  | untrackPath attempt room | cancel cid =>
    cases h
    exact attended_prune _ env 0
  | fulfill room cid sender data =>
    rcases s.attended_fulfillDataIn env room cid sender data with ⟨hout, hattended⟩ | ⟨hout, hattended⟩
    · change (s.fulfillDataIn env room cid sender data).outcome = _ at hout
      simp only [WantOp.apply, hout, WantOp.prunedAt] at h
      cases h
      exact hattended
    · simp only [WantOp.apply, hout, WantOp.prunedAt] at h
      cases h
      exact hattended
  | fulfillChunk room cid sender chunkIndex chunkTotal data =>
    rcases s.attended_fulfillChunkDataIn env room cid sender chunkIndex chunkTotal data with
      ⟨hout, hattended⟩ | ⟨hout, hattended⟩ | ⟨hout | hout, hattended⟩
    all_goals
      simp only [WantOp.apply, hout, WantOp.prunedAt] at h
      cases h
      exact hattended
  | senderReset sender room =>
    cases h
    exact s.attended_resetPath env (some sender) room
  | roomReset room =>
    cases h
    exact s.attended_resetPath env none room
  | cancelClosed | queryPathResets room peer =>
    cases h
    exact attended_prune s env 0
  | subscribeProgress sender =>
    cases h
    simp only [WantOp.apply, WantState.subscribeProgress]
    split
    · exact attended_prune s env 0
    · exact attended_prune s env 0

theorem Attended.apply {s : WantState} (h : s.Attended fun _ => True) (op : WantOp)
    (env : Surroundings) : (op.apply env s).state.Attended fun _ => True := by
  have htrue : ∀ {s : WantState} {live : Channel → Prop}, s.Attended live →
      s.Attended fun _ => True := by
    intro s live h key a hget
    obtain ⟨want, hmem, hcovers, -⟩ := h key a hget
    exact ⟨want, hmem, hcovers, trivial⟩
  cases hpruned : op.prunedAt (op.apply env s).outcome with
  | some look => exact htrue (attended_apply hpruned)
  | none =>
    cases op with
    | setByteLimit attempt maxBytes =>
      have hcounted : ({ s with channels := s.channels + 1 } : WantState).Attended fun _ => True := h
      exact hcounted.updateAttempt attempt fun want => ⟨rfl, fun _ _ h => h⟩
    | trackPath attempt room =>
      refine h.updateAttempt attempt fun want => ⟨rfl, fun sender room' hcovers => ?_⟩
      simp only [PendingWant.covers, decide_eq_true_eq] at hcovers ⊢
      exact ⟨hcovers.1, List.mem_insert_of_mem hcovers.2⟩
    | fulfill room cid sender data =>
      rcases s.attended_fulfillDataIn env room cid sender data with ⟨-, hattended⟩ | ⟨-, hattended⟩
      · exact htrue hattended
      · exact htrue hattended
    | fulfillChunk room cid sender chunkIndex chunkTotal data =>
      rcases s.attended_fulfillChunkDataIn env room cid sender chunkIndex chunkTotal data with
        ⟨-, hattended⟩ | ⟨-, hattended⟩ | ⟨-, hattended⟩
      · exact htrue hattended
      · exact htrue hattended
      · exact htrue hattended
    | registerForPeers cid peers isLocal | untrackPath attempt room | senderReset sender room
    | roomReset room | cancel cid | cancelClosed | subscribeProgress sender
    | queryPathResets room peer => cases hpruned

end WantState

/-! ## Runs -/

theorem WantRun.bounded {ms : List Moment} {s : WantState} (run : WantRun ms s) :
    s.Bounded ∧ s.Attended fun _ => True := by
  induction run with
  | nil =>
    refine ⟨.default, fun key a hget => ?_⟩
    rw [WantState.default, Table.get_empty] at hget
    cases hget
  | step _ op env ih => exact ⟨ih.1.apply op env, ih.2.apply op env⟩

/-- In every state that traffic can lead to, the registry is within its
limits: so many waiters, assemblies and bytes, each assembly unfinished and
counted right, and attended by a waiter. After the prune of the next
operation, whatever it is, that waiter was live when the prune looked. -/
theorem want_bounds {ms : List Moment} {s : WantState} (run : WantRun ms s) :
    (s.pending.sumBy List.length ≤ MAX_PENDING_WANTS ∧
      s.assemblies.size ≤ MAX_WANT_ASSEMBLIES ∧
      s.assemblies.sumBy ChunkAssembly.bytes ≤ MAX_WANT_ASSEMBLY_BYTES) ∧
    (∀ key a, s.assemblies.get key = some a →
      a.bytes ≤ MAX_WANT_BLOCK_BYTES ∧
      a.bytes = (a.chunks.map fun part => (part.getD []).length).sum ∧
      a.receivedChunks = a.chunks.countP Option.isSome ∧
      a.receivedChunks < a.totalChunks ∧ a.chunks.length = a.totalChunks ∧
      a.totalChunks ≤ MAX_WANT_CHUNKS ∧
      ∃ want ∈ s.wants key.1, want.covers key.2.1 key.2.2 = true) ∧
    ∀ (op : WantOp) (env : Surroundings) (look : Nat),
      op.prunedAt (op.apply env s).outcome = some look →
      ∀ key a, (op.apply env s).state.assemblies.get key = some a →
        ∃ want ∈ (op.apply env s).state.wants key.1,
          want.covers key.2.1 key.2.2 = true ∧ env.closed look want.tx = false := by
  obtain ⟨hbounded, hattended⟩ := run.bounded
  refine ⟨⟨hbounded.pending, hbounded.assemblies, hbounded.bytes⟩, fun key a hget => ?_,
    fun op env look h => attended_apply h⟩
  have hpart := hbounded.unfinished hget
  obtain ⟨want, hmem, hcovers, -⟩ := hattended key a hget
  exact ⟨hpart.block, hpart.bytes_eq, hpart.received, hpart.unfinished,
    hpart.slots, hpart.total, want, hmem, hcovers⟩

open TwoChunks in
/-- With one chunk of two in place the assembly has a waiter that lives through the next prune. -/
theorem want_bounds_oneChunk :
    (∃ a, second.effect.state.assemblies.get ("ba", bob, "room") = some a ∧
      a.receivedChunks < a.totalChunks) ∧
    ∀ a, (WantOp.cancelClosed.apply env second.effect.state).state.assemblies.get
        ("ba", bob, "room") = some a →
      ∃ want ∈ (WantOp.cancelClosed.apply env second.effect.state).state.wants "ba",
        want.covers bob "room" = true ∧ env.closed 0 want.tx = false := by
  have hrun : WantRun [registered, tracked, second] second.effect.state :=
    .step (.step (.step .nil _ env) _ env) _ env
  obtain ⟨-, hassembly, hlive⟩ := want_bounds hrun
  refine ⟨?_, fun a hget => hlive .cancelClosed env 0 rfl _ a hget⟩
  obtain ⟨a, hget⟩ : ∃ a, second.effect.state.assemblies.get ("ba", bob, "room") = some a :=
    Option.isSome_iff_exists.mp (by decide)
  exact ⟨a, hget, (hassembly _ a hget).2.2.2.1⟩

end Mistlib.Storage
