import Mistlib.Storage.Want

/-!
# Where a delivered block comes from

A run of the registry is a list of moments: the state before an operation, the operation, and
what it found around it. The chunks of an assembly are traced back to the moments that brought
them (`Assembled`). Every other operation can only lose waiters and assemblies (`Sheds`), so a
waiter is handed one payload, or the chunks one sender sent through one room during the life of
one assembly.
-/

namespace Mistlib.Storage

open WantState

/-! ## What an operation can do -/

/-- `tx` waits for `cid` and will take it from `peers`. -/
def WantState.Waits (s : WantState) (cid : Cid) (tx : Channel) (peers : List NodeId) : Prop :=
  ∃ want ∈ s.wants cid, want.tx = tx ∧ want.peers = peers

/-- Who waits: the channel and the peers asked, whatever has been counted for the waiter since. -/
def PendingWant.face (want : PendingWant) : Channel × List NodeId := (want.tx, want.peers)

/-- `s'` has at most lost waiters of `s`. -/
structure Fewer (s s' : WantState) : Prop where
  wants : ∀ cid, ((s'.wants cid).map PendingWant.face).Sublist ((s.wants cid).map PendingWant.face)
  made : s.channels ≤ s'.channels

/-- `s'` has at most lost waiters and assemblies of `s`. -/
structure Sheds (s s' : WantState) : Prop extends Fewer s s' where
  assemblies : ∀ {key a}, s'.assemblies.get key = some a → s.assemblies.get key = some a

section

variable {s s' s'' : WantState}

namespace Fewer

theorem trans (h : Fewer s s') (h' : Fewer s' s'') : Fewer s s'' :=
  ⟨fun cid => (h'.wants cid).trans (h.wants cid), h.made.trans h'.made⟩

theorem waits (h : Fewer s s') {cid : Cid} {tx : Channel} {peers : List NodeId}
    (hw : s'.Waits cid tx peers) : s.Waits cid tx peers := by
  obtain ⟨want', hmem, rfl, rfl⟩ := hw
  obtain ⟨want, hin, heq⟩ := List.mem_map.mp ((h.wants cid).subset (List.mem_map_of_mem hmem))
  obtain ⟨htx, hpeers⟩ := Prod.mk.inj heq
  exact ⟨want, hin, htx, hpeers⟩

theorem length_le (h : Fewer s s') (cid : Cid) : (s'.wants cid).length ≤ (s.wants cid).length := by
  have hle := (h.wants cid).length_le
  rwa [List.length_map, List.length_map] at hle

end Fewer

theorem Sheds.trans (h : Sheds s s') (h' : Sheds s' s'') : Sheds s s'' :=
  ⟨h.toFewer.trans h'.toFewer, fun ha => h.assemblies (h'.assemblies ha)⟩

/-- What no waiter and no assembly is touched by sheds nothing. -/
theorem Sheds.still (hp : s'.pending = s.pending) (ha : s'.assemblies = s.assemblies)
    (hc : s.channels ≤ s'.channels) : Sheds s s' where
  wants cid := by
    rw [WantState.wants, WantState.wants, hp]
  made := hc
  assemblies h := ha ▸ h

end

theorem WantState.wants_modify (s : WantState) (cid cid' : Cid)
    (f : List PendingWant → List PendingWant) (hf : f [] = []) :
    ({ s with pending := s.pending.modify cid f } : WantState).wants cid' =
      if cid' = cid then f (s.wants cid) else s.wants cid' := by
  simp only [WantState.wants, Table.get_modify]
  split
  · next heq =>
    subst heq
    cases s.pending.get cid' with
    | none => simp [hf]
    | some wants => rfl
  · rfl

theorem getD_get_filtered (t : Table Cid (List PendingWant)) (p : PendingWant → Bool) (cid : Cid) :
    (((t.mapVals fun _ wants => wants.filter p).retain fun _ wants => !wants.isEmpty).get
      cid).getD [] = ((t.get cid).getD []).filter p := by
  rw [Table.get_retain, Table.get_mapVals]
  cases t.get cid with
  | none => rfl
  | some wants =>
    rw [Option.map_some, Option.filter_some]
    split
    · rfl
    · next hempty =>
      simp only [Bool.not_eq_true', Bool.not_eq_false, List.isEmpty_iff] at hempty
      exact hempty.symm

theorem WantState.wants_prune (s : WantState) (env : Surroundings) (look : Nat) (cid : Cid) :
    (s.prune env look).wants cid =
      (s.wants cid).filter fun want => !env.closed look want.tx :=
  getD_get_filtered s.pending _ cid

variable {s : WantState} {look : Nat} {cid : Cid}

/-- A prune drops the registrations whose receivers are gone, and no others. -/
theorem WantState.mem_wants_prune {env : Surroundings} {want : PendingWant} :
    want ∈ (s.prune env look).wants cid ↔
      want ∈ s.wants cid ∧ env.closed look want.tx = false := by
  rw [wants_prune, List.mem_filter, Bool.not_eq_true']

section

variable {f : PendingWant → PendingWant} (hf : ∀ want, (f want).face = want.face)
include hf

theorem map_face (wants : List PendingWant) :
    (wants.map f).map PendingWant.face = wants.map PendingWant.face := by
  rw [List.map_map]
  exact List.map_congr_left fun want _ => hf want

theorem map_face_updateFirst (p : PendingWant → Bool) (wants : List PendingWant) :
    (updateFirst p f wants).map PendingWant.face = wants.map PendingWant.face := by
  induction wants with
  | nil => rfl
  | cons want rest ih =>
    rw [updateFirst]
    split
    · rw [List.map_cons, List.map_cons, hf]
    · rw [List.map_cons, List.map_cons, ih]

end

namespace Sheds

variable (s : WantState) (env : Surroundings) (look : Nat) (cid : Cid)

theorem refl : Sheds s s := .still rfl rfl le_rfl

theorem modify {f : List PendingWant → List PendingWant}
    (hf : ∀ wants, ((f wants).map PendingWant.face).Sublist (wants.map PendingWant.face)) :
    Sheds s { s with pending := s.pending.modify cid f } where
  wants cid' := by
    have hnil : f [] = [] := List.map_eq_nil_iff.mp (List.sublist_nil.mp (hf []))
    rw [wants_modify _ _ _ _ hnil]
    split
    · next heq =>
      subst heq
      exact hf _
    · exact .refl _
  made := le_rfl
  assemblies h := h

theorem prune : Sheds s (s.prune env look) where
  wants cid := by
    rw [wants_prune]
    exact List.filter_sublist.map _
  made := le_rfl
  assemblies h := by
    simp only [WantState.prune, Table.get_retain, Option.filter_eq_some_iff] at h
    exact h.1

theorem thenPrune {s s' : WantState} (h : Sheds s s') (env : Surroundings) (look : Nat) :
    Sheds s (s'.prune env look) := h.trans (.prune s' env look)

variable (sender : NodeId) (room : Room)

theorem observe (accepted : Bool) (now : Instant) :
    Sheds s (s.observe cid sender room accepted now) := by
  refine .modify s cid fun wants => ?_
  rw [map_face fun want => ?_]
  split <;> rfl

theorem advanceProgress (now : Instant) : Sheds s (s.advanceProgress sender now) :=
  .still rfl rfl le_rfl

theorem enforceByteLimits (bytes : Nat) :
    Sheds s (s.enforceByteLimits env look cid sender room bytes).1 :=
  (Sheds.modify s cid fun _ => List.filter_sublist.map _).thenPrune env look

theorem fulfill (data : Bytes) : Sheds s (s.fulfill env look cid sender room data).1 := by
  unfold WantState.fulfill
  split
  · exact .refl s
  · next wants hwants =>
    apply Sheds.thenPrune
    refine ⟨⟨fun cid' => ?_, le_rfl⟩, fun h => h⟩
    simp only [WantState.wants]
    split
    · rw [Table.get_erase]
      split
      · exact List.nil_sublist _
      · exact .refl _
    · rw [Table.get_insert, Table.get_erase]
      split
      · next heq =>
        subst heq
        rw [hwants]
        exact List.filter_sublist.map _
      · exact .refl _

theorem updateAttempt (attempt : Nat) {f : PendingWant → PendingWant}
    (hf : ∀ want, (f want).face = want.face) : Sheds s (s.updateAttempt attempt f) := by
  unfold WantState.updateAttempt
  split
  · refine .modify s _ fun wants => ?_
    rw [map_face_updateFirst hf]
  · exact .refl s

end Sheds

variable {sender : NodeId} {room : Room}

theorem WantState.get_assemblies_prune {env : Surroundings} {closed : Channel → Bool}
    (h : (s.prune env look).accepts closed cid sender room = true) :
    (s.prune env look).assemblies.get (cid, sender, room) =
      s.assemblies.get (cid, sender, room) := by
  obtain ⟨want, hmem, hwant⟩ := List.any_eq_true.mp h
  simp only [Bool.and_eq_true] at hwant
  have hkeep : (((s.prune env look).pending.get cid).getD []).any
      (fun want => want.covers sender room) = true :=
    List.any_eq_true.mpr ⟨want, hmem, hwant.2⟩
  simp only [WantState.prune] at hkeep ⊢
  rw [Table.get_retain]
  cases s.assemblies.get (cid, sender, room) with
  | none => rfl
  | some a => rw [Option.filter_some, if_pos hkeep]

theorem WantState.accepts_observe (s : WantState) (cid : Cid) (sender : NodeId) (room : Room)
    (accepted : Bool) (now : Instant) (closed : Channel → Bool) :
    (s.observe cid sender room accepted now).accepts closed cid sender room =
      s.accepts closed cid sender room := by
  unfold WantState.accepts
  rw [WantState.observe, wants_modify _ _ _ _ rfl, if_pos rfl, List.any_map]
  congr 1
  funext want
  simp only [Function.comp_apply]
  split <;> rfl

theorem WantState.accepts_limited {env : Surroundings} {closed : Channel → Bool} {bytes : Nat}
    (h : (s.enforceByteLimits env look cid sender room bytes).1.accepts closed cid sender room) :
    (s.enforceByteLimits env look cid sender room bytes).1.assemblies.get (cid, sender, room) =
      s.assemblies.get (cid, sender, room) :=
  get_assemblies_prune h

theorem WantState.mem_fulfill {env : Surroundings} {data : Bytes} {d : Delivery}
    (h : d ∈ (s.fulfill env look cid sender room data).2) :
    d.cid = cid ∧ d.data = data ∧ d.want ∈ s.wants cid ∧ sender ∈ d.want.peers ∧
      room ∈ d.want.paths := by
  unfold WantState.fulfill at h
  split at h
  · cases h
  · next wants hwants =>
    obtain ⟨want, hmem, rfl⟩ := List.mem_map.mp h
    obtain ⟨hin, hcovers⟩ := List.mem_filter.mp (List.mem_of_mem_filter hmem)
    simp only [PendingWant.covers, decide_eq_true_eq] at hcovers
    refine ⟨rfl, rfl, ?_, hcovers.1, hcovers.2⟩
    simp only [WantState.wants, hwants, Option.getD_some]
    exact hin

/-- The entry a chunk is put into: the assembly of its key, or a new one. -/
def WantState.entryOf (s : WantState) (key : AssemblyKey) (chunkTotal : Nat) : ChunkAssembly :=
  (s.assemblies.get key).getD (.new chunkTotal)

/-- What a response that is a chunk does: either nothing is put together and
nobody is handed anything, or the chunk goes into a free slot of its entry,
and a complete entry is taken out and handed on. -/
inductive ChunkStep (s : WantState) (key : AssemblyKey) (chunkIndex chunkTotal : Nat)
    (data : Bytes) (e : Effect) : Prop
  | refused (hout : e.outcome = .rejected ∨ e.outcome = .duplicate) (hstate : Sheds s e.state)
      (hnobody : e.deliveries = [])
  | stored (hindex : chunkIndex < chunkTotal)
      (htotal : (s.entryOf key chunkTotal).totalChunks = chunkTotal)
      (hfree : (s.entryOf key chunkTotal).chunk chunkIndex = none)
      (hfewer : Fewer s e.state)
      (hothers : ∀ {key' a}, key' ≠ key → e.state.assemblies.get key' = some a →
        s.assemblies.get key' = some a)
      (hcase : (e.outcome = .accepted ∧ e.deliveries = [] ∧
          e.state.assemblies.get key =
            some ((s.entryOf key chunkTotal).place chunkIndex data)) ∨
        (e.outcome = .completed ∧ e.state.assemblies.get key = none ∧
          ((s.entryOf key chunkTotal).place chunkIndex data).receivedChunks =
            ((s.entryOf key chunkTotal).place chunkIndex data).totalChunks ∧
          ∀ d ∈ e.deliveries, d.cid = key.1 ∧
            d.data = ((s.entryOf key chunkTotal).place chunkIndex data).full ∧
            s.Waits key.1 d.want.tx d.want.peers ∧ key.2.1 ∈ d.want.peers ∧
            key.2.2 ∈ d.want.paths))

variable {peers : List NodeId}

section

variable {s₁ : WantState} (env : Surroundings) {chunkIndex chunkTotal : Nat} (data : Bytes)
  (hshed : Sheds s s₁)
  (hsame : s₁.assemblies.get (cid, sender, room) = s.assemblies.get (cid, sender, room))
  (hindex : chunkIndex < chunkTotal)
  (htotal : (s.entryOf (cid, sender, room) chunkTotal).totalChunks = chunkTotal)
  (hfree : (s.entryOf (cid, sender, room) chunkTotal).chunk chunkIndex = none)
include env data hshed hsame hindex htotal hfree

/-- What storing a chunk does to the registry. -/
theorem WantState.storeChunk_step : ChunkStep s (cid, sender, room) chunkIndex chunkTotal data
      (s₁.storeChunk env room cid sender chunkIndex chunkTotal data) := by
  have hentry : (s₁.assemblies.get (cid, sender, room)).getD (.new chunkTotal) =
      s.entryOf (cid, sender, room) chunkTotal := by rw [hsame]; rfl
  unfold WantState.storeChunk
  simp only [hentry]
  generalize hplaced : (s.entryOf (cid, sender, room) chunkTotal).place chunkIndex data = entry
  -- The state with the chunk in place, counted.
  have hcounted : Sheds { s₁ with assemblies := s₁.assemblies.insert (cid, sender, room) entry }
      (({ s₁ with assemblies := s₁.assemblies.insert (cid, sender, room) entry }.observe cid sender
        room true env.now).advanceProgress sender env.now) :=
    (Sheds.observe _ cid sender room true env.now).trans (.advanceProgress _ sender env.now)
  have hassemblies : (({ s₁ with
      assemblies := s₁.assemblies.insert (cid, sender, room) entry }.observe cid sender
        room true env.now).advanceProgress sender env.now).assemblies =
      s₁.assemblies.insert (cid, sender, room) entry := rfl
  generalize (({ s₁ with
      assemblies := s₁.assemblies.insert (cid, sender, room) entry }.observe cid sender
        room true env.now).advanceProgress sender env.now) = s₂ at hcounted hassemblies ⊢
  have hfewer : Fewer s s₂ := hshed.toFewer.trans ⟨hcounted.wants, hcounted.made⟩
  have hothers : ∀ {key' a}, key' ≠ (cid, sender, room) → s₂.assemblies.get key' = some a →
      s.assemblies.get key' = some a := by
    intro key' a hne hget
    rw [hassemblies, Table.get_insert, if_neg hne] at hget
    exact hshed.assemblies hget
  split
  · next hcomplete =>
    have hfulfill := Sheds.fulfill { s₂ with
      assemblies := s₂.assemblies.erase (cid, sender, room) } env 4 cid sender room entry.full
    refine .stored hindex htotal hfree (hfewer.trans ⟨hfulfill.wants, hfulfill.made⟩) ?_
      (Or.inr ⟨rfl, ?_, hplaced ▸ hcomplete, ?_⟩)
    · intro key' a hne hget
      have hget' := hfulfill.assemblies hget
      rw [Table.get_erase, if_neg hne] at hget'
      exact hothers hne hget'
    · cases hget : (WantState.fulfill { s₂ with
          assemblies := s₂.assemblies.erase (cid, sender, room) } env 4 cid sender room
          entry.full).1.assemblies.get (cid, sender, room) with
      | none => rfl
      | some a =>
        have hget' := hfulfill.assemblies hget
        rw [Table.get_erase, if_pos rfl] at hget'
        cases hget'
    · intro d hd
      obtain ⟨hcid, hdata, hwant, hsender, hroom⟩ := mem_fulfill hd
      exact ⟨hcid, hplaced ▸ hdata, hfewer.waits ⟨d.want, hwant, rfl, rfl⟩, hsender, hroom⟩
  · refine .stored hindex htotal hfree hfewer hothers (Or.inl ⟨rfl, rfl, ?_⟩)
    rw [hassemblies, Table.get_insert_self, hplaced]

theorem WantState.limitChunk_step : ChunkStep s (cid, sender, room) chunkIndex chunkTotal data
      (s₁.limitChunk env room cid sender chunkIndex chunkTotal data) := by
  unfold WantState.limitChunk
  have hlimited := hshed.trans (Sheds.enforceByteLimits s₁ env 2 cid sender room
    (s₁.assembledBytes (cid, sender, room) + data.length))
  simp only
  split
  · exact .refused (Or.inl rfl) hlimited rfl
  · next hpass =>
    obtain ⟨haccepts, _⟩ := not_or.mp hpass
    have hkept := (accepts_limited (not_not.mp haccepts)).trans hsame
    split
    · exact .refused (Or.inl rfl) hlimited rfl
    · split
      · exact .refused (Or.inl rfl) hlimited rfl
      · obtain hout | ⟨_, _, _, hfewer, hothers, hcase⟩ :=
          storeChunk_step env data hlimited hkept hindex htotal hfree
        · exact .refused ‹_› ‹_› ‹_›
        · exact .stored hindex htotal hfree hfewer hothers hcase

end

/-- What a chunk that arrives does to the registry. -/
theorem WantState.fulfillChunkDataIn_step (s : WantState) (env : Surroundings) (room : Room)
    (cid : Cid) (sender : NodeId) (chunkIndex chunkTotal : Nat) (data : Bytes) :
    ChunkStep s (cid, sender, room) chunkIndex chunkTotal data
      (s.fulfillChunkDataIn env room cid sender chunkIndex chunkTotal data) := by
  unfold WantState.fulfillChunkDataIn
  have hshed : Sheds s ((s.prune env 0).observe cid sender room false env.now) :=
    (Sheds.prune s env 0).trans (.observe _ cid sender room false env.now)
  simp only
  split
  · exact .refused (Or.inl rfl) hshed rfl
  · next hheader =>
    have hindex : chunkIndex < chunkTotal := by omega
    split
    · exact .refused (Or.inl rfl) hshed rfl
    · next haccepts =>
      have hsame : ((s.prune env 0).observe cid sender room false env.now).assemblies.get
          (cid, sender, room) = s.assemblies.get (cid, sender, room) := by
        rw [accepts_observe] at haccepts
        exact get_assemblies_prune (not_not.mp haccepts)
      split
      · next entry hentry =>
        have hown : s.entryOf (cid, sender, room) chunkTotal = entry := by
          simp [WantState.entryOf, ← hsame, hentry]
        split
        · exact .refused (Or.inl rfl) hshed rfl
        · next htotal =>
          split
          · exact .refused (Or.inr rfl) hshed rfl
          · next hslot =>
            apply limitChunk_step env data hshed hsame hindex
            · rw [hown]
              exact not_not.mp htotal
            · rw [hown]
              simpa using hslot
      · next hentry =>
        have hown : s.entryOf (cid, sender, room) chunkTotal = .new chunkTotal := by
          simp [WantState.entryOf, ← hsame, hentry]
        apply limitChunk_step env data hshed hsame hindex
        · rw [hown]
          rfl
        · rw [hown]
          simp [ChunkAssembly.chunk, ChunkAssembly.new, hindex]

/-- A block is handed to who waits for it from that sender, on that path. -/
theorem WantState.fulfillDataIn_step (s : WantState) (env : Surroundings) (room : Room)
    (cid : Cid) (sender : NodeId) (data : Bytes) :
    Sheds s (s.fulfillDataIn env room cid sender data).state ∧
      ∀ d ∈ (s.fulfillDataIn env room cid sender data).deliveries, d.cid = cid ∧ d.data = data ∧
        s.Waits cid d.want.tx d.want.peers ∧ sender ∈ d.want.peers ∧ room ∈ d.want.paths := by
  have hlimited : Sheds s (((s.prune env 0).observe cid sender room false env.now).enforceByteLimits
      env 1 cid sender room data.length).1 :=
    ((Sheds.prune s env 0).trans (.observe _ cid sender room false env.now)).trans
      (.enforceByteLimits _ env 1 cid sender room data.length)
  unfold WantState.fulfillDataIn
  simp only
  split
  · have hcounted := hlimited.trans ((Sheds.observe _ cid sender room true env.now).trans
      (.advanceProgress _ sender env.now))
    refine ⟨hcounted.trans (.fulfill _ env 3 cid sender room data), ?_⟩
    intro d hd
    obtain ⟨hcid, hdata, hwant, hsender, hroom⟩ := mem_fulfill hd
    exact ⟨hcid, hdata, hcounted.waits ⟨d.want, hwant, rfl, rfl⟩, hsender, hroom⟩
  · refine ⟨hlimited, ?_⟩
    intro d hd
    cases hd

theorem WantState.register_waits {env : Surroundings} {cid' : Cid} {peers' : List NodeId}
    {isLocal : Bool} {tx : Channel}
    (h : (s.registerAttemptForPeers env cid peers isLocal).2.Waits cid' tx peers') :
    s.Waits cid' tx peers' ∨ (cid' = cid ∧ tx = s.channels ∧ peers' = sortedPeers peers) := by
  unfold WantState.registerAttemptForPeers at h
  simp only at h
  split at h
  · exact Or.inl ((Sheds.prune s env 0).waits h)
  · obtain ⟨want, hmem, rfl, rfl⟩ := h
    simp only [WantState.wants, Table.get_insert] at hmem
    split at hmem
    · next heq =>
      subst heq
      rcases List.mem_append.mp hmem with hold | hnew
      · exact Or.inl ((Sheds.prune s env 0).waits ⟨want, hold, rfl, rfl⟩)
      · obtain rfl := List.mem_singleton.mp hnew
        exact Or.inr ⟨rfl, rfl, rfl⟩
    · exact Or.inl ((Sheds.prune s env 0).waits ⟨want, hmem, rfl, rfl⟩)

variable {key : AssemblyKey} {a : ChunkAssembly}

theorem WantState.register_assemblies {env : Surroundings} {isLocal : Bool}
    (h : (s.registerAttemptForPeers env cid peers isLocal).2.assemblies.get key = some a) :
    s.assemblies.get key = some a := by
  unfold WantState.registerAttemptForPeers at h
  simp only at h
  split at h <;> exact (Sheds.prune s env 0).assemblies h

/-- Whether an operation tears down the path of a key. -/
def WantOp.Resets (op : WantOp) (key : AssemblyKey) : Prop :=
  op = .senderReset key.2.1 key.2.2 ∨ op = .roomReset key.2.2

/-- A reset of a path drops what came through it. -/
theorem WantState.resetPath_step (s : WantState) (env : Surroundings) (sender : Option NodeId)
    (room : Room) :
    Sheds s (s.resetPath env sender room) ∧
      ∀ key a, (s.resetPath env sender room).assemblies.get key = some a →
        ¬ (key.2.2 = room ∧ ∀ sender' ∈ sender, sender' = key.2.1) := by
  have hget : ∀ key a, (s.resetPath env sender room).assemblies.get key = some a →
      s.assemblies.get key = some a ∧
        ¬ (key.2.2 = room ∧ ∀ sender' ∈ sender, sender' = key.2.1) := by
    intro key a h
    simp only [WantState.resetPath, Table.get_retain, Option.filter_eq_some_iff] at h
    obtain ⟨hold, hkeep⟩ := h
    refine ⟨(Sheds.prune s env 0).assemblies hold, ?_⟩
    rintro ⟨hroom, hsender⟩
    obtain ⟨sender', hmem, hne⟩ : ∃ x, sender = some x ∧ ¬ x = key.2.1 := by
      simpa [hroom] using hkeep
    exact hne (hsender sender' hmem)
  refine ⟨⟨⟨fun cid => .trans ?_ ((Sheds.prune s env 0).wants cid), le_rfl⟩, fun h => (hget _ _ h).1⟩,
    fun key a h => (hget key a h).2⟩
  simp only [WantState.wants, WantState.resetPath, Table.get_mapVals]
  cases (s.prune env 0).pending.get cid with
  | none => exact .refl _
  | some wants =>
    rw [Option.map_some, Option.getD_some, Option.getD_some, map_face fun want => ?_]
    split <;> rfl

theorem Sheds.cancel (s : WantState) (env : Surroundings) (cid : Cid) :
    Sheds s (s.cancel env cid) := by
  apply Sheds.thenPrune
  refine ⟨⟨fun cid' => ?_, le_rfl⟩, fun h => ?_⟩
  · simp only [WantState.wants, Table.get_erase]
    split
    · exact List.nil_sublist _
    · exact .refl _
  · simp only [Table.get_retain, Option.filter_eq_some_iff] at h
    exact h.1

/-- The operations that bring no block and register nobody. -/
def WantOp.Quiet : WantOp → Prop
  | .registerForPeers .. | .fulfill .. | .fulfillChunk .. => False
  | _ => True

/-- A quiet operation hands out nothing, loses waiters and assemblies at most,
and keeps no assembly of a path it tears down. -/
theorem WantOp.Quiet.step {op : WantOp} (h : op.Quiet) (env : Surroundings) (s : WantState) :
    Sheds s (op.apply env s).state ∧ (op.apply env s).deliveries = [] ∧
      ∀ key a, (op.apply env s).state.assemblies.get key = some a → ¬ op.Resets key := by
  have hother : ∀ {op : WantOp}, (∀ sender room, op ≠ .senderReset sender room) →
      (∀ room, op ≠ .roomReset room) → ∀ key, ¬ op.Resets key := by
    intro op hsender hroom key hreset
    rcases hreset with heq | heq
    · exact hsender _ _ heq
    · exact hroom _ heq
  cases op with
  | registerForPeers cid peers isLocal | fulfill room cid sender data
  | fulfillChunk room cid sender chunkIndex chunkTotal data => exact absurd h id
  | setByteLimit attempt maxBytes =>
    refine ⟨?_, rfl, fun key _ _ => hother (by simp) (by simp) key⟩
    have hcounted : Sheds s { s with channels := s.channels + 1 } := .still rfl rfl (Nat.le_succ _)
    exact hcounted.trans (.updateAttempt _ attempt fun _ => rfl)
  | trackPath attempt room =>
    exact ⟨.updateAttempt s attempt fun _ => rfl, rfl,
      fun key _ _ => hother (by simp) (by simp) key⟩
  | untrackPath attempt room =>
    refine ⟨Sheds.thenPrune ?_ env 0, rfl, fun key _ _ => hother (by simp) (by simp) key⟩
    exact .updateAttempt s attempt fun _ => rfl
  | senderReset sender room =>
    obtain ⟨hshed, hgone⟩ := s.resetPath_step env (some sender) room
    refine ⟨hshed, rfl, ?_⟩
    intro key a hget hreset
    rcases hreset with heq | heq
    · cases heq
      exact hgone key a hget ⟨rfl, by simp⟩
    · cases heq
  | roomReset room =>
    obtain ⟨hshed, hgone⟩ := s.resetPath_step env none room
    refine ⟨hshed, rfl, ?_⟩
    intro key a hget hreset
    rcases hreset with heq | heq
    · cases heq
    · cases heq
      exact hgone key a hget ⟨rfl, by simp⟩
  | cancel cid => exact ⟨.cancel s env cid, rfl, fun key _ _ => hother (by simp) (by simp) key⟩
  | cancelClosed => exact ⟨.prune s env 0, rfl, fun key _ _ => hother (by simp) (by simp) key⟩
  | subscribeProgress sender =>
    refine ⟨?_, rfl, fun key _ _ => hother (by simp) (by simp) key⟩
    refine (Sheds.prune s env 0).trans ?_
    simp only [WantOp.apply, WantState.subscribeProgress]
    split
    · exact .still rfl rfl le_rfl
    · exact .refl _
  | queryPathResets room peer =>
    refine ⟨?_, rfl, fun key _ _ => hother (by simp) (by simp) key⟩
    exact (Sheds.prune s env 0).trans (.still rfl rfl le_rfl)

/-! ## One assembly -/

/-- The slots of an assembly are as many as it has chunks, and its counts
agree with them. -/
structure ChunkAssembly.WellFormed (a : ChunkAssembly) : Prop where
  slots : a.chunks.length = a.totalChunks
  received : a.receivedChunks = a.chunks.countP Option.isSome
  size : a.bytes = a.full.length

theorem ChunkAssembly.new_wellFormed (total : Nat) : (ChunkAssembly.new total).WellFormed where
  slots := List.length_replicate
  received := by simp [ChunkAssembly.new, List.countP_replicate]
  size := by simp [ChunkAssembly.new, ChunkAssembly.full]

@[simp] theorem ChunkAssembly.chunk_new (total i : Nat) :
    (ChunkAssembly.new total).chunk i = none := by
  simp only [ChunkAssembly.chunk, ChunkAssembly.new, List.getElem?_replicate]
  split <;> rfl

variable {i : Nat}

theorem ChunkAssembly.chunk_eq_none_iff (h : i < a.chunks.length) :
    a.chunk i = none ↔ a.chunks[i]? = some none := by
  rw [ChunkAssembly.chunk, List.getElem?_eq_getElem h]
  simp

theorem ChunkAssembly.chunk_place (a : ChunkAssembly) (h : i < a.chunks.length) (data : Bytes)
    (j : Nat) :
    (a.place i data).chunk j = if j = i then some data else a.chunk j := by
  unfold ChunkAssembly.chunk ChunkAssembly.place
  by_cases heq : j = i
  · subst heq
    rw [List.getElem?_set_self h, if_pos rfl]
    rfl
  · rw [List.getElem?_set_ne (Ne.symm heq), if_neg heq]

theorem length_full_set {chunks : List (Option Bytes)} (h : chunks[i]? = some none) (data : Bytes) :
    ((chunks.set i (some data)).flatMap fun part => part.getD []).length =
      (chunks.flatMap fun part => part.getD []).length + data.length := by
  induction chunks generalizing i with
  | nil => cases h
  | cons part rest ih =>
    cases i with
    | zero =>
      simp only [List.getElem?_cons_zero, Option.some.injEq] at h
      subst h
      simp [Nat.add_comm]
    | succ i =>
      simp only [List.getElem?_cons_succ] at h
      simp only [List.set_cons_succ, List.flatMap_cons, List.length_append, ih h]
      omega

theorem ChunkAssembly.WellFormed.place (h : a.WellFormed) (hi : i < a.totalChunks)
    (hfree : a.chunk i = none) (data : Bytes) :
    (a.place i data).WellFormed := by
  have hlen : i < a.chunks.length := h.slots ▸ hi
  have hslot := (ChunkAssembly.chunk_eq_none_iff hlen).mp hfree
  have hnone : a.chunks[i] = none := by
    rw [List.getElem?_eq_getElem hlen] at hslot
    exact Option.some.inj hslot
  refine ⟨?_, ?_, ?_⟩
  · exact (List.length_set).trans h.slots
  · show a.receivedChunks + 1 = (a.chunks.set i (some data)).countP Option.isSome
    rw [List.countP_set hlen, hnone, h.received]
    simp
  · simp only [ChunkAssembly.place, ChunkAssembly.full, length_full_set hslot, h.size]

theorem ChunkAssembly.WellFormed.complete (h : a.WellFormed) (hc : a.receivedChunks = a.totalChunks)
    (hi : i < a.totalChunks) :
    ∃ data, a.chunk i = some data := by
  have hlen : i < a.chunks.length := h.slots ▸ hi
  have hall : ∀ part ∈ a.chunks, part.isSome = true := by
    rw [← List.countP_eq_length, ← h.received, hc, h.slots]
  obtain ⟨data, hdata⟩ := Option.isSome_iff_exists.mp (hall _ (List.getElem_mem hlen))
  refine ⟨data, ?_⟩
  rw [ChunkAssembly.chunk, List.getElem?_eq_getElem hlen, hdata]
  rfl

theorem ChunkAssembly.WellFormed.full_eq (h : a.WellFormed) :
    a.full = (List.range a.totalChunks).flatMap fun i => (a.chunk i).getD [] := by
  have hchunks : a.chunks = (List.range a.totalChunks).map a.chunk := by
    apply List.ext_getElem?
    intro i
    rw [List.getElem?_map]
    by_cases hi : i < a.totalChunks
    · have hlen : i < a.chunks.length := h.slots ▸ hi
      rw [List.getElem?_range hi, List.getElem?_eq_getElem hlen]
      simp [ChunkAssembly.chunk, List.getElem?_eq_getElem hlen]
    · have hlen : a.chunks.length ≤ i := by rw [h.slots]; omega
      rw [List.getElem?_eq_none hlen, List.getElem?_eq_none (by simpa using hi)]
      rfl
  conv_lhs => rw [ChunkAssembly.full, hchunks, List.flatMap_map]

/-! ## Runs -/

structure Moment where
  before : WantState
  op : WantOp
  env : Surroundings

def Moment.effect (m : Moment) : Effect := m.op.apply m.env m.before

/-- The registry has gone through these moments. -/
inductive WantRun : List Moment → WantState → Prop
  | nil : WantRun [] .default
  | step {ms : List Moment} {s : WantState} (run : WantRun ms s) (op : WantOp)
      (env : Surroundings) : WantRun (ms ++ [⟨s, op, env⟩]) (op.apply env s).state

/-- The moment brought this chunk for the key and it was taken. -/
def Moment.Brings (m : Moment) (key : AssemblyKey) (total i : Nat) (data : Bytes) : Prop :=
  m.op = .fulfillChunk key.2.2 key.1 key.2.1 i total data ∧
    (m.effect.outcome = .accepted ∨ m.effect.outcome = .completed)

def Moment.Registers (m : Moment) (cid : Cid) (tx : Channel) (peers : List NodeId) : Prop :=
  ∃ asked isLocal, m.op = .registerForPeers cid asked isLocal ∧ m.before.channels = tx ∧
    peers = sortedPeers asked

/-- The assembly of `key` came into being at `start`, has been there and its
path untouched ever since up to `stop`, and each of the chunks was brought in
that time. -/
structure Assembled (ms : List Moment) (stop : Nat) (key : AssemblyKey) (total start : Nat)
    (chunk : Nat → Option Bytes) : Prop where
  created : ∃ m, ms[start]? = some m ∧ m.before.assemblies.get key = none
  kept : ∀ j m, start < j → j < stop → ms[j]? = some m →
    (∃ a, m.before.assemblies.get key = some a) ∧ ¬ m.op.Resets key
  brought : ∀ i data, chunk i = some data →
    ∃ j m, start ≤ j ∧ j < stop ∧ ms[j]? = some m ∧ m.Brings key total i data

variable {ms : List Moment} {total : Nat}

theorem Assembled.append {stop : Nat} {start : Nat} {chunk : Nat → Option Bytes}
    (h : Assembled ms stop key total start chunk) (hstop : stop ≤ ms.length) (later : List Moment) :
    Assembled (ms ++ later) stop key total start chunk where
  created := by
    obtain ⟨m, hm, hnone⟩ := h.created
    have hlt := (List.getElem?_eq_some_iff.mp hm).1
    exact ⟨m, (List.getElem?_append_left hlt).trans hm, hnone⟩
  kept := by
    intro j m hj hlt hm
    rw [List.getElem?_append_left (by omega)] at hm
    exact h.kept j m hj hlt hm
  brought := by
    intro i data hi
    obtain ⟨j, m, hj, hlt, hm, hbrings⟩ := h.brought i data hi
    exact ⟨j, m, hj, hlt, (List.getElem?_append_left (by omega)).trans hm, hbrings⟩

variable {m : Moment}

theorem Assembled.extend {start : Nat} {chunk : Nat → Option Bytes}
    (h : Assembled ms ms.length key total start chunk)
    (hheld : ∃ a, m.before.assemblies.get key = some a) (hreset : ¬ m.op.Resets key) :
    Assembled (ms ++ [m]) (ms.length + 1) key total start chunk where
  created := (h.append le_rfl [m]).created
  kept := by
    intro j m' hj hlt hm
    by_cases hlast : j = ms.length
    · subst hlast
      simp only [List.getElem?_append_right le_rfl, Nat.sub_self,
        List.getElem?_cons_zero, Option.some.injEq] at hm
      subst hm
      exact ⟨hheld, hreset⟩
    · exact (h.append le_rfl [m]).kept j m' hj (by omega) hm
  brought := by
    intro i data hi
    obtain ⟨j, m', hj, hlt, hm, hbrings⟩ := (h.append le_rfl [m]).brought i data hi
    exact ⟨j, m', hj, by omega, hm, hbrings⟩

theorem getElem?_snoc (ms : List Moment) (m : Moment) : (ms ++ [m])[ms.length]? = some m := by
  simp

theorem Assembled.bring {data : Bytes} (hbrings : m.Brings key total i data)
    (hwf : (m.before.entryOf key total).WellFormed)
    (htotal : (m.before.entryOf key total).totalChunks = total) (hi : i < total)
    (hprev : ∀ a, m.before.assemblies.get key = some a →
      ∃ start, Assembled ms ms.length key a.totalChunks start a.chunk) :
    ∃ start, Assembled (ms ++ [m]) (ms.length + 1) key total start
      ((m.before.entryOf key total).place i data).chunk := by
  have hlen : i < (m.before.entryOf key total).chunks.length := by
    rw [hwf.slots, htotal]
    exact hi
  have hnow : ∃ j m', ms.length ≤ j ∧ j < ms.length + 1 ∧ (ms ++ [m])[j]? = some m' ∧
      m'.Brings key total i data :=
    ⟨ms.length, m, le_rfl, Nat.lt_succ_self _, getElem?_snoc ms m, hbrings⟩
  cases hget : m.before.assemblies.get key with
  | none =>
    refine ⟨ms.length, ⟨m, getElem?_snoc ms m, hget⟩, ?_, ?_⟩
    · intro j m' hj hlt
      omega
    · intro i' data' hchunk
      rw [ChunkAssembly.chunk_place _ hlen] at hchunk
      split at hchunk
      · next heq =>
        subst heq
        cases hchunk
        exact hnow
      · simp [WantState.entryOf, hget] at hchunk
  | some a =>
    have hentry : m.before.entryOf key total = a := by simp [WantState.entryOf, hget]
    obtain ⟨start, hassembled⟩ := hprev a hget
    have hreset : ¬ m.op.Resets key := by
      rw [hbrings.1]
      rintro (heq | heq) <;> cases heq
    have hextended := hassembled.extend ⟨a, hget⟩ hreset
    rw [← hentry, htotal] at hextended
    refine ⟨start, hextended.created, hextended.kept, ?_⟩
    intro i' data' hchunk
    rw [ChunkAssembly.chunk_place _ hlen] at hchunk
    split at hchunk
    · next heq =>
      subst heq
      cases hchunk
      obtain ⟨j, m', hj, hlt, hm, hb⟩ := hnow
      obtain ⟨m₀, hm₀, _⟩ := hassembled.created
      have hstart := (List.getElem?_eq_some_iff.mp hm₀).1
      exact ⟨j, m', by omega, hlt, hm, hb⟩
    · exact hextended.brought i' data' hchunk

/-- What a run knows: every assembly is well formed and traced, and every
waiter has been registered. -/
structure Traced (ms : List Moment) (s : WantState) : Prop where
  wellFormed : ∀ {key a}, s.assemblies.get key = some a → a.WellFormed
  assembled : ∀ {key a}, s.assemblies.get key = some a →
    ∃ start, Assembled ms ms.length key a.totalChunks start a.chunk
  registered : ∀ {cid tx peers}, s.Waits cid tx peers → ∃ m ∈ ms, m.Registers cid tx peers

theorem Traced.entryOf (h : Traced ms s) (key : AssemblyKey) (total : Nat) :
    (s.entryOf key total).WellFormed := by
  unfold WantState.entryOf
  cases hget : s.assemblies.get key with
  | none => exact ChunkAssembly.new_wellFormed total
  | some a => exact h.wellFormed hget

theorem Traced.shed (h : Traced ms s) {op : WantOp} {env : Surroundings}
    (hassemblies : ∀ {key a}, (op.apply env s).state.assemblies.get key = some a →
      s.assemblies.get key = some a ∧ ¬ op.Resets key)
    (hwaits : ∀ {cid tx peers}, (op.apply env s).state.Waits cid tx peers → s.Waits cid tx peers ∨
      (⟨s, op, env⟩ : Moment).Registers cid tx peers) :
    Traced (ms ++ [⟨s, op, env⟩]) (op.apply env s).state where
  wellFormed hget := h.wellFormed (hassemblies hget).1
  assembled := by
    intro key a hget
    obtain ⟨hold, hreset⟩ := hassemblies hget
    obtain ⟨start, hassembled⟩ := h.assembled hold
    refine ⟨start, ?_⟩
    rw [List.length_append, List.length_singleton]
    exact hassembled.extend ⟨a, hold⟩ hreset
  registered := by
    intro cid tx peers hw
    rcases hwaits hw with hold | hnew
    · obtain ⟨m, hm, hreg⟩ := h.registered hold
      exact ⟨m, List.mem_append_left _ hm, hreg⟩
    · exact ⟨_, List.mem_append_right _ List.mem_cons_self, hnew⟩

/-- Each step keeps the assemblies traced to what came. -/
theorem Traced.step (h : Traced ms s) (op : WantOp) (env : Surroundings) :
    Traced (ms ++ [⟨s, op, env⟩]) (op.apply env s).state := by
  -- Quiet operations only lose things; the other three are looked at one by one.
  have hquiet : op.Quiet → Traced (ms ++ [⟨s, op, env⟩]) (op.apply env s).state := by
    intro hq
    obtain ⟨hshed, _, hreset⟩ := hq.step env s
    exact h.shed (fun hget => ⟨hshed.assemblies hget, hreset _ _ hget⟩)
      (fun hw => Or.inl (hshed.waits hw))
  cases op with
  | registerForPeers cid peers isLocal =>
    apply h.shed
    · intro key a hget
      refine ⟨WantState.register_assemblies hget, ?_⟩
      rintro (heq | heq) <;> cases heq
    · intro cid' tx peers' hw
      rcases WantState.register_waits hw with hold | ⟨rfl, rfl, rfl⟩
      · exact Or.inl hold
      · exact Or.inr ⟨peers, isLocal, rfl, rfl, rfl⟩
  | fulfill room cid sender data =>
    have hshed := (s.fulfillDataIn_step env room cid sender data).1
    apply h.shed
    · intro key a hget
      refine ⟨hshed.assemblies hget, ?_⟩
      rintro (heq | heq) <;> cases heq
    · intro cid' tx peers hw
      exact Or.inl (hshed.waits hw)
  | fulfillChunk room cid sender i total data =>
    have hnoReset : ∀ key, ¬ (WantOp.fulfillChunk room cid sender i total data).Resets key := by
      rintro key (heq | heq) <;> cases heq
    rcases s.fulfillChunkDataIn_step env room cid sender i total data with
      ⟨_, hshed, _⟩ | ⟨hi, htotal, hfree, hfewer, hothers, hcase⟩
    · exact h.shed (fun hget => ⟨hshed.assemblies hget, hnoReset _⟩)
        (fun hw => Or.inl (hshed.waits hw))
    · have hwf := h.entryOf (cid, sender, room) total
      have hregistered : ∀ {cid' tx peers},
          ((WantOp.fulfillChunk room cid sender i total data).apply env s).state.Waits cid' tx peers →
          ∃ m ∈ ms ++ [⟨s, .fulfillChunk room cid sender i total data, env⟩],
            m.Registers cid' tx peers := by
        intro cid' tx peers hw
        obtain ⟨m, hm, hreg⟩ := h.registered (hfewer.waits hw)
        exact ⟨m, List.mem_append_left _ hm, hreg⟩
      -- Assemblies of other keys are as before.
      have hother : ∀ {key a}, key ≠ (cid, sender, room) →
          ((WantOp.fulfillChunk room cid sender i total data).apply env s).state.assemblies.get key =
            some a →
          a.WellFormed ∧ ∃ start, Assembled
            (ms ++ [⟨s, .fulfillChunk room cid sender i total data, env⟩])
            (ms.length + 1) key a.totalChunks start a.chunk := by
        intro key a hne hget
        have hold := hothers hne hget
        obtain ⟨start, hassembled⟩ := h.assembled hold
        exact ⟨h.wellFormed hold, start, hassembled.extend ⟨a, hold⟩ (hnoReset key)⟩
      rcases hcase with ⟨hout, _, hnow⟩ | ⟨_, hgone, _, _⟩
      · have hbrings : (⟨s, .fulfillChunk room cid sender i total data, env⟩ : Moment).Brings
            (cid, sender, room) total i data := ⟨rfl, Or.inl hout⟩
        obtain ⟨start, hassembled⟩ :=
          Assembled.bring hbrings hwf htotal hi fun _ => h.assembled
        have hplaced := hwf.place (htotal.symm ▸ hi) hfree data
        refine ⟨?_, ?_, hregistered⟩
        · intro key a hget
          by_cases heq : key = (cid, sender, room)
          · subst heq
            cases hnow.symm.trans hget
            exact hplaced
          · exact (hother heq hget).1
        · intro key a hget
          rw [List.length_append, List.length_singleton]
          by_cases heq : key = (cid, sender, room)
          · subst heq
            cases hnow.symm.trans hget
            refine ⟨start, ?_⟩
            have hkeep : ((s.entryOf (cid, sender, room) total).place i data).totalChunks = total :=
              htotal
            rw [hkeep]
            exact hassembled
          · exact (hother heq hget).2
      · refine ⟨?_, ?_, hregistered⟩
        · intro key a hget
          by_cases heq : key = (cid, sender, room)
          · subst heq
            cases hgone.symm.trans hget
          · exact (hother heq hget).1
        · intro key a hget
          rw [List.length_append, List.length_singleton]
          by_cases heq : key = (cid, sender, room)
          · subst heq
            cases hgone.symm.trans hget
          · exact (hother heq hget).2
  | _ => exact hquiet trivial

theorem WantRun.traced (run : WantRun ms s) : Traced ms s := by
  induction run with
  | nil =>
    have hempty : ∀ key, WantState.default.assemblies.get key = none := Table.get_empty
    refine ⟨?_, ?_, ?_⟩
    · intro key a h
      cases (hempty key).symm.trans h
    · intro key a h
      cases (hempty key).symm.trans h
    · rintro cid tx peers ⟨want, hmem, _⟩
      simp [WantState.wants, WantState.default] at hmem
  | step _ op env ih => exact ih.step op env

theorem WantRun.before (run : WantRun ms s) {n : Nat} (hm : ms[n]? = some m) :
    WantRun (ms.take n) m.before := by
  induction run with
  | nil => cases hm
  | @step ms s run op env ih =>
    have hlt := (List.getElem?_eq_some_iff.mp hm).1
    rw [List.length_append, List.length_singleton] at hlt
    by_cases hlast : n = ms.length
    · subst hlast
      rw [getElem?_snoc] at hm
      cases hm
      rw [List.take_left']
      · exact run
      · rfl
    · rw [List.getElem?_append_left (by omega)] at hm
      rw [List.take_append_of_le_length (by omega)]
      exact ih hm

/-- A payload handed out at a moment, traced back: the moment brought the
block itself, or the last of the chunks of an assembly. -/
theorem Traced.delivery (h : Traced ms m.before) {d : Delivery} (hd : d ∈ m.effect.deliveries) :
    m.before.Waits d.cid d.want.tx d.want.peers ∧
      ∃ sender room, sender ∈ d.want.peers ∧ room ∈ d.want.paths ∧
        (m.op = .fulfill room d.cid sender d.data ∨
          ∃ total start payload, Assembled (ms ++ [m]) (ms.length + 1) (d.cid, sender, room) total
              start (fun i => if i < total then some (payload i) else none) ∧
            d.data = (List.range total).flatMap payload) := by
  obtain ⟨s, op, env⟩ := m
  change Traced ms s at h
  cases op with
  | fulfill room cid sender data =>
    obtain ⟨hcid, hdata, hwaits, hsender, hroom⟩ :=
      (s.fulfillDataIn_step env room cid sender data).2 d hd
    subst hcid hdata
    exact ⟨hwaits, sender, room, hsender, hroom, Or.inl rfl⟩
  | fulfillChunk room cid sender i total data =>
    rcases s.fulfillChunkDataIn_step env room cid sender i total data with
      ⟨_, _, hnobody⟩ | ⟨hi, htotal, hfree, _, _, hcase⟩
    · rw [Moment.effect, WantOp.apply, hnobody] at hd
      cases hd
    · rcases hcase with ⟨_, hnobody, _⟩ | ⟨hout, _, hcomplete, hall⟩
      · rw [Moment.effect, WantOp.apply, hnobody] at hd
        cases hd
      · obtain ⟨hcid, hdata, hwaits, hsender, hroom⟩ := hall d hd
        have hwf := h.entryOf (cid, sender, room) total
        have hplaced := hwf.place (htotal.symm ▸ hi) hfree data
        have hbrings : (⟨s, .fulfillChunk room cid sender i total data, env⟩ : Moment).Brings
            (cid, sender, room) total i data := ⟨rfl, Or.inr hout⟩
        obtain ⟨start, hassembled⟩ :=
          Assembled.bring hbrings hwf htotal hi fun _ => h.assembled
        have hcid' : d.cid = cid := hcid
        subst hcid'
        refine ⟨hwaits, sender, room, hsender, hroom, Or.inr ⟨total, start,
          fun j => (((s.entryOf (d.cid, sender, room) total).place i data).chunk j).getD [], ?_, ?_⟩⟩
        · refine ⟨hassembled.created, hassembled.kept, ?_⟩
          intro j data' hj
          obtain ⟨hlt, hpayload⟩ := Option.ite_none_right_eq_some.mp hj
          have hin := hlt.trans_eq htotal.symm
          obtain ⟨chunk, hchunk⟩ := hplaced.complete hcomplete hin
          simp only [hchunk, Option.getD_some, Option.some.injEq] at hpayload
          subst hpayload
          exact hassembled.brought j _ hchunk
        · rw [hdata, hplaced.full_eq]
          exact congrArg (fun n => (List.range n).flatMap _) htotal
  | registerForPeers cid peers isLocal | setByteLimit attempt maxBytes | trackPath attempt room
  | untrackPath attempt room | senderReset sender room | roomReset room | cancel cid
  | cancelClosed | subscribeProgress sender | queryPathResets room peer => cases hd

/-- Provenance. In every run, whatever a waiter is handed at moment `n`: the waiter was registered
for that content id, and there is one sender among its peers and one room among its paths such
that the bytes are the payload of the block that arrived from them at that moment, or the chunks
`0 … total - 1` that arrived from them, in index order. These came during the life of one
assembly, which began at `start`. -/
theorem want_provenance {ms : List Moment} {s : WantState} (run : WantRun ms s) {n : Nat}
    {m : Moment} (hm : ms[n]? = some m) {d : Delivery} (hd : d ∈ m.effect.deliveries) :
    (∃ k r, k < n ∧ ms[k]? = some r ∧ r.Registers d.cid d.want.tx d.want.peers) ∧
      ∃ sender room, sender ∈ d.want.peers ∧ room ∈ d.want.paths ∧
        (m.op = .fulfill room d.cid sender d.data ∨
          ∃ total start payload, Assembled ms (n + 1) (d.cid, sender, room) total start
              (fun i => if i < total then some (payload i) else none) ∧
            d.data = (List.range total).flatMap payload) := by
  have htraced := (run.before hm).traced
  have hlt := (List.getElem?_eq_some_iff.mp hm).1
  have hlen : (ms.take n).length = n := by
    rw [List.length_take]
    omega
  -- The run is what came before, the moment, and what came after.
  have hsplit : ms = (ms.take n ++ [m]) ++ ms.drop (n + 1) := by
    have hget : ms[n] = m := (List.getElem?_eq_some_iff.mp hm).2
    rw [← hget, List.take_append_getElem, List.take_append_drop]
  obtain ⟨hwaits, sender, room, hsender, hroom, hcase⟩ := htraced.delivery hd
  obtain ⟨r, hr, hregisters⟩ := htraced.registered hwaits
  obtain ⟨k, hk, hkr⟩ := List.mem_iff_getElem.mp hr
  refine ⟨⟨k, r, by omega, ?_, hregisters⟩, sender, room, hsender, hroom, ?_⟩
  · rw [← hkr, List.getElem_take, List.getElem?_eq_getElem]
  · rcases hcase with hblock | ⟨total, start, payload, hassembled, hdata⟩
    · exact Or.inl hblock
    · refine Or.inr ⟨total, start, payload, ?_, hdata⟩
      rw [hlen] at hassembled
      have happended := hassembled.append (by rw [List.length_append, hlen]; simp)
        (ms.drop (n + 1))
      rw [← hsplit] at happended
      exact happended

/-! ### A block of two chunks that arrive in the wrong order -/

namespace TwoChunks

def bob : NodeId := ⟨"b"⟩

def env : Surroundings := ⟨fun _ _ => false, fun _ => false, 5⟩

def registered : Moment := ⟨.default, .registerForPeers "ba" [bob] false, env⟩
def tracked : Moment := ⟨registered.effect.state, .trackPath 1 "room", env⟩
def second : Moment := ⟨tracked.effect.state, .fulfillChunk "room" "ba" bob 1 2 [4], env⟩
def first : Moment := ⟨second.effect.state, .fulfillChunk "room" "ba" bob 0 2 [3], env⟩

theorem run : WantRun [registered, tracked, second, first] first.effect.state :=
  .step (.step (.step (.step .nil _ env) _ env) _ env) _ env

def handed : Delivery where
  cid := "ba"
  want :=
    { id := 1, paths := ["room"], resets := 0, progress := ⟨2, 2, some 5⟩, peers := [bob], tx := 0
      byteLimit := none }
  data := [3, 4]

end TwoChunks

open TwoChunks in
/-- Both chunks come from the peer the waiter asked. -/
theorem want_provenance_twoChunks :
    handed ∈ first.effect.deliveries ∧
      ∃ sender room, sender ∈ handed.want.peers ∧ room ∈ handed.want.paths ∧
        (first.op = .fulfill room "ba" sender [3, 4] ∨
          ∃ total start payload, Assembled [registered, tracked, second, first] 4
              ("ba", sender, room) total start
              (fun i => if i < total then some (payload i) else none) ∧
            [3, 4] = (List.range total).flatMap payload) := by
  have hd : handed ∈ first.effect.deliveries := by decide
  exact ⟨hd, (want_provenance run (n := 3) rfl hd).2⟩

end Mistlib.Storage
