import Mistlib.Storage.WantTwins

/-!
# Waiters with a limit of their own

A registration can name the largest block it takes. A response beyond that
takes the waiter out and tells it the size, and the others on the path go on
with what was put together for all of them.
-/

namespace Mistlib.Storage

open WantState

section

variable {s : WantState} {env : Surroundings} {cid : Cid} {sender : NodeId} {room : Room}
  {i total : Nat}

/-! ## What a limit does to its own waiter -/

/-- Every waiter of `s'` is one of `s`, counted further. -/
def Descends (s s' : WantState) : Prop :=
  ∀ cid, ∀ want' ∈ s'.wants cid, ∃ want ∈ s.wants cid, ∃ p, want' = { want with progress := p }

namespace Descends

variable {s s' s'' : WantState}

theorem trans (h : Descends s s') (h' : Descends s' s'') : Descends s s'' := by
  intro cid want'' hmem
  obtain ⟨want', hmem', p, rfl⟩ := h' cid want'' hmem
  obtain ⟨want, hin, q, rfl⟩ := h cid want' hmem'
  exact ⟨want, hin, p, rfl⟩

theorem of_subset (h : ∀ cid, s'.wants cid ⊆ s.wants cid) : Descends s s' :=
  fun cid want' hmem => ⟨want', h cid hmem, want'.progress, rfl⟩

theorem prune (s : WantState) (env : Surroundings) (look : Nat) :
    Descends s (s.prune env look) :=
  of_subset fun _ _ hmem => (mem_wants_prune.mp hmem).1

theorem observe (s : WantState) (cid : Cid) (sender : NodeId) (room : Room) (accepted : Bool)
    (now : Instant) : Descends s (s.observe cid sender room accepted now) := by
  intro cid' want' hmem
  rw [WantState.observe, wants_modify _ _ _ _ rfl] at hmem
  split at hmem
  · next heq =>
    subst heq
    obtain ⟨want, hin, rfl⟩ := List.mem_map.mp hmem
    split
    · exact ⟨want, hin, _, rfl⟩
    · exact ⟨want, hin, want.progress, rfl⟩
  · exact ⟨want', hmem, want'.progress, rfl⟩

theorem enforceByteLimits (s : WantState) (env : Surroundings) (look : Nat) (cid : Cid)
    (sender : NodeId) (room : Room) (bytes : Nat) :
    Descends s (s.enforceByteLimits env look cid sender room bytes).1 := by
  refine trans (of_subset fun cid' want hmem => ?_) (.prune _ env look)
  rw [wants_modify _ _ _ _ rfl] at hmem
  split at hmem
  · next heq =>
    subst heq
    exact List.mem_of_mem_filter hmem
  · exact hmem

theorem fulfill (env : Surroundings) (look : Nat) (data : Bytes)
    (hcovered : s.Covered cid sender room) :
    Descends s (s.fulfill env look cid sender room data).1 := by
  obtain ⟨s', hs', -, hw, -⟩ := fulfill_spec env look sender room data hcovered.ne_nil
  rw [hs']
  refine trans (of_subset fun cid' want hmem => ?_) (.prune s' env (look + 1))
  rw [hw] at hmem
  split at hmem
  · next heq =>
    subst heq
    exact List.mem_of_mem_filter hmem
  · exact hmem

theorem seen (s : WantState) (env : Surroundings) (room : Room) (cid : Cid) (sender : NodeId) :
    Descends s (s.seen env room cid sender) :=
  (Descends.prune s env 0).trans (.observe _ cid sender room false env.now)

end Descends

theorem WantState.storeChunk_spec (env : Surroundings) (i total : Nat) (data : Bytes)
    (hcovered : s.Covered cid sender room) :
    Descends s (s.storeChunk env room cid sender i total data).state ∧
      ∀ d ∈ (s.storeChunk env room cid sender i total data).deliveries,
        d.data = ((s.entryOf (cid, sender, room) total).place i data).full ∧
        ∃ want ∈ s.wants cid, want.covers sender room = true ∧
          ∃ p, d.want = { want with progress := p } := by
  have hentry : ((s.assemblies.get (cid, sender, room)).getD (.new total)).place i data =
      (s.entryOf (cid, sender, room) total).place i data := rfl
  unfold WantState.storeChunk
  dsimp only
  rw [hentry]
  generalize (s.entryOf (cid, sender, room) total).place i data = entry
  have hcounted : Descends s ((({ s with
      assemblies := s.assemblies.insert (cid, sender, room) entry } : WantState).observe cid
        sender room true env.now).advanceProgress sender env.now) :=
    Descends.observe { s with assemblies := _ } cid sender room true env.now
  have hcovered' : ((({ s with
      assemblies := s.assemblies.insert (cid, sender, room) entry } : WantState).observe cid
        sender room true env.now).advanceProgress sender env.now).Covered cid sender room :=
    Covered.observe (s := { s with assemblies := _ }) hcovered true env.now
  generalize ((({ s with
      assemblies := s.assemblies.insert (cid, sender, room) entry } : WantState).observe cid
        sender room true env.now).advanceProgress sender env.now) = s' at hcounted hcovered' ⊢
  split
  · refine ⟨hcounted.trans (Descends.fulfill (s := { s' with assemblies := _ }) env 4 entry.full
      hcovered'), fun d hd => ?_⟩
    obtain ⟨-, hdata, hmem, hsender, hroom⟩ := mem_fulfill hd
    obtain ⟨want, hin, p, heq⟩ := hcounted cid d.want hmem
    refine ⟨hdata, want, hin, ?_, p, heq⟩
    rw [heq] at hsender hroom
    exact decide_eq_true ⟨hsender, hroom⟩
  · exact ⟨hcounted, nofun⟩

theorem WantState.within_of_mem {look bytes : Nat} {want : PendingWant}
    (hmem : want ∈ (s.enforceByteLimits env look cid sender room bytes).1.wants cid)
    (hcovers : want.covers sender room = true) : want.overLimit bytes = false := by
  have hkept := (mem_wants_prune.mp hmem).1
  rw [wants_modify _ _ _ _ rfl, if_pos rfl] at hkept
  have hout := (List.mem_filter.mp hkept).2
  dsimp only at hout
  rw [hcovers, Bool.true_and, Bool.not_eq_true'] at hout
  exact hout

theorem WantState.reported {look bytes limit : Nat} {report : Channel} {want : PendingWant}
    (hmem : want ∈ s.wants cid) (hcovers : want.covers sender room = true)
    (hlimit : want.byteLimit = some (limit, report)) (hover : limit < bytes) :
    (report, bytes) ∈ (s.enforceByteLimits env look cid sender room bytes).2 := by
  refine List.mem_filterMap.mpr ⟨want, List.mem_filter.mpr ⟨hmem, ?_⟩, ?_⟩
  · rw [hcovers, PendingWant.overLimit, hlimit]
    exact decide_eq_true hover
  · rw [hlimit]
    rfl

/-- The limits have been enforced for a response of this size: who is left
was within its limit, and whoever is handed something is handed that much. -/
structure Enforced (s : WantState) (env : Surroundings) (look : Nat) (cid : Cid) (sender : NodeId)
    (room : Room) (size : Nat) (e : Effect) : Prop where
  state : Descends (s.enforceByteLimits env look cid sender room size).1 e.state
  deliveries : ∀ d ∈ e.deliveries, d.data.length = size ∧
    ∃ want ∈ (s.enforceByteLimits env look cid sender room size).1.wants cid,
      want.covers sender room = true ∧ ∃ p, d.want = { want with progress := p }
  oversized : e.oversized = (s.enforceByteLimits env look cid sender room size).2

/-- A whole block is answered within the limits. -/
theorem WantState.fulfillDataIn_enforced (s : WantState) (env : Surroundings) (room : Room)
    (cid : Cid) (sender : NodeId) (data : Bytes) :
    Enforced (s.seen env room cid sender) env 1 cid sender room data.length
      (s.fulfillDataIn env room cid sender data) := by
  have hseen : (s.prune env 0).observe cid sender room false env.now =
      s.seen env room cid sender := rfl
  unfold WantState.fulfillDataIn
  dsimp only
  rw [hseen]
  split
  · next hpass =>
    have hcovered := (Covered.of_accepts hpass.2).observe true env.now
    have hcounted := Descends.observe ((s.seen env room cid sender).enforceByteLimits env 1 cid
      sender room data.length).1 cid sender room true env.now
    refine ⟨hcounted.trans (Descends.fulfill (s := WantState.advanceProgress _ sender env.now) env 3
      data hcovered), fun d hd => ?_, rfl⟩
    obtain ⟨-, hdata, hmem, hsender, hroom⟩ := mem_fulfill hd
    obtain ⟨want, hin, p, heq⟩ := hcounted cid d.want hmem
    refine ⟨by rw [hdata], want, hin, ?_, p, heq⟩
    rw [heq] at hsender hroom
    exact decide_eq_true ⟨hsender, hroom⟩
  · exact ⟨.of_subset fun _ _ h => h, nofun, rfl⟩

theorem WantState.limitChunk_oversized (s : WantState) (env : Surroundings) (room : Room)
    (cid : Cid) (sender : NodeId) (i total : Nat) (data : Bytes) :
    (s.limitChunk env room cid sender i total data).oversized =
      (s.enforceByteLimits env 2 cid sender room
        (s.assembledBytes (cid, sender, room) + data.length)).2 := by
  unfold WantState.limitChunk
  dsimp only
  split
  · rfl
  · split
    · rfl
    · split <;> rfl

theorem WantState.entryOf_bytes (s : WantState) (key : AssemblyKey) (total : Nat) :
    (s.entryOf key total).bytes = s.assembledBytes key := by
  rw [entryOf, WantState.assembledBytes]
  cases s.assemblies.get key <;> rfl

theorem WantState.length_place (hwf : (s.entryOf (cid, sender, room) total).WellFormed)
    (hfits : s.Fits (cid, sender, room) i total) (data : Bytes) :
    ((s.entryOf (cid, sender, room) total).place i data).full.length =
      s.assembledBytes (cid, sender, room) + data.length := by
  have hplaced := hwf.place (hfits.layout.symm ▸ hfits.index) hfits.free data
  rw [← hplaced.size, ChunkAssembly.bytes_place, entryOf_bytes]

/-- A chunk is taken within the limits. -/
theorem WantState.limitChunk_enforced
    (hwf : (s.entryOf (cid, sender, room) total).WellFormed)
    (hfits : s.Fits (cid, sender, room) i total) (env : Surroundings) (data : Bytes) :
    Enforced s env 2 cid sender room (s.assembledBytes (cid, sender, room) + data.length)
      (s.limitChunk env room cid sender i total data) := by
  by_cases hrefuses : s.Refuses env room cid sender data
  · obtain ⟨hstate, hnobody⟩ := limitChunk_refused hrefuses i total
    refine ⟨?_, ?_, limitChunk_oversized s env room cid sender i total data⟩
    · rw [hstate]
      exact .of_subset fun _ _ h => h
    · rw [hnobody]
      exact nofun
  · obtain ⟨hstate, hdeliveries⟩ := limitChunk_taken hrefuses i total
    have hcovered := Covered.of_accepts (not_not.mp (not_or.mp hrefuses).1)
    have hentry : (s.within env room cid sender data).entryOf (cid, sender, room) total =
        s.entryOf (cid, sender, room) total := by
      rw [entryOf, entryOf, get_within hcovered]
    obtain ⟨hstored, hhanded⟩ := storeChunk_spec env i total data hcovered
    refine ⟨?_, fun d hd => ?_, limitChunk_oversized s env room cid sender i total data⟩
    · rw [hstate]
      exact hstored
    · rw [hdeliveries] at hd
      obtain ⟨hdata, hwant⟩ := hhanded d hd
      refine ⟨?_, hwant⟩
      rw [hdata, hentry]
      exact length_place hwf hfits data

namespace Enforced

variable {look size : Nat} {e : Effect}

theorem within (h : Enforced (s.seen env room cid sender) env look cid sender room size e)
    {d : Delivery} (hd : d ∈ e.deliveries) :
    ∃ want ∈ s.wants cid, want.tx = d.want.tx ∧ want.overLimit d.data.length = false := by
  obtain ⟨hsize, want, hmem, hcovers, p, heq⟩ := h.deliveries d hd
  have hwithin := within_of_mem hmem hcovers
  obtain ⟨old, hold, q, rfl⟩ :=
    ((Descends.seen s env room cid sender).trans (.enforceByteLimits _ env look cid sender room
      size)) cid want hmem
  refine ⟨old, hold, ?_, ?_⟩
  · rw [heq]
  · rw [hsize]
    exact hwithin

/-- A waiter over its limit is told the size, and whoever stays is another one. -/
theorem exceeded (h : Enforced (s.seen env room cid sender) env look cid sender room size e)
    (hdistinct : s.Distinct) {want : PendingWant} {limit : Nat} {report : Channel}
    (hmem : want ∈ s.wants cid) (hlimit : want.byteLimit = some (limit, report))
    (hcovers : want.covers sender room = true) (hopen : env.closed 0 want.tx = false)
    (hover : limit < size) :
    (report, size) ∈ e.oversized ∧ ∀ cid', ∀ want' ∈ e.state.wants cid', want'.tx ≠ want.tx := by
  constructor
  · -- Counted as asked, the waiter meets the limits.
    have hpruned := mem_wants_prune.mpr ⟨hmem, hopen⟩
    have hseen : { want with progress :=
        { want.progress with received := want.progress.received + 1 } } ∈
          (s.seen env room cid sender).wants cid := by
      rw [WantState.seen, WantState.observe, wants_modify _ _ _ _ rfl, if_pos rfl]
      refine List.mem_map.mpr ⟨want, hpruned, ?_⟩
      rw [if_pos hcovers]
      rfl
    rw [h.oversized]
    exact reported hseen hcovers hlimit hover
  · intro cid' want' hmem' htx
    obtain ⟨mid, hmid, p, rfl⟩ := h.state cid' want' hmem'
    obtain ⟨old, hold, q, rfl⟩ :=
      ((Descends.seen s env room cid sender).trans (.enforceByteLimits _ env look cid sender room
        size)) cid' mid hmid
    obtain ⟨rfl, rfl⟩ := hdistinct.unique hold hmem htx
    have hwithin := within_of_mem hmid hcovers
    have hexceeds : old.overLimit size = true := by
      rw [PendingWant.overLimit, hlimit]
      exact decide_eq_true hover
    exact Bool.false_ne_true (hwithin.symm.trans hexceeds)

end Enforced

end

/-! ## A response -/

/-- What a peer sends for a content id: the block, or one chunk of it. -/
inductive Response where
  | block (data : Bytes)
  | chunk (chunkIndex chunkTotal : Nat) (data : Bytes)
deriving DecidableEq, Repr

namespace Response

def op (r : Response) (room : Room) (cid : Cid) (sender : NodeId) : WantOp :=
  match r with
  | block data => .fulfill room cid sender data
  | chunk i total data => .fulfillChunk room cid sender i total data

/-- The size that the limits of the waiters are held against. -/
def size (r : Response) (s : WantState) (key : AssemblyKey) : Nat :=
  match r with
  | block data => data.length
  | chunk _ _ data => s.assembledBytes key + data.length

/-- Whether the limits of the waiters are looked at. -/
def Reaches (r : Response) (s : WantState) (key : AssemblyKey) : Prop :=
  match r with
  | block _ => True
  | chunk i total _ => s.Fits key i total

/-- A chunk finds no room, and would find some without the assemblies that
only the waiter of `tx` keeps. -/
def Squeezed (r : Response) (s : WantState) (env : Surroundings) (room : Room) (cid : Cid)
    (sender : NodeId) (tx : Channel) : Prop :=
  match r with
  | block _ => False
  | chunk i total data =>
    s.Fits (cid, sender, room) i total ∧
      s.assembledBytes (cid, sender, room) + data.length ≤ MAX_WANT_BLOCK_BYTES ∧
      ((s.seen env room cid sender).within env room cid sender data).Crowded (cid, sender, room)
        data.length ∧
      ¬ (((s.without tx).seen env room cid sender).within env room cid sender data).Crowded
        (cid, sender, room) data.length

end Response

/-- A waiter on the path, other than that of `tx`, that is there during the whole operation. -/
structure Bystander (s : WantState) (env : Surroundings) (room : Room) (cid : Cid)
    (sender : NodeId) (tx : Channel) (want : PendingWant) : Prop where
  mem : want ∈ s.wants cid
  other : want.tx ≠ tx
  covers : want.covers sender room = true
  stays : ∀ look, env.closed look want.tx = false

/-- No other receiver is dropped in the middle of the operation. -/
def WantState.Settled (s : WantState) (env : Surroundings) (tx : Channel) : Prop :=
  ∀ cid, ∀ want ∈ s.wants cid, want.tx ≠ tx →
    ∀ look, env.closed look want.tx = env.closed 0 want.tx

/-- The other waiters, the assemblies they cover and what they are handed are
the same with and without the waiter of `tx`. -/
structure Undisturbed (tx : Channel) (full bare : Effect) : Prop where
  wants : ∀ cid, bare.state.wants cid = (full.state.wants cid).filter fun want => want.tx ≠ tx
  assemblies : ∀ key, bare.state.assemblies.get key =
    (full.state.assemblies.get key).filter fun _ => (full.state.wants key.1).any fun want =>
      want.tx ≠ tx && want.covers key.2.1 key.2.2
  deliveries : bare.deliveries = full.deliveries.filter fun d => d.want.tx ≠ tx

section

variable {s : WantState} {env : Surroundings} {cid : Cid} {sender : NodeId} {room : Room}
  {tx : Channel}

/-- Effects that differ in one waiter leave the others undisturbed. -/
theorem TwinEffects.undisturbed {full bare : Effect} (h : TwinEffects tx full bare)
    {live : Channel → Prop} (hattended : bare.state.Attended live) :
    Undisturbed tx full bare where
  wants := h.state.wants
  deliveries := h.deliveries
  assemblies key := by
    by_cases hcovered : bare.state.Covered key.1 key.2.1 key.2.2
    · have hany : ((full.state.wants key.1).any fun want =>
          want.tx ≠ tx && want.covers key.2.1 key.2.2) = true := by
        obtain ⟨want, hmem, hcovers⟩ := hcovered
        obtain ⟨hin, hother⟩ := h.state.mem_wants.mp hmem
        refine List.any_eq_true.mpr ⟨want, hin, ?_⟩
        rw [hcovers, Bool.and_true]
        exact decide_eq_true hother
      have hsame := h.state.assemblies hcovered
      rw [hsame]
      cases full.state.assemblies.get key with
      | none => rfl
      | some a => rw [Option.filter_some, if_pos hany]
    · have hany : ((full.state.wants key.1).any fun want =>
          want.tx ≠ tx && want.covers key.2.1 key.2.2) = false := by
        rw [List.any_eq_false]
        intro want hin hpass
        obtain ⟨hother, hcovers⟩ := (Bool.and_eq_true _ _).mp hpass
        exact hcovered ⟨want, h.state.mem_wants.mpr ⟨hin, of_decide_eq_true hother⟩, hcovers⟩
      have hgone : bare.state.assemblies.get key = none := by
        by_contra hthere
        obtain ⟨a, hget⟩ := Option.ne_none_iff_exists'.mp hthere
        obtain ⟨want, hmem, hcovers, -⟩ := hattended key a hget
        exact hcovered ⟨want, hmem, hcovers⟩
      rw [hgone]
      cases full.state.assemblies.get key with
      | none => rfl
      | some a => rw [Option.filter_some, hany, if_neg Bool.false_ne_true]

theorem Response.attended (r : Response) (room : Room) (cid : Cid) (sender : NodeId)
    (env : Surroundings) (s : WantState) :
    ∃ live, ((r.op room cid sender).apply env s).state.Attended live := by
  cases r with
  | block data =>
    rcases s.attended_fulfillDataIn env room cid sender data with ⟨-, h⟩ | ⟨-, h⟩
    · exact ⟨_, h⟩
    · exact ⟨_, h⟩
  | chunk i total data =>
    rcases s.attended_fulfillChunkDataIn env room cid sender i total data with
      ⟨-, h⟩ | ⟨-, h⟩ | ⟨-, h⟩
    · exact ⟨_, h⟩
    · exact ⟨_, h⟩
    · exact ⟨_, h⟩

theorem overLimit_zero (want : PendingWant) : want.overLimit 0 = false := by
  rw [PendingWant.overLimit]
  split
  · exact decide_eq_false (Nat.not_lt_zero _)
  · rfl

variable {other : PendingWant}

theorem Bystander.awaits (h : Bystander s env room cid sender tx other) {size : Nat}
    (hwithin : other.overLimit size = false) :
    ((s.without tx).seen env room cid sender).Awaits cid sender room size other.tx := by
  have hbare : other ∈ (s.without tx).wants cid :=
    (Twin.without s tx).mem_wants.mpr ⟨h.mem, h.other⟩
  have hawaits : (s.without tx).Awaits cid sender room size other.tx :=
    ⟨other, hbare, rfl, h.covers, hwithin⟩
  exact (hawaits.prune (h.stays 0)).observe false env.now

theorem Bystander.covered (h : Bystander s env room cid sender tx other) :
    (s.seen env room cid sender).Covered cid sender room :=
  ((Twin.without s tx).seen env room cid sender).covered
    (Covered.of_accepts ((h.awaits (overLimit_zero other)).accepts (fun _ => false) rfl))

theorem mem_wants_seen_without {want' : PendingWant} {cid' : Cid}
    (hmem : want' ∈ ((s.without tx).seen env room cid sender).wants cid') :
    ∃ want ∈ s.wants cid', want.tx ≠ tx ∧ env.closed 0 want.tx = false ∧
      ∃ p, want' = { want with progress := p } := by
  obtain ⟨mid, hmid, p, rfl⟩ := Descends.observe ((s.without tx).prune env 0) cid sender room false
    env.now cid' want' hmem
  obtain ⟨hin, hopen⟩ := mem_wants_prune.mp hmid
  obtain ⟨hold, hother⟩ := (Twin.without s tx).mem_wants.mp hin
  exact ⟨mid, hold, hother, hopen, p, rfl⟩

theorem Response.undisturbed_of_taken (r : Response) (h : Bystander s env room cid sender tx other)
    (htakes : other.overLimit (r.size s (cid, sender, room)) = false)
    (hroom : ¬ r.Squeezed s env room cid sender tx) :
    TwinEffects tx ((r.op room cid sender).apply env s)
      ((r.op room cid sender).apply env (s.without tx)) := by
  have htwin := Twin.without s tx
  have hawaits := h.awaits htakes
  cases r with
  | block data => exact htwin.fulfillDataIn h.stays hawaits
  | chunk i total data =>
    refine htwin.fulfillChunkDataIn (h.stays 1) hawaits fun hfits => ?_
    have hbytes := assembledBytes_seen h.covered
    refine (htwin.seen env room cid sender).limitChunk h.stays ?_ (fun hblock hcrowded => ?_) i total
    · rw [hbytes]
      exact hawaits
    · rw [hbytes] at hblock
      by_contra hspare
      exact hroom ⟨hfits, hblock, hcrowded, hspare⟩

theorem Response.undisturbed_of_refused (r : Response) (h : Bystander s env room cid sender tx other)
    (hover : ∀ want, Bystander s env room cid sender tx want →
      want.overLimit (r.size s (cid, sender, room)) = true)
    (hsettled : s.Settled env tx) :
    TwinEffects tx ((r.op room cid sender).apply env s)
      ((r.op room cid sender).apply env (s.without tx)) := by
  have htwin := Twin.without s tx
  have hopen : ∀ cid', ∀ want' ∈ ((s.without tx).seen env room cid sender).wants cid', ∀ look,
      env.closed look want'.tx = false := by
    intro cid' want' hmem look
    obtain ⟨want, hin, hother, hlive, p, rfl⟩ := mem_wants_seen_without hmem
    exact (hsettled cid' want hin hother look).trans hlive
  have hover' : ∀ want' ∈ ((s.without tx).seen env room cid sender).wants cid,
      want'.covers sender room = true →
        want'.overLimit (r.size s (cid, sender, room)) = true := by
    intro want' hmem hcovers
    obtain ⟨want, hin, hother, hlive, p, rfl⟩ := mem_wants_seen_without hmem
    exact hover want ⟨hin, hother, hcovers,
      fun look => (hsettled cid want hin hother look).trans hlive⟩
  have hawaits := h.awaits (overLimit_zero other)
  cases r with
  | block data => exact htwin.fulfillDataIn_alone hover' hopen
  | chunk i total data =>
    refine htwin.fulfillChunkDataIn (h.stays 1) hawaits fun hfits => ?_
    refine (htwin.seen env room cid sender).limitChunk_alone
      (Covered.of_accepts (hawaits.accepts (fun _ => false) rfl)) ?_ hopen i total
    rw [assembledBytes_seen h.covered]
    exact hover'

end

/-! ## Every state -/

/-- What every run keeps: the bounds of the registry, a waiter for every
assembly, and a channel of its own for every waiter. -/
structure WantState.Sound (s : WantState) : Prop where
  bounded : s.Bounded
  attended : s.Attended fun _ => True
  distinct : s.Distinct

theorem WantRun.sound {ms : List Moment} {s : WantState} (run : WantRun ms s) : s.Sound :=
  ⟨run.bounded.1, run.bounded.2, run.distinct⟩

theorem WantState.Sound.entryOf {s : WantState} (h : s.Sound) (key : AssemblyKey) (total : Nat) :
    (s.entryOf key total).WellFormed := by
  rw [WantState.entryOf]
  cases hget : s.assemblies.get key with
  | none => exact ChunkAssembly.new_wellFormed total
  | some a => exact (h.bounded.unfinished hget).toWellFormed

/-- In every state that traffic can lead to, and for every response and all
that can go on around it: a waiter with a limit is never handed more than
that; a response that takes it over its limit takes it out, and it is told the
size that was seen; and where another waiter on the path is there meanwhile,
the other waiters, the assemblies these cover and what they are handed are the
same as without the waiter. The exceptions are a chunk that somebody takes and
for which only the assemblies this waiter keeps leave no room, and a response
that is over the limits of all the others on the path while the receiver of
yet another one is dropped. -/
theorem limited_apart {s : WantState} (h : s.Sound) {cid : Cid} {limited : PendingWant}
    (hmem : limited ∈ s.wants cid) {limit : Nat} {report : Channel}
    (hlimit : limited.byteLimit = some (limit, report)) (env : Surroundings) (room : Room)
    (sender : NodeId) (r : Response) :
    let full := (r.op room cid sender).apply env s
    let bare := (r.op room cid sender).apply env (s.without limited.tx)
    let size := r.size s (cid, sender, room)
    let bystander := Bystander s env room cid sender limited.tx
    (∀ d ∈ full.deliveries, d.want.tx = limited.tx → d.data.length ≤ limit) ∧
    (limited.covers sender room = true → (∀ look, env.closed look limited.tx = false) →
      r.Reaches s (cid, sender, room) → limit < size →
      (report, size) ∈ full.oversized ∧
        ∀ cid', ∀ want ∈ full.state.wants cid', want.tx ≠ limited.tx) ∧
    ((∃ other, bystander other) →
      ((∃ other, bystander other ∧ other.overLimit size = false) →
        ¬ r.Squeezed s env room cid sender limited.tx) →
      ((∀ other, bystander other → other.overLimit size = true) → s.Settled env limited.tx) →
      Undisturbed limited.tx full bare) := by
  intro full bare size bystander
  -- Where the limits are looked at, they are enforced for this size.
  have henforced : (∃ look, Enforced (s.seen env room cid sender) env look cid sender room size full) ∨
      full.deliveries = [] ∧ ¬ (limited.covers sender room = true ∧
        (∀ look, env.closed look limited.tx = false) ∧ r.Reaches s (cid, sender, room)) := by
    cases r with
    | block data => exact .inl ⟨1, s.fulfillDataIn_enforced env room cid sender data⟩
    | chunk i total data =>
      by_cases hpass : (s.seen env room cid sender).accepts (env.closed 1) cid sender room = true ∧
          (s.seen env room cid sender).Fits (cid, sender, room) i total
      · have hcovered := Covered.of_accepts hpass.1
        have hentry : (s.seen env room cid sender).entryOf (cid, sender, room) total =
            s.entryOf (cid, sender, room) total := by
          rw [entryOf, entryOf, get_seen hcovered]
        have hlimits := limitChunk_enforced (hentry ▸ h.entryOf (cid, sender, room) total) hpass.2 env
          data
        rw [assembledBytes_seen hcovered, ← fulfillChunkDataIn_fits hpass.1 hpass.2 data] at hlimits
        exact .inl ⟨2, hlimits⟩
      · refine .inr ⟨(fulfillChunkDataIn_unfit hpass data).2, ?_⟩
        rintro ⟨hcovers, hopen, hfits⟩
        have hawaits : s.Awaits cid sender room 0 limited.tx :=
          ⟨limited, hmem, rfl, hcovers, overLimit_zero limited⟩
        have haccepts := ((hawaits.prune (hopen 0)).observe false env.now).accepts (env.closed 1)
          (hopen 1)
        exact hpass ⟨haccepts, (fits_seen (Covered.of_accepts haccepts)).mpr hfits⟩
  refine ⟨fun d hd htx => ?_, fun hcovers hopen hreaches hover => ?_, fun hother hroom hsettled => ?_⟩
  · rcases henforced with ⟨look, henforced⟩ | ⟨hnobody, -⟩
    · obtain ⟨want, hin, htx', hwithin⟩ := henforced.within hd
      obtain ⟨-, rfl⟩ := h.distinct.unique hin hmem (htx'.trans htx)
      rw [PendingWant.overLimit, hlimit] at hwithin
      exact Nat.le_of_not_lt (of_decide_eq_false hwithin)
    · rw [hnobody] at hd
      cases hd
  · rcases henforced with ⟨look, henforced⟩ | ⟨-, hout⟩
    · exact henforced.exceeded h.distinct hmem hlimit hcovers (hopen 0) hover
    · exact absurd ⟨hcovers, hopen, hreaches⟩ hout
  · obtain ⟨live, hattended⟩ := r.attended room cid sender env (s.without limited.tx)
    apply TwinEffects.undisturbed _ hattended
    by_cases htakes : ∃ other, bystander other ∧ other.overLimit size = false
    · obtain ⟨other, hby, hwithin⟩ := htakes
      exact r.undisturbed_of_taken hby hwithin (hroom ⟨other, hby, hwithin⟩)
    · have hover : ∀ other, bystander other → other.overLimit size = true := by
        intro other hby
        by_contra hwithin
        exact htakes ⟨other, hby, Bool.eq_false_iff.mpr hwithin⟩
      obtain ⟨other, hby⟩ := hother
      exact r.undisturbed_of_refused hby hover (hsettled hover)

/-! ### Two waiters on one path, one of them with a limit -/

namespace Sharing

open Waiting

/-- Any operations leave the registry sound. -/
theorem sound (ops : List WantOp) : (after ops).Sound := by
  have hrun : ∀ s ms, WantRun ms s → (ops.foldl (fun s op => (op.apply env s).state) s).Sound := by
    induction ops with
    | nil => exact fun s ms run => run.sound
    | cons op rest ih => exact fun s ms run => ih _ _ (run.step op env)
  exact hrun _ _ .nil

def peers : List NodeId :=
  [⟨"1"⟩, ⟨"2"⟩, ⟨"3"⟩, ⟨"4"⟩, ⟨"5"⟩, ⟨"6"⟩, ⟨"7"⟩, ⟨"8"⟩]

/-- One waiter asks everybody and takes `maxBytes`, the other asks one peer for any size. -/
def sharing (maxBytes : Nat) : List WantOp :=
  [.registerForPeers "ba" (bob :: peers) false, .trackPath 1 "room", .setByteLimit 1 maxBytes,
    .registerForPeers "ba" [bob] false, .trackPath 2 "room"]

def limited (maxBytes : Nat) : PendingWant where
  id := 1
  paths := ["room"]
  resets := 0
  progress := ⟨0, 0, none⟩
  peers := peers ++ [bob]
  tx := 0
  byteLimit := some (maxBytes, 1)

def unlimited : PendingWant where
  id := 2
  paths := ["room"]
  resets := 0
  progress := ⟨0, 0, none⟩
  peers := [bob]
  tx := 2
  byteLimit := none

/-- The step with both waiters, and without the limited one. -/
def full (s : WantState) (env : Surroundings) (r : Response) : Effect :=
  (r.op "room" "ba" bob).apply env s

def bare (s : WantState) (env : Surroundings) (r : Response) : Effect :=
  (r.op "room" "ba" bob).apply env (s.without 0)

/-- A chunk from another peer, which the limited waiter alone has asked. -/
def aside : WantState := after (sharing 3 ++ [.fulfillChunk "room" "ba" ⟨"1"⟩ 0 2 [1]])

/-- The other waiter has the lower limit, and a third one waits elsewhere. -/
def tighter : WantState :=
  after (sharing 10 ++ [.setByteLimit 2 5, .registerForPeers "ba" [⟨"1"⟩] false, .trackPath 3 "room"])

/-- The third receiver is dropped while the payload is handed on. -/
def dropping : Surroundings where
  closed look tx := decide (4 ≤ look ∧ tx = 4)
  observed _ := false
  now := 5

def big : Bytes := List.replicate MAX_WANT_BLOCK_BYTES 0

/-- One chunk of the largest size, with another one to come. -/
def half : ChunkAssembly where
  totalChunks := 2
  receivedChunks := 1
  bytes := MAX_WANT_BLOCK_BYTES
  chunks := [some big, none]

/-- Every other peer has sent the limited waiter that much. -/
def brimming : WantState :=
  { after (sharing MAX_WANT_BLOCK_BYTES) with
    assemblies := (peers.foldl (fun (t : Table AssemblyKey Unit) peer =>
      t.insert ("ba", peer, "room") ()) ∅).map fun _ => half }

theorem half_partial : half.Partial where
  slots := rfl
  received := rfl
  size := by
    have hlength : big.length = MAX_WANT_BLOCK_BYTES := List.length_replicate
    simp only [half, ChunkAssembly.full, List.flatMap_cons, List.flatMap_nil, Option.getD_some,
      Option.getD_none, List.append_nil, hlength]
  unfinished := by decide
  total := by decide
  block := le_rfl

theorem brimming_sound : brimming.Sound where
  bounded := by
    refine ⟨(sound (sharing MAX_WANT_BLOCK_BYTES)).bounded.pending, by decide +kernel,
      by decide +kernel, fun {key a} hget => ?_⟩
    simp only [brimming, Table.get_map, Option.map_eq_some_iff] at hget
    obtain ⟨-, -, rfl⟩ := hget
    exact half_partial
  attended := by
    intro key a hget
    have hcovered : ∀ key ∈ brimming.assemblies.keys, ∃ want ∈ brimming.wants key.1,
        want.covers key.2.1 key.2.2 = true := by decide +kernel
    obtain ⟨want, hmem, hcovers⟩ := hcovered key (Table.mem_keys_iff.mpr ⟨a, hget⟩)
    exact ⟨want, hmem, hcovers, trivial⟩
  distinct := by
    have hbase := (sound (sharing MAX_WANT_BLOCK_BYTES)).distinct
    exact { hbase with }

end Sharing

open Sharing Waiting in
/-- A chunk of four bytes is one too many for a waiter that takes three, and
the other one does not notice. -/
theorem limited_apart_three :
    (1, 4) ∈ (full (after (sharing 3)) env (.chunk 0 2 [1, 2, 3, 4])).oversized ∧
      Undisturbed 0 (full (after (sharing 3)) env (.chunk 0 2 [1, 2, 3, 4]))
        (bare (after (sharing 3)) env (.chunk 0 2 [1, 2, 3, 4])) := by
  obtain ⟨-, hremoved, hothers⟩ := limited_apart (sound (sharing 3))
    (by decide +kernel : limited 3 ∈ (after (sharing 3)).wants "ba") rfl env "room" bob
      (.chunk 0 2 [1, 2, 3, 4])
  have hfits : (after (sharing 3)).Fits ("ba", bob, "room") 0 2 :=
    ⟨by decide, by decide, by decide +kernel, by decide +kernel⟩
  have hby : Bystander (after (sharing 3)) env "room" "ba" bob 0 unlimited :=
    ⟨by decide +kernel, by decide, by decide, fun _ => rfl⟩
  refine ⟨(hremoved (by decide) (fun _ => rfl) hfits (by decide +kernel)).1, ?_⟩
  refine hothers ⟨unlimited, hby⟩ (fun _ => ?_) fun _ => ?_
  · rintro ⟨-, -, hcrowded, -⟩
    exact absurd hcrowded (by decide +kernel)
  · exact fun _ _ _ _ _ => rfl

open Sharing Waiting in
/-- Without the three provisos a step can come out otherwise for the others: an assembly that only
the limited waiter covers is there with it alone; a third waiter is missed earlier; and a chunk
for the other waiter is refused where it would be taken. -/
theorem limited_disturbs :
    (aside.Sound ∧ { limited 3 with progress := ⟨1, 1, some 5⟩ } ∈ aside.wants "ba" ∧
      Bystander aside env "room" "ba" bob 0 unlimited ∧
      (full aside env (.chunk 0 2 [7])).state.assemblies.get ("ba", ⟨"1"⟩, "room") ≠
        (bare aside env (.chunk 0 2 [7])).state.assemblies.get ("ba", ⟨"1"⟩, "room")) ∧
    (tighter.Sound ∧ limited 10 ∈ tighter.wants "ba" ∧
      Bystander tighter dropping "room" "ba" bob 0 { unlimited with byteLimit := some (5, 3) } ∧
      ((full tighter dropping (.block (List.replicate 7 0))).state.wants "ba").filter
          (fun want => want.tx ≠ 0) ≠
        (bare tighter dropping (.block (List.replicate 7 0))).state.wants "ba") ∧
    (brimming.Sound ∧ limited MAX_WANT_BLOCK_BYTES ∈ brimming.wants "ba" ∧
      Bystander brimming env "room" "ba" bob 0 unlimited ∧
      (full brimming env (.chunk 0 2 [7])).state.assemblies.get ("ba", bob, "room") ≠
        (bare brimming env (.chunk 0 2 [7])).state.assemblies.get ("ba", bob, "room")) := by
  refine ⟨⟨sound _, by decide +kernel, ⟨by decide +kernel, by decide, by decide, fun _ => rfl⟩,
      by decide +kernel⟩,
    ⟨sound _, by decide +kernel, ⟨by decide +kernel, by decide, by decide, fun look => ?_⟩,
      by decide +kernel⟩,
    ⟨brimming_sound, by decide +kernel, ⟨by decide +kernel, by decide, by decide, fun _ => rfl⟩,
      by decide +kernel⟩⟩
  exact decide_eq_false fun hclosed => absurd hclosed.2 (by decide)

end Mistlib.Storage
