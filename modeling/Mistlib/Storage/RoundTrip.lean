import Mistlib.Storage.EngineRun
import Mistlib.Storage.Formats
import Mistlib.Storage.Gathering

/-!
# Files come back as they were added

`add` cuts a file into chunks and writes them side by side; `get` reads them
back side by side and puts them together by index. Both collect their jobs in
the order in which these end, so what they return must not depend on it.
-/

namespace Mistlib.Storage

open Async

namespace Engine

/-! ### Cutting -/

theorem chunksOf_flatten {size : Nat} (hsize : 0 < size) (fuel : Nat) {data : Bytes}
    (hfuel : data.length ≤ fuel) : (chunksOf size fuel data).flatten = data := by
  induction fuel generalizing data with
  | zero =>
    obtain rfl := List.length_eq_zero_iff.mp (Nat.le_zero.mp hfuel)
    rfl
  | succ fuel ih =>
    cases data with
    | nil => rfl
    | cons byte rest =>
      have hdropped : ((byte :: rest).drop size).length ≤ fuel := by
        simp only [List.length_drop, List.length_cons] at hfuel ⊢
        omega
      rw [chunksOf, List.flatten_cons, ih hdropped, List.take_append_drop]
      simp

theorem chunks_flatten (data : Bytes) : (chunks data).flatten = data :=
  chunksOf_flatten (by decide) _ le_rfl

theorem chunksOf_append {size : Nat} (hpos : 0 < size) {block : Bytes} (hblock : block.length = size)
    (fuel : Nat) (rest : Bytes) :
    chunksOf size (fuel + 1) (block ++ rest) = block :: chunksOf size fuel rest := by
  cases block with
  | nil => exact absurd hblock.symm (Nat.ne_of_gt hpos)
  | cons byte bytes =>
    rw [List.cons_append, chunksOf, ← List.cons_append, ← hblock, List.take_left, List.drop_left]
    simp

/-! ### Writing -/

section Writing

variable {setting : Setting} {P : Possible engineSig} {jobs left : Multiset (AnyJob engineSig)}

variable (setting) in
def chunkCid (chunk : Bytes) : Cid := computeCid setting.sha256 chunk MULTICODEC_RAW

structure Writing (inFlight : Nat) (jobs : Multiset (AnyJob engineSig)) : Prop where
  card : jobs.card = inFlight
  writes : ∀ job ∈ jobs, ∃ cid chunk, job = ⟨Kind.written, Job.writeChunk cid chunk⟩

theorem Writing.ask {inFlight : Nat} (h : Writing inFlight jobs) (cid : Cid) (chunk : Bytes) :
    Writing (inFlight + 1) (⟨Kind.written, Job.writeChunk cid chunk⟩ ::ₘ jobs) where
  card := by rw [Multiset.card_cons, h.card]
  writes := by
    intro job hjob
    rcases Multiset.mem_cons.mp hjob with rfl | hjob
    · exact ⟨cid, chunk, rfl⟩
    · exact h.writes job hjob

/-- What the functions of `add` need of the backends. -/
structure Writable (setting : Setting) (P : Possible engineSig) : Prop where
  store : ∀ cid data a, P.call (.storeBlock cid data) a → a = .ok ()
  capacity : ∀ {jobs left : Multiset (AnyJob engineSig)} {r : Except MistError Unit},
    EngineEnds setting P jobs (enforceCapacityLimit setting) r left → r = .ok () ∧ left = jobs

theorem ends_writeChunk (hP : Writable setting P) {cid : Cid} {chunk : Bytes}
    {r : Except MistError (Cid × Nat)}
    (h : EngineEnds setting P jobs (writeChunk cid chunk) r left) : r = .ok (cid, chunk.length) := by
  have hrest := ends_bind_of (fun hx => (ends_storeBlock hx).imp_left (hP.store cid chunk _)) h
  cases hrest
  rfl

theorem Writing.next (hP : Writable setting P) {inFlight : Nat} (h : Writing (inFlight + 1) jobs)
    {position : Option Vector3} {α : Type} {k : Engine α} {none : Engine α}
    {r : Except MistError α}
    (hends : EngineEnds setting P jobs (do
      match ← next .written with
      | some written =>
        trackWritten position written
        enforceCapacityLimit setting
        k
      | .none => none) r left) :
    ∃ rest, Writing inFlight rest ∧ EngineEnds setting P rest k r left := by
  rcases hends.of_next_bind with ⟨job, x, own, rest, rfl, hjob, hrest⟩ | ⟨rfl, _⟩
  · obtain ⟨cid, chunk, hwrite⟩ := h.writes _ (Multiset.mem_cons_self _ _)
    obtain rfl := eq_of_heq (Sigma.mk.inj hwrite).2
    rw [ends_writeChunk hP hjob] at hrest
    obtain ⟨_, _, htracked⟩ := ends_perform_bind hrest
    refine ⟨rest, ⟨?_, fun j hj => h.writes j (Multiset.mem_cons_of_mem hj)⟩,
      ends_bind_of hP.capacity htracked⟩
    simpa using h.card
  · cases h.card

theorem ends_writeChunks (hP : Writable setting P) (position : Option Vector3) (rest : List Bytes)
    {inFlight : Nat} (hwriting : Writing inFlight jobs) (cids : List Cid)
    {r : Except MistError (Nat × List Cid)}
    (h : EngineEnds setting P jobs (writeChunks setting position rest inFlight cids) r left) :
    ∃ inFlight', r = .ok (inFlight', cids ++ rest.map (chunkCid setting)) ∧
      Writing inFlight' left := by
  induction rest generalizing inFlight cids jobs with
  | nil =>
    cases h
    exact ⟨inFlight, by simp, hwriting⟩
  | cons chunk rest ih =>
    have hasked := hwriting.ask (chunkCid setting chunk) chunk
    have hcids : cids ++ (chunk :: rest).map (chunkCid setting) =
        cids ++ [chunkCid setting chunk] ++ rest.map (chunkCid setting) := by simp
    rw [hcids]
    have hafter := h.of_spawn_bind
    split at hafter
    · obtain ⟨jobs', hwriting', hafter⟩ := hasked.next hP hafter
      exact ih hwriting' _ hafter
    · exact ih hasked _ hafter

theorem ends_drainWrites (hP : Writable setting P) (position : Option Vector3) (inFlight : Nat)
    (hwriting : Writing inFlight jobs) {r : Except MistError Unit}
    (h : EngineEnds setting P jobs (drainWrites setting position inFlight) r left) :
    r = .ok () ∧ left = 0 := by
  induction inFlight generalizing jobs with
  | zero =>
    cases h
    exact ⟨rfl, Multiset.card_eq_zero.mp hwriting.card⟩
  | succ inFlight ih =>
    obtain ⟨jobs', hwriting', hafter⟩ := hwriting.next hP h
    exact ih hwriting' hafter

variable (setting) in
def manifestOf (name : String) (data : Bytes) : FileManifest where
  name
  size := data.length
  chunks := (chunks data).map (chunkCid setting)

variable (setting) in
def rootOf (text : Bytes) : Cid := computeCid setting.sha256 text MULTICODEC_DAG_CBOR

variable (setting) in
/-- `add_at_inner` once the position is known. -/
def addPlaced (name : String) (data : Bytes) (position : Option Vector3) :
    Engine (Cid × List Cid) := do
  let (inFlight, chunkCids) ← writeChunks setting position (chunks data) 0 []
  drainWrites setting position inFlight
  let manifestBytes ← ofExcept
    (serialized (setting.manifests.toVec { name, size := data.length, chunks := chunkCids }))
  storeBlock (rootOf setting manifestBytes) manifestBytes
  perform (.trackBlock (rootOf setting manifestBytes) manifestBytes.length position)
  enforceCapacityLimit setting
  return (rootOf setting manifestBytes, chunkCids)

theorem addAtInner_some (name : String) (data : Bytes) (position : Vector3) :
    addAtInner setting name data (some position) = addPlaced setting name data (some position) :=
  rfl

theorem addAtInner_none (name : String) (data : Bytes) :
    addAtInner setting name data none = resolveAutoPosition setting >>= addPlaced setting name data :=
  rfl

section

variable (hP : Writable setting P) {name : String} {data text : Bytes}
  (htext : setting.manifests.toVec (manifestOf setting name data) = .ok text)
  (position : Option Vector3)
include hP htext position

theorem ends_addPlaced {r : Except MistError (Cid × List Cid)}
    (h : EngineEnds setting P 0 (addPlaced setting name data position) r left) :
    ∃ cids, r = .ok (rootOf setting text, cids) := by
  have hnone : Writing 0 (0 : Multiset (AnyJob engineSig)) := ⟨rfl, by simp⟩
  rcases h.of_bind with ⟨written, mid, hwritten, hdrain⟩ | ⟨e, _, hwritten⟩
  · obtain ⟨inFlight, hout, hwriting⟩ := ends_writeChunks hP position (chunks data) hnone [] hwritten
    cases hout
    rcases hdrain.of_bind with ⟨_, mid', hdrained, hafter⟩ | ⟨e, _, hdrained⟩
    · obtain ⟨_, rfl⟩ := ends_drainWrites hP position inFlight hwriting hdrained
      change EngineEnds setting P 0
        (ofExcept (serialized (setting.manifests.toVec (manifestOf setting name data))) >>= _) r left
        at hafter
      rw [htext] at hafter
      change EngineEnds setting P 0 (storeBlock (rootOf setting text) text >>= _) r left at hafter
      have hstored := ends_bind_of (fun hx => (ends_storeBlock hx).imp_left (hP.store _ _ _)) hafter
      obtain ⟨_, _, htracked⟩ := ends_perform_bind hstored
      have hchecked := ends_bind_of hP.capacity htracked
      cases hchecked
      exact ⟨_, rfl⟩
    · obtain ⟨hout, _⟩ := ends_drainWrites hP position inFlight hwriting hdrained
      cases hout
  · obtain ⟨inFlight, hout, _⟩ := ends_writeChunks hP position (chunks data) hnone [] hwritten
    cases hout

theorem ends_addAt {r : Except MistError Cid}
    (h : EngineEnds setting P 0 (addAt setting name data position) r left) :
    r = .ok (rootOf setting text) := by
  have hinner : ∀ {r left}, EngineEnds setting P 0 (addAtInner setting name data position) r left →
      ∃ cids, r = .ok (rootOf setting text, cids) := by
    intro r left hinner
    cases position with
    | some p =>
      rw [addAtInner_some] at hinner
      exact ends_addPlaced hP htext _ hinner
    | none =>
      rw [addAtInner_none] at hinner
      obtain ⟨place, _, hplaced⟩ := ends_bind_ok ends_autoPosition hinner
      exact ends_addPlaced hP htext place hplaced
  rcases h.of_bind with ⟨out, mid, hadded, hrest⟩ | ⟨e, _, hadded⟩
  · obtain ⟨cids, hout⟩ := hinner hadded
    cases hout
    cases hrest
    rfl
  · obtain ⟨cids, hout⟩ := hinner hadded
    cases hout

end

end Writing

/-! ### A file and its blocks -/

section File

variable {setting : Setting} {jobs left : Multiset (AnyJob engineSig)} {name : String}
  {data text : Bytes}

variable (setting) in
/-- The blocks of a file, each with its content id and its codec. -/
def fileBlocks (data text : Bytes) : List (Cid × Nat × Bytes) :=
  (rootOf setting text, MULTICODEC_DAG_CBOR, text) ::
    (chunks data).map fun chunk => (chunkCid setting chunk, MULTICODEC_RAW, chunk)

variable (setting) in
/-- No other block has the digest of one of the file's blocks. -/
def DigestsApart (data text : Bytes) : Prop :=
  ∀ block ∈ text :: chunks data, ∀ other, setting.sha256 other = setting.sha256 block → other = block

variable (setting) in
/-- Backends that work, a capacity that is never exceeded, and a resolver that has the blocks of
the file. -/
def fileBackends (data text : Bytes) : Possible engineSig where
  op
    | .overCapacity, exceeded => exceeded = false
    | _, _ => True
  call
    | .loadBlock cid, a => ∃ held, a = .ok held ∧ ∀ block ∈ held, Addresses setting.sha256 cid block
    | .resolveBlock cid, a => cid ∈ (fileBlocks setting data text).map Prod.fst →
        ∃ block, a = .ok (some block) ∧ Addresses setting.sha256 cid block
    | .storeBlock _ _, a | .deleteBlock _, a => a = .ok ()
    | _, _ => True

theorem fileBackends_writable : Writable setting (fileBackends setting data text) where
  store := fun _ _ _ ha => ha
  capacity := by
    intro jobs left r h
    refine ends_enforceCapacityLimit ?_ (fun _ _ ha => ha) h
    intro exceeded hroom r left hload
    obtain rfl : exceeded = false := hroom
    cases hload
    exact ⟨rfl, rfl⟩

theorem ends_fetchBlock (hapart : DigestsApart setting data text) {cid : Cid} {codec : Nat}
    {block : Bytes} (hblock : (cid, codec, block) ∈ fileBlocks setting data text)
    {r : Except MistError Bytes}
    (h : EngineEnds setting (fileBackends setting data text) jobs (resolveOrFetch setting cid codec)
      r left) : r = .ok block ∧ left = jobs := by
  have hcid : computeCid setting.sha256 block codec = cid := by
    rcases List.mem_cons.mp hblock with heq | hmem
    · cases heq
      rfl
    · obtain ⟨chunk, _, heq⟩ := List.mem_map.mp hmem
      cases heq
      rfl
  have hof : block ∈ text :: chunks data := by
    rcases List.mem_cons.mp hblock with heq | hmem
    · cases heq
      exact List.mem_cons_self
    · obtain ⟨chunk, hchunk, heq⟩ := List.mem_map.mp hmem
      cases heq
      exact List.mem_cons_of_mem _ hchunk
  have haddressed : Addresses setting.sha256 cid block := by
    rcases List.mem_cons.mp hblock with heq | hmem
    · cases heq
      exact .inr rfl
    · obtain ⟨chunk, _, heq⟩ := List.mem_map.mp hmem
      cases heq
      exact .inl rfl
  have hright : ∀ other, Addresses setting.sha256 cid other → other = block := fun other hother =>
    hapart block hof other (hother.digest haddressed)
  obtain ⟨rfl, hcases⟩ := ends_resolveOrFetch fileBackends_writable.capacity (fun _ _ ha => ha) h
  refine ⟨?_, rfl⟩
  rcases hcases with ⟨e, hload, _⟩ | ⟨other, hload, rfl⟩ | ⟨_, hcases⟩
  · obtain ⟨held, hheld, _⟩ := hload
    cases hheld
  · obtain ⟨held, hheld, hothers⟩ := hload
    cases hheld
    rw [hright other (hothers other rfl)]
  · have hlisted : cid ∈ (fileBlocks setting data text).map Prod.fst :=
      List.mem_map_of_mem (f := Prod.fst) hblock
    rcases hcases with ⟨e, hanswer, _⟩ | ⟨hanswer, _⟩ | ⟨other, hanswer, rfl⟩
    · obtain ⟨_, hanswer, _⟩ := hanswer hlisted
      cases hanswer
    · obtain ⟨_, hanswer, _⟩ := hanswer hlisted
      cases hanswer
    · obtain ⟨_, hanswer, hother⟩ := hanswer hlisted
      cases hanswer
      rw [hright other hother]
      simp [verifyCid, hcid]

theorem eq_of_forall₂ {R : Bytes → Bytes → Prop} {whole blocks : List Bytes}
    (h : List.Forall₂ R whole blocks) (heq : ∀ chunk ∈ whole, ∀ block, R chunk block → block = chunk) :
    blocks = whole := by
  induction h with
  | nil => rfl
  | cons hblock _ ih =>
    rw [heq _ List.mem_cons_self _ hblock, ih fun chunk hchunk => heq chunk (List.mem_cons_of_mem _ hchunk)]

/-- A read of the file ends with its bytes. -/
theorem ends_get (hapart : DigestsApart setting data text)
    (htext : setting.manifests.toVec (manifestOf setting name data) = .ok text)
    {r : Except MistError Bytes}
    (h : EngineEnds setting (fileBackends setting data text) 0 (get setting (rootOf setting text)) r
      left) : r = .ok data := by
  have hroot : (rootOf setting text, MULTICODEC_DAG_CBOR, text) ∈ fileBlocks setting data text :=
    List.mem_cons_self
  have hlisted : ∀ {chunk}, chunk ∈ chunks data →
      (chunkCid setting chunk, MULTICODEC_RAW, chunk) ∈ fileBlocks setting data text :=
    fun hchunk => List.mem_cons_of_mem _ (List.mem_map_of_mem hchunk)
  have hrest := ends_bind_of (ends_fetchBlock hapart hroot) h
  change EngineEnds setting _ 0 (ofExcept (serialized (setting.manifests.fromSlice text)) >>= _) r left
    at hrest
  rw [setting.manifests.roundTrip htext] at hrest
  obtain ⟨absent, _, hrest⟩ := ends_bind_ok (ends_missing (P := fileBackends setting data text)
    (fun _ _ ⟨held, ha, _⟩ => ⟨held, ha⟩) _) hrest
  obtain ⟨_, _, hrest⟩ := ends_call_bind hrest
  change EngineEnds setting _ 0 (gather setting (manifestOf setting name data)) r left at hrest
  rcases ends_gather hrest with
    ⟨e, _, cid, hcid, own, hfail⟩ | ⟨blocks, hblocks, rfl⟩
  · obtain ⟨chunk, hchunk, rfl⟩ := List.mem_map.mp hcid
    obtain ⟨heq, _⟩ := ends_fetchBlock hapart (hlisted hchunk) hfail
    cases heq
  · have heq : blocks = chunks data := by
      refine eq_of_forall₂ (List.forall₂_map_left_iff.mp hblocks) fun chunk hchunk block hanswer => ?_
      obtain ⟨own, hfetched⟩ := hanswer
      obtain ⟨heq, _⟩ := ends_fetchBlock hapart (hlisted hchunk) hfetched
      exact Except.ok.inj heq
    rw [heq, chunks_flatten]

end File

/-! ### Nothing waits for ever -/

section Completing

variable {setting : Setting} {data text : Bytes}

theorem fileBackends_answering : (fileBackends setting data text).Answering where
  op o := by
    cases o with
    | overCapacity => exact ⟨false, rfl⟩
    | victims _ | decayVictims _ | forget _ | snapshot => exact ⟨[], trivial⟩
    | registryLoaded | isPinned _ => exact ⟨true, trivial⟩
    | protect _ _ | republish => exact ⟨∅, trivial⟩
    | _ => exact ⟨(), trivial⟩
  call c := by
    cases c with
    | selfPositions => exact ⟨[], trivial⟩
    | loadBlock cid => exact ⟨.ok none, none, rfl, by simp⟩
    | storeBlock cid block | deleteBlock cid => exact ⟨.ok (), rfl⟩
    | resolveBlock cid =>
      by_cases hlisted : cid ∈ (fileBlocks setting data text).map Prod.fst
      · obtain ⟨⟨_, codec, block⟩, hblock, rfl⟩ := List.mem_map.mp hlisted
        refine ⟨.ok (some block), fun _ => ⟨block, rfl, ?_⟩⟩
        rcases List.mem_cons.mp hblock with heq | hmem
        · cases heq
          exact .inr rfl
        · obtain ⟨chunk, _, heq⟩ := List.mem_map.mp hmem
          cases heq
          exact .inl rfl
      · exact ⟨.ok none, fun hmem => absurd hmem hlisted⟩
    | prefetchProviders cids | lockIo => exact ⟨(), trivial⟩
    | metaGet => exact ⟨.ok none, trivial⟩
    | metaSet bytes => exact ⟨.ok (), trivial⟩

/-- The program starts jobs of this kind and waits for no others. -/
abbrev Starts {α : Type} (p : Engine α) (κ : Kind) : Prop := Prog.Uniform (S := engineSig) κ p

theorem plain_perform (o : Op) : (perform o).Plain := fun _ => trivial

theorem plain_call (c : Call) : (call c).Plain := fun _ => trivial

theorem plain_ofExcept {α : Type} (r : Except MistError α) : (ofExcept r).Plain :=
  Prog.Plain.ofExcept (S := engineSig) r

variable (cid : Cid) (cids : List Cid) (position : Option Vector3) (inFlight : Nat)

theorem plain_loadBlock : (loadBlock cid).Plain :=
  (plain_call _).bind plain_ofExcept

theorem plain_storeBlock (block : Bytes) : (storeBlock cid block).Plain :=
  (plain_call _).bind plain_ofExcept

theorem plain_positions : (resolvePositionsForEviction setting).Plain := by
  unfold resolvePositionsForEviction
  split
  · exact plain_call _
  · trivial

theorem plain_autoPosition : (resolveAutoPosition setting).Plain :=
  plain_positions.bind fun _ => trivial

theorem plain_loadPinRegistry : (loadPinRegistry setting).Plain := by
  refine (plain_perform _).bind fun loaded => ?_
  split
  · trivial
  · refine (plain_call _).bind fun answer => (plain_ofExcept answer).bind fun held => ?_
    cases held with
    | none => exact plain_perform _
    | some bytes => exact (plain_ofExcept _).bind fun _ => plain_perform _

theorem plain_ensurePinRegistryLoaded : (ensurePinRegistryLoaded setting).Plain := by
  refine (plain_perform _).bind fun loaded => ?_
  split
  · trivial
  · split
    · exact (plain_call _).bind fun _ => plain_loadPinRegistry.attempt.bind fun _ =>
        (plain_perform _).bind fun _ => plain_ofExcept _
    · trivial

theorem plain_evict : (evict cids).Plain := by
  induction cids with
  | nil => trivial
  | cons cid rest ih =>
    exact (plain_call _).bind fun _ => (plain_ofExcept _).bind fun _ =>
      (plain_perform _).bind fun _ => ih

theorem plain_enforceCapacityLimit : (enforceCapacityLimit setting).Plain := by
  refine plain_positions.bind fun positions => (plain_perform _).bind fun exceeded => ?_
  refine Prog.Plain.bind ?_ fun _ => (plain_perform _).bind plain_evict
  unfold loadIfOver
  split
  · exact plain_ensurePinRegistryLoaded
  · trivial

theorem plain_resolveOrFetch (codec : Nat) : (resolveOrFetch setting cid codec).Plain := by
  refine (plain_loadBlock cid).bind fun held => ?_
  cases held with
  | some block => exact (plain_perform _).bind fun _ => trivial
  | none =>
    refine (plain_call _).bind fun answer => (plain_ofExcept answer).bind fun found => ?_
    cases found with
    | none => trivial
    | some block =>
      simp only
      split
      · exact plain_autoPosition.bind fun _ => (plain_perform _).bind fun _ =>
          plain_enforceCapacityLimit.bind fun _ => (plain_storeBlock _ _).bind fun _ => trivial
      · trivial

theorem plain_missing : (missing cids).Plain := by
  induction cids with
  | nil => trivial
  | cons cid rest ih => exact (plain_loadBlock cid).bind fun _ => ih.bind fun _ => trivial

theorem starts_fetchChunks (concurrency : Nat) (cids : List Cid) (index inFlight : Nat)
    (a : Reassembly) : (fetchChunks concurrency cids index inFlight a).Starts .fetched := by
  induction cids generalizing index inFlight a with
  | nil => trivial
  | cons cid rest ih =>
    refine Prog.Uniform.bind ⟨rfl, trivial⟩ fun _ => ?_
    split
    · refine Prog.Uniform.bind ⟨rfl, fun _ => trivial⟩ fun got => ?_
      cases got with
      | none => exact ih _ _ _
      | some fetched => exact (plain_ofExcept _).uniform.bind fun _ => ih _ _ _
    · exact ih _ _ _

theorem starts_drainFetches (a : Reassembly) : (drainFetches inFlight a).Starts .fetched := by
  induction inFlight generalizing a with
  | zero => trivial
  | succ inFlight ih =>
    refine Prog.Uniform.bind ⟨rfl, fun _ => trivial⟩ fun got => ?_
    cases got with
    | none => trivial
    | some fetched => exact (plain_ofExcept _).uniform.bind fun _ => ih _

theorem starts_get (root : Cid) : (get setting root).Starts .fetched := by
  refine (plain_resolveOrFetch _ _).uniform.bind fun bytes => ?_
  refine (plain_ofExcept _).uniform.bind fun manifest => ?_
  refine (plain_missing _).uniform.bind fun absent => ?_
  refine (plain_call _).uniform.bind fun _ => (plain_perform _).uniform.bind fun _ => ?_
  exact (starts_fetchChunks _ _ _ _ _).bind fun _ => (starts_drainFetches _ _).bind fun _ => trivial

theorem starts_trackWritten (written : Except MistError (Cid × Nat)) {α : Type} {k : Engine α}
    (hk : k.Starts .written) :
    (do trackWritten position written; enforceCapacityLimit setting; k).Starts .written := by
  refine Prog.Uniform.bind ?_ fun _ => plain_enforceCapacityLimit.uniform.bind fun _ => hk
  exact (plain_ofExcept written).uniform.bind fun _ => (plain_perform _).uniform

theorem starts_writeChunks (rest : List Bytes) (inFlight : Nat) (cids : List Cid) :
    (writeChunks setting position rest inFlight cids).Starts .written := by
  induction rest generalizing inFlight cids with
  | nil => trivial
  | cons chunk rest ih =>
    refine Prog.Uniform.bind ⟨rfl, trivial⟩ fun _ => ?_
    split
    · refine Prog.Uniform.bind ⟨rfl, fun _ => trivial⟩ fun got => ?_
      cases got with
      | none => exact plain_enforceCapacityLimit.uniform.bind fun _ => ih _ _
      | some written => exact starts_trackWritten position written (ih _ _)
    · exact ih _ _

theorem starts_drainWrites : (drainWrites setting position inFlight).Starts .written := by
  induction inFlight with
  | zero => trivial
  | succ inFlight ih =>
    refine Prog.Uniform.bind ⟨rfl, fun _ => trivial⟩ fun got => ?_
    cases got with
    | none => trivial
    | some written => exact starts_trackWritten position written ih

theorem starts_addPlaced (name : String) (data : Bytes) (position : Option Vector3) :
    (addPlaced setting name data position).Starts .written := by
  refine (starts_writeChunks _ _ _ _).bind fun _ => (starts_drainWrites _ _).bind fun _ => ?_
  refine (plain_ofExcept _).uniform.bind fun _ => (plain_storeBlock _ _).uniform.bind fun _ => ?_
  exact (plain_perform _).uniform.bind fun _ => plain_enforceCapacityLimit.uniform.bind fun _ => trivial

theorem starts_addAt (name : String) (data : Bytes) (position : Option Vector3) :
    (addAt setting name data position).Starts .written := by
  refine Prog.Uniform.bind ?_ fun _ => trivial
  cases position with
  | some p => exact starts_addPlaced name data (some p)
  | none => exact plain_autoPosition.uniform.bind fun _ => starts_addPlaced name data _

theorem plain_fetched (job : Job .fetched) : ((engine setting).code job).Plain := by
  cases job with
  | fetchChunk index cid => exact (plain_resolveOrFetch _ _).bind fun _ => trivial

theorem plain_written (job : Job .written) : ((engine setting).code job).Plain := by
  cases job with
  | writeChunk cid chunk => exact (plain_storeBlock _ _).bind fun _ => trivial

end Completing

end Engine

/-! ### Whole runs -/

open Engine

section Runs

variable {setting : Setting} {data text : Bytes}

/-- Loads, writes and deletions succeed, the capacity is never exceeded, and
the resolver has the blocks of the file. What other calls get is left open. -/
def Serving (setting : Setting) (data text : Bytes) (_ : EngineView) : EngineEvent → Prop
  | .did _ .overCapacity exceeded => exceeded = false
  | .answered _ (.loadBlock _) a | .answered _ (.storeBlock _ _) a
  | .answered _ (.deleteBlock _) a => a.isOk = true
  | .answered _ (.resolveBlock cid) a => cid ∈ (fileBlocks setting data text).map Prod.fst →
      ∃ block, a = .ok (some block) ∧ Addresses setting.sha256 cid block
  | _ => True

theorem ok_of_isOk {a : Except MistError Unit} (h : a.isOk = true) : a = .ok () := by
  cases a with
  | ok u => rfl
  | error e => cases h

/-- An event that serves the file is one its backends allow. -/
theorem allows_of_serving {v v' : EngineView} {event : EngineEvent}
    (hmove : EngineMoves setting (Addresses setting.sha256) v event v')
    (h : Serving setting data text v event) : (fileBackends setting data text).Allows event := by
  cases hmove with
  | @op t n o ω _ _ _ _ =>
    cases o with
    | overCapacity => exact h
    | _ => trivial
  | @answer t n c ω a s' _ _ hgood _ hanswer =>
    cases c with
    | loadBlock cid =>
      cases hanswer
      simp only [Serving] at h
      split at h
      · next hsucceeds => exact ⟨_, if_pos hsucceeds, fun block hblock => hgood cid block hblock⟩
      · cases h
    | storeBlock cid block | deleteBlock cid => exact ok_of_isOk h
    | resolveBlock cid => exact h
    | _ => trivial
  | _ => trivial

/-- A file comes back as it was added. In every run over working backends, with
whatever else goes on, every `add` of the file that returns has returned its
root, and every `get` of that root has returned the file; and from wherever
the two have come, they can be brought to an end. -/
theorem file_roundTrip {name : String}
    (htext : setting.manifests.toVec (manifestOf setting name data) = .ok text)
    (hapart : DigestsApart setting data text) {w : World}
    (hstore : ∀ cid block, w.store.get cid = some block → Addresses setting.sha256 cid block)
    {pool : EnginePool} (hreach : EngineReach setting (Serving setting data text) w pool) :
    (∀ {choice t position r dropped pool'},
      pool.step (engine setting) observer choice =
        some (.finished t (.addAt name data position) r dropped, pool') →
      r = .ok (rootOf setting text)) ∧
    (∀ {choice t r dropped pool'},
      pool.step (engine setting) observer choice =
        some (.finished t (.get (rootOf setting text)) r dropped, pool') →
      r = .ok data) ∧
    (∀ position jobs p, Onward (engine setting) (fileBackends setting data text) 0
      (addAt setting name data position) jobs p →
      ∃ r left, EngineEnds setting (fileBackends setting data text) jobs p r left) ∧
    (∀ jobs p, Onward (engine setting) (fileBackends setting data text) 0
      (Engine.get setting (rootOf setting text)) jobs p →
      ∃ r left, EngineEnds setting (fileBackends setting data text) jobs p r left) := by
  have hcovers : Covers setting (Addresses setting.sha256) := fun _ _ h => h
  have hending := Pool.Reach.ending (engine_sound hcovers) allows_of_serving hreach
    (Pool.Kept.init hstore _) .empty
  refine ⟨?_, ?_, ?_, ?_⟩
  · intro choice t position r dropped pool' hstep
    obtain ⟨left, hends⟩ := Pool.finished_ends hending hstep
    exact ends_addAt fileBackends_writable htext position hends
  · intro choice t r dropped pool' hstep
    obtain ⟨left, hends⟩ := Pool.finished_ends hending hstep
    exact ends_get hapart htext hends
  · intro position jobs p honward
    exact honward.ends fileBackends_answering plain_written (starts_addAt name data position) (by simp)
  · intro jobs p honward
    exact honward.ends fileBackends_answering plain_fetched (starts_get _) (by simp)

namespace Sample

/-- A chunk of full size, and its content id. -/
@[irreducible] def fullChunk : Bytes := List.replicate CHUNK_SIZE 9

def fullCid : Cid := "bafkreib32o254jve72t27irdd6ncgdp2eus7rojtvulyz3pbo6zn6kqgzq"

/-- A file that has the full chunk twice and then the byte 7, its manifest, and its root. -/
def longData : Bytes := fullChunk ++ (fullChunk ++ [7])

def longFile : FileManifest :=
  { name := "f", size := 2 * CHUNK_SIZE + 1, chunks := [fullCid, fullCid, chunk] }

def longRoot : Cid := "bafyreifvjnroryf2aocpzicf4cjauskr2734uiicvtxtgl7juhyxvukkgq"

def longText : Bytes :=
  [0xa3, 0x64] ++ ascii "name" ++ [0x61] ++ ascii "f" ++ [0x64] ++ ascii "size" ++
    [0x1a, 0x00, 0x20, 0x00, 0x01, 0x66] ++ ascii "chunks" ++ [0x83, 0x78, 0x3b] ++ ascii fullCid ++
    [0x78, 0x3b] ++ ascii fullCid ++ [0x78, 0x3b] ++ ascii chunk

def fullDigest : Bytes :=
  [0x3b, 0xd3, 0xb5, 0xde, 0x26, 0xa4, 0xfe, 0xa7, 0xaf, 0xa2, 0x23, 0x1f, 0x9a, 0x23, 0x0d, 0xfa,
    0x25, 0x25, 0xf8, 0xb9, 0x33, 0xad, 0x17, 0x8c, 0xed, 0xe1, 0x77, 0xb2, 0xdf, 0x2a, 0x06, 0xcc]

def longDigests : List (Bytes × Bytes) := digests.take 1 ++ [
  (longText,
    [0xb5, 0x4b, 0x62, 0xe8, 0xe0, 0xba, 0x03, 0x84, 0xfc, 0xa0, 0x45, 0xe0, 0x92, 0x0a, 0x49, 0x51,
      0xd7, 0xf7, 0xca, 0x21, 0x02, 0xac, 0xef, 0x33, 0x2f, 0xe9, 0xa1, 0xf1, 0x7a, 0xd1, 0x4a, 0x34]),
  (fullChunk, fullDigest)]

def longSetting : Setting where
  sha256 := digestOf longDigests
  manifests := .ofTexts [(longFile, longText)] (by decide +kernel)
  registries := (Sample.setting false).registries
  getConcurrency := 4
  metaStore := false
  positionSource := false

theorem fullCid_eq : computeCid longSetting.sha256 fullChunk MULTICODEC_RAW = fullCid := by
  have hbyte : (fullChunk == [7]) = false := by decide +kernel
  have htext : (fullChunk == longText) = false := by decide +kernel
  have hlookup : longDigests.lookup fullChunk = some fullDigest := by
    show List.lookup fullChunk (_ :: _ :: _ :: _) = _
    rw [List.lookup_cons, hbyte, List.lookup_cons, htext, List.lookup_cons_self]
  have hdigest : longSetting.sha256 fullChunk = fullDigest := digestOf_known hlookup
  rw [computeCid, hdigest]
  decide +kernel

theorem length_fullChunk : fullChunk.length = CHUNK_SIZE := by
  unfold fullChunk
  exact List.length_replicate

theorem length_longData : longData.length = 2 * CHUNK_SIZE + 1 := by
  rw [longData, List.length_append, List.length_append, length_fullChunk]
  rfl

theorem chunks_longData : chunks longData = [fullChunk, fullChunk, [7]] := by
  have hpos : 0 < CHUNK_SIZE := by decide
  have hfuel : 2 * CHUNK_SIZE + 1 = 2 * CHUNK_SIZE - 2 + 1 + 1 + 1 := by decide
  unfold chunks
  rw [length_longData, hfuel, longData, chunksOf_append hpos length_fullChunk,
    chunksOf_append hpos length_fullChunk]
  have hlast : ([7] : Bytes).take CHUNK_SIZE = [7] := List.take_of_length_le (by decide)
  have hnone : ([7] : Bytes).drop CHUNK_SIZE = [] := List.drop_of_length_le (by decide)
  rw [chunksOf, hlast, hnone]
  · cases 2 * CHUNK_SIZE - 2 <;> rfl
  · simp

theorem chunk_eq : computeCid longSetting.sha256 [7] MULTICODEC_RAW = chunk := by decide +kernel

/-- The resolver finds the byte 7. -/
def finding : Circumstance := { working with resolved := some [7] }

/-- A `get` of the file: the last chunk comes from the resolver, and the chunks are collected from
the last to the first. -/
def longGet : List (Choice engineSig Circumstance) :=
  [.start 0 (.get longRoot)] ++ run 0 1 1 ++ serve 0 2 1 ++ serve 0 1 1 ++ serve 0 1 1 ++ serve 0 1 1 ++
    serve 0 2 1 ++ [.move working 2, .move working 3, .move working 4] ++
    run 3 1 4 ++ serve 3 1 4 ++ [.effect 3 finding] ++ run 3 4 4 ++ serve 3 1 4 ++
    run 2 1 4 ++ serve 2 2 4 ++ run 1 1 4 ++ serve 1 2 4 ++
    [.wake 0 (some 3)] ++ run 0 1 4 ++ [.wake 0 (some 2)] ++ run 0 1 4 ++ [.wake 0 (some 1)] ++ run 0 1 4

/-- The store has the manifest of the file and the full chunk. -/
def longWorld : World :=
  .new 1000 (((∅ : Table Cid Bytes).insert longRoot longText).insert fullCid fullChunk) none

/-- Backends that work, where the resolver is asked for the byte 7 only, and has it. -/
def servingLong (_ : EnginePool) : EngineEvent → Bool
  | .did _ .overCapacity exceeded => !exceeded
  | .answered _ (.loadBlock _) a | .answered _ (.storeBlock _ _) a
  | .answered _ (.deleteBlock _) a => a.isOk
  | .answered _ (.resolveBlock cid) a => decide (cid = chunk ∧ a = .ok (some [7]))
  | _ => true

def longReturns (root : Cid) (pool : EnginePool) : Bool :=
  match pool.step (engine longSetting) observer (.finish 0) with
  | some (.finished _ (Job.get r) _ _, _) => decide (r = root)
  | _ => false

theorem servingLong_sound {pool : EnginePool} {event : EngineEvent} (h : servingLong pool event = true) :
    Serving longSetting longData longText pool.view event := by
  cases event with
  | did t o r =>
    cases o with
    | overCapacity => exact (Bool.not_eq_true' _).mp h
    | _ => trivial
  | answered t c a =>
    cases c with
    | loadBlock cid | storeBlock cid block | deleteBlock cid => exact h
    | resolveBlock cid =>
      intro _
      obtain ⟨rfl, rfl⟩ := of_decide_eq_true h
      exact ⟨[7], rfl, .inl chunk_eq⟩
    | _ => trivial
  | _ => trivial

theorem longReturns_step {root : Cid} {pool : EnginePool} (h : longReturns root pool = true) :
    ∃ t r dropped pool', pool.step (engine longSetting) observer (.finish 0) =
      some (.finished t (.get root) r dropped, pool') := by
  unfold longReturns at h
  split at h
  · next hstep =>
    obtain rfl := of_decide_eq_true h
    exact ⟨_, _, _, _, hstep⟩
  · cases h

theorem addresses_longWorld {cid : Cid} {block : Bytes} (h : longWorld.store.get cid = some block) :
    Addresses longSetting.sha256 cid block := by
  have hroot : computeCid longSetting.sha256 longText MULTICODEC_DAG_CBOR = longRoot := by decide +kernel
  simp only [longWorld, World.new, Table.get_insert] at h
  split at h
  · next hfull =>
    cases h
    exact .inl (hfull ▸ fullCid_eq)
  · split at h
    · next hlong =>
      cases h
      exact .inr (hlong ▸ hroot)
    · cases h

end Sample

open Sample

/-- The resolver brings the last chunk, and the three chunks are collected from the last to the
first. -/
theorem file_roundTrip_outOfOrder :
    ∃ pool t dropped pool',
      EngineReach longSetting (Serving longSetting longData longText) longWorld pool ∧
      pool.step (engine longSetting) observer (.finish 0) =
        some (.finished t (.get longRoot) (.ok longData) dropped, pool') := by
  have hmanifest : manifestOf longSetting "f" longData = longFile := by
    simp only [manifestOf, chunks_longData, length_longData, List.map_cons, List.map_nil, chunkCid,
      fullCid_eq, chunk_eq]
    rfl
  have htext : longSetting.manifests.toVec (manifestOf longSetting "f" longData) = .ok longText := by
    rw [hmanifest]
    decide +kernel
  have hroot : rootOf longSetting longText = longRoot := by decide +kernel
  have hinjective : Function.Injective longSetting.sha256 :=
    digestOf_injective (by decide +kernel) (by decide +kernel)
  have hapart : DigestsApart longSetting longData longText := fun _ _ _ heq => hinjective heq
  have hrun : ((Pool.init longWorld Ledger.new).exec (engine longSetting) observer servingLong longGet).any
      (longReturns longRoot) = true := by
    decide +kernel
  obtain ⟨pool, hexec, hreturns⟩ := Option.any_eq_true _ _ |>.mp hrun
  obtain ⟨t, r, dropped, pool', hstep⟩ := longReturns_step hreturns
  have hreach : EngineReach longSetting (Serving longSetting longData longText) longWorld pool :=
    Reach.of_exec hexec servingLong_sound
  obtain ⟨_, hget, _⟩ := file_roundTrip htext hapart (fun _ _ => addresses_longWorld) hreach
  rw [hroot] at hget
  obtain rfl := hget hstep
  exact ⟨pool, t, dropped, pool', hreach, hstep⟩

end Runs

end Mistlib.Storage
