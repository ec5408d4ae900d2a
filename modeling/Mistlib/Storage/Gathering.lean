import Mathlib.Data.Finset.Card
import Mistlib.Storage.EngineEnds

/-!
# What the fetches of a read bring

`get` fetches the chunks of a manifest side by side and puts them together by index, in
whatever order they come. From where its buffer stands it fails with the error of a fetch, or
returns what the fetches have brought in the order of the manifest (`ends_gather`).
-/

namespace Mistlib.Storage

open Async

namespace Engine

/-! ### Putting together -/

namespace Reassembly

/-- The chunks of `whole` with the indices `arrived` have come: those in front
are in place, and the others wait. -/
structure Holds (whole : List Bytes) (arrived : Finset Nat) (a : Reassembly) : Prop where
  bound : ∀ i ∈ arrived, i < whole.length
  below : ∀ i < a.nextIndex, i ∈ arrived
  result : a.result = (whole.take a.nextIndex).flatten
  pending : ∀ i, a.pending[i]? = if i ∈ arrived ∧ a.nextIndex ≤ i then whole[i]? else none

variable {whole : List Bytes} {arrived : Finset Nat} {a : Reassembly}

theorem holds_empty : Holds whole ∅ { result := [], pending := ∅, nextIndex := 0 } where
  bound := by simp
  below := by simp
  result := by simp
  pending := by simp

section

variable (h : Holds whole arrived a)
include h

theorem Holds.append {chunk : Bytes} (hchunk : whole[a.nextIndex]? = some chunk)
    {pending : Std.ExtTreeMap Nat Bytes}
    (hpending : ∀ i, pending[i]? = if i = a.nextIndex then none else a.pending[i]?) :
    Holds whole (Insert.insert a.nextIndex arrived)
      { result := a.result ++ chunk, pending, nextIndex := a.nextIndex + 1 } where
  bound := by
    intro i hi
    rcases Finset.mem_insert.mp hi with rfl | hi
    · exact (List.getElem?_eq_some_iff.mp hchunk).1
    · exact h.bound i hi
  below := by
    intro i hi
    rcases Nat.lt_succ_iff_lt_or_eq.mp hi with hi | rfl
    · exact Finset.mem_insert_of_mem (h.below i hi)
    · exact Finset.mem_insert_self _ _
  result := by
    rw [List.take_add_one, hchunk, h.result]
    simp
  pending := by
    intro i
    rw [hpending, h.pending]
    simp only [Finset.mem_insert]
    by_cases hi : i = a.nextIndex
    · subst hi
      simp
    · have hle : a.nextIndex + 1 ≤ i ↔ a.nextIndex ≤ i := by omega
      simp [hi, hle]

theorem Holds.notMem (hnone : a.pending[a.nextIndex]? = none) : a.nextIndex ∉ arrived := by
  intro hnext
  have hpending := h.pending a.nextIndex
  rw [hnone, if_pos ⟨hnext, le_rfl⟩, List.getElem?_eq_getElem (h.bound _ hnext)] at hpending
  cases hpending

theorem Holds.drain {fuel : Nat} (hfuel : a.pending.size ≤ fuel) :
    Holds whole arrived (drain fuel a) ∧ (drain fuel a).nextIndex ∉ arrived := by
  induction fuel generalizing a with
  | zero =>
    have hempty : a.pending = ∅ := by
      rw [Std.ExtTreeMap.eq_empty_iff_size_eq_zero]
      exact Nat.le_zero.mp hfuel
    exact ⟨h, h.notMem (by simp [hempty])⟩
  | succ fuel ih =>
    unfold Reassembly.drain
    have hpending := h.pending a.nextIndex
    cases hfound : a.pending[a.nextIndex]? with
    | none => exact ⟨h, h.notMem hfound⟩
    | some chunk =>
      rw [hfound] at hpending
      split at hpending
      · next hnext =>
        have herased : ∀ i, (a.pending.erase a.nextIndex)[i]? =
            if i = a.nextIndex then none else a.pending[i]? := by
          intro i
          simp only [Std.ExtTreeMap.getElem?_erase, compare_eq_iff_eq, @eq_comm _ a.nextIndex i]
        have hadvanced := h.append hpending.symm herased
        rw [Finset.insert_eq_of_mem hnext.1] at hadvanced
        refine ih hadvanced ?_
        have hmem : a.nextIndex ∈ a.pending := by
          rw [Std.ExtTreeMap.mem_iff_isSome_getElem?, hfound]
          rfl
        have hsize : (a.pending.erase a.nextIndex).size = a.pending.size - 1 := by
          rw [Std.ExtTreeMap.size_erase, if_pos (Std.ExtTreeMap.mem_iff_contains.mp hmem)]
        rw [hsize]
        omega
      · cases hpending

theorem Holds.insert (hdrained : a.nextIndex ∉ arrived) {i : Nat} {chunk : Bytes}
    (hchunk : whole[i]? = some chunk) (hnew : i ∉ arrived) :
    Holds whole (Insert.insert i arrived) (a.insert i chunk) ∧
      (a.insert i chunk).nextIndex ∉ Insert.insert i arrived := by
  unfold Reassembly.insert
  split
  · next heq =>
    subst heq
    have hnone : a.pending[a.nextIndex]? = none := by
      rw [h.pending, if_neg fun hboth => hnew hboth.1]
    refine (h.append hchunk ?_).drain le_rfl
    intro i
    split
    · next hi => rw [hi, hnone]
    · rfl
  · next hne =>
    refine ⟨⟨?_, fun j hj => Finset.mem_insert_of_mem (h.below j hj), h.result, ?_⟩, ?_⟩
    · intro j hj
      rcases Finset.mem_insert.mp hj with rfl | hj
      · exact (List.getElem?_eq_some_iff.mp hchunk).1
      · exact h.bound j hj
    · intro j
      simp only [Std.ExtTreeMap.getElem?_insert, h.pending, Finset.mem_insert, compare_eq_iff_eq]
      by_cases hj : i = j
      · subst hj
        -- a chunk in front has come before
        have hahead : a.nextIndex ≤ i := by
          by_contra hbehind
          exact hnew (h.below i (by omega))
        simp [hahead, hchunk]
      · simp [hj, Ne.symm hj]
    · simp only [Finset.mem_insert, not_or]
      exact ⟨Ne.symm hne, hdrained⟩

theorem Holds.complete (hdrained : a.nextIndex ∉ arrived) (hall : ∀ i < whole.length, i ∈ arrived) :
    a.result = whole.flatten := by
  have hlength : whole.length ≤ a.nextIndex := by
    by_contra hlt
    exact hdrained (hall _ (by omega))
  rw [h.result, List.take_of_length_le hlength]

end

end Reassembly

section Gathering

variable {setting : Setting} {P : Possible engineSig} {jobs left : Multiset (AnyJob engineSig)}

/-! ### Two halves of a read -/

/-- `get` up to its buffer. -/
def openFile (setting : Setting) (root : Cid) : Engine FileManifest := do
  let manifestBytes ← resolveOrFetch setting root MULTICODEC_DAG_CBOR
  let manifest ← readManifest setting manifestBytes
  let absent ← missing manifest.chunks
  let _ ← call (.prefetchProviders absent)
  return manifest

/-- `get` from its buffer on. -/
def gather (setting : Setting) (manifest : FileManifest) : Engine Bytes := do
  let concurrency := max 1 (min 64 setting.getConcurrency)
  perform (.withCapacity manifest.size)
  let (inFlight, a) ← fetchChunks concurrency manifest.chunks 0 0
    { result := [], pending := ∅, nextIndex := 0 }
  return (← drainFetches inFlight a).result

theorem get_eq (root : Cid) : get setting root = openFile setting root >>= gather setting := by
  show _ = Prog.bind (Prog.bind _ _) _
  rw [Prog.bind_assoc]
  refine congrArg (Prog.bind _) (funext fun bytes => ?_)
  show _ = Prog.bind (Prog.bind _ _) _
  rw [Prog.bind_assoc]
  refine congrArg (Prog.bind _) (funext fun manifest => ?_)
  show _ = Prog.bind (Prog.bind _ _) _
  rw [Prog.bind_assoc]
  rfl

/-! ### What the fetches bring -/

/-- What a fetch of a chunk may come to. -/
def MayAnswer (setting : Setting) (P : Possible engineSig) (cid : Cid) (r : Except MistError Bytes) :
    Prop :=
  ∃ own, EngineEnds setting P 0 (resolveOrFetch setting cid MULTICODEC_RAW) r own

theorem ends_fetchChunk {i : Nat} {cid : Cid} {x : Except MistError (Nat × Bytes)}
    (h : EngineEnds setting P 0 (fetchChunk setting i cid) x left) :
    (∃ e, x = .error e ∧ MayAnswer setting P cid (.error e)) ∨
      ∃ block, x = .ok (i, block) ∧ MayAnswer setting P cid (.ok block) := by
  rcases h.of_bind with ⟨block, mid, hfetched, hrest⟩ | ⟨e, rfl, hfailed⟩
  · cases hrest
    exact .inr ⟨block, rfl, _, hfetched⟩
  · exact .inl ⟨e, rfl, left, hfailed⟩

/-- The first `index` chunks have been asked for: those of `arrived` have been
collected, and the `inFlight` others are waited for. -/
structure Underway (index inFlight : Nat) (arrived waiting : Finset Nat) : Prop where
  split : ∀ i, i < index ↔ i ∈ arrived ∨ i ∈ waiting
  disjoint : Disjoint arrived waiting
  card : waiting.card = inFlight

theorem underway_empty : Underway 0 0 ∅ ∅ := ⟨by simp, by simp, rfl⟩

variable {index inFlight : Nat} {arrived waiting : Finset Nat}

theorem Underway.notMem_waiting (h : Underway index inFlight arrived waiting) :
    index ∉ waiting := fun hmem =>
  Nat.lt_irrefl index ((h.split index).mpr (.inr hmem))

theorem Underway.notMem_arrived {i : Nat} (h : Underway index inFlight arrived waiting)
    (hi : i ∈ waiting) : i ∉ arrived := fun hmem =>
  Finset.disjoint_left.mp h.disjoint hmem hi

theorem Underway.ask (h : Underway index inFlight arrived waiting) :
    Underway (index + 1) (inFlight + 1) arrived (insert index waiting) where
  split := by
    intro i
    rw [Nat.lt_succ_iff_lt_or_eq, h.split, Finset.mem_insert]
    tauto
  disjoint := by
    refine Finset.disjoint_insert_right.mpr ⟨fun hmem => ?_, h.disjoint⟩
    exact Nat.lt_irrefl index ((h.split index).mpr (.inl hmem))
  card := by rw [Finset.card_insert_of_notMem h.notMem_waiting, h.card]

theorem Underway.collect {i : Nat} (h : Underway index inFlight arrived waiting) (hi : i ∈ waiting) :
    Underway index (inFlight - 1) (insert i arrived) (waiting.erase i) where
  split := by
    intro j
    rw [h.split, Finset.mem_insert, Finset.mem_erase]
    by_cases hj : j = i
    · subst hj
      simp [hi]
    · simp [hj]
  disjoint := by
    rw [Finset.disjoint_left]
    intro j hj hwaiting
    obtain ⟨hne, hwaiting⟩ := Finset.mem_erase.mp hwaiting
    rcases Finset.mem_insert.mp hj with rfl | hj
    · exact hne rfl
    · exact h.notMem_arrived hwaiting hj
  card := by rw [Finset.card_erase_of_mem hi, h.card]

/-- The fetch of the chunk that is listed at an index. -/
def listedJob (cids : List Cid) (i : Nat) : AnyJob engineSig :=
  ⟨Kind.fetched, Job.fetchChunk i (cids.getD i "")⟩

/-- The first `index` listed chunks have been asked for; `inFlight` of them have not been
collected, and each of the others is a block that a fetch of it may bring (`B`). -/
structure Gathering (B : Nat → Bytes → Prop) (cids : List Cid) (index inFlight : Nat)
    (a : Reassembly) (jobs : Multiset (AnyJob engineSig)) : Prop where
  collected : ∃ (blocks : List Bytes) (arrived waiting : Finset Nat),
    Underway index inFlight arrived waiting ∧ jobs = waiting.val.map (listedJob cids) ∧
    blocks.length = cids.length ∧ a.Holds blocks arrived ∧ a.nextIndex ∉ arrived ∧
    ∀ i ∈ arrived, ∀ block, blocks[i]? = some block → B i block
  index_le : index ≤ cids.length

variable {B : Nat → Bytes → Prop}

theorem gathering_empty (cids : List Cid) :
    Gathering B cids 0 0 { result := [], pending := ∅, nextIndex := 0 } 0 where
  collected := ⟨List.replicate cids.length [], ∅, ∅, underway_empty, rfl, List.length_replicate,
    Reassembly.holds_empty, by simp, by simp⟩
  index_le := Nat.zero_le _

theorem holds_set {blocks : List Bytes} {arrived : Finset Nat} {a : Reassembly}
    (h : a.Holds blocks arrived) {i : Nat} (hnew : i ∉ arrived) (block : Bytes) :
    a.Holds (blocks.set i block) arrived where
  bound j hj := by
    rw [List.length_set]
    exact h.bound j hj
  below := h.below
  result := by
    have hahead : a.nextIndex ≤ i := Nat.not_lt.mp fun hlt => hnew (h.below i hlt)
    rw [h.result, List.take_set_of_le hahead]
  pending := by
    intro j
    rw [h.pending]
    split
    · next hj =>
      have hne : i ≠ j := fun heq => hnew (heq ▸ hj.1)
      rw [List.getElem?_set_ne hne]
    · rfl

variable {cids : List Cid} {a : Reassembly}

theorem Gathering.ask (h : Gathering B cids index inFlight a jobs) {cid : Cid}
    (hcid : cids[index]? = some cid) :
    Gathering B cids (index + 1) (inFlight + 1) a
      (⟨Kind.fetched, Job.fetchChunk index cid⟩ ::ₘ jobs) where
  collected := by
    obtain ⟨blocks, arrived, waiting, hunderway, rfl, hrest⟩ := h.collected
    refine ⟨blocks, arrived, insert index waiting, hunderway.ask, ?_, hrest⟩
    rw [Finset.insert_val_of_notMem hunderway.notMem_waiting, Multiset.map_cons]
    simp [listedJob, hcid]
  index_le := (List.getElem?_eq_some_iff.mp hcid).1

theorem Gathering.collect {job : Job .fetched}
    (h : Gathering B cids index inFlight a (⟨Kind.fetched, job⟩ ::ₘ left)) :
    ∃ i cid, job = .fetchChunk i cid ∧ cids[i]? = some cid ∧
      ∀ block, B i block → Gathering B cids index (inFlight - 1) (a.insert i block) left := by
  obtain ⟨blocks, arrived, waiting, hunderway, hjobs, hlength, hholds, hdrained, hbrought⟩ := h.collected
  obtain ⟨i, hi, hjob, hleft⟩ := (Multiset.map_eq_cons _ _ _ _).mpr hjobs.symm
  have hlt : i < cids.length := Nat.lt_of_lt_of_le ((hunderway.split i).mpr (.inr hi)) h.index_le
  have hcid : cids[i]? = some cids[i] := List.getElem?_eq_getElem hlt
  refine ⟨i, cids[i], ?_, hcid, fun block hblock => ⟨?_, h.index_le⟩⟩
  · have := eq_of_heq (Sigma.mk.inj hjob).2
    rw [← this]
    simp [hcid]
  · have hnew := hunderway.notMem_arrived hi
    have hset : (blocks.set i block)[i]? = some block :=
      List.getElem?_set_self (by rw [hlength]; exact hlt)
    obtain ⟨hholds', hdrained'⟩ := (holds_set hholds hnew block).insert hdrained hset hnew
    refine ⟨blocks.set i block, insert i arrived, waiting.erase i, hunderway.collect hi, ?_, ?_,
      hholds', hdrained', ?_⟩
    · rw [Finset.erase_val]
      exact hleft.symm
    · rw [List.length_set, hlength]
    · intro j hj b hb
      by_cases heq : j = i
      · subst heq
        cases hset.symm.trans hb
        exact hblock
      · rw [List.getElem?_set_ne (Ne.symm heq)] at hb
        exact hbrought j (Finset.mem_of_mem_insert_of_ne hj heq) b hb

theorem Gathering.card (h : Gathering B cids index inFlight a jobs) : jobs.card = inFlight := by
  obtain ⟨_, _, _, hunderway, rfl, _⟩ := h.collected
  rw [Multiset.card_map]
  exact hunderway.card

theorem Gathering.complete (h : Gathering B cids cids.length 0 a jobs) :
    ∃ blocks : List Bytes, blocks.length = cids.length ∧ (∀ i block, blocks[i]? = some block → B i block) ∧
      a.result = blocks.flatten := by
  obtain ⟨blocks, arrived, waiting, hunderway, _, hlength, hholds, hdrained, hbrought⟩ := h.collected
  obtain rfl := Finset.card_eq_zero.mp hunderway.card
  have hall : ∀ i < blocks.length, i ∈ arrived := fun i hi => by
    simpa using (hunderway.split i).mp (hlength ▸ hi)
  refine ⟨blocks, hlength, fun i block hblock => ?_, hholds.complete hdrained hall⟩
  exact hbrought i (hall i (List.getElem?_eq_some_iff.mp hblock).1) block hblock

/-- What a fetch may bring for the chunk listed at an index. -/
def Brings (setting : Setting) (P : Possible engineSig) (cids : List Cid) (i : Nat) (block : Bytes) : Prop :=
  ∃ cid ∈ cids[i]?, MayAnswer setting P cid (.ok block)

/-- A fetch of a listed chunk may end with this error. -/
def MayFail (setting : Setting) (P : Possible engineSig) (cids : List Cid) (e : MistError) : Prop :=
  ∃ cid ∈ cids, MayAnswer setting P cid (.error e)

theorem Gathering.next (h : Gathering (Brings setting P cids) cids index (inFlight + 1) a jobs) {α : Type}
    {k : Option (Except MistError (Nat × Bytes)) → Engine α} {r : Except MistError α}
    (hends : EngineEnds setting P jobs (next .fetched >>= k) r left) :
    ∃ rest, (∃ e, MayFail setting P cids e ∧
        EngineEnds setting P rest (k (some (.error e))) r left) ∨
      ∃ i block, Gathering (Brings setting P cids) cids index inFlight (a.insert i block) rest ∧
        EngineEnds setting P rest (k (some (.ok (i, block)))) r left := by
  rcases hends.of_next_bind with ⟨job, x, own, rest, rfl, hjob, hrest⟩ | ⟨rfl, _⟩
  · obtain ⟨i, cid, rfl, hcid, hgathering⟩ := h.collect
    rcases ends_fetchChunk hjob with ⟨e, rfl, hfailed⟩ | ⟨block, rfl, hbrought⟩
    · exact ⟨rest, .inl ⟨e, ⟨cid, List.mem_of_getElem? hcid, hfailed⟩, hrest⟩⟩
    · exact ⟨rest, .inr ⟨i, block, hgathering block ⟨cid, hcid, hbrought⟩, hrest⟩⟩
  · cases h.card

theorem gathering_fetchChunks (concurrency : Nat) (rest : List Cid)
    (hgathering : Gathering (Brings setting P cids) cids index inFlight a jobs) (hrest : cids.drop index = rest)
    {r : Except MistError (Nat × Reassembly)}
    (h : EngineEnds setting P jobs (fetchChunks concurrency rest index inFlight a) r left) :
    (∃ e, r = .error e ∧ MayFail setting P cids e) ∨
      ∃ inFlight' a', r = .ok (inFlight', a') ∧
        Gathering (Brings setting P cids) cids cids.length inFlight' a' left := by
  induction rest generalizing index inFlight a jobs with
  | nil =>
    cases h
    have hlength : cids.length ≤ index := List.drop_eq_nil_iff.mp hrest
    have hindex : index = cids.length := Nat.le_antisymm hgathering.index_le hlength
    exact .inr ⟨inFlight, a, rfl, hindex ▸ hgathering⟩
  | cons cid rest ih =>
    have hcid : cids[index]? = some cid := by
      rw [← List.head?_drop, hrest]
      rfl
    have hdropped : cids.drop (index + 1) = rest := by
      rw [← List.drop_drop, hrest]
      rfl
    have hasked := hgathering.ask hcid
    have hafter := h.of_spawn_bind
    split at hafter
    · obtain ⟨jobs', hgot⟩ := hasked.next hafter
      rcases hgot with ⟨e, hfail, hfailed⟩ | ⟨i, block, hgathering', hafter⟩
      · cases hfailed
        exact .inl ⟨e, rfl, hfail⟩
      · exact ih hgathering' hdropped hafter
    · exact ih hasked hdropped hafter

theorem gathering_drainFetches (inFlight : Nat)
    (hgathering : Gathering (Brings setting P cids) cids cids.length inFlight a jobs)
    {r : Except MistError Reassembly}
    (h : EngineEnds setting P jobs (drainFetches inFlight a) r left) :
    (∃ e, r = .error e ∧ MayFail setting P cids e) ∨
      ∃ blocks a', List.Forall₂ (fun cid block => MayAnswer setting P cid (.ok block)) cids blocks ∧
        r = .ok a' ∧ a'.result = blocks.flatten := by
  induction inFlight generalizing a jobs with
  | zero =>
    cases h
    obtain ⟨blocks, hlength, hblocks, hresult⟩ := hgathering.complete
    refine .inr ⟨blocks, a, List.forall₂_iff_get.mpr ⟨hlength.symm, fun i hi hi' => ?_⟩, rfl, hresult⟩
    obtain ⟨cid, hcid, hbrought⟩ := hblocks i _ (List.getElem?_eq_getElem hi')
    cases (List.getElem?_eq_getElem hi).symm.trans hcid
    exact hbrought
  | succ inFlight ih =>
    obtain ⟨jobs', hgot⟩ := hgathering.next h
    rcases hgot with ⟨e, hfail, hfailed⟩ | ⟨i, block, hgathering', hafter⟩
    · cases hfailed
      exact .inl ⟨e, rfl, hfail⟩
    · exact ih hgathering' hafter

/-- A read fails with the error of a fetch, or returns what its fetches have brought, in
the order of the manifest. -/
theorem ends_gather {manifest : FileManifest} {r : Except MistError Bytes}
    (h : EngineEnds setting P 0 (gather setting manifest) r left) :
    (∃ e, r = .error e ∧ MayFail setting P manifest.chunks e) ∨
      ∃ blocks, List.Forall₂ (fun cid block => MayAnswer setting P cid (.ok block))
        manifest.chunks blocks ∧ r = .ok blocks.flatten := by
  obtain ⟨_, _, hrest⟩ := ends_perform_bind h
  rcases hrest.of_bind with ⟨⟨inFlight, a⟩, mid, hfetched, hdrain⟩ | ⟨e, rfl, hfetched⟩
  · rcases gathering_fetchChunks _ _ (gathering_empty manifest.chunks) rfl hfetched with
      ⟨e, heq, _⟩ | ⟨_, _, heq, hgathering⟩
    · cases heq
    · cases heq
      rcases hdrain.of_bind with ⟨a', mid', hdrained, hdone⟩ | ⟨e, rfl, hdrained⟩
      · rcases gathering_drainFetches _ hgathering hdrained with ⟨e, heq, _⟩ | ⟨blocks, _, hblocks, heq, hresult⟩
        · cases heq
        · cases heq
          cases hdone
          exact .inr ⟨blocks, hblocks, by rw [hresult]⟩
      · rcases gathering_drainFetches _ hgathering hdrained with ⟨e', heq, hfail⟩ | ⟨_, _, _, heq, _⟩
        · cases heq
          exact .inl ⟨e, rfl, hfail⟩
        · cases heq
  · rcases gathering_fetchChunks _ _ (gathering_empty manifest.chunks) rfl hfetched with
      ⟨e', heq, hfail⟩ | ⟨_, _, heq, _⟩
    · cases heq
      exact .inl ⟨e, rfl, hfail⟩
    · cases heq

end Gathering

end Engine

end Mistlib.Storage
