import Mistlib.Async.Alone
import Mistlib.Storage.RoundTrip

/-!
# Files that are held

A `get` of a file whose blocks are all in the block store reads them from there. It asks the
resolver for none of them.
-/

namespace Mistlib.Storage

open Async

/-- How far an `add` has come: how many chunk writes it has started, and whether
it has issued the write of the manifest. -/
structure Progress where
  started : Nat
  manifest : Bool

def Progress.issue : Call → Progress → Progress
  | .storeBlock _ _, n => { n with manifest := true }
  | _, n => n

/-- Nothing but the progress of an `add` is written down. -/
def progress : Observer engineSig World Unit Progress where
  start _ := ⟨0, false⟩
  op _ _ _ g n := (g, n)
  issue := Progress.issue
  effect _ _ g n := (g, n)
  spawn n := { n with started := n.started + 1 }
  join _ n := n
  finish _ _ _ g := g

abbrev EngineScene := Scene engineSig World Progress

/-- The block store has every block of the file. -/
def World.Holds (setting : Setting) (data text : Bytes) (w : World) : Prop :=
  ∀ cid codec block, (cid, codec, block) ∈ Engine.fileBlocks setting data text →
    w.store.get cid = some block

/-- The call reads the block store, or tells the resolver that nothing is to be
prefetched. -/
def Call.isLocal : Call → Prop
  | .loadBlock _ => True
  | .prefetchProviders cids => cids = []
  | _ => False

/-- Reads of the block store succeed, and beside them only a prefetch of nothing
is asked for. -/
def localTerms : Terms engineSig Progress where
  op _ _ _ := True
  answer
    | .loadBlock _, a => a.isOk = true
    | _, _ => True
  asks := Call.isLocal

theorem World.store_perform (setting : Setting) (o : Op) (ω : Circumstance) (w : World) :
    (w.perform setting o ω).2.store = w.store := by
  cases o with
  | install registry => cases registry <;> rfl
  | _ => rfl

namespace Engine

variable {setting : Setting} {data text : Bytes} {α β : Type}

/-- An outline of an engine's program that runs alone. -/
abbrev EngineTriple (setting : Setting) (T : Terms engineSig Progress)
    (B : α → EngineScene → Prop) (E : MistError → EngineScene → Prop) (A : EngineScene → Prop)
    (p : Engine α) : Prop :=
  Triple (engine setting) progress T B E A p

/-- A job that has been started, whatever its kind. -/
def anyJob (hand : Hand engineSig) : AnyJob engineSig := ⟨hand.kind, hand.job⟩

/-- The fetch of a held chunk, as far as it may have come. -/
inductive Fetching (setting : Setting) (i : Nat) (chunk : Bytes) : Hand engineSig → Prop
  | asked : Fetching setting i chunk (.fresh (engine setting) (Job.fetchChunk i (chunkCid setting chunk)))
  | loaded : Fetching setting i chunk ⟨Kind.fetched, Job.fetchChunk i (chunkCid setting chunk),
      .op (.touch (chunkCid setting chunk)) fun _ => .pure (i, chunk)⟩
  | done : Fetching setting i chunk ⟨Kind.fetched, Job.fetchChunk i (chunkCid setting chunk),
      .pure (i, chunk)⟩

/-- The file is held, and the jobs are fetches of its chunks of which `P` holds. -/
structure Reads (setting : Setting) (data text : Bytes) (P : Multiset (AnyJob engineSig) → Prop)
    (x : EngineScene) : Prop where
  held : x.world.Holds setting data text
  hands : ∀ hand ∈ x.crew, ∃ i chunk, (chunks data)[i]? = some chunk ∧ Fetching setting i chunk hand
  jobs : P (x.crew.map anyJob)

theorem fetchChunk_eq (setting : Setting) (i : Nat) (cid : Cid) :
    ∃ k, fetchChunk setting i cid = .await (.loadBlock cid) k ∧
      ∀ block, k (.ok (some block)) = .op (.touch cid) fun _ => .pure (i, block) :=
  ⟨_, rfl, fun _ => rfl⟩

variable {i : Nat} {chunk : Bytes}

theorem chunk_mem_fileBlocks (h : (chunks data)[i]? = some chunk) :
    (chunkCid setting chunk, MULTICODEC_RAW, chunk) ∈ fileBlocks setting data text :=
  List.mem_cons_of_mem _ (List.mem_map_of_mem (List.mem_of_getElem? h))

variable {cid : Cid}

theorem answer_loadBlock {w w' : World} {ω : Circumstance} {t : Tid}
    {a : Except MistError (Option Bytes)}
    (hanswer : World.answer (.loadBlock cid) ω t w = some (a, w')) (hok : a.isOk = true) :
    a = .ok (w.store.get cid) ∧ w' = w := by
  cases hanswer
  split at hok
  · next hsucceeds => exact ⟨if_pos hsucceeds, rfl⟩
  · cases hok

theorem Fetching.goes {w w' : World} (hheld : w.Holds setting data text)
    (hchunk : (chunks data)[i]? = some chunk) {hand hand' : Hand engineSig}
    (h : Fetching setting i chunk hand) (hgoes : hand.Goes (engine setting) localTerms w w' hand') :
    Fetching setting i chunk hand' ∧ w'.store = w.store ∧ anyJob hand' = anyJob hand := by
  cases h with
  | asked =>
    obtain ⟨k, hcode, hk⟩ := fetchChunk_eq setting i (chunkCid setting chunk)
    have hcode : (engine setting).code (Job.fetchChunk i (chunkCid setting chunk)) =
        .await (.loadBlock (chunkCid setting chunk)) k := hcode
    rw [Hand.fresh, hcode] at hgoes
    obtain ⟨ω, t, a, hanswer, hok, rfl⟩ := hgoes.of_await
    obtain ⟨rfl, rfl⟩ := answer_loadBlock (t := t) hanswer hok
    rw [hheld _ _ _ (chunk_mem_fileBlocks hchunk), hk]
    exact ⟨.loaded, rfl, rfl⟩
  | loaded =>
    obtain ⟨n, ω, _, rfl, rfl⟩ := hgoes.of_op
    exact ⟨.done, rfl, rfl⟩
  | done => exact (Hand.not_goes_pure hgoes).elim

theorem stable_reads (P : Multiset (AnyJob engineSig) → Prop) :
    Stable (engine setting) localTerms (Reads setting data text P) where
  goes := by
    intro w w' hand hand' rest n h hgoes
    obtain ⟨i, chunk, hchunk, hfetching⟩ := h.hands hand (Multiset.mem_cons_self _ _)
    obtain ⟨hfetching', hstore, hjob⟩ := hfetching.goes h.held hchunk hgoes
    refine ⟨fun cid codec block hblock => ?_, fun other hother => ?_, ?_⟩
    · show w'.store.get cid = _
      rw [hstore]
      exact h.held cid codec block hblock
    · rcases Multiset.mem_cons.mp hother with rfl | hother
      · exact ⟨i, chunk, hchunk, hfetching'⟩
      · exact h.hands other (Multiset.mem_cons_of_mem hother)
    · have hjobs := h.jobs
      rw [Multiset.map_cons] at hjobs ⊢
      rwa [hjob]
  asks := by
    intro w κ job c k rest n h
    obtain ⟨i, chunk, hchunk, hfetching⟩ := h.hands _ (Multiset.mem_cons_self _ _)
    generalize hhand : (⟨κ, job, .await c k⟩ : Hand engineSig) = hand at hfetching
    cases hfetching with
    | asked =>
      cases hhand
      trivial
    | loaded | done => cases hhand

variable {P : Multiset (AnyJob engineSig) → Prop} {E : MistError → EngineScene → Prop}

theorem reads_perform (o : Op) :
    EngineTriple setting localTerms (fun _ => Reads setting data text P) E
      (Reads setting data text P) (perform o) := by
  refine Triple.perform ?_
  intro w crew n ω g h _
  refine ⟨fun cid codec block hblock => ?_, h.hands, h.jobs⟩
  show (w.perform setting o ω).2.store.get cid = _
  rw [World.store_perform]
  exact h.held cid codec block hblock

/-- What a read of the block store tells of a file that is held. -/
def Reveals (setting : Setting) (data text : Bytes) (cid : Cid) (held : Option Bytes) : Prop :=
  ∀ codec block, (cid, codec, block) ∈ fileBlocks setting data text → held = some block

theorem reads_loadBlock :
    EngineTriple setting localTerms
      (fun held x => Reveals setting data text cid held ∧ Reads setting data text P x) E
      (Reads setting data text P) (loadBlock cid) := by
  refine Triple.bind (B := fun a x => (∃ held, a = .ok held ∧ Reveals setting data text cid held) ∧
      Reads setting data text P x)
    (Triple.call (stable_reads P) (fun h => ⟨trivial, h⟩) (fun a => ⟨?_, ?_⟩) ?_) fun a => ?_
  · exact fun h hgoes => ⟨h.1, (stable_reads P).goes h.2 hgoes⟩
  · exact fun h => (stable_reads P).asks h.2
  · intro w w' crew n ω t g a h hanswer hok
    obtain ⟨rfl, rfl⟩ := answer_loadBlock (t := t) hanswer hok
    exact ⟨⟨_, rfl, h.held cid⟩, h⟩
  · cases a with
    | ok held =>
      rintro x ⟨⟨_, heq, hheld⟩, h⟩
      cases heq
      exact ⟨hheld, h⟩
    | error e =>
      rintro x ⟨⟨_, heq, _⟩, _⟩
      cases heq

theorem reads_resolveOrFetch {codec : Nat} {block : Bytes}
    (hblock : (cid, codec, block) ∈ fileBlocks setting data text) :
    EngineTriple setting localTerms (fun got x => got = block ∧ Reads setting data text P x) E
      (Reads setting data text P) (resolveOrFetch setting cid codec) := by
  refine Triple.bind reads_loadBlock fun held => ?_
  cases held with
  | some found =>
    refine Triple.fact fun hheld => Triple.bind (reads_perform _) fun _ x h => ?_
    exact ⟨Option.some.inj (hheld codec block hblock), h⟩
  | none =>
    refine Triple.fact fun hheld => ?_
    cases hheld codec block hblock

theorem reads_missing (chunks' : List Bytes) (hchunks : ∀ chunk ∈ chunks', chunk ∈ chunks data) :
    EngineTriple setting localTerms (fun absent x => absent = [] ∧ Reads setting data text P x) E
      (Reads setting data text P) (missing (chunks'.map (chunkCid setting))) := by
  induction chunks' with
  | nil => exact fun x h => ⟨rfl, h⟩
  | cons chunk rest ih =>
    have hblock : (chunkCid setting chunk, MULTICODEC_RAW, chunk) ∈ fileBlocks setting data text :=
      List.mem_cons_of_mem _ (List.mem_map_of_mem (hchunks chunk List.mem_cons_self))
    refine Triple.bind reads_loadBlock fun held => ?_
    cases held with
    | some found =>
      refine Triple.bind ((ih fun c hc => hchunks c (List.mem_cons_of_mem _ hc)).pre fun h => h.2) ?_
      rintro others x ⟨rfl, h⟩
      exact ⟨rfl, h⟩
    | none =>
      refine Triple.fact fun hheld => ?_
      cases hheld _ chunk hblock

theorem Fetching.result {job : Job .fetched} {r : Except MistError (Nat × Bytes)}
    (h : Fetching setting i chunk ⟨Kind.fetched, job, Prog.ofExcept (S := engineSig) r⟩) :
    job = .fetchChunk i (chunkCid setting chunk) ∧ r = .ok (i, chunk) := by
  generalize hhand : (⟨Kind.fetched, job, Prog.ofExcept (S := engineSig) r⟩ : Hand engineSig) = hand at h
  cases h with
  | asked | loaded => cases r <;> cases hhand
  | done =>
    cases r with
    | ok out =>
      cases hhand
      exact ⟨rfl, rfl⟩
    | error e => cases hhand

/-- A read under way whose fetches bring the chunks of the file. -/
abbrev Reading (setting : Setting) (data : Bytes) :
    Nat → Nat → Reassembly → Multiset (AnyJob engineSig) → Prop :=
  Gathering (fun i block => (chunks data)[i]? = some block) ((chunks data).map (chunkCid setting))

/-- What is held together when a fetch has been collected. Every fetch succeeds,
and none is missing. -/
def Got (setting : Setting) (data text : Bytes) (index inFlight : Nat) (a : Reassembly) :
    Option (Except MistError (Nat × Bytes)) → EngineScene → Prop
  | some (.ok (i, chunk)) =>
    Reads setting data text (Reading setting data index inFlight (a.insert i chunk))
  | _ => fun _ => False

variable {a : Reassembly}

theorem reads_next {index inFlight : Nat} :
    EngineTriple setting localTerms (Got setting data text index inFlight a) E
      (Reads setting data text (Reading setting data index (inFlight + 1) a))
      (next .fetched) := by
  refine Triple.next (stable_reads _) (fun got => ?_) ⟨?_, ?_⟩
  · rcases got with _ | (e | ⟨i, chunk⟩)
    · exact stable_false
    · exact stable_false
    · exact stable_reads _
  · intro w rest m n job r h
    obtain ⟨i, chunk, hchunk, hfetching⟩ := h.hands _ (Multiset.mem_cons_self _ _)
    obtain ⟨rfl, rfl⟩ := hfetching.result
    have hjobs := h.jobs
    rw [Multiset.map_cons] at hjobs
    obtain ⟨j, _, hjob, _, hreading⟩ := hjobs.collect
    obtain rfl : i = j := (Job.fetchChunk.inj hjob).1
    exact ⟨h.held, fun hand hhand => h.hands hand (Multiset.mem_cons_of_mem hhand), hreading chunk hchunk⟩
  · intro w n h
    have hcard := h.jobs.card
    cases hcard

theorem reads_fetchChunks (concurrency : Nat) (rest : List Bytes) {index inFlight : Nat}
    (hrest : (chunks data).drop index = rest) :
    EngineTriple setting localTerms
      (fun out => Reads setting data text (Reading setting data (chunks data).length out.1 out.2))
      E (Reads setting data text (Reading setting data index inFlight a))
      (fetchChunks concurrency (rest.map (chunkCid setting)) index inFlight a) := by
  induction rest generalizing index inFlight a with
  | nil =>
    intro x h
    have hlength : (chunks data).length ≤ index := List.drop_eq_nil_iff.mp hrest
    have hindex := h.jobs.index_le
    rw [List.length_map] at hindex
    rw [← Nat.le_antisymm hindex hlength]
    exact h
  | cons chunk rest ih =>
    have hchunk : (chunks data)[index]? = some chunk := by
      rw [← List.head?_drop, hrest]
      rfl
    have hdropped : (chunks data).drop (index + 1) = rest := by
      rw [← List.drop_drop, hrest]
      rfl
    refine Triple.bind (B := fun _ => Reads setting data text
      (Reading setting data (index + 1) (inFlight + 1) a)) (Triple.spawn ?_) fun _ => ?_
    · intro w crew n h
      refine ⟨h.held, fun hand hhand => ?_, ?_⟩
      · rcases Multiset.mem_cons.mp hhand with rfl | hhand
        · exact ⟨index, chunk, hchunk, .asked⟩
        · exact h.hands hand hhand
      · rw [Multiset.map_cons]
        exact h.jobs.ask (by rw [List.getElem?_map, hchunk]; rfl)
    · split
      · refine Triple.bind reads_next fun got => ?_
        rcases got with _ | (e | ⟨i, data⟩)
        · exact Triple.unreached _
        · exact Triple.unreached _
        · exact ih hdropped
      · exact ih hdropped

theorem reads_drainFetches (inFlight : Nat) :
    EngineTriple setting localTerms
      (fun out x => out.result = data ∧ Reads setting data text (· = 0) x)
      E (Reads setting data text (Reading setting data (chunks data).length inFlight a))
      (drainFetches inFlight a) := by
  induction inFlight generalizing a with
  | zero =>
    intro x h
    have hread := h.jobs
    rw [← List.length_map (chunkCid setting)] at hread
    obtain ⟨blocks, hlength, hblocks, hresult⟩ := hread.complete
    have heq : blocks = chunks data := by
      refine List.ext_getElem (hlength.trans (List.length_map _)) fun i hi hi' => ?_
      exact Option.some.inj ((hblocks i _ (List.getElem?_eq_getElem hi)).symm.trans (List.getElem?_eq_getElem hi'))
    exact ⟨by rw [hresult, heq, chunks_flatten], h.held, h.hands, Multiset.card_eq_zero.mp h.jobs.card⟩
  | succ inFlight ih =>
    refine Triple.bind reads_next fun got => ?_
    rcases got with _ | (e | ⟨i, data⟩)
    · exact Triple.unreached _
    · exact Triple.unreached _
    · exact ih

theorem reads_get {name : String}
    (htext : setting.manifests.toVec (manifestOf setting name data) = .ok text) :
    EngineTriple setting localTerms (fun out x => out = data ∧ Reads setting data text (· = 0) x)
      (fun _ _ => False) (Reads setting data text (· = 0)) (get setting (rootOf setting text)) := by
  refine Triple.bind (reads_resolveOrFetch List.mem_cons_self) fun bytes => Triple.fact ?_
  rintro rfl
  have hmanifest : readManifest setting bytes = .pure (manifestOf setting name data) := by
    rw [readManifest, setting.manifests.roundTrip htext]
    rfl
  rw [hmanifest]
  refine Triple.bind (p := missing ((chunks data).map (chunkCid setting)))
    (reads_missing _ fun _ h => h) fun absent => Triple.fact ?_
  rintro rfl
  refine Triple.bind (B := fun _ => Reads setting data bytes (· = 0))
    (Triple.call (stable_reads _) (fun h => ⟨rfl, h⟩) (fun _ => stable_reads _) ?_) fun _ => ?_
  · rintro w w' crew n ω t g ⟨⟩ h hanswer _
    cases hanswer
    exact h
  refine Triple.bind (reads_perform _) fun _ => ?_
  refine Triple.bind (B := fun out => Reads setting data bytes
    (Reading setting data (chunks data).length out.1 out.2))
    ((reads_fetchChunks _ (chunks data) rfl).pre ?_) fun out => ?_
  · intro x h
    refine ⟨h.held, h.hands, ?_⟩
    rw [h.jobs]
    exact gathering_empty _
  · exact Triple.bind (reads_drainFetches out.1) fun a x h => h

end Engine

/-! ### Gets, one at a time -/

def Job.gets (root : Cid) : {κ : Kind} → Job κ → Prop
  | _, .get r => r = root
  | _, _ => False

/-- Every `get` of the root that runs alone over a block store that can be read
makes local calls only and returns the data, and from wherever it has come it
can be brought to an end. -/
structure World.Serves (setting : Setting) (root : Cid) (data : Bytes) (w : World) : Prop where
  asks : ∀ {pool pool' : Pool engineSig World Unit Progress} {choice t c},
    Reach (engine setting) progress (localTerms.Alone (Job.gets root)) (Pool.init w ()) pool →
    pool.step (engine setting) progress choice = some (.issued t c, pool') → c.isLocal
  returns : ∀ {pool pool' : Pool engineSig World Unit Progress} {choice t r dropped},
    Reach (engine setting) progress (localTerms.Alone (Job.gets root)) (Pool.init w ()) pool →
    pool.step (engine setting) progress choice = some (.finished t (.get root) r dropped, pool') →
    r = .ok data
  ends : ∀ {P : Possible engineSig}, P.Answering → ∀ jobs p,
    Onward (engine setting) P 0 (Engine.get setting root) jobs p →
    ∃ r left, EngineEnds setting P jobs p r left

section Serving

variable (setting : Setting) (data text : Bytes)

/-- Every `get` of the file finds it held and leaves it held. -/
def getPlan : Plan engineSig World Progress where
  fit := Job.gets (Engine.rootOf setting text)
  world w := w.Holds setting data text
  returns job out x := match job, out with
    | .get _, out => out = data ∧ Engine.Reads setting data text (· = 0) x
    | _, _ => False
  fails _ _ _ := False

variable {setting data text}

section

variable {name : String}
  (htext : setting.manifests.toVec (Engine.manifestOf setting name data) = .ok text)
include htext

/-- The plan of a local read describes the engine's program. -/
theorem getPlan_sound : (getPlan setting data text).Sound (engine setting) progress localTerms where
  code := by
    intro κ job hfit
    cases job with
    | get root =>
      obtain rfl : root = Engine.rootOf setting text := hfit
      refine (Engine.reads_get htext).pre ?_
      rintro ⟨w, crew, n⟩ ⟨hheld, rfl, _⟩
      exact ⟨hheld, by simp, rfl⟩
    | _ => exact hfit.elim
  returns := by
    intro κ job out
    cases job with
    | get root =>
      have hstable : Stable (engine setting) localTerms
          (Engine.Reads setting data text (· = 0)) := Engine.stable_reads (· = 0)
      exact ⟨fun h hgoes => ⟨h.1, hstable.goes h.2 hgoes⟩, fun h => hstable.asks h.2⟩
    | _ => exact stable_false
  fails _ _ := stable_false
  returned := by
    intro κ job out x h
    cases job with
    | get root => exact h.2.held
    | _ => exact h.elim
  failed h := h.elim
  release := by
    intro i w h
    have hstore : (World.release i w).store = w.store := by rw [World.release_eq]
    intro cid codec block hblock
    show (World.release i w).store.get cid = _
    rw [hstore]
    exact h cid codec block hblock
  renew h := h

theorem World.Holds.serves {w : World} (hheld : w.Holds setting data text) :
    w.Serves setting (Engine.rootOf setting text) data where
  asks hreach hstep := Plan.asked (getPlan_sound htext) hheld hreach hstep
  returns := by
    intro pool pool' choice t r dropped hreach hstep
    cases r with
    | ok out =>
      obtain ⟨⟨crew, note, hout, _⟩, _⟩ := Plan.returned (getPlan_sound htext) hheld hreach hstep
      rw [hout]
    | error e =>
      obtain ⟨_, _, hfails⟩ := Plan.failed (getPlan_sound htext) hheld hreach hstep
      exact hfails.elim
  ends hP _ _ honward := honward.ends hP Engine.plain_fetched (Engine.starts_get _) (by simp)

end

end Serving

end Mistlib.Storage
