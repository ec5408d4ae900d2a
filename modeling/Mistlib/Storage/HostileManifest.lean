import Mistlib.Storage.BlockReads
import Mistlib.Storage.RoundTrip

/-!
# Manifests that others have made

A manifest is authenticated by its own hash only, so its size and its chunks are whatever its
maker wrote. `get` reserves a buffer of the declared size before it has seen a chunk. This
module follows a `get` over any block store and any resolver: the buffer it asks for, and the
bytes it returns.

`usize` has 64 bits natively and 32 in a browser; a buffer of more than `isize::MAX` bytes cannot
be allocated at all.
-/

namespace Mistlib.Storage

open Async

namespace Engine

/-! ### A read of what others have made -/

section Hostile

variable {setting : Setting} {store : Table Cid Bytes}
  {resolver : Cid → Except MistError (Option Bytes)} {root : Cid} {manifest : FileManifest}
  {jobs left : Multiset (AnyJob engineSig)} {bits : Nat}

theorem mayAnswer_iff {cid : Cid} {r : Except MistError Bytes} :
    MayAnswer setting (blockBackends setting store resolver) cid r ↔
      r = readAnswer setting store resolver cid MULTICODEC_RAW :=
  answered_iff

/-- The manifest that the root leads to. -/
def manifestAt (setting : Setting) (store : Table Cid Bytes)
    (resolver : Cid → Except MistError (Option Bytes)) (root : Cid) : Option FileManifest :=
  match readAnswer setting store resolver root MULTICODEC_DAG_CBOR with
  | .ok bytes => (setting.manifests.fromSlice bytes).toOption
  | .error _ => none

theorem manifestAt_iff : manifestAt setting store resolver root = some manifest ↔
    ∃ bytes, readAnswer setting store resolver root MULTICODEC_DAG_CBOR = .ok bytes ∧
      setting.manifests.fromSlice bytes = .ok manifest := by
  unfold manifestAt
  cases readAnswer setting store resolver root MULTICODEC_DAG_CBOR with
  | error e => exact ⟨nofun, fun ⟨_, h, _⟩ => nomatch h⟩
  | ok bytes =>
    show (setting.manifests.fromSlice bytes).toOption = some manifest ↔ _
    constructor
    · intro h
      refine ⟨bytes, rfl, ?_⟩
      cases htext : setting.manifests.fromSlice bytes with
      | error e =>
        rw [htext] at h
        cases h
      | ok m =>
        rw [htext] at h
        cases h
        rfl
    · rintro ⟨_, heq, htext⟩
      cases heq
      rw [htext]
      rfl

theorem ends_openFile (h : EngineEnds setting (blockBackends setting store resolver) 0
    (openFile setting root) (.ok manifest) left) :
    manifestAt setting store resolver root = some manifest ∧ left = 0 := by
  rcases h.of_bind with ⟨bytes, mid, hread, hrest⟩ | ⟨e, he, _⟩
  · have hbytes := ends_readAnswer hread
    obtain ⟨rfl, _⟩ := ends_resolveOrFetch ends_capacity (fun _ _ ha => ha) hread
    clear h hread
    rcases hrest.of_bind with ⟨found, mid', hparsed, hafter⟩ | ⟨e, he, _⟩
    · obtain ⟨hfound, rfl⟩ := hparsed.of_ofExcept
      obtain ⟨absent, _, hafter⟩ := ends_bind_ok
        (ends_missing (P := blockBackends setting store resolver)
          (fun _ _ ⟨held, ha, _⟩ => ⟨held, ha⟩) _) hafter
      obtain ⟨_, _, hdone⟩ := ends_call_bind hafter
      cases hdone
      refine ⟨manifestAt_iff.mpr ⟨bytes, hbytes.symm, ?_⟩, rfl⟩
      cases htext : setting.manifests.fromSlice bytes with
      | ok m =>
        rw [htext] at hfound
        cases hfound
        rfl
      | error e =>
        rw [htext] at hfound
        cases hfound
    · cases he
  · cases he

theorem missing_ends (setting : Setting) (store : Table Cid Bytes)
    (resolver : Cid → Except MistError (Option Bytes)) (jobs : Multiset (AnyJob engineSig))
    (cids : List Cid) : ∃ absent, EngineEnds setting
    (blockBackends setting store resolver) jobs (missing cids) (.ok absent) jobs := by
  induction cids with
  | nil => exact ⟨[], .pure []⟩
  | cons cid rest ih =>
    obtain ⟨others, hothers⟩ := ih
    have hload : (blockBackends setting store resolver).call (.loadBlock cid) (.ok (store.get cid)) :=
      ⟨_, rfl, rfl⟩
    exact ⟨_, .await _ hload (hothers.bind (.pure _))⟩

theorem openFile_ends (h : manifestAt setting store resolver root = some manifest) :
    EngineEnds setting (blockBackends setting store resolver) 0 (openFile setting root)
      (.ok manifest) 0 := by
  obtain ⟨left, hread⟩ := readAnswer_ends setting store resolver root MULTICODEC_DAG_CBOR
  obtain ⟨rfl, _⟩ := ends_resolveOrFetch ends_capacity (fun _ _ ha => ha) hread
  obtain ⟨bytes, hbytes, htext⟩ := manifestAt_iff.mp h
  rw [hbytes] at hread
  refine hread.bind ?_
  show EngineEnds setting _ 0 (ofExcept (serialized (setting.manifests.fromSlice bytes)) >>= _) _ 0
  rw [htext]
  obtain ⟨absent, hmissing⟩ := missing_ends setting store resolver 0 manifest.chunks
  exact hmissing.bind (.await () trivial (.pure _))

theorem blockBackends_answering : (blockBackends setting store resolver).Answering where
  op o := by
    cases o with
    | overCapacity => exact ⟨false, trivial⟩
    | victims _ | decayVictims _ | forget _ | snapshot => exact ⟨[], trivial⟩
    | registryLoaded | isPinned _ => exact ⟨true, trivial⟩
    | protect _ _ | republish => exact ⟨∅, trivial⟩
    | _ => exact ⟨(), trivial⟩
  call c := by
    cases c with
    | selfPositions => exact ⟨[], trivial⟩
    | loadBlock cid => exact ⟨.ok (store.get cid), _, rfl, rfl⟩
    | storeBlock cid block | deleteBlock cid | metaSet bytes => exact ⟨.ok (), rfl⟩
    | resolveBlock cid => exact ⟨resolver cid, rfl⟩
    | prefetchProviders cids | lockIo => exact ⟨(), trivial⟩
    | metaGet => exact ⟨.ok none, none, rfl, nofun⟩

theorem starts_gather (manifest : FileManifest) : (gather setting manifest).Starts .fetched :=
  (plain_perform _).uniform.bind fun _ => (starts_fetchChunks _ _ _ _ _).bind fun out =>
    (starts_drainFetches out.1 out.2).bind fun _ => trivial

theorem gather_ends (setting : Setting) (store : Table Cid Bytes)
    (resolver : Cid → Except MistError (Option Bytes)) (manifest : FileManifest) : ∃ r left, EngineEnds setting
    (blockBackends setting store resolver) 0 (gather setting manifest) r left :=
  (starts_gather manifest).ends blockBackends_answering plain_fetched (by simp)

def asUsize (bits size : Nat) : Nat := size % 2 ^ bits

def isizeMax (bits : Nat) : Nat := 2 ^ (bits - 1) - 1

/-- The length of a chunk that can be had. -/
def chunkLength (setting : Setting) (store : Table Cid Bytes)
    (resolver : Cid → Except MistError (Option Bytes)) (cid : Cid) : Nat :=
  match readAnswer setting store resolver cid MULTICODEC_RAW with
  | .ok block => block.length
  | .error _ => 0

/-- The bytes of the listed chunks that can be had. -/
def chunkBytes (setting : Setting) (store : Table Cid Bytes)
    (resolver : Cid → Except MistError (Option Bytes)) (manifest : FileManifest) : Nat :=
  (manifest.chunks.map (chunkLength setting store resolver)).sum

/-- A read asks for no more memory than its chunks fill and can be had at all, and
returns the blocks of the listed chunks and as many bytes as are declared. -/
structure ReadsSafely (setting : Setting) (store : Table Cid Bytes)
    (resolver : Cid → Except MistError (Option Bytes)) (root : Cid) (bits : Nat) : Prop where
  buffer : ∀ manifest left, EngineEnds setting (blockBackends setting store resolver) 0
    (openFile setting root) (.ok manifest) left →
      asUsize bits manifest.size ≤ chunkBytes setting store resolver manifest ∧
        asUsize bits manifest.size ≤ isizeMax bits
  exact : ∀ bytes left, EngineEnds setting (blockBackends setting store resolver) 0
    (get setting root) (.ok bytes) left →
      ∃ manifest blocks, manifestAt setting store resolver root = some manifest ∧
        List.Forall₂ (fun cid block =>
          readAnswer setting store resolver cid MULTICODEC_RAW = .ok block ∧
            verifyCid setting.sha256 cid block MULTICODEC_RAW = true) manifest.chunks blocks ∧
        bytes = blocks.flatten ∧ bytes.length = manifest.size

/-- The manifest declares no more than can be had and allocated; and if all its chunks can
be had, those that the store has are what they are listed as, and the size is right. -/
structure Honestly (setting : Setting) (store : Table Cid Bytes)
    (resolver : Cid → Except MistError (Option Bytes)) (bits : Nat) (manifest : FileManifest) :
    Prop where
  room : asUsize bits manifest.size ≤ chunkBytes setting store resolver manifest
  space : asUsize bits manifest.size ≤ isizeMax bits
  whole : (∀ cid ∈ manifest.chunks, ∃ block,
      readAnswer setting store resolver cid MULTICODEC_RAW = .ok block) →
    (∀ cid ∈ manifest.chunks, ∀ data, store.get cid = some data →
      verifyCid setting.sha256 cid data MULTICODEC_RAW = true) ∧
    chunkBytes setting store resolver manifest = manifest.size

theorem exists_of_forall₂ {R : Cid → Bytes → Prop} {cids : List Cid} {blocks : List Bytes}
    (h : List.Forall₂ R cids blocks) {cid : Cid} (hcid : cid ∈ cids) : ∃ block, R cid block := by
  induction h with
  | nil => cases hcid
  | cons hblock _ ih =>
    rcases List.mem_cons.mp hcid with rfl | hcid
    · exact ⟨_, hblock⟩
    · exact ih hcid

theorem chunkBytes_eq {blocks : List Bytes} (h : List.Forall₂ (fun cid block =>
    readAnswer setting store resolver cid MULTICODEC_RAW = .ok block) manifest.chunks blocks) :
    chunkBytes setting store resolver manifest = blocks.flatten.length := by
  unfold chunkBytes
  generalize manifest.chunks = cids at h
  induction h with
  | nil => rfl
  | cons hblock _ ih =>
    rw [List.map_cons, List.sum_cons, List.flatten_cons, List.length_append, ih, chunkLength, hblock]

theorem readAnswer_ok {cid : Cid} {codec : Nat} {block : Bytes}
    (h : readAnswer setting store resolver cid codec = .ok block) :
    store.get cid = some block ∨ verifyCid setting.sha256 cid block codec = true := by
  unfold readAnswer at h
  split at h
  · next data hstore =>
    cases h
    exact .inl hstore
  · split at h
    · cases h
    · cases h
    · split at h
      · cases h
        exact .inr ‹_›
      · cases h

theorem gather_returns (hall : ∀ cid ∈ manifest.chunks, ∃ block,
      readAnswer setting store resolver cid MULTICODEC_RAW = .ok block) :
    ∃ bytes left, EngineEnds setting (blockBackends setting store resolver) 0
      (gather setting manifest) (.ok bytes) left := by
  obtain ⟨r, left, hends⟩ := gather_ends setting store resolver manifest
  rcases ends_gather hends with ⟨e, _, cid, hcid, hfail⟩ | ⟨blocks, _, rfl⟩
  · obtain ⟨block, hblock⟩ := hall cid hcid
    have herror := mayAnswer_iff.mp hfail
    rw [hblock] at herror
    cases herror
  · exact ⟨_, left, hends⟩

theorem ReadsSafely.honestly (h : ReadsSafely setting store resolver root bits)
    (hmanifest : manifestAt setting store resolver root = some manifest) :
    Honestly setting store resolver bits manifest where
  room := (h.buffer manifest 0 (openFile_ends hmanifest)).1
  space := (h.buffer manifest 0 (openFile_ends hmanifest)).2
  whole := by
    intro hall
    obtain ⟨bytes, left, hends⟩ := gather_returns hall
    have hget : EngineEnds setting (blockBackends setting store resolver) 0 (get setting root)
        (.ok bytes) left := by
      rw [get_eq]
      exact (openFile_ends hmanifest).bind hends
    obtain ⟨manifest', blocks, hmanifest', hblocks, rfl, hlength⟩ := h.exact bytes left hget
    cases hmanifest.symm.trans hmanifest'
    constructor
    · intro cid hcid data hstore
      obtain ⟨block, hblock, hverify⟩ := exists_of_forall₂ hblocks hcid
      rw [readAnswer, hstore] at hblock
      cases hblock
      exact hverify
    · rw [chunkBytes_eq (hblocks.imp fun _ _ h => h.1), hlength]

/-- A root whose manifest is honest is read safely. -/
theorem readsSafely_of_honestly (h : ∀ manifest, manifestAt setting store resolver root = some manifest →
    Honestly setting store resolver bits manifest) :
    ReadsSafely setting store resolver root bits where
  buffer := by
    intro manifest left hopened
    have hhonest := h manifest (ends_openFile hopened).1
    exact ⟨hhonest.room, hhonest.space⟩
  exact := by
    intro bytes left hget
    rw [get_eq] at hget
    rcases hget.of_bind with ⟨manifest, mid, hopened, hgathered⟩ | ⟨e, he, _⟩
    · obtain ⟨hmanifest, rfl⟩ := ends_openFile hopened
      rcases ends_gather hgathered with ⟨e, he, _⟩ | ⟨blocks, hblocks, heq⟩
      · cases he
      · cases heq
        have hanswers : List.Forall₂ (fun cid block =>
            readAnswer setting store resolver cid MULTICODEC_RAW = .ok block) manifest.chunks blocks :=
          hblocks.imp fun _ _ hanswer => (mayAnswer_iff.mp hanswer).symm
        obtain ⟨hstored, hsize⟩ := (h manifest hmanifest).whole fun cid hcid =>
          exists_of_forall₂ hanswers hcid
        have hboth := (List.forall₂_and_left _ _).mpr ⟨hstored, hanswers⟩
        refine ⟨manifest, blocks, hmanifest, hboth.imp ?_, rfl,
          (chunkBytes_eq hanswers).symm.trans hsize⟩
        rintro cid block ⟨hheld, hanswer⟩
        refine ⟨hanswer, ?_⟩
        rcases readAnswer_ok hanswer with hstore | hverify
        · exact hheld block hstore
        · exact hverify
    · cases he

end Hostile

/-- A read is safe and exact if and only if the manifest that the root leads to, if there
is one, is honest. -/
theorem readsSafely_iff (setting : Setting) (store : Table Cid Bytes)
    (resolver : Cid → Except MistError (Option Bytes)) (root : Cid) (bits : Nat) :
    ReadsSafely setting store resolver root bits ↔
      ∀ manifest, manifestAt setting store resolver root = some manifest →
        Honestly setting store resolver bits manifest :=
  ⟨fun h _ hmanifest => h.honestly hmanifest, readsSafely_of_honestly⟩

end Engine

/-! ### A file of no chunks and all bytes -/

namespace Sample

/-- A manifest that declares the largest size and lists nothing. -/
def endless : FileManifest := { name := "", size := 2 ^ 64 - 1, chunks := [] }

def endlessRoot : Cid := "bafyreifvm55hagtd24xqdserfqgzmcz24zavvr2hwx4f7dur6a4rbg6rve"

def endlessText : Bytes :=
  [0xa3, 0x64] ++ ascii "name" ++ [0x60, 0x64] ++ ascii "size" ++
    [0x1b, 0xff, 0xff, 0xff, 0xff, 0xff, 0xff, 0xff, 0xff, 0x66] ++ ascii "chunks" ++ [0x80]

def endlessDigest : Bytes :=
  [0xb5, 0x67, 0x7a, 0x70, 0x1a, 0x63, 0xd7, 0x2f, 0x01, 0xc8, 0x91, 0x2c, 0x0d, 0x96, 0x0b, 0x3a,
    0xe6, 0x41, 0x5a, 0xc7, 0x47, 0xb5, 0xf8, 0x5f, 0x8e, 0x91, 0xf0, 0x39, 0x10, 0x9b, 0xd1, 0xa9]

def endlessSetting : Setting :=
  { setting true with
    sha256 := digestOf [(endlessText, endlessDigest)]
    manifests := .ofTexts [(endless, endlessText)] (by decide +kernel) }

/-- A peer that sends the manifest for its own content id. -/
def endlessPeer (cid : Cid) : Except MistError (Option Bytes) :=
  if cid = endlessRoot then .ok (some endlessText) else .ok none

end Sample

open Engine Sample in
/-- A read of that manifest asks for the largest buffer, and no chunk comes. -/
theorem endlessManifest_unsafe :
    ¬ ∀ (setting : Setting) (store : Table Cid Bytes)
      (resolver : Cid → Except MistError (Option Bytes)) (root : Cid),
      ReadsSafely setting store resolver root 64 := by
  intro h
  have hmanifest : manifestAt endlessSetting ∅ endlessPeer endlessRoot = some endless := by
    decide +kernel
  have hroom := ((h endlessSetting ∅ endlessPeer endlessRoot).honestly hmanifest).room
  revert hroom
  decide +kernel

end Mistlib.Storage
