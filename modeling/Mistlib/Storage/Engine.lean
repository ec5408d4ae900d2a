import Mistlib.Async.Task
import Mistlib.Storage.Cid
import Mistlib.Storage.Manager

/-!
# The storage engine

`StorageEngine` as tasks over its backends. An operation is one lock scope
of the source (or several in a row with no await between them), a call is an
awaited backend call or the wait for `pin_registry_io`, and a job is one of
the engine's calls or one of the futures `add` and `get` run beside
themselves.
-/

namespace Mistlib.Storage

open Async

def CHUNK_SIZE : Nat := 1024 * 1024

structure FileManifest where
  name : String
  size : Nat
  chunks : List Cid
deriving DecidableEq, Repr

/-- The encoding of manifests, which belongs to a serialization library. -/
structure ManifestText where
  toVec : FileManifest → Except String Bytes
  fromSlice : Bytes → Except String FileManifest
  roundTrip : ∀ {m b}, toVec m = .ok b → fromSlice b = .ok m

/-- What an engine is built with: the libraries it uses, its configuration,
and which optional backends are attached. -/
structure Setting where
  sha256 : Bytes → Bytes
  manifests : ManifestText
  registries : RegistryText
  getConcurrency : Nat
  metaStore : Bool
  positionSource : Bool

/-- The engine's memory and what its backends hold. -/
structure World where
  manager : StorageManager
  pinRegistry : PinRegistry
  pinRegistryLoaded : Bool
  /-- The task that holds `pin_registry_io`. -/
  pinRegistryIo : Option Tid
  sweepCounter : Nat
  store : Table Cid Bytes
  /-- The entry of the metadata store under the registry's key. -/
  pins : Option Bytes

/-- A fresh engine over what the backends hold. -/
def World.new (maxCapacityBytes : Nat) (store : Table Cid Bytes) (pins : Option Bytes) : World where
  manager := .new maxCapacityBytes
  pinRegistry := .new
  pinRegistryLoaded := false
  pinRegistryIo := none
  sweepCounter := 0
  store
  pins

inductive Op where
  | touch (cid : Cid)
  | trackBlock (cid : Cid) (size : Nat) (position : Option Vector3)
  | untrackBlock (cid : Cid)
  | overCapacity
  /-- `eviction_candidates`, or its spatial form if there are positions. -/
  | victims (positions : List Vector3)
  | decayVictims (positions : List Vector3)
  /-- `pin_registry_loaded.load`. -/
  | registryLoaded
  | isPinned (root : Cid)
  /-- `registry.pin`, `pinned_cids` and `set_pinned`. -/
  | protect (root : Cid) (cids : List Cid)
  | forget (root : Cid)
  | snapshot
  /-- What a load leaves: the registry read, if there was one, its
  `pinned_cids` published, and the loaded flag set. -/
  | install (registry : Option PinRegistry)
  | republish
  /-- The guard of `pin_registry_io` is dropped. -/
  | unlockIo
  /-- `Vec::with_capacity`. -/
  | withCapacity (size : Nat)

/-- What an operation returns. An operation that publishes a protected set
returns it. -/
@[reducible] def Op.Res : Op → Type
  | .touch _ | .trackBlock _ _ _ | .untrackBlock _ => Unit
  | .overCapacity => Bool
  | .victims _ | .decayVictims _ => List Cid
  | .registryLoaded | .isPinned _ => Bool
  | .protect _ _ => Finset Cid
  | .forget _ | .snapshot => Bytes
  | .install _ => Unit
  | .republish => Finset Cid
  | .unlockIo | .withCapacity _ => Unit

inductive Call where
  | selfPositions
  | loadBlock (cid : Cid)
  | storeBlock (cid : Cid) (data : Bytes)
  | deleteBlock (cid : Cid)
  | resolveBlock (cid : Cid)
  | prefetchProviders (cids : List Cid)
  | metaGet
  | metaSet (data : Bytes)
  | lockIo

@[reducible] def Call.Ans : Call → Type
  | .selfPositions => List Vector3
  | .loadBlock _ => Except MistError (Option Bytes)
  | .storeBlock _ _ | .deleteBlock _ => Except MistError Unit
  | .resolveBlock _ => Except MistError (Option Bytes)
  | .prefetchProviders _ => Unit
  | .metaGet => Except MistError (Option Bytes)
  | .metaSet _ => Except MistError Unit
  | .lockIo => Unit

inductive Kind where
  | cid
  | bytes
  | block
  | unit
  | count
  | flag
  | written
  | fetched
deriving DecidableEq

@[reducible] def Kind.Out : Kind → Type
  | .cid => Cid
  | .bytes => Bytes
  | .block => Option Bytes
  | .unit => Unit
  | .count => Nat
  | .flag => Bool
  | .written => Cid × Nat
  | .fetched => Nat × Bytes

inductive Job : Kind → Type where
  | addAt (name : String) (data : Bytes) (position : Option Vector3) : Job .cid
  | addPinned (name : String) (data : Bytes) : Job .cid
  | get (root : Cid) : Job .bytes
  | getBlock (cid : Cid) : Job .block
  | pin (root : Cid) : Job .unit
  | unpin (root : Cid) : Job .unit
  | enforceCapacityLimit : Job .unit
  | runDecaySweep : Job .count
  | isPinned (root : Cid) : Job .flag
  /-- One of the chunk writes of an `add`. -/
  | writeChunk (cid : Cid) (chunk : Bytes) : Job .written
  /-- One of the chunk fetches of a `get`. -/
  | fetchChunk (index : Nat) (cid : Cid) : Job .fetched

/-- `add` is `add_at` without a position. -/
def Job.add (name : String) (data : Bytes) : Job .cid := .addAt name data none

abbrev engineSig : Signature where
  Op := Op
  Res := Op.Res
  Call := Call
  Ans := Call.Ans
  Kind := Kind
  Job := Job
  Out := Kind.Out
  Err := MistError

abbrev Engine (α : Type) := Prog engineSig α

instance : DecidableEq engineSig.Kind := inferInstanceAs (DecidableEq Kind)

namespace Engine

def perform (o : Op) : Engine o.Res := Prog.perform (S := engineSig) o

def call (c : Call) : Engine c.Ans := Prog.call (S := engineSig) c

/-- The `?` operator on a result. -/
def ofExcept {α : Type} (r : Except MistError α) : Engine α := Prog.ofExcept (S := engineSig) r

def spawn {κ : Kind} (job : Job κ) : Engine Unit := Prog.spawn (S := engineSig) job (.pure ())

def next (κ : Kind) : Engine (Option (Except MistError κ.Out)) :=
  Prog.next (S := engineSig) κ .pure

def throw {α : Type} (e : MistError) : Engine α := Prog.throw (S := engineSig) e

def overCapacity : Engine Bool := perform .overCapacity

def registryLoaded : Engine Bool := perform .registryLoaded

/-- `pin_registry.lock().is_pinned(..)`. -/
def registryHas (root : Cid) : Engine Bool := perform (.isPinned root)

def loadBlock (cid : Cid) : Engine (Option Bytes) := do ofExcept (← call (.loadBlock cid))

def storeBlock (cid : Cid) (data : Bytes) : Engine Unit := do
  ofExcept (← call (.storeBlock cid data))

/-- Hold `pin_registry_io` while `body` runs; the guard is dropped however it
ends. -/
def withIo {α : Type} (body : Engine α) : Engine α := do
  let _ ← call .lockIo
  let result ← body.attempt
  let _ ← perform .unlockIo
  ofExcept result

variable (setting : Setting)

def resolvePositionsForEviction : Engine (List Vector3) :=
  if setting.positionSource then call .selfPositions else pure []

def resolveAutoPosition : Engine (Option Vector3) := do
  return (← resolvePositionsForEviction setting).head?

/-- The part of `ensure_pin_registry_loaded` under the lock. -/
def loadPinRegistry : Engine Unit := do
  if ← registryLoaded then pure ()
  else
    match ← ofExcept (← call .metaGet) with
    | some bytes =>
      let registry ← ofExcept (setting.registries.fromJson bytes)
      perform (.install (some registry))
    | none => perform (.install none)

def ensurePinRegistryLoaded : Engine Unit := do
  if ← registryLoaded then pure ()
  else if setting.metaStore then withIo (loadPinRegistry setting)
  else pure ()

def persistPinRegistry : Engine Unit :=
  withIo do
    let bytes ← perform .snapshot
    ofExcept (← call (.metaSet bytes))

/-- The eviction loop of `enforce_capacity_limit`. -/
def evict : List Cid → Engine Unit
  | [] => pure ()
  | cid :: rest => do
    ofExcept (← call (.deleteBlock cid))
    perform (.untrackBlock cid)
    evict rest

/-- The load before victims are chosen, made only if there may be some. -/
def loadIfOver (exceeded : Bool) : Engine Unit :=
  if exceeded then ensurePinRegistryLoaded setting else pure ()

def enforceCapacityLimit : Engine Unit := do
  let positions ← resolvePositionsForEviction setting
  loadIfOver setting (← overCapacity)
  evict (← perform (.victims positions))

/-- The deletion loop of `run_decay_sweep`; a block that cannot be deleted
stays tracked. -/
def decay : List Cid → Nat → Engine Nat
  | [], evicted => pure evicted
  | cid :: rest, evicted => do
    match ← call (.deleteBlock cid) with
    | .ok _ =>
      perform (.untrackBlock cid)
      decay rest (evicted + 1)
    | .error _ => decay rest evicted

def runDecaySweep : Engine Nat := do
  let positions ← resolvePositionsForEviction setting
  if positions.isEmpty then pure 0
  else
    match ← (ensurePinRegistryLoaded setting).attempt with
    | .error _ => pure 0
    | .ok _ => decay (← perform (.decayVictims positions)) 0

def getBlock (cid : Cid) : Engine (Option Bytes) := do
  match ← loadBlock cid with
  | some data =>
    perform (.touch cid)
    return some data
  | none => return none

def unavailable (cid : Cid) : MistError :=
  .network ("Block unavailable locally; peer transfer failed or no provider answered: " ++ cid)

def resolveOrFetch (cid : Cid) (codec : Nat) : Engine Bytes := do
  match ← loadBlock cid with
  | some data =>
    perform (.touch cid)
    return data
  | none =>
    match ← ofExcept (← call (.resolveBlock cid)) with
    | none => throw (unavailable cid)
    | some data =>
      if verifyCid setting.sha256 cid data codec then
        let position ← resolveAutoPosition setting
        perform (.trackBlock cid data.length position)
        enforceCapacityLimit setting
        storeBlock cid data
        return data
      else throw (.internal "Hash mismatch")

/-- One chunk write of `add_at_inner`. -/
def writeChunk (cid : Cid) (chunk : Bytes) : Engine (Cid × Nat) := do
  storeBlock cid chunk
  return (cid, chunk.length)

/-- `data.chunks(CHUNK_SIZE)`. -/
def chunksOf (size : Nat) : Nat → Bytes → List Bytes
  | 0, _ | _ + 1, [] => []
  | fuel + 1, data => data.take size :: chunksOf size fuel (data.drop size)

def chunks (data : Bytes) : List Bytes := chunksOf CHUNK_SIZE data.length data

/-- The most chunk writes that `add_at_inner` keeps in flight. -/
def writeConcurrency : Nat := 4

/-- A chunk write has been collected: the block becomes tracked. -/
def trackWritten (position : Option Vector3) (written : Except MistError (Cid × Nat)) :
    Engine Unit := do
  let (doneCid, len) ← ofExcept written
  perform (.trackBlock doneCid len position)

/-- The first loop of `add_at_inner`; returns how many writes are left in
flight, with the content ids of the chunks. -/
def writeChunks (position : Option Vector3) : List Bytes → Nat → List Cid → Engine (Nat × List Cid)
  | [], inFlight, cids => pure (inFlight, cids)
  | chunk :: rest, inFlight, cids => do
    let cid := computeCid setting.sha256 chunk MULTICODEC_RAW
    spawn (.writeChunk cid chunk)
    if inFlight + 1 ≥ writeConcurrency then
      match ← next .written with
      | some written =>
        trackWritten position written
        enforceCapacityLimit setting
        writeChunks position rest inFlight (cids ++ [cid])
      | none =>
        enforceCapacityLimit setting
        writeChunks position rest (inFlight + 1) (cids ++ [cid])
    else writeChunks position rest (inFlight + 1) (cids ++ [cid])

/-- The second loop of `add_at_inner`, over the writes left in flight. -/
def drainWrites (position : Option Vector3) : Nat → Engine Unit
  | 0 => pure ()
  | inFlight + 1 => do
    match ← next .written with
    | some written =>
      trackWritten position written
      enforceCapacityLimit setting
      drainWrites position inFlight
    | none => pure ()

def serialized {α : Type} : Except String α → Except MistError α
  | .ok a => .ok a
  | .error e => .error (.serialization e)

def addAtInner (name : String) (data : Bytes) (position : Option Vector3) :
    Engine (Cid × List Cid) := do
  let position ← match position with
    | some p => pure (some p)
    | none => resolveAutoPosition setting
  let (inFlight, chunkCids) ← writeChunks setting position (chunks data) 0 []
  drainWrites setting position inFlight
  let manifest : FileManifest := { name, size := data.length, chunks := chunkCids }
  let manifestBytes ← ofExcept (serialized (setting.manifests.toVec manifest))
  let rootCid := computeCid setting.sha256 manifestBytes MULTICODEC_DAG_CBOR
  storeBlock rootCid manifestBytes
  perform (.trackBlock rootCid manifestBytes.length position)
  enforceCapacityLimit setting
  return (rootCid, chunkCids)

def addAt (name : String) (data : Bytes) (position : Option Vector3) : Engine Cid := do
  let (rootCid, _) ← addAtInner setting name data position
  return rootCid

def missing : List Cid → Engine (List Cid)
  | [] => pure []
  | cid :: rest => do
    let block ← loadBlock cid
    let others ← missing rest
    return if block.isNone then cid :: others else others

/-- The chunks of a file while they arrive: the bytes in place, the chunks
that came early, and the index of the next chunk. -/
structure Reassembly where
  result : Bytes
  pending : Std.ExtTreeMap Nat Bytes
  nextIndex : Nat

/-- Append the early chunks that have come to their turn. -/
def Reassembly.drain : Nat → Reassembly → Reassembly
  | 0, a => a
  | fuel + 1, a =>
    match a.pending[a.nextIndex]? with
    | some chunk =>
      drain fuel
        { result := a.result ++ chunk
          pending := a.pending.erase a.nextIndex
          nextIndex := a.nextIndex + 1 }
    | none => a

def Reassembly.insert (a : Reassembly) (index : Nat) (data : Bytes) : Reassembly :=
  if index = a.nextIndex then
    Reassembly.drain a.pending.size
      { a with result := a.result ++ data, nextIndex := a.nextIndex + 1 }
  else { a with pending := a.pending.insert index data }

/-- One chunk fetch of `get`. -/
def fetchChunk (index : Nat) (cid : Cid) : Engine (Nat × Bytes) := do
  let data ← resolveOrFetch setting cid MULTICODEC_RAW
  return (index, data)

/-- The first loop of `get`. -/
def fetchChunks (concurrency : Nat) :
    List Cid → Nat → Nat → Reassembly → Engine (Nat × Reassembly)
  | [], _, inFlight, a => pure (inFlight, a)
  | cid :: rest, index, inFlight, a => do
    spawn (.fetchChunk index cid)
    if inFlight + 1 ≥ concurrency then
      match ← next .fetched with
      | some fetched =>
        let (i, data) ← ofExcept fetched
        fetchChunks concurrency rest (index + 1) inFlight (a.insert i data)
      | none => fetchChunks concurrency rest (index + 1) (inFlight + 1) a
    else fetchChunks concurrency rest (index + 1) (inFlight + 1) a

/-- The second loop of `get`, over the fetches left in flight. -/
def drainFetches : Nat → Reassembly → Engine Reassembly
  | 0, a => pure a
  | inFlight + 1, a => do
    match ← next .fetched with
    | some fetched =>
      let (i, data) ← ofExcept fetched
      drainFetches inFlight (a.insert i data)
    | none => pure a

def readManifest (bytes : Bytes) : Engine FileManifest :=
  ofExcept (serialized (setting.manifests.fromSlice bytes))

def get (root : Cid) : Engine Bytes := do
  let manifestBytes ← resolveOrFetch setting root MULTICODEC_DAG_CBOR
  let manifest ← readManifest setting manifestBytes
  let absent ← missing manifest.chunks
  let _ ← call (.prefetchProviders absent)
  let concurrency := max 1 (min 64 setting.getConcurrency)
  perform (.withCapacity manifest.size)
  let (inFlight, a) ← fetchChunks concurrency manifest.chunks 0 0
    { result := [], pending := ∅, nextIndex := 0 }
  return (← drainFetches inFlight a).result

def pin (root : Cid) : Engine Unit := do
  if setting.metaStore then
    ensurePinRegistryLoaded setting
    if ← registryHas root then pure ()
    else
      let manifestBytes ← resolveOrFetch setting root MULTICODEC_DAG_CBOR
      let manifest ← readManifest setting manifestBytes
      let _ ← perform (.protect root (manifest.chunks ++ [root]))
      persistPinRegistry
  else throw (.internal "pin requires a MetaStore (StorageEngine::with_meta_store)")

def unpin (root : Cid) : Engine Unit := do
  if setting.metaStore then
    ensurePinRegistryLoaded setting
    let bytes ← perform (.forget root)
    ofExcept (← call (.metaSet bytes))
    let _ ← perform .republish
    return ()
  else throw (.internal "unpin requires a MetaStore (StorageEngine::with_meta_store)")

def isPinned (root : Cid) : Engine Bool := do
  match ← (ensurePinRegistryLoaded setting).attempt with
  | .error _ => pure false
  | .ok _ => registryHas root

def addPinned (name : String) (data : Bytes) : Engine Cid := do
  if setting.metaStore then
    ensurePinRegistryLoaded setting
    let (rootCid, cids) ← addAtInner setting name data none
    let _ ← perform (.protect rootCid (cids ++ [rootCid]))
    persistPinRegistry
    return rootCid
  else throw (.internal "add_pinned requires a MetaStore (StorageEngine::with_meta_store)")

end Engine

/-! ## What operations and calls do -/

structure Circumstance where
  /-- Whether a backend call succeeds. -/
  succeeds : Bool
  /-- Whether a write that fails has been made all the same. -/
  applied : Bool
  /-- The error of a call that fails. -/
  error : MistError
  resolved : Option Bytes
  positions : List Vector3
  scores : Scores
  /-- The capacity of an engine that takes over. -/
  capacity : Nat

namespace World

def perform (setting : Setting) : (o : Op) → Circumstance → World → o.Res × World
  | .touch cid, _, w => ((), { w with manager := w.manager.touch cid })
  | .trackBlock cid size position, _, w =>
    ((), { w with manager := w.manager.trackBlock cid size position })
  | .untrackBlock cid, _, w => ((), { w with manager := w.manager.untrackBlock cid })
  | .overCapacity, _, w => (decide (w.manager.currentUsage > w.manager.maxCapacityBytes), w)
  | .victims positions, c, w =>
    (if positions.isEmpty then w.manager.evictionCandidates
      else w.manager.spatialEvictionCandidates c.scores, w)
  | .decayVictims positions, c, w =>
    (w.manager.decayCandidates c.scores positions (w.sweepCounter + 1),
      { w with sweepCounter := w.sweepCounter + 1 })
  | .registryLoaded, _, w => (w.pinRegistryLoaded, w)
  | .isPinned root, _, w => (w.pinRegistry.isPinned root, w)
  | .protect root cids, _, w =>
    let registry := w.pinRegistry.pin root cids
    (registry.pinnedCids,
      { w with pinRegistry := registry, manager := w.manager.setPinned registry.pinnedCids })
  | .forget root, _, w =>
    let registry := w.pinRegistry.unpin root
    (setting.registries.print registry, { w with pinRegistry := registry })
  | .snapshot, _, w => (setting.registries.print w.pinRegistry, w)
  | .install (some registry), _, w =>
    ((), { w with
      pinRegistry := registry
      manager := w.manager.setPinned registry.pinnedCids
      pinRegistryLoaded := true })
  | .install none, _, w => ((), { w with pinRegistryLoaded := true })
  | .republish, _, w =>
    (w.pinRegistry.pinnedCids,
      { w with manager := w.manager.setPinned w.pinRegistry.pinnedCids })
  | .unlockIo, _, w => ((), { w with pinRegistryIo := none })
  | .withCapacity _, _, w => ((), w)

/-- A call to a backend, as it takes effect. -/
def answer : (c : Call) → Circumstance → Tid → World → Option (c.Ans × World)
  | .selfPositions, c, _, w => some (c.positions, w)
  | .loadBlock cid, c, _, w =>
    some (if c.succeeds then .ok (w.store.get cid) else .error c.error, w)
  | .storeBlock cid data, c, _, w =>
    if c.succeeds then some (.ok (), { w with store := w.store.insert cid data })
    else some (.error c.error, w)
  | .deleteBlock cid, c, _, w =>
    if c.succeeds then some (.ok (), { w with store := w.store.erase cid })
    else some (.error c.error, w)
  | .resolveBlock _, c, _, w =>
    some (if c.succeeds then .ok c.resolved else .error c.error, w)
  | .prefetchProviders _, _, _, w => some ((), w)
  | .metaGet, c, _, w => some (if c.succeeds then .ok w.pins else .error c.error, w)
  | .metaSet data, c, _, w =>
    if c.succeeds then some (.ok (), { w with pins := some data })
    else some (.error c.error, if c.applied then { w with pins := some data } else w)
  | .lockIo, _, t, w =>
    if w.pinRegistryIo = none then some ((), { w with pinRegistryIo := some t }) else none

/-- A task that is dropped drops the guard it holds. -/
def release (t : Tid) (w : World) : World :=
  if w.pinRegistryIo = some t then { w with pinRegistryIo := none } else w

/-- The engine is replaced by a fresh one over the same backends. -/
def restart (c : Circumstance) (w : World) : World := .new c.capacity w.store w.pins

end World

def Job.code (setting : Setting) : {κ : Kind} → Job κ → Engine κ.Out
  | _, .addAt name data position => Engine.addAt setting name data position
  | _, .addPinned name data => Engine.addPinned setting name data
  | _, .get root => Engine.get setting root
  | _, .getBlock cid => Engine.getBlock cid
  | _, .pin root => Engine.pin setting root
  | _, .unpin root => Engine.unpin setting root
  | _, .enforceCapacityLimit => Engine.enforceCapacityLimit setting
  | _, .runDecaySweep => Engine.runDecaySweep setting
  | _, .isPinned root => Engine.isPinned setting root
  | _, .writeChunk cid chunk => Engine.writeChunk cid chunk
  | _, .fetchChunk index cid => Engine.fetchChunk setting index cid

/-- Whether a job is one of the engine's calls. -/
def Job.entry : {κ : Kind} → Job κ → Bool
  | _, .writeChunk _ _ | _, .fetchChunk _ _ => false
  | _, _ => true

def engine (setting : Setting) : Machine engineSig World Circumstance where
  perform := World.perform setting
  answer := World.answer
  code := Job.code setting
  entry := Job.entry
  release := World.release
  renew := World.restart

end Mistlib.Storage
