import Mathlib.Data.List.Destutter
import Mathlib.Data.List.Sort
import Mistlib.Data.Table
import Mistlib.Storage.Frame

/-!
# The WANT registry

Whoever wants a block registers a waiter for its content id, with the peers it will ask and, once
a request is on its way, the rooms it goes through. Chunks are put together per content id,
sender and room, and a complete block goes to every waiter that named the sender and the room.

A waiter's receiver can be dropped at any moment, also in the middle of an operation. An
operation therefore takes its `Surroundings`: what it finds at each of its looks at the
channels. The hash set of a waiter's rooms is a list without repetitions.
-/

namespace Mistlib.Storage

def MAX_WANT_ASSEMBLY_BYTES : Nat := 64 * 1024 * 1024
def MAX_WANT_ASSEMBLIES : Nat := 256
def MAX_PENDING_WANTS : Nat := 1024
def MAX_WANT_PEERS : Nat := 1024
def MAX_PEER_ID_BYTES : Nat := 256

/-- `u64::wrapping_add(1)`. -/
def wrappingSucc (n : Nat) : Nat := (n + 1) % 2 ^ 64

abbrev Room := String

abbrev Channel := Nat

/-- How many chunks an attempt has been sent and has taken. -/
structure ChunkProgress where
  received : Nat
  accepted : Nat
  lastAccepted : Option Instant
deriving DecidableEq, Repr

structure PendingWant where
  id : Nat
  paths : List Room
  resets : Nat
  progress : ChunkProgress
  peers : List NodeId
  tx : Channel
  byteLimit : Option (Nat × Channel)
deriving DecidableEq, Repr

/-- Whether the waiter asked this sender and did so through this room. -/
def PendingWant.covers (want : PendingWant) (sender : NodeId) (room : Room) : Bool :=
  sender ∈ want.peers ∧ room ∈ want.paths

/-- Whether a payload of `bytes` is over the waiter's own limit. -/
def PendingWant.overLimit (want : PendingWant) (bytes : Nat) : Bool :=
  match want.byteLimit with
  | some (limit, _) => bytes > limit
  | none => false

structure ChunkAssembly where
  totalChunks : Nat
  receivedChunks : Nat
  bytes : Nat
  chunks : List (Option Bytes)
deriving DecidableEq, Repr

namespace ChunkAssembly

def new (totalChunks : Nat) : ChunkAssembly where
  totalChunks := totalChunks
  receivedChunks := 0
  bytes := 0
  chunks := List.replicate totalChunks none

def place (a : ChunkAssembly) (chunkIndex : Nat) (data : Bytes) : ChunkAssembly where
  totalChunks := a.totalChunks
  receivedChunks := a.receivedChunks + 1
  bytes := a.bytes + data.length
  chunks := a.chunks.set chunkIndex (some data)

def chunk (a : ChunkAssembly) (chunkIndex : Nat) : Option Bytes := (a.chunks[chunkIndex]?).join

/-- The chunks in index order; a complete assembly has all of them. -/
def full (a : ChunkAssembly) : Bytes := a.chunks.flatMap fun part => part.getD []

end ChunkAssembly

abbrev AssemblyKey := Cid × NodeId × Room

/-- `channels` counts the oneshot channels made, so that each waiter has a
channel of its own. -/
structure WantState where
  pending : Table Cid (List PendingWant)
  assemblies : Table AssemblyKey ChunkAssembly
  nextAttempt : Nat
  progress : Table NodeId Nat
  senderActivity : Table NodeId Instant
  anyProgress : Nat
  queryPaths : Table (Room × NodeId) Nat
  channels : Nat

/-- What an operation finds around the registry: at each of its looks the
channels whose receiver is gone, the query paths somebody still observes, and
the time. -/
structure Surroundings where
  closed : Nat → Channel → Bool
  observed : Room × NodeId → Bool
  now : Instant

structure Delivery where
  cid : Cid
  want : PendingWant
  data : Bytes
deriving DecidableEq, Repr

inductive Outcome where
  | none
  | rejected
  | duplicate
  | accepted
  | completed
deriving DecidableEq, Repr

/-- What an operation leaves behind: the state, its verdict on a response,
what waiters were handed, and the sizes reported to bounded callers. -/
structure Effect where
  state : WantState
  outcome : Outcome := .none
  deliveries : List Delivery := []
  oversized : List (Channel × Nat) := []

namespace WantState

def default : WantState where
  pending := ∅
  assemblies := ∅
  nextAttempt := 0
  progress := ∅
  senderActivity := ∅
  anyProgress := 0
  queryPaths := ∅
  channels := 0

def wants (s : WantState) (cid : Cid) : List PendingWant := (s.pending.get cid).getD []

def accepts (s : WantState) (closed : Channel → Bool) (cid : Cid) (sender : NodeId)
    (room : Room) : Bool :=
  (s.wants cid).any fun want => !closed want.tx && want.covers sender room

/-- Drop the waiters whose receiver is gone, and then every assembly no
waiter is left for. -/
def prune (s : WantState) (env : Surroundings) (look : Nat) : WantState :=
  let pending := (s.pending.mapVals fun _ wants =>
    wants.filter fun want => !env.closed look want.tx).retain fun _ wants => !wants.isEmpty
  let senders := (pending.values.flatten).flatMap PendingWant.peers
  { s with
    queryPaths := s.queryPaths.retain fun path _ => env.observed path
    pending := pending
    assemblies := s.assemblies.retain fun key _ =>
      ((pending.get key.1).getD []).any fun want => want.covers key.2.1 key.2.2
    progress := if s.progress.size = 0 then s.progress
      else s.progress.retain fun sender _ => decide (sender ∈ senders)
    senderActivity := if s.progress.size = 0 then s.senderActivity
      else s.senderActivity.retain fun sender _ => decide (sender ∈ senders) }

/-- Count a response for every waiter it is meant for. -/
def observe (s : WantState) (cid : Cid) (sender : NodeId) (room : Room) (accepted : Bool)
    (now : Instant) : WantState :=
  { s with
    pending := s.pending.modify cid <| List.map fun want =>
      if want.covers sender room then
        { want with
          progress :=
            if accepted then
              { want.progress with
                accepted := want.progress.accepted + 1
                lastAccepted := some now }
            else { want.progress with received := want.progress.received + 1 } }
      else want }

def advanceProgress (s : WantState) (sender : NodeId) (now : Instant) : WantState :=
  { s with
    senderActivity := s.senderActivity.insert sender now
    anyProgress := wrappingSucc s.anyProgress
    progress := s.progress.insert sender (wrappingSucc ((s.progress.get sender).getD 0)) }

/-- Fail the bounded callers on this path whose limit `bytes` exceeds. -/
def enforceByteLimits (s : WantState) (env : Surroundings) (look : Nat) (cid : Cid)
    (sender : NodeId) (room : Room) (bytes : Nat) : WantState × List (Channel × Nat) :=
  let exceeded := fun (want : PendingWant) => want.covers sender room && want.overLimit bytes
  ({ s with
      pending := s.pending.modify cid (List.filter fun want => !exceeded want) }.prune env look,
    ((s.wants cid).filter exceeded).filterMap fun want => want.byteLimit.map fun l => (l.2, bytes))

/-- Hand a payload to every waiter that asked this sender through this room. -/
def fulfill (s : WantState) (env : Surroundings) (look : Nat) (cid : Cid) (sender : NodeId)
    (room : Room) (data : Bytes) : WantState × List Delivery :=
  match s.pending.get cid with
  | none => (s, [])
  | some wants =>
    let authorized := wants.filter fun want => want.covers sender room
    let remaining := wants.filter fun want => !want.covers sender room
    let pending := s.pending.erase cid
    let pending := if remaining.isEmpty then pending else pending.insert cid remaining
    ({ s with pending }.prune env (look + 1),
      (authorized.filter fun want => !env.closed look want.tx).map fun want => ⟨cid, want, data⟩)

/-- Change the first element that satisfies `p`. -/
def updateFirst {α : Type} (p : α → Bool) (f : α → α) : List α → List α
  | [] => []
  | x :: xs => if p x then f x :: xs else x :: updateFirst p f xs

def find (s : WantState) (attempt : Nat) : Option (Cid × PendingWant) :=
  s.pending.entries.findSome? fun e =>
    (e.2.find? fun want => want.id = attempt).map fun want => (e.1, want)

def updateAttempt (s : WantState) (attempt : Nat) (f : PendingWant → PendingWant) : WantState :=
  match s.find attempt with
  | some found =>
    { s with
      pending := s.pending.modify found.1 (updateFirst (fun want => want.id = attempt) f) }
  | none => s

end WantState

def bytesLe : Bytes → Bytes → Bool
  | [], _ => true
  | _ :: _, [] => false
  | x :: xs, y :: ys => x.toNat < y.toNat || (x == y && bytesLe xs ys)

/-- Peer lists are kept sorted and without repetitions. -/
def sortedPeers (peers : List NodeId) : List NodeId :=
  (peers.insertionSort fun a b => bytesLe (utf8 a.id) (utf8 b.id) = true).destutter (· ≠ ·)

/-- What a registration answers: the attempt and the channel its block comes on. -/
structure WantAttempt where
  id : Nat
  data : Channel
deriving DecidableEq, Repr

namespace WantState

/-- Register one attempt. Past the limits of the registry the attempt gets a
channel nobody will send on. -/
def registerAttemptForPeers (s : WantState) (env : Surroundings) (cid : Cid)
    (peers : List NodeId) (isLocal : Bool) : WantAttempt × WantState :=
  let s := s.prune env 0
  let id := wrappingSucc s.nextAttempt
  let tx := s.channels
  let s := { s with nextAttempt := id, channels := tx + 1 }
  if (utf8 cid).length > U8_MAX ∨ peers.isEmpty ∨ peers.length > MAX_WANT_PEERS ∨
      (peers.any fun peer => decide ((utf8 peer.id).length > MAX_PEER_ID_BYTES)) ∨
      s.pending.sumBy List.length ≥ MAX_PENDING_WANTS then
    (⟨id, tx⟩, s)
  else
    let want : PendingWant :=
      { id
        paths := if isLocal then [""] else []
        resets := 0
        progress := ⟨0, 0, none⟩
        peers := sortedPeers peers
        tx
        byteLimit := none }
    (⟨id, tx⟩, { s with pending := s.pending.insert cid (s.wants cid ++ [want]) })

/-- The second half of `register_bounded_attempt`, in a critical section of its own. -/
def setByteLimit (s : WantState) (attempt maxBytes : Nat) : WantState :=
  { s with channels := s.channels + 1 }.updateAttempt attempt fun want =>
    { want with byteLimit := some (min maxBytes MAX_WANT_BLOCK_BYTES, s.channels) }

def trackPath (s : WantState) (attempt : Nat) (room : Room) : Bool × WantState :=
  (((s.find attempt).map fun found => decide (room ∉ found.2.paths)).getD false,
    s.updateAttempt attempt fun want => { want with paths := want.paths.insert room })

def untrackPath (s : WantState) (env : Surroundings) (attempt : Nat) (room : Room) : WantState :=
  (s.updateAttempt attempt fun want =>
    { want with paths := want.paths.filter fun path => path ≠ room }).prune env 0

def fulfillDataIn (s : WantState) (env : Surroundings) (room : Room) (cid : Cid)
    (sender : NodeId) (data : Bytes) : Effect :=
  let s := (s.prune env 0).observe cid sender room false env.now
  let (s, oversized) := s.enforceByteLimits env 1 cid sender room data.length
  if data.length ≤ MAX_WANT_BLOCK_BYTES ∧ s.accepts (env.closed 2) cid sender room then
    let s := (s.observe cid sender room true env.now).advanceProgress sender env.now
    let (state, deliveries) := s.fulfill env 3 cid sender room data
    { state, outcome := .completed, deliveries, oversized }
  else { state := s, outcome := .rejected, oversized }

/-- A chunk has passed all checks: put it in its place, and hand the block
out when it was the last one. -/
def storeChunk (s : WantState) (env : Surroundings) (room : Room) (cid : Cid) (sender : NodeId)
    (chunkIndex chunkTotal : Nat) (data : Bytes) : Effect :=
  let key := (cid, sender, room)
  let entry := ((s.assemblies.get key).getD (.new chunkTotal)).place chunkIndex data
  let s := { s with assemblies := s.assemblies.insert key entry }
  let s := (s.observe cid sender room true env.now).advanceProgress sender env.now
  if entry.receivedChunks = entry.totalChunks then
    let s := { s with assemblies := s.assemblies.erase key }
    let (state, deliveries) := s.fulfill env 4 cid sender room entry.full
    { state, outcome := .completed, deliveries }
  else { state := s, outcome := .accepted }

def assembledBytes (s : WantState) (key : AssemblyKey) : Nat :=
  ((s.assemblies.get key).map ChunkAssembly.bytes).getD 0

/-- The byte and count limits, checked after the header and the slot. -/
def limitChunk (s : WantState) (env : Surroundings) (room : Room) (cid : Cid) (sender : NodeId)
    (chunkIndex chunkTotal : Nat) (data : Bytes) : Effect :=
  let key := (cid, sender, room)
  let bytes := s.assembledBytes key + data.length
  let (s, oversized) := s.enforceByteLimits env 2 cid sender room bytes
  if ¬ s.accepts (env.closed 3) cid sender room ∨ bytes > MAX_WANT_BLOCK_BYTES then
    { state := s, outcome := .rejected, oversized }
  else if ¬ s.assemblies.contains key ∧ s.assemblies.size ≥ MAX_WANT_ASSEMBLIES then
    { state := s, outcome := .rejected, oversized }
  else if s.assemblies.sumBy ChunkAssembly.bytes + data.length > MAX_WANT_ASSEMBLY_BYTES then
    { state := s, outcome := .rejected, oversized }
  else { s.storeChunk env room cid sender chunkIndex chunkTotal data with oversized }

def fulfillChunkDataIn (s : WantState) (env : Surroundings) (room : Room) (cid : Cid)
    (sender : NodeId) (chunkIndex chunkTotal : Nat) (data : Bytes) : Effect :=
  let s := (s.prune env 0).observe cid sender room false env.now
  if chunkTotal = 0 ∨ chunkTotal > MAX_WANT_CHUNKS ∨ chunkIndex ≥ chunkTotal then
    { state := s, outcome := .rejected }
  else if ¬ s.accepts (env.closed 1) cid sender room then { state := s, outcome := .rejected }
  else
    match s.assemblies.get (cid, sender, room) with
    | some entry =>
      -- Never reset an assembly in response to contradictory metadata.
      if entry.totalChunks ≠ chunkTotal then { state := s, outcome := .rejected }
      else if (entry.chunk chunkIndex).isSome then { state := s, outcome := .duplicate }
      else s.limitChunk env room cid sender chunkIndex chunkTotal data
    | none => s.limitChunk env room cid sender chunkIndex chunkTotal data

/-- A sender, or every sender, is gone from a room: what it had sent so far
is dropped, and the attempts that asked it are told. -/
def resetPath (s : WantState) (env : Surroundings) (sender : Option NodeId) (room : Room) :
    WantState :=
  let s := s.prune env 0
  let gone := fun (peer : NodeId) => decide (∀ sender' ∈ sender, sender' = peer)
  { s with
    queryPaths := s.queryPaths.mapVals fun path counter =>
      if path.1 = room ∧ gone path.2 then wrappingSucc counter else counter
    assemblies := s.assemblies.retain fun key _ => decide (key.2.2 ≠ room) || !gone key.2.1
    pending := s.pending.mapVals fun _ wants => wants.map fun want =>
      if decide (∀ sender' ∈ sender, sender' ∈ want.peers) && decide (room ∈ want.paths) then
        { want with resets := wrappingSucc want.resets }
      else want }

def cancel (s : WantState) (env : Surroundings) (cid : Cid) : WantState :=
  { s with
    pending := s.pending.erase cid
    assemblies := s.assemblies.retain fun key _ => decide (key.1 ≠ cid) }.prune env 0

/-- Watch a sender's progress; a sender nobody waits for gets no entry. -/
def subscribeProgress (s : WantState) (env : Surroundings) (sender : NodeId) : WantState :=
  let s := s.prune env 0
  if s.pending.values.flatten.any fun want => decide (sender ∈ want.peers) then
    { s with progress := s.progress.insert sender ((s.progress.get sender).getD 0) }
  else s

/-- Watch the resets of a path a query goes through. -/
def queryPathResets (s : WantState) (env : Surroundings) (room : Room) (peer : NodeId) :
    WantState :=
  let s := s.prune env 0
  { s with queryPaths :=
      s.queryPaths.insert (room, peer) ((s.queryPaths.get (room, peer)).getD 0) }

end WantState

/-! ## The operations -/

inductive WantOp where
  | registerForPeers (cid : Cid) (peers : List NodeId) (isLocal : Bool)
  | setByteLimit (attempt maxBytes : Nat)
  | trackPath (attempt : Nat) (room : Room)
  | untrackPath (attempt : Nat) (room : Room)
  | fulfill (room : Room) (cid : Cid) (sender : NodeId) (data : Bytes)
  | fulfillChunk (room : Room) (cid : Cid) (sender : NodeId) (chunkIndex chunkTotal : Nat)
      (data : Bytes)
  | senderReset (sender : NodeId) (room : Room)
  | roomReset (room : Room)
  | cancel (cid : Cid)
  | cancelClosed
  | subscribeProgress (sender : NodeId)
  | queryPathResets (room : Room) (peer : NodeId)
deriving DecidableEq, Repr

def WantOp.apply (op : WantOp) (env : Surroundings) (s : WantState) : Effect :=
  match op with
  | .registerForPeers cid peers isLocal =>
    { state := (s.registerAttemptForPeers env cid peers isLocal).2 }
  | .setByteLimit attempt maxBytes => { state := s.setByteLimit attempt maxBytes }
  | .trackPath attempt room => { state := (s.trackPath attempt room).2 }
  | .untrackPath attempt room => { state := s.untrackPath env attempt room }
  | .fulfill room cid sender data => s.fulfillDataIn env room cid sender data
  | .fulfillChunk room cid sender chunkIndex chunkTotal data =>
    s.fulfillChunkDataIn env room cid sender chunkIndex chunkTotal data
  | .senderReset sender room => { state := s.resetPath env (some sender) room }
  | .roomReset room => { state := s.resetPath env none room }
  | .cancel cid => { state := s.cancel env cid }
  | .cancelClosed => { state := s.prune env 0 }
  | .subscribeProgress sender => { state := s.subscribeProgress env sender }
  | .queryPathResets room peer => { state := s.queryPathResets env room peer }

end Mistlib.Storage
