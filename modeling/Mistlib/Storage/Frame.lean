import Mistlib.Types

/-!
# Storage frames

A raw payload is a storage frame when it starts with one of five tags and carries a well-formed
content id. `classifyStorageFrame` recognises such payloads, the `build…` functions make them,
and `chunkSizeForLimit` / `haveChunkCount` / `buildHavePayload` cut a block into the frames that
carry it.

The builders write the low sixteen bits of sixteen-bit fields, as a `u16` has no others.
-/

namespace Mistlib.Storage

abbrev Cid := String

def MAX_CID_LEN : Nat := 128

/-- A leading `b` followed by base32-lower characters only. -/
def isValidCid (cid : Cid) : Bool :=
  match utf8 cid with
  | [] => false
  | first :: rest =>
    if rest.length + 1 < 2 || rest.length + 1 > MAX_CID_LEN then false
    else if first != 98 then false
    else rest.all fun b => (97 ≤ b && b ≤ 122) || (50 ≤ b && b ≤ 55)

def MSG_WANT : UInt8 := 0x01
def MSG_HAVE : UInt8 := 0x02
def MSG_QUERY : UInt8 := 0x03
def MSG_HAVE_STATUS : UInt8 := 0x04
def MSG_HAVE_CHUNK : UInt8 := 0x05
def HAVE_CHUNK_SIZE : Nat := 16 * 1024
def MAX_WANT_BLOCK_BYTES : Nat := 8 * 1024 * 1024
def MAX_WANT_CHUNKS : Nat := 8192
def U8_MAX : Nat := 255
def U16_MAX : Nat := 65535

inductive StorageFrame where
  | want (cid : Cid)
  | haveBlock (cid : Cid) (data : Bytes)
  | query (cid : Cid)
  | haveStatus (cid : Cid)
  | haveChunk (cid : Cid) (chunkIndex chunkTotal : Nat) (data : Bytes)
deriving DecidableEq, Repr

/-- Big-endian bytes of a sixteen-bit number. -/
def toBeBytes (n : Nat) : Bytes := [UInt8.ofNat (n / 256), UInt8.ofNat n]

def fromBeBytes (hi lo : UInt8) : Nat := hi.toNat * 256 + lo.toNat

def parseCid (bytes : Bytes) : Option Cid :=
  if bytes.length > U8_MAX then none
  else do
    let cid ← fromUtf8 bytes
    if isValidCid cid then some cid else none

/-- `bytes.get(..n)` of the source: the first `n` bytes, if there are that many. -/
def prefixOf (n : Nat) (bytes : Bytes) : Option Bytes :=
  if n ≤ bytes.length then some (bytes.take n) else none

def classifyHave : Bytes → Option StorageFrame
  | [] => none
  | cidLen :: body => do
    let cid ← parseCid (← prefixOf cidLen.toNat body)
    some (.haveBlock cid (body.drop cidLen.toNat))

def classifyHaveChunk : Bytes → Option StorageFrame
  | cidLen :: i₁ :: i₀ :: t₁ :: t₀ :: body =>
    let chunkIndex := fromBeBytes i₁ i₀
    let chunkTotal := fromBeBytes t₁ t₀
    if chunkTotal = 0 ∨ chunkTotal > MAX_WANT_CHUNKS ∨ chunkIndex ≥ chunkTotal then none
    else do
      let cid ← parseCid (← prefixOf cidLen.toNat body)
      some (.haveChunk cid chunkIndex chunkTotal (body.drop cidLen.toNat))
  | _ => none

/-- Recognise a storage frame among arbitrary payloads. -/
def classifyStorageFrame : Bytes → Option StorageFrame
  | [] => none
  | tag :: rest =>
    if tag = MSG_WANT then (parseCid rest).map .want
    else if tag = MSG_QUERY then (parseCid rest).map .query
    else if tag = MSG_HAVE_STATUS then (parseCid rest).map .haveStatus
    else if tag = MSG_HAVE then classifyHave rest
    else if tag = MSG_HAVE_CHUNK then classifyHaveChunk rest
    else none

def buildHaveMessage (cid : Cid) (data : Bytes) : Bytes :=
  MSG_HAVE :: UInt8.ofNat (utf8 cid).length :: (utf8 cid ++ data)

def buildHaveChunkMessage (cid : Cid) (chunkIndex chunkTotal : Nat) (data : Bytes) : Bytes :=
  MSG_HAVE_CHUNK :: UInt8.ofNat (utf8 cid).length ::
    (toBeBytes chunkIndex ++ toBeBytes chunkTotal ++ (utf8 cid ++ data))

def HAVE_CHUNK_HEADER_LEN : Nat := 6
def OVERLAY_ENVELOPE_SAFETY_MARGIN : Nat := 512
def MIN_CHUNK_SIZE : Nat := 1024

/-- The chunk size for a peer's message limit; an unknown or implausibly
small limit keeps the default. -/
def chunkSizeForLimit (cid : Cid) : Option Nat → Nat
  | none => HAVE_CHUNK_SIZE
  | some limit =>
    let overhead := HAVE_CHUNK_HEADER_LEN + (utf8 cid).length + OVERLAY_ENVELOPE_SAFETY_MARGIN
    if overhead ≤ limit ∧ limit - overhead ≥ MIN_CHUNK_SIZE then
      min (limit - overhead) HAVE_CHUNK_SIZE
    else HAVE_CHUNK_SIZE

/-- The number of chunks of a block, if the wire's sixteen bits hold it. -/
def haveChunkCount (dataLen chunkSize : Nat) : Option Nat :=
  let chunkCount := (dataLen + chunkSize - 1) / chunkSize
  if chunkCount > U16_MAX then none else some chunkCount

/-- The frame that carries chunk `chunkIndex`: one `HAVE` when the block is a
single chunk, else a `HAVE_CHUNK` with that chunk's slice. A slice out of range panics. -/
def buildHavePayload (cid : Cid) (data : Bytes) (chunkIndex totalChunks chunkSize : Nat) : Option Bytes :=
  if totalChunks ≤ 1 then some (buildHaveMessage cid data)
  else
    let start := chunkIndex * chunkSize
    let stop := min ((chunkIndex + 1) * chunkSize) data.length
    if start ≤ stop ∧ stop ≤ data.length then
      some (buildHaveChunkMessage cid chunkIndex totalChunks ((data.take stop).drop start))
    else none

/-- The frames `send_block` hands to the transport, in order. -/
def sendBlockFrames (cid : Cid) (data : Bytes) (chunkSize totalChunks : Nat) : Option (List Bytes) :=
  (List.range (max totalChunks 1)).mapM fun index =>
    buildHavePayload cid data index totalChunks chunkSize

end Mistlib.Storage
