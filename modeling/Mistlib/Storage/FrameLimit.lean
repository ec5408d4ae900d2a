import Mistlib.Overlay.WireFormat
import Mistlib.Storage.Transfer

/-!
# Chunks in their envelopes

`chunk_size_for_limit` leaves room for the envelope that the overlay puts around each
`HAVE_CHUNK`: a margin of 512 bytes, whatever the ids of the two nodes. This module
compares the frames that go out with the limit they are cut for.
-/

namespace Mistlib.Storage

open OverlayEnvelope (DocumentedLengths)

/-- The bytes of a limit that are kept from the chunk. -/
def reserved (cid : Cid) : Nat :=
  HAVE_CHUNK_HEADER_LEN + (utf8 cid).length + OVERLAY_ENVELOPE_SAFETY_MARGIN

/-- Every `HAVE_CHUNK` of the block can be built, and is within the limit once it is in its
envelope. -/
def ChunksFit (serialize : OverlayEnvelope → Except String Bytes) (e : OverlayEnvelope) (cid : Cid)
    (data : Bytes) (limit : Nat) : Prop :=
  ∀ total, haveChunkCount data.length (chunkSizeForLimit cid (some limit)) = some total → 1 < total →
    ∀ index < total, ∃ payload frame,
      buildHavePayload cid data index total (chunkSizeForLimit cid (some limit)) = some payload ∧
        serialize (e.carrying payload) = .ok frame ∧ frame.length ≤ limit

/-- What the envelope adds to a payload of a full chunk. -/
def envelopeOverhead (e : OverlayEnvelope) : Nat := e.headerLength + 4

/-- The envelope takes no more than the margin and what a chunk of the largest size
leaves of the limit, or the block goes out whole. -/
def MarginSuffices (e : OverlayEnvelope) (cid : Cid) (data : Bytes) (limit : Nat) : Prop :=
  data.length ≤ chunkSizeForLimit cid (some limit) ∨
    envelopeOverhead e ≤
      OVERLAY_ENVELOPE_SAFETY_MARGIN + (limit - reserved cid - chunkSizeForLimit cid (some limit))

/-! ### Lengths -/

variable {serialize : OverlayEnvelope → Except String Bytes} {e : OverlayEnvelope} {cid : Cid} {data : Bytes} {limit chunkSize total : Nat}

theorem chunkSizeForLimit_usable (h : reserved cid + MIN_CHUNK_SIZE ≤ limit) :
    chunkSizeForLimit cid (some limit) = min (limit - reserved cid) HAVE_CHUNK_SIZE := by
  have husable : reserved cid ≤ limit ∧ limit - reserved cid ≥ MIN_CHUNK_SIZE := by omega
  exact if_pos husable

theorem length_buildHaveChunkMessage (cid : Cid) (index total : Nat) (data : Bytes) :
    (buildHaveChunkMessage cid index total data).length =
      HAVE_CHUNK_HEADER_LEN + (utf8 cid).length + data.length := by
  simp only [buildHaveChunkMessage, toBeBytes, HAVE_CHUNK_HEADER_LEN, List.length_cons,
    List.length_append, List.length_nil]
  omega

theorem length_build_le (cid : Cid) (data : Bytes) (chunkSize : Nat) (htotal : 1 < total) (index : Nat) :
    (frameOf cid data chunkSize total index).build.length ≤
      HAVE_CHUNK_HEADER_LEN + (utf8 cid).length + chunkSize := by
  rw [frameOf, if_neg (Nat.not_le.mpr htotal), StorageFrame.build, length_buildHaveChunkMessage, slice,
    List.length_drop, List.length_take, Nat.succ_mul]
  omega

theorem length_build_first (htotal : 1 < total) (hdata : chunkSize ≤ data.length) :
    (frameOf cid data chunkSize total 0).build.length =
      HAVE_CHUNK_HEADER_LEN + (utf8 cid).length + chunkSize := by
  rw [frameOf, if_neg (Nat.not_le.mpr htotal), StorageFrame.build, length_buildHaveChunkMessage, slice,
    List.length_drop, List.length_take, Nat.succ_mul]
  omega

theorem length_payload_lt (hcid : isValidCid cid = true) (hchunk : chunkSize ≤ HAVE_CHUNK_SIZE) :
    HAVE_CHUNK_HEADER_LEN + (utf8 cid).length + chunkSize < 2 ^ 16 := by
  have hlength := utf8_length_of_valid hcid
  have hbounds : HAVE_CHUNK_HEADER_LEN + MAX_CID_LEN + HAVE_CHUNK_SIZE < 2 ^ 16 := by decide
  omega

theorem one_lt_haveChunkCount (hpos : 0 < chunkSize)
    (h : haveChunkCount data.length chunkSize = some total) :
    1 < total ↔ chunkSize < data.length := by
  unfold haveChunkCount at h
  simp only at h
  split at h
  · cases h
  · cases h
    rw [Nat.lt_iff_add_one_le, Nat.le_div_iff_mul_le hpos]
    omega

theorem limit_eq (hlimit : reserved cid + MIN_CHUNK_SIZE ≤ limit) :
    HAVE_CHUNK_HEADER_LEN + (utf8 cid).length + chunkSizeForLimit cid (some limit) +
      (OVERLAY_ENVELOPE_SAFETY_MARGIN +
        (limit - reserved cid - chunkSizeForLimit cid (some limit))) = limit := by
  have hsize := chunkSizeForLimit_usable hlimit
  have hreserved : reserved cid =
    HAVE_CHUNK_HEADER_LEN + (utf8 cid).length + OVERLAY_ENVELOPE_SAFETY_MARGIN := rfl
  omega

/-- Chunks that fit leave the margin for the wrapping. -/
theorem ChunksFit.marginSuffices (hlengths : DocumentedLengths serialize)
    (h : ChunksFit serialize e cid data limit) (hcid : isValidCid cid = true)
    (hdata : data.length ≤ MAX_WANT_BLOCK_BYTES) (hlimit : reserved cid + MIN_CHUNK_SIZE ≤ limit) :
    MarginSuffices e cid data limit := by
  by_cases hone : data.length ≤ chunkSizeForLimit cid (some limit)
  · exact .inl hone
  · right
    have hroom := limit_eq hlimit
    obtain ⟨hleast, hmost⟩ := chunkSizeForLimit_bounds cid (some limit)
    have hmin : MIN_CHUNK_SIZE = 1024 := rfl
    have hpayload := length_payload_lt hcid hmost
    obtain ⟨total, hcount, _, _, htight⟩ := haveChunkCount_legal hdata hleast
    have hmany := (one_lt_haveChunkCount (by omega) hcount).mpr (Nat.not_le.mp hone)
    obtain ⟨payload, frame, hbuilt, hframe, hfirst⟩ := h total hcount hmany 0 (by omega)
    rw [buildHavePayload_eq cid total (.inr (htight 0 (by omega)))] at hbuilt
    cases hbuilt
    obtain ⟨written, hwritten, hlength⟩ := hlengths e (frameOf cid data _ total 0).build
    rw [hframe] at hwritten
    cases hwritten
    rw [OverlayEnvelope.wireLength, length_build_first hmany (by omega),
      varintWidth_eq_three (by omega) hpayload] at hlength
    have htag : varintWidth 2 = 1 := rfl
    rw [envelopeOverhead]
    omega

/-- Where the margin suffices the chunks fit. -/
theorem MarginSuffices.chunksFit (hlengths : DocumentedLengths serialize)
    (h : MarginSuffices e cid data limit) (hcid : isValidCid cid = true)
    (hlimit : reserved cid + MIN_CHUNK_SIZE ≤ limit) : ChunksFit serialize e cid data limit := by
  intro total hcount hmany index hindex
  have hroom := limit_eq hlimit
  obtain ⟨hleast, hmost⟩ := chunkSizeForLimit_bounds cid (some limit)
  have hmin : MIN_CHUNK_SIZE = 1024 := rfl
  have hlong := (one_lt_haveChunkCount (by omega) hcount).mp hmany
  have hoverhead : envelopeOverhead e ≤ _ := h.resolve_left (Nat.not_le.mpr hlong)
  have hstart := chunk_begins (by omega) hcount hindex
  have hbuilt := buildHavePayload_eq cid total (.inr hstart)
  have hlength := length_build_le cid data (chunkSizeForLimit cid (some limit)) hmany index
  have hwidth := varintWidth_le_three (Nat.lt_of_le_of_lt hlength (length_payload_lt hcid hmost))
  obtain ⟨frame, hframe, htaken⟩ := hlengths e (frameOf cid data _ total index).build
  refine ⟨_, frame, hbuilt, hframe, ?_⟩
  have htag : varintWidth 2 = 1 := rfl
  rw [OverlayEnvelope.wireLength] at htaken
  rw [envelopeOverhead] at hoverhead
  omega

/-- The chunks fit exactly if the envelope's own bytes do. -/
theorem chunksFit_iff (hlengths : DocumentedLengths serialize) (e : OverlayEnvelope) {cid : Cid} (hcid : isValidCid cid = true) {data : Bytes}
    (hdata : data.length ≤ MAX_WANT_BLOCK_BYTES) {limit : Nat}
    (hlimit : reserved cid + MIN_CHUNK_SIZE ≤ limit) :
    ChunksFit serialize e cid data limit ↔ MarginSuffices e cid data limit :=
  ⟨fun h => h.marginSuffices hlengths hcid hdata hlimit, fun h => h.chunksFit hlengths hcid hlimit⟩

namespace Sample

/-- The lowest `width` bytes of a number, the lowest first. -/
def leBytes (width n : Nat) : Bytes := (List.range width).map fun i => UInt8.ofNat (n / 256 ^ i)

def varint (n : Nat) : Bytes :=
  if n < 251 then [UInt8.ofNat n]
  else if n < 2 ^ 16 then 251 :: leBytes 2 n
  else if n < 2 ^ 32 then 252 :: leBytes 4 n
  else 253 :: leBytes 8 n

def lengthPrefixed (bytes : Bytes) : Bytes := varint bytes.length ++ bytes

/-- The encoding of envelopes with a payload. -/
def encode (e : OverlayEnvelope) : Except String Bytes :=
  match e.content with
  | .raw payload => .ok (lengthPrefixed (utf8 e.source.id) ++ lengthPrefixed (utf8 e.dest.id) ++
      varint e.msgId ++ varint e.seq ++ varint e.hopCount ++ varint 2 ++ lengthPrefixed payload)
  | _ => .error "not a payload"

theorem length_varint (n : Nat) : (varint n).length = varintWidth n := by
  unfold varint varintWidth leBytes
  grind

theorem encode_lengths : DocumentedLengths encode := by
  intro e payload
  refine ⟨_, rfl, ?_⟩
  simp only [lengthPrefixed, List.length_append, length_varint, OverlayEnvelope.carrying,
    OverlayEnvelope.wireLength, OverlayEnvelope.headerLength, NodeId.width]
  omega

/-- An envelope between two nodes with ids of this many letters. -/
def letters (n : Nat) : OverlayEnvelope where
  source := ⟨String.ofList (List.replicate n 'a')⟩
  dest := ⟨String.ofList (List.replicate n 'b')⟩
  msgId := 1
  seq := 1
  hopCount := 0
  content := .raw []

end Sample

open Sample in
/-- Two chunks between nodes with short ids. -/
theorem chunksFit_iff_short :
    ChunksFit encode (letters 1) "ba" (List.replicate 1025 7) 1544 ↔
      MarginSuffices (letters 1) "ba" (List.replicate 1025 7) 1544 :=
  chunksFit_iff encode_lengths (letters 1) (by decide +kernel) (by decide +kernel) (by decide +kernel)

/-- Between nodes whose ids have at most 479 bytes together the chunks fit, whatever the numbers. -/
theorem chunksFit_of_ids (hlengths : DocumentedLengths serialize) (hcid : isValidCid cid = true)
    (hlimit : reserved cid + MIN_CHUNK_SIZE ≤ limit) (hhops : e.hopCount < 2 ^ 32)
    (hids : (utf8 e.source.id).length + (utf8 e.dest.id).length ≤ 479) :
    ChunksFit serialize e cid data limit := by
  refine MarginSuffices.chunksFit hlengths (.inr ?_) hcid hlimit
  have hsource := varintWidth_le_three (n := (utf8 e.source.id).length) (by omega)
  have hdest := varintWidth_le_three (n := (utf8 e.dest.id).length) (by omega)
  have hmsg := varintWidth_le_nine e.msgId
  have hseq := varintWidth_le_nine e.seq
  have hhop := varintWidth_le_five hhops
  have hmargin : OVERLAY_ENVELOPE_SAFETY_MARGIN = 512 := rfl
  simp only [envelopeOverhead, OverlayEnvelope.headerLength, NodeId.width]
  omega

open Sample in
theorem chunksFit_of_ids_short : ChunksFit encode (letters 1) "ba" (List.replicate 1025 7) 1544 :=
  chunksFit_of_ids encode_lengths (by decide +kernel) (by decide +kernel) (by decide) (by decide +kernel)

open Sample in
/-- Between nodes with the longest ids, a chunk of the least size is too large already. -/
theorem longIds_overrun :
    ¬ ∀ (serialize : OverlayEnvelope → Except String Bytes), DocumentedLengths serialize →
      ∀ (e : OverlayEnvelope) (cid : Cid) (data : Bytes) (limit : Nat),
      (utf8 e.source.id).length ≤ MAX_PEER_ID_BYTES → (utf8 e.dest.id).length ≤ MAX_PEER_ID_BYTES →
      e.msgId < 2 ^ 64 → e.seq < 2 ^ 64 → e.hopCount < 2 ^ 32 → isValidCid cid = true →
      data.length ≤ MAX_WANT_BLOCK_BYTES → reserved cid + MIN_CHUNK_SIZE ≤ limit →
      ChunksFit serialize e cid data limit := by
  intro h
  have hfit := h encode encode_lengths (letters 256) "ba" (List.replicate 1025 7) 1544 (by decide +kernel)
    (by decide +kernel) (by decide +kernel) (by decide +kernel) (by decide +kernel)
    (by decide +kernel) (by decide +kernel) (by decide +kernel)
  have hmargin := hfit.marginSuffices encode_lengths (by decide +kernel) (by decide +kernel) (by decide +kernel)
  revert hmargin
  unfold MarginSuffices
  decide +kernel

end Mistlib.Storage
