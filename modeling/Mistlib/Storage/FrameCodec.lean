import Mistlib.Storage.Frame

/-!
# The frame codec

What the builders write is what `classifyStorageFrame` reads, and nothing else is read: a payload
is accepted as a frame exactly when that frame's builder writes this payload.
-/

namespace Mistlib.Storage

/-! ## The remaining builders -/

def buildWantMessage (cid : Cid) : Bytes := MSG_WANT :: utf8 cid

def buildQueryMessage (cid : Cid) : Bytes := MSG_QUERY :: utf8 cid

def buildHaveStatusMessage (cid : Cid) : Bytes := MSG_HAVE_STATUS :: utf8 cid

namespace StorageFrame

def build : StorageFrame → Bytes
  | .want cid => buildWantMessage cid
  | .haveBlock cid data => buildHaveMessage cid data
  | .query cid => buildQueryMessage cid
  | .haveStatus cid => buildHaveStatusMessage cid
  | .haveChunk cid chunkIndex chunkTotal data =>
    buildHaveChunkMessage cid chunkIndex chunkTotal data

def cid : StorageFrame → Cid
  | .want cid | .haveBlock cid _ | .query cid | .haveStatus cid | .haveChunk cid _ _ _ => cid

/-- The chunk numbers of a frame are in range. -/
def Numbered : StorageFrame → Prop
  | .haveChunk _ chunkIndex chunkTotal _ =>
    chunkIndex < chunkTotal ∧ chunkTotal ≤ MAX_WANT_CHUNKS
  | _ => True

structure WellFormed (frame : StorageFrame) : Prop where
  valid : isValidCid frame.cid = true
  numbered : frame.Numbered

end StorageFrame

/-! ## Content ids in a frame -/

variable {cid : Cid}

theorem utf8_length_of_valid (h : isValidCid cid = true) : (utf8 cid).length ≤ MAX_CID_LEN := by
  unfold isValidCid at h
  split at h
  · cases h
  · next first rest hutf =>
    rw [hutf]
    split at h
    · cases h
    · next hlen =>
      simp only [Bool.or_eq_true, decide_eq_true_eq, not_or] at hlen
      simp only [List.length_cons]
      omega

theorem parseCid_eq_some_iff {bytes : Bytes} :
    parseCid bytes = some cid ↔ isValidCid cid = true ∧ utf8 cid = bytes := by
  unfold parseCid
  constructor
  · intro h
    split at h
    · cases h
    · obtain ⟨found, hfound, h⟩ := Option.bind_eq_some_iff.mp h
      split at h
      · next hvalid =>
        cases h
        exact ⟨hvalid, utf8_of_fromUtf8 hfound⟩
      · cases h
  · rintro ⟨hvalid, rfl⟩
    have hlen := utf8_length_of_valid hvalid
    have hconst : MAX_CID_LEN ≤ U8_MAX := by decide
    rw [if_neg (by omega), fromUtf8_utf8]
    simp [hvalid]

theorem cidLen_toNat (h : isValidCid cid = true) :
    (UInt8.ofNat (utf8 cid).length).toNat = (utf8 cid).length := by
  have hlen := utf8_length_of_valid h
  have hconst : MAX_CID_LEN < 2 ^ 8 := by decide
  rw [UInt8.toNat_ofNat']
  exact Nat.mod_eq_of_lt (by omega)

theorem prefixedCid_eq_some_iff {cidLen : UInt8} {body : Bytes} :
    (prefixOf cidLen.toNat body).bind parseCid = some cid ↔
      isValidCid cid = true ∧ cidLen = UInt8.ofNat (utf8 cid).length ∧
        body = utf8 cid ++ body.drop cidLen.toNat := by
  unfold prefixOf
  constructor
  · intro h
    split at h
    · next hle =>
      obtain ⟨hvalid, hbytes⟩ := parseCid_eq_some_iff.mp h
      refine ⟨hvalid, ?_, ?_⟩
      · rw [hbytes, List.length_take, Nat.min_eq_left hle]
        exact (UInt8.ofNat_toNat).symm
      · rw [hbytes, List.take_append_drop]
    · cases h
  · rintro ⟨hvalid, hlen, hbody⟩
    have hlen' : cidLen.toNat = (utf8 cid).length := by rw [hlen, cidLen_toNat hvalid]
    have htake : body.take cidLen.toNat = utf8 cid := by rw [hbody, hlen', List.take_left]
    have hle : cidLen.toNat ≤ body.length := by
      rw [hbody, hlen', List.length_append]
      omega
    rw [if_pos hle, htake]
    exact parseCid_eq_some_iff.mpr ⟨hvalid, rfl⟩

/-! ## Recognising each kind -/

variable {frame : StorageFrame}

theorem classifyHave_eq_some_iff {rest : Bytes} :
    classifyHave rest = some frame ↔
      ∃ cid data, isValidCid cid = true ∧ frame = .haveBlock cid data ∧
        rest = UInt8.ofNat (utf8 cid).length :: (utf8 cid ++ data) := by
  constructor
  · intro h
    cases rest with
    | nil => cases h
    | cons cidLen body =>
      simp only [classifyHave, bind, ← Option.bind_assoc] at h
      obtain ⟨cid, hcid, h⟩ := Option.bind_eq_some_iff.mp h
      obtain ⟨hvalid, hlen, hbody⟩ := prefixedCid_eq_some_iff.mp hcid
      cases h
      exact ⟨cid, _, hvalid, rfl, by rw [← hbody, ← hlen]⟩
  · rintro ⟨cid, data, hvalid, rfl, rfl⟩
    have hdrop : (utf8 cid ++ data).drop (UInt8.ofNat (utf8 cid).length).toNat = data := by
      rw [cidLen_toNat hvalid, List.drop_left]
    have hcid := prefixedCid_eq_some_iff.mpr ⟨hvalid, rfl, congrArg (utf8 cid ++ ·) hdrop.symm⟩
    simp only [classifyHave, bind, ← Option.bind_assoc, hcid, hdrop, Option.bind_some]

theorem fromBeBytes_toBeBytes {n : Nat} (h : n ≤ U16_MAX) :
    fromBeBytes (UInt8.ofNat (n / 256)) (UInt8.ofNat n) = n := by
  have hconst : U16_MAX = 65535 := rfl
  simp only [fromBeBytes, UInt8.toNat_ofNat']
  omega

theorem toBeBytes_fromBeBytes (hi lo : UInt8) : toBeBytes (fromBeBytes hi lo) = [hi, lo] := by
  have hlo := lo.toNat_lt
  have hhigh : UInt8.ofNat ((hi.toNat * 256 + lo.toNat) / 256) = hi := by
    rw [show (hi.toNat * 256 + lo.toNat) / 256 = hi.toNat by omega, UInt8.ofNat_toNat]
  have hlow : UInt8.ofNat (hi.toNat * 256 + lo.toNat) = lo := by
    apply UInt8.toNat_inj.mp
    rw [UInt8.toNat_ofNat']
    omega
  simp only [toBeBytes, fromBeBytes, hhigh, hlow]

theorem classifyHaveChunk_eq_some_iff {rest : Bytes} :
    classifyHaveChunk rest = some frame ↔
      ∃ cid chunkIndex chunkTotal data, isValidCid cid = true ∧
        chunkIndex < chunkTotal ∧ chunkTotal ≤ MAX_WANT_CHUNKS ∧
        frame = .haveChunk cid chunkIndex chunkTotal data ∧
        rest = UInt8.ofNat (utf8 cid).length ::
          (toBeBytes chunkIndex ++ toBeBytes chunkTotal ++ (utf8 cid ++ data)) := by
  constructor
  · intro h
    match rest, h with
    | cidLen :: i₁ :: i₀ :: t₁ :: t₀ :: body, h =>
      simp only [classifyHaveChunk, bind, ← Option.bind_assoc] at h
      split at h
      · cases h
      · next hrange =>
        obtain ⟨cid, hcid, h⟩ := Option.bind_eq_some_iff.mp h
        obtain ⟨hvalid, hlen, hbody⟩ := prefixedCid_eq_some_iff.mp hcid
        cases h
        refine ⟨cid, _, _, _, hvalid, by omega, by omega, rfl, ?_⟩
        rw [toBeBytes_fromBeBytes, toBeBytes_fromBeBytes, ← hbody, ← hlen]
        rfl
  · rintro ⟨cid, chunkIndex, chunkTotal, data, hvalid, hindex, htotal, rfl, rfl⟩
    have hconst : MAX_WANT_CHUNKS ≤ U16_MAX := by decide
    have hdrop : (utf8 cid ++ data).drop (UInt8.ofNat (utf8 cid).length).toNat = data := by
      rw [cidLen_toNat hvalid, List.drop_left]
    have hcid := prefixedCid_eq_some_iff.mpr ⟨hvalid, rfl, congrArg (utf8 cid ++ ·) hdrop.symm⟩
    simp only [toBeBytes, List.cons_append, List.nil_append, classifyHaveChunk, bind,
      ← Option.bind_assoc, hcid, hdrop, Option.bind_some]
    rw [fromBeBytes_toBeBytes (by omega), fromBeBytes_toBeBytes (by omega), if_neg (by omega)]

/-! ## The codec -/

/-- A payload is accepted as a frame exactly when the frame may travel and
its builder writes this payload. -/
theorem classifyStorageFrame_eq_some_iff {raw : Bytes} :
    classifyStorageFrame raw = some frame ↔ frame.WellFormed ∧ frame.build = raw := by
  constructor
  · intro h
    cases raw with
    | nil => cases h
    | cons tag rest =>
      simp only [classifyStorageFrame] at h
      split_ifs at h with hwant hquery hstatus hhave hchunk
      · obtain ⟨cid, hcid, rfl⟩ := Option.map_eq_some_iff.mp h
        obtain ⟨hvalid, rfl⟩ := parseCid_eq_some_iff.mp hcid
        exact ⟨⟨hvalid, trivial⟩, by rw [hwant]; rfl⟩
      · obtain ⟨cid, hcid, rfl⟩ := Option.map_eq_some_iff.mp h
        obtain ⟨hvalid, rfl⟩ := parseCid_eq_some_iff.mp hcid
        exact ⟨⟨hvalid, trivial⟩, by rw [hquery]; rfl⟩
      · obtain ⟨cid, hcid, rfl⟩ := Option.map_eq_some_iff.mp h
        obtain ⟨hvalid, rfl⟩ := parseCid_eq_some_iff.mp hcid
        exact ⟨⟨hvalid, trivial⟩, by rw [hstatus]; rfl⟩
      · obtain ⟨cid, data, hvalid, rfl, rfl⟩ := classifyHave_eq_some_iff.mp h
        exact ⟨⟨hvalid, trivial⟩, by rw [hhave]; rfl⟩
      · obtain ⟨cid, chunkIndex, chunkTotal, data, hvalid, hindex, htotal, rfl, rfl⟩ :=
          classifyHaveChunk_eq_some_iff.mp h
        exact ⟨⟨hvalid, hindex, htotal⟩, by rw [hchunk]; rfl⟩
  · rintro ⟨⟨hvalid, hnumbered⟩, rfl⟩
    cases frame with
    | want cid =>
      have hcid := parseCid_eq_some_iff.mpr ⟨hvalid, rfl⟩
      rw [StorageFrame.build, buildWantMessage, classifyStorageFrame, if_pos rfl]
      exact Option.map_eq_some_iff.mpr ⟨cid, hcid, rfl⟩
    | query cid =>
      have hcid := parseCid_eq_some_iff.mpr ⟨hvalid, rfl⟩
      rw [StorageFrame.build, buildQueryMessage, classifyStorageFrame, if_neg (by decide),
        if_pos rfl]
      exact Option.map_eq_some_iff.mpr ⟨cid, hcid, rfl⟩
    | haveStatus cid =>
      have hcid := parseCid_eq_some_iff.mpr ⟨hvalid, rfl⟩
      rw [StorageFrame.build, buildHaveStatusMessage, classifyStorageFrame, if_neg (by decide),
        if_neg (by decide), if_pos rfl]
      exact Option.map_eq_some_iff.mpr ⟨cid, hcid, rfl⟩
    | haveBlock cid data =>
      rw [StorageFrame.build, buildHaveMessage, classifyStorageFrame, if_neg (by decide),
        if_neg (by decide), if_neg (by decide), if_pos rfl]
      exact classifyHave_eq_some_iff.mpr ⟨cid, data, hvalid, rfl, rfl⟩
    | haveChunk cid chunkIndex chunkTotal data =>
      rw [StorageFrame.build, buildHaveChunkMessage, classifyStorageFrame, if_neg (by decide),
        if_neg (by decide), if_neg (by decide), if_neg (by decide), if_pos rfl]
      exact classifyHaveChunk_eq_some_iff.mpr
        ⟨cid, chunkIndex, chunkTotal, data, hvalid, hnumbered.1, hnumbered.2, rfl, rfl⟩

theorem classify_buildHaveMessage (h : isValidCid cid = true) (data : Bytes) :
    classifyStorageFrame (buildHaveMessage cid data) = some (.haveBlock cid data) :=
  classifyStorageFrame_eq_some_iff.mpr ⟨⟨h, trivial⟩, rfl⟩

theorem classify_buildHaveChunkMessage (h : isValidCid cid = true) {chunkIndex chunkTotal : Nat}
    (hindex : chunkIndex < chunkTotal) (htotal : chunkTotal ≤ MAX_WANT_CHUNKS) (data : Bytes) :
    classifyStorageFrame (buildHaveChunkMessage cid chunkIndex chunkTotal data) =
      some (.haveChunk cid chunkIndex chunkTotal data) :=
  classifyStorageFrame_eq_some_iff.mpr ⟨⟨h, hindex, htotal⟩, rfl⟩

/-- What a builder writes for a valid content id is classified as precisely what went in, a
payload that is accepted is the one its frame's builder writes, and a payload is that of one frame
only. -/
theorem storageFrame_codecExact :
    (∀ cid data chunkIndex chunkTotal, isValidCid cid = true → chunkIndex < chunkTotal →
      chunkTotal ≤ MAX_WANT_CHUNKS →
      classifyStorageFrame (buildWantMessage cid) = some (.want cid) ∧
      classifyStorageFrame (buildQueryMessage cid) = some (.query cid) ∧
      classifyStorageFrame (buildHaveStatusMessage cid) = some (.haveStatus cid) ∧
      classifyStorageFrame (buildHaveMessage cid data) = some (.haveBlock cid data) ∧
      classifyStorageFrame (buildHaveChunkMessage cid chunkIndex chunkTotal data) =
        some (.haveChunk cid chunkIndex chunkTotal data)) ∧
    (∀ raw frame, classifyStorageFrame raw = some frame → frame.build = raw) ∧
    (∀ frame frame' : StorageFrame, frame.WellFormed → frame'.WellFormed →
      frame.build = frame'.build → frame = frame') ∧
    ∀ raw frame frame', classifyStorageFrame raw = some frame →
      classifyStorageFrame raw = some frame' → frame = frame' := by
  refine ⟨?_, ?_, ?_, ?_⟩
  · intro cid data chunkIndex chunkTotal hvalid hindex htotal
    refine ⟨?_, ?_, ?_, classify_buildHaveMessage hvalid data,
      classify_buildHaveChunkMessage hvalid hindex htotal data⟩
    · exact classifyStorageFrame_eq_some_iff.mpr ⟨⟨hvalid, trivial⟩, rfl⟩
    · exact classifyStorageFrame_eq_some_iff.mpr ⟨⟨hvalid, trivial⟩, rfl⟩
    · exact classifyStorageFrame_eq_some_iff.mpr ⟨⟨hvalid, trivial⟩, rfl⟩
  · intro raw frame h
    exact (classifyStorageFrame_eq_some_iff.mp h).2
  · intro frame frame' hwell hwell' hbuild
    have h := classifyStorageFrame_eq_some_iff.mpr ⟨hwell, rfl⟩
    have h' := classifyStorageFrame_eq_some_iff.mpr ⟨hwell', rfl⟩
    rw [hbuild, h'] at h
    exact (Option.some.inj h).symm
  · intro raw frame frame' h h'
    rw [h] at h'
    exact Option.some.inj h'

/-- The second of two chunks of a block, and the payload that carries it. -/
theorem storageFrame_codecExact_secondChunk :
    classifyStorageFrame (buildHaveChunkMessage "ba" 1 2 [7]) = some (.haveChunk "ba" 1 2 [7]) ∧
      (StorageFrame.haveChunk "ba" 1 2 [7]).build = [5, 2, 0, 1, 0, 2, 98, 97, 7] := by
  have hread := (storageFrame_codecExact.1 "ba" [7] 1 2 (by decide +kernel) (by decide)
    (by decide)).2.2.2.2
  have hbytes : classifyStorageFrame [5, 2, 0, 1, 0, 2, 98, 97, 7] =
      some (.haveChunk "ba" 1 2 [7]) := by decide +kernel
  exact ⟨hread, storageFrame_codecExact.2.1 _ _ hbytes⟩

end Mistlib.Storage
