import Mistlib.Data.Checked
import Mistlib.Media.RtpBridge

/-!
# Scanning an aggregate

Two functions walk the units of an aggregate: one for the parameter sets, one for a key
frame. Here they are as the source has them, with every index and every slice checked.
They never go out of range, and what they find are the units that are there whole.
-/

namespace Mistlib.Media.Aggregates

open Checked (index slice index_ok slice_ok ok_bind Completes)

def NAL_TYPE_IDR : UInt8 := 5

/-! ## The functions -/

/-- The loop over the units of an aggregate from `pos` on, which `extract_from_stap_a` and
`is_idr_nal` both have. `visit` is its body. -/
def scanUnits {σ : Type} (visit : σ → Bytes → ForInStep σ) (payload : Bytes) (found : σ) (pos : Nat) :
    Checked σ :=
  if _ : pos + 2 ≤ payload.length then
    index payload pos >>= fun high =>
    index payload (pos + 1) >>= fun low =>
    let size := high.toNat <<< 8 ||| low.toNat
    if pos + 2 + size > payload.length then .ok found
    else
      slice payload (pos + 2) (pos + 2 + size) >>= fun unit =>
      match visit found unit with
      | .done found => .ok found
      | .yield found => scanUnits visit payload found (pos + 2 + size)
  else .ok found
termination_by payload.length - pos

def extractFromStapA (payload : Bytes) : Checked SpsPps :=
  scanUnits (fun found unit => .yield (found.keep unit)) payload ⟨none, none⟩ 1

def extractFromFuA (payload : Bytes) : Checked SpsPps :=
  if payload.length > 1 then
    index payload 1 >>= fun header =>
    if header &&& FU_START_MASK ≠ 0 then
      let orig := header &&& NAL_MASK
      if orig = NAL_TYPE_SPS ∨ orig = NAL_TYPE_PPS then
        index payload 0 >>= fun indicator =>
        slice payload 2 payload.length >>= fun rest =>
        let unit := (indicator &&& 0xE0 ||| orig) :: rest
        .ok (if orig = NAL_TYPE_SPS then ⟨some unit, none⟩ else ⟨none, some unit⟩)
      else .ok ⟨none, none⟩
    else .ok ⟨none, none⟩
  else .ok ⟨none, none⟩

def extractSpsPps (payload : Bytes) (nalType : UInt8) : Checked (Option SpsPps) :=
  if payload.isEmpty then .ok none
  else
    (if nalType = NAL_TYPE_SPS then .ok ⟨some payload, none⟩
      else if nalType = NAL_TYPE_PPS then .ok ⟨none, some payload⟩
      else if nalType = NAL_TYPE_STAP_A then extractFromStapA payload
      else if nalType = NAL_TYPE_FU_A then extractFromFuA payload
      else .ok ⟨none, none⟩) >>= fun result =>
    .ok (if result.isEmpty then none else some result)

def isIdrNal (payload : Bytes) (nalType : UInt8) : Checked Bool :=
  if nalType = NAL_TYPE_IDR then .ok true
  else if nalType = NAL_TYPE_FU_A then
    if payload.length > 1 then
      index payload 1 >>= fun header =>
      .ok (header &&& FU_START_MASK != 0 && header &&& NAL_MASK == NAL_TYPE_IDR)
    else .ok false
  else if nalType = NAL_TYPE_STAP_A then
    scanUnits (fun found unit => if getNalType unit = NAL_TYPE_IDR then .done true else .yield found)
      payload false 1
  else .ok false

/-! ## The walk -/

/-- The units that are there whole behind their lengths. -/
def whole : Bytes → List Bytes
  | high :: low :: rest =>
    let size := high.toNat * 256 + low.toNat
    if rest.length < size then [] else rest.take size :: whole (rest.drop size)
  | _ => []
termination_by payload => payload.length
decreasing_by
  rw [List.length_drop, List.length_cons, List.length_cons]
  omega

/-- The body of the loop on unit after unit, until it returns. -/
def visitAll {σ : Type} (visit : σ → Bytes → ForInStep σ) (found : σ) : List Bytes → σ
  | [] => found
  | unit :: units =>
    match visit found unit with
    | .done found => found
    | .yield found => visitAll visit found units

theorem sizeField (high low : UInt8) : high.toNat <<< 8 ||| low.toNat = high.toNat * 256 + low.toNat := by
  have hlow : low.toNat < 2 ^ 8 := low.toNat_lt
  rw [← Nat.shiftLeft_add_eq_or_of_lt hlow, Nat.shiftLeft_eq]

/-- The walk by positions visits what is whole behind the position it starts from. -/
theorem scanUnits_eq {σ : Type} (visit : σ → Bytes → ForInStep σ) (payload : Bytes) (found : σ) (pos : Nat) :
    scanUnits visit payload found pos = .ok (visitAll visit found (whole (payload.drop pos))) := by
  rw [scanUnits]
  split
  · next h =>
    have hlow : pos + 1 < payload.length := by omega
    have hhigh : pos < payload.length := by omega
    have hdrop : payload.drop pos = payload[pos] :: payload[pos + 1] :: payload.drop (pos + 2) := by
      rw [List.drop_eq_getElem_cons hhigh, List.drop_eq_getElem_cons hlow]
    rw [index_ok (List.getElem?_eq_getElem hhigh), index_ok (List.getElem?_eq_getElem hlow), hdrop, whole]
    simp only [ok_bind, sizeField, List.length_drop]
    generalize payload[pos].toNat * 256 + payload[pos + 1].toNat = size
    split
    · rw [if_pos (by omega), visitAll]
    · rw [if_neg (by omega), slice_ok (by omega) (by omega), visitAll, Nat.add_sub_cancel_left]
      rw [ok_bind]
      cases visit found ((payload.drop (pos + 2)).take size) with
      | done found => rfl
      | yield found =>
        dsimp only
        rw [scanUnits_eq, List.drop_drop]
  · have hshort : (payload.drop pos).length < 2 := by
      rw [List.length_drop]
      omega
    match payload.drop pos, hshort with
    | [], _ | [_], _ => rw [whole, visitAll]; nofun
termination_by payload.length - pos

/-! ## Aggregates -/

/-- A NAL unit an aggregate can carry. -/
structure NalUnit where
  bytes : Bytes
  nonempty : bytes ≠ []
  short : bytes.length < 65536

namespace NalUnit

def nalType (u : NalUnit) : UInt8 := getNalType u.bytes

def frame (u : NalUnit) : Bytes :=
  UInt8.ofNat (u.bytes.length >>> 8) :: UInt8.ofNat u.bytes.length :: u.bytes

end NalUnit

def stapA (header : UInt8) (units : List NalUnit) : Bytes := header :: units.flatMap NalUnit.frame

/-- The units that are complete in the first `n` bytes behind the header. -/
def completeIn (n : Nat) : List NalUnit → List NalUnit
  | [] => []
  | u :: units => if u.frame.length ≤ n then u :: completeIn (n - u.frame.length) units else []

theorem frame_size (u : NalUnit) :
    (UInt8.ofNat (u.bytes.length >>> 8)).toNat * 256 + (UInt8.ofNat u.bytes.length).toNat = u.bytes.length := by
  have hshort := u.short
  simp only [UInt8.toNat_ofNat', Nat.shiftRight_eq_div_pow]
  omega

variable (found : SpsPps) (payload : Bytes) (units : List NalUnit)

theorem whole_take (n : Nat) :
    whole ((units.flatMap NalUnit.frame).take n) = (completeIn n units).map NalUnit.bytes := by
  induction units generalizing n with
  | nil => rw [List.flatMap_nil, List.take_nil, completeIn, List.map_nil, whole]; nofun
  | cons u units ih =>
    have hlength : u.frame.length = u.bytes.length + 2 := rfl
    rw [List.flatMap_cons, completeIn]
    match n with
    | 0 | 1 => simp [whole, NalUnit.frame]
    | n + 2 =>
      show whole (_ :: _ :: (u.bytes ++ units.flatMap NalUnit.frame).take n) = _
      rw [whole, frame_size]
      split
      · next hcut =>
        rw [List.length_take, List.length_append] at hcut
        rw [if_neg (by omega)]
        rfl
      · next hwhole =>
        rw [List.length_take, List.length_append] at hwhole
        rw [if_pos (by omega), List.map_cons, List.take_take, List.drop_take,
          Nat.min_eq_left (by omega), List.take_left, List.drop_left, ih]
        congr 3
        omega

theorem completeIn_all : completeIn (units.flatMap NalUnit.frame).length units = units := by
  induction units with
  | nil => rfl
  | cons u units ih =>
    rw [List.flatMap_cons, List.length_append, completeIn, if_pos (by omega), Nat.add_sub_cancel_left, ih]

/-! ## What is found -/

def firstOf (t : UInt8) (units : List NalUnit) : Option Bytes :=
  (units.find? fun u => u.nalType = t).map NalUnit.bytes

/-- The scans of a payload find the first parameter sets of the units, and a key frame if one of
them is that. -/
structure Scanned (payload : Bytes) (units : List NalUnit) : Prop where
  parameterSets : extractSpsPps payload (getNalType payload) =
    let found : SpsPps := ⟨firstOf NAL_TYPE_SPS units, firstOf NAL_TYPE_PPS units⟩
    .ok (if found.isEmpty then none else some found)
  keyFrame : isIdrNal payload (getNalType payload) = .ok (units.any fun u => u.nalType = NAL_TYPE_IDR)

theorem keep_eq (unit : Bytes) :
    found.keep unit = ⟨found.sps.or (if getNalType unit = NAL_TYPE_SPS then some unit else none),
      found.pps.or (if getNalType unit = NAL_TYPE_PPS then some unit else none)⟩ := by
  obtain ⟨sps, pps⟩ := found
  cases unit with
  | nil => simp [SpsPps.keep, getNalType, NAL_TYPE_SPS, NAL_TYPE_PPS]
  | cons first rest =>
    have hdistinct : NAL_TYPE_SPS ≠ NAL_TYPE_PPS := by decide
    show SpsPps.keep _ _ = ⟨sps.or (if first &&& NAL_MASK = _ then _ else _), _⟩
    simp only [SpsPps.keep, getNalType]
    cases sps <;> cases pps <;> grind

theorem firstOf_cons (t : UInt8) (u : NalUnit) (units : List NalUnit) :
    firstOf t (u :: units) = (if u.nalType = t then some u.bytes else none).or (firstOf t units) := by
  rw [firstOf, List.find?_cons]
  by_cases h : u.nalType = t <;> simp [h, firstOf]

theorem visitAll_keep :
    visitAll (fun found unit => .yield (found.keep unit)) found (units.map NalUnit.bytes) =
      ⟨found.sps.or (firstOf NAL_TYPE_SPS units), found.pps.or (firstOf NAL_TYPE_PPS units)⟩ := by
  induction units generalizing found with
  | nil => simp [visitAll, firstOf]
  | cons u units ih =>
    show visitAll _ (found.keep u.bytes) _ = _
    rw [ih, keep_eq, firstOf_cons, firstOf_cons, Option.or_assoc, Option.or_assoc]
    rfl

theorem visitAll_idr :
    visitAll (fun found unit => if getNalType unit = NAL_TYPE_IDR then .done true else .yield found)
      false (units.map NalUnit.bytes) = units.any fun u => u.nalType = NAL_TYPE_IDR := by
  induction units with
  | nil => rfl
  | cons u units ih =>
    rw [List.map_cons, visitAll, List.any_cons]
    by_cases h : getNalType u.bytes = NAL_TYPE_IDR
    · rw [if_pos h]
      simp [NalUnit.nalType, h]
    · rw [if_neg h]
      simp [NalUnit.nalType, h, ih]

/-! ## Every payload -/

theorem stapAUnits_eq :
    stapAUnits found payload = visitAll (fun found unit => .yield (found.keep unit)) found (whole payload) := by
  fun_induction stapAUnits with
  | case1 found high low rest size hshort =>
    rw [whole]
    exact (if_pos hshort).symm ▸ rfl
  | case2 found high low rest size hlong ih =>
    rw [ih, whole]
    exact (if_neg hlong).symm ▸ rfl
  | case3 found payload hempty =>
    rw [whole]
    · rfl
    · exact hempty

theorem extractFromFuA_eq : extractFromFuA payload = .ok (Media.extractFromFuA payload) := by
  match payload with
  | [] | [_] => rfl
  | indicator :: header :: rest =>
    have hindicator : index (indicator :: header :: rest) 0 = .ok indicator := rfl
    have hheader : index (indicator :: header :: rest) 1 = .ok header := rfl
    have hlength : (indicator :: header :: rest).length > 1 := by simp
    have hslice : slice (indicator :: header :: rest) 2 (indicator :: header :: rest).length = .ok rest := by
      rw [slice_ok hlength le_rfl]
      simp
    simp only [extractFromFuA, Media.extractFromFuA, if_pos hlength, hindicator, hheader, hslice, ok_bind]
    grind

/-- The walk with indices is the one on what is left of the payload. -/
theorem extractSpsPps_eq (nalType : UInt8) :
    extractSpsPps payload nalType = .ok (Media.extractSpsPps payload nalType) := by
  have hstapA : extractFromStapA payload = .ok (Media.extractFromStapA payload) := by
    rw [extractFromStapA, scanUnits_eq, ← stapAUnits_eq]
    rfl
  rw [extractSpsPps, Media.extractSpsPps]
  split
  · rfl
  · rw [hstapA, extractFromFuA_eq]
    split_ifs <;> rfl

theorem isIdrNal_completes (nalType : UInt8) : (isIdrNal payload nalType).Completes := by
  rw [isIdrNal]
  split_ifs with _ _ hlength
  · exact ⟨_, rfl⟩
  · rw [index_ok (List.getElem?_eq_getElem hlength)]
    exact ⟨_, rfl⟩
  · exact ⟨_, rfl⟩
  · exact ⟨_, scanUnits_eq _ _ _ _⟩
  · exact ⟨_, rfl⟩

theorem scanned_take {header : UInt8} (hheader : header &&& NAL_MASK = NAL_TYPE_STAP_A) (units : List NalUnit)
    (n : Nat) : Scanned ((stapA header units).take (n + 1)) (completeIn n units) := by
  have htype : getNalType ((stapA header units).take (n + 1)) = NAL_TYPE_STAP_A := hheader
  have hwhole : whole (((stapA header units).take (n + 1)).drop 1) = (completeIn n units).map NalUnit.bytes :=
    whole_take units n
  constructor
  · rw [htype]
    show (extractFromStapA _ >>= fun result => _) = _
    rw [extractFromStapA, scanUnits_eq, hwhole, visitAll_keep, ok_bind]
    rfl
  · rw [htype]
    show scanUnits _ _ _ _ = _
    rw [scanUnits_eq, hwhole, visitAll_idr]

/-- An aggregate and what is there of one in any bytes it starts with are scanned exactly, and no
payload makes a scan go out of range. -/
theorem aggregates_scanned :
    (∀ header units, header &&& NAL_MASK = NAL_TYPE_STAP_A → Scanned (stapA header units) units ∧
      ∀ n, Scanned ((stapA header units).take (n + 1)) (completeIn n units)) ∧
    ∀ payload nalType, (extractSpsPps payload nalType).Completes ∧ (isIdrNal payload nalType).Completes := by
  refine ⟨fun header units hheader => ⟨?_, scanned_take hheader units⟩, fun payload nalType =>
    ⟨⟨_, extractSpsPps_eq payload nalType⟩, isIdrNal_completes payload nalType⟩⟩
  have h := scanned_take hheader units (units.flatMap NalUnit.frame).length
  have hall : (stapA header units).length ≤ (units.flatMap NalUnit.frame).length + 1 := le_rfl
  rwa [completeIn_all, List.take_of_length_le hall] at h

/-- A cut in the second of two units leaves the first one to be found. -/
theorem aggregates_scanned_cut :
    let sps : NalUnit := ⟨[0x67, 0xAA], by decide, by decide⟩
    Scanned ((stapA 0x78 [sps, ⟨[0x65], by decide, by decide⟩]).take 7) [sps] :=
  (aggregates_scanned.1 0x78 _ (by decide)).2 6

end Mistlib.Media.Aggregates
