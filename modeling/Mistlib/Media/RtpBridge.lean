import Mistlib.Data.Text
import Mistlib.Media.OutputRuns

/-!
# The RTP bridge

Of the tracks that are started, one video track and one audio track are accepted, and only their
packets go into the output buffer. A track of another source is ignored meanwhile; a track of
the same source takes the accepted one's place.

The parameter sets of the video are taken from the accepted track's packets. The first ones stay
until a stop leaves no source listed.
-/

namespace Mistlib.Media

open Reactive (Move Run)

/-! ## Parameter sets -/

def NAL_TYPE_SPS : UInt8 := 7

def NAL_TYPE_PPS : UInt8 := 8

def NAL_TYPE_STAP_A : UInt8 := 24

def NAL_TYPE_FU_A : UInt8 := 28

def NAL_MASK : UInt8 := 0x1F

def FU_START_MASK : UInt8 := 0x80

structure SpsPps where
  sps : Option Bytes
  pps : Option Bytes
deriving DecidableEq, Repr

def SpsPps.isEmpty (found : SpsPps) : Bool := found.sps.isNone && found.pps.isNone

def getNalType (payload : Bytes) : UInt8 :=
  match payload with
  | b :: _ => b &&& NAL_MASK
  | [] => 0

/-- A unit of an aggregate is kept if it is the first of its kind. -/
def SpsPps.keep (found : SpsPps) (unit : Bytes) : SpsPps :=
  match unit with
  | first :: _ =>
    if first &&& NAL_MASK = NAL_TYPE_SPS ∧ found.sps.isNone then { found with sps := some unit }
    else if first &&& NAL_MASK = NAL_TYPE_PPS ∧ found.pps.isNone then { found with pps := some unit }
    else found
  | [] => found

/-- The loop of `extract_from_stap_a`, on what is left of the payload. -/
def stapAUnits (found : SpsPps) : Bytes → SpsPps
  | high :: low :: rest =>
    let size := high.toNat * 256 + low.toNat
    if rest.length < size then found else stapAUnits (found.keep (rest.take size)) (rest.drop size)
  | _ => found
termination_by payload => payload.length
decreasing_by
  rw [List.length_drop, List.length_cons, List.length_cons]
  omega

def extractFromStapA (payload : Bytes) : SpsPps := stapAUnits ⟨none, none⟩ (payload.drop 1)

def extractFromFuA (payload : Bytes) : SpsPps :=
  match payload with
  | indicator :: header :: rest =>
    if header &&& FU_START_MASK ≠ 0 then
      let orig := header &&& NAL_MASK
      let unit := (indicator &&& 0xE0 ||| orig) :: rest
      if orig = NAL_TYPE_SPS then ⟨some unit, none⟩
      else if orig = NAL_TYPE_PPS then ⟨none, some unit⟩
      else ⟨none, none⟩
    else ⟨none, none⟩
  | _ => ⟨none, none⟩

def extractSpsPps (payload : Bytes) (nalType : UInt8) : Option SpsPps :=
  if payload.isEmpty then none
  else
    let result :=
      if nalType = NAL_TYPE_SPS then ⟨some payload, none⟩
      else if nalType = NAL_TYPE_PPS then ⟨none, some payload⟩
      else if nalType = NAL_TYPE_STAP_A then extractFromStapA payload
      else if nalType = NAL_TYPE_FU_A then extractFromFuA payload
      else ⟨none, none⟩
    if result.isEmpty then none else some result

/-! ## The bridge -/

/-- A packet with its payload and what else is in its header. -/
abbrev RtpPacket (η : Type) := Packet (Bytes × η)

/-- The source and the track that are accepted of a kind: `primary_video_ssrc` with
`active_video_track_id`, or those of the audio. -/
structure Primary where
  ssrc : Option UInt32
  trackId : Option String
deriving DecidableEq, Repr

structure Inner where
  activeTracks : Table UInt32 (List Char)
  video : Primary
  audio : Primary

structure RtpBridge (η : Type) where
  inner : Inner
  sps : Option Bytes
  pps : Option Bytes
  started : Bool
  buffer : OutputBuffer (Bytes × η)

/-- A track as the bridge knows it. Its kind is none if it is neither H.264 video nor audio. -/
structure Track where
  ssrc : UInt32
  kind : Option Kind
  id : String
deriving DecidableEq, Repr

/-- The kind of a track. Only ASCII letters are lower-cased; the lower case of another character
makes none of the names compared with. -/
def kindOf (mimeType : List Char) : Option Kind :=
  let mime := Text.toAsciiLowercase mimeType
  let isAudio := mime == "audio/opus".toList || mime == "audio/aac".toList
  let isVideo := "video/".toList.isPrefixOf mime &&
    (Text.contains "h264".toList mime || Text.contains "avc".toList mime)
  if isVideo then some .video else if isAudio then some .audio else none

def trackIdOf (ssrc : UInt32) (nanos : Nat) : String := toString ssrc ++ "_" ++ toString nanos

def Inner.primary (inner : Inner) (kind : Kind) : Primary := kind.pick inner.video inner.audio

def Inner.setPrimary (inner : Inner) (kind : Kind) (primary : Primary) : Inner :=
  match kind with
  | .video => { inner with video := primary }
  | .audio => { inner with audio := primary }

namespace Primary

/-- A track of the kind starts: the first one is accepted, one of another source is ignored. -/
def start (p : Primary) (ssrc : UInt32) (trackId : String) : Primary :=
  match p.ssrc with
  | none => ⟨some ssrc, some trackId⟩
  | some primary => if primary ≠ ssrc then p else { p with trackId := some trackId }

def stop (p : Primary) (ssrc : UInt32) (trackId : String) : Primary :=
  if p.ssrc = some ssrc ∧ p.trackId = some trackId then ⟨none, none⟩ else p

end Primary

namespace RtpBridge

variable {η : Type}

def new (bufferSize : Nat) : RtpBridge η :=
  ⟨⟨∅, ⟨none, none⟩, ⟨none, none⟩⟩, none, none, false, .new bufferSize⟩

variable (b : RtpBridge η)

def spsPps : Option (Bytes × Bytes) := do
  let sps ← b.sps
  let pps ← b.pps
  return (sps, pps)

def tryStart : RtpBridge η :=
  if b.started then b else if b.sps.isSome && b.pps.isSome then { b with started := true } else b

def setSpsPps (sps pps : Option Bytes) : RtpBridge η :=
  let changed := (sps.isSome && b.sps.isNone) || (pps.isSome && b.pps.isNone)
  let b := { b with sps := b.sps.or sps, pps := b.pps.or pps }
  if changed then b.tryStart else b

def extractSpsPpsFromPayload (payload : Bytes) : RtpBridge η :=
  match extractSpsPps payload (getNalType payload) with
  | none => b
  | some found => b.setSpsPps found.sps found.pps

/-- The track's id, the bridge, and the source a key frame is asked of. The MIME type is kept with its
ASCII letters lower-cased; nothing reads it again. -/
def trackStarted (ssrc : UInt32) (mimeType : List Char) (nanos : Nat) : String × RtpBridge η × Option UInt32 :=
  let trackId := trackIdOf ssrc nanos
  let inner := { b.inner with activeTracks := b.inner.activeTracks.insert ssrc (Text.toAsciiLowercase mimeType) }
  match kindOf mimeType with
  | none => (trackId, { b with inner }, none)
  | some kind =>
    (trackId, { b with inner := inner.setPrimary kind ((inner.primary kind).start ssrc trackId) },
      if kind = .video then some ssrc else none)

def trackStopped (ssrc : UInt32) (trackId : String) : RtpBridge η :=
  let inner : Inner :=
    ⟨b.inner.activeTracks.erase ssrc, b.inner.video.stop ssrc trackId, b.inner.audio.stop ssrc trackId⟩
  if inner.activeTracks.size = 0 then
    { inner, started := false, sps := none, pps := none, buffer := b.buffer.clear }
  else { b with inner }

def writeRtp (packet : RtpPacket η) (trackId : String) (now : Instant) : RtpBridge η :=
  let isVideo := b.inner.video.trackId == some trackId
  let isAudio := b.inner.audio.trackId == some trackId
  if !(isVideo || isAudio) then b
  else
    let b := if isVideo then b.extractSpsPpsFromPayload packet.rest.1 else b
    { b with buffer := b.buffer.add packet now }

end RtpBridge

/-- A call of the bridge. `pace` is the pacer's, which flushes the buffer. -/
inductive BridgeCall (η : Type) where
  | trackStarted (ssrc : UInt32) (mimeType : List Char) (nanos : Nat)
  | writeRtp (packet : RtpPacket η) (trackId : String) (now : Instant)
  | trackStopped (ssrc : UInt32) (trackId : String)
  | setSpsPps (sps pps : Option Bytes)
  | pace (videoClock audioClock : Nat → Instant)

namespace RtpBridge

variable {η : Type} {b b' : RtpBridge η}

def step (b : RtpBridge η) : BridgeCall η → Option (RtpBridge η)
  | .trackStarted ssrc mimeType nanos => some (b.trackStarted ssrc mimeType nanos).2.1
  | .writeRtp packet trackId now => some (b.writeRtp packet trackId now)
  | .trackStopped ssrc trackId => some (b.trackStopped ssrc trackId)
  | .setSpsPps sps pps => some (b.setSpsPps sps pps)
  | .pace videoClock audioClock =>
    (b.buffer.flushReady FLUSH_TURNS videoClock audioClock).toOption.map fun r => { b with buffer := r.2 }

/-! ## The accepted tracks -/

def startOf (m : Move (RtpBridge η) (BridgeCall η)) : Option Track :=
  match m.input with
  | .trackStarted ssrc mimeType nanos => some ⟨ssrc, kindOf mimeType, trackIdOf ssrc nanos⟩
  | _ => none

/-- A track goes on: it is not stopped, and no track of its kind and source starts. -/
def GoesOn (kind : Kind) (t : Track) (m : Move (RtpBridge η) (BridgeCall η)) : Prop :=
  m.input ≠ .trackStopped t.ssrc t.id ∧
    ∀ newer, startOf m = some newer → newer.kind = some kind → newer.ssrc ≠ t.ssrc

/-- The accepted track of a kind, by the history alone: when it started no track of another
source was accepted, and it has gone on since. -/
def Accepted (kind : Kind) : List (Move (RtpBridge η) (BridgeCall η)) → Track → Prop
  | [], _ => False
  | m :: past, t =>
    (startOf m = some t ∧ t.kind = some kind ∧ ∀ other, Accepted kind past other → other.ssrc = t.ssrc) ∨
      (Accepted kind past t ∧ GoesOn kind t m)

variable {kind : Kind} {moves : List (Move (RtpBridge η) (BridgeCall η))} {t : Track}

theorem accepted_iff :
    Accepted kind moves t ↔ ∃ newer m older, moves = newer ++ m :: older ∧ startOf m = some t ∧ t.kind = some kind ∧
      (∀ other, Accepted kind older other → other.ssrc = t.ssrc) ∧ ∀ m' ∈ newer, GoesOn kind t m' := by
  induction moves with
  | nil =>
    refine ⟨False.elim, ?_⟩
    rintro ⟨newer, m, older, heq, _⟩
    exact absurd heq (List.append_ne_nil_of_right_ne_nil newer (List.cons_ne_nil m older)).symm
  | cons latest past ih =>
    rw [Accepted, ih]
    constructor
    · rintro (⟨hstart, hkind, hothers⟩ | ⟨⟨newer, m, older, rfl, hstart, hkind, hothers, hgoes⟩, hlatest⟩)
      · exact ⟨[], latest, past, rfl, hstart, hkind, hothers, List.forall_mem_nil _⟩
      · exact ⟨latest :: newer, m, older, rfl, hstart, hkind, hothers, List.forall_mem_cons.mpr ⟨hlatest, hgoes⟩⟩
    · rintro ⟨newer, m, older, heq, hstart, hkind, hothers, hgoes⟩
      cases newer with
      | nil =>
        obtain ⟨rfl, rfl⟩ := List.cons_eq_cons.mp heq
        exact .inl ⟨hstart, hkind, hothers⟩
      | cons first newer =>
        obtain ⟨rfl, rfl⟩ := List.cons_eq_cons.mp heq
        obtain ⟨hlatest, hgoes⟩ := List.forall_mem_cons.mp hgoes
        exact .inr ⟨⟨newer, m, older, rfl, hstart, hkind, hothers, hgoes⟩, hlatest⟩

/-- The pair of a kind is that of its accepted track, if there is one. -/
structure Follows (kind : Kind) (moves : List (Move (RtpBridge η) (BridgeCall η))) (p : Primary) : Prop where
  kept : ∀ t, Accepted kind moves t → t.kind = some kind ∧ p = ⟨some t.ssrc, some t.id⟩
  known : p = ⟨none, none⟩ ∨ ∃ t, Accepted kind moves t

variable {past : List (Move (RtpBridge η) (BridgeCall η))} {p : Primary}
  {m : Move (RtpBridge η) (BridgeCall η)}

theorem Follows.pass (h : Follows kind past p) (hstart : ∀ t, startOf m = some t → t.kind ≠ some kind)
    (hstop : ∀ t, Accepted kind past t → m.input ≠ .trackStopped t.ssrc t.id) :
    Follows kind (m :: past) p := by
  have hgoes : ∀ t, Accepted kind past t → GoesOn kind t m := fun t ht =>
    ⟨hstop t ht, fun newer hnewer hkind => absurd hkind (hstart newer hnewer)⟩
  refine ⟨fun t ht => ?_, h.known.imp_right fun ⟨t, ht⟩ => ⟨t, .inr ⟨ht, hgoes t ht⟩⟩⟩
  rcases ht with ⟨hnow, hkind, _⟩ | ⟨hpast, _⟩
  · exact absurd hkind (hstart t hnow)
  · exact h.kept t hpast

theorem Follows.stopped (h : Follows kind past p) (b : RtpBridge η) (ssrc : UInt32) (trackId : String) :
    Follows kind (⟨b, .trackStopped ssrc trackId⟩ :: past) (p.stop ssrc trackId) := by
  unfold Primary.stop
  split
  · next hmatch =>
    refine ⟨fun t ht => ?_, .inl rfl⟩
    rcases ht with ⟨hnow, _⟩ | ⟨hpast, hstop, _⟩
    · cases hnow
    · -- The accepted track is the one that is stopped.
      obtain ⟨_, hp⟩ := h.kept t hpast
      rw [hp] at hmatch
      obtain ⟨hssrc, hid⟩ := hmatch
      cases hssrc
      cases hid
      exact absurd rfl hstop
  · next hother =>
    refine h.pass (fun t hnow => by cases hnow) fun t ht heq => hother ?_
    obtain ⟨_, rfl⟩ := h.kept t ht
    cases heq
    exact ⟨rfl, rfl⟩

theorem Follows.started (h : Follows kind past p) (hstart : startOf m = some t)
    (hkind : t.kind = some kind) : Follows kind (m :: past) (p.start t.ssrc t.id) := by
  have hinput : ∀ ssrc trackId, m.input ≠ .trackStopped ssrc trackId := by
    intro ssrc trackId heq
    rw [startOf, heq] at hstart
    cases hstart
  -- Where the new track is accepted no other one is.
  have haccept : (∀ other, Accepted kind past other → other.ssrc = t.ssrc) →
      Follows kind (m :: past) ⟨some t.ssrc, some t.id⟩ := by
    intro hothers
    refine ⟨fun other hother => ?_, .inr ⟨t, .inl ⟨hstart, hkind, hothers⟩⟩⟩
    rcases hother with ⟨hnow, _, _⟩ | ⟨hpast, _, hnewer⟩
    · cases hstart.symm.trans hnow
      exact ⟨hkind, rfl⟩
    · exact absurd (hothers other hpast).symm (hnewer t hstart hkind)
  rcases h.known with rfl | ⟨accepted, haccepted⟩
  · refine haccept fun other hother => ?_
    cases (h.kept other hother).2
  · obtain ⟨_, rfl⟩ := h.kept accepted haccepted
    show Follows kind (m :: past) (if accepted.ssrc ≠ t.ssrc then ⟨some accepted.ssrc, some accepted.id⟩
      else ⟨some accepted.ssrc, some t.id⟩)
    split
    · next hne =>
      -- The new track is ignored.
      refine ⟨fun other hother => ?_, .inr ⟨accepted, .inr ⟨haccepted, hinput _ _, fun newer hnewer _ heq => ?_⟩⟩⟩
      · rcases hother with ⟨hnow, _, hothers⟩ | ⟨hpast, _⟩
        · cases hstart.symm.trans hnow
          exact absurd (hothers accepted haccepted) hne
        · exact h.kept other hpast
      · cases hstart.symm.trans hnewer
        exact hne heq.symm
    · next heq =>
      have heq : accepted.ssrc = t.ssrc := not_not.mp heq
      rw [heq]
      refine haccept fun other hother => ?_
      have hssrc := congrArg Primary.ssrc (h.kept other hother).2
      exact (Option.some.inj hssrc).symm.trans heq

/-! ## Runs -/

theorem primary_setPrimary (inner : Inner) (kind own : Kind) (p : Primary) :
    (inner.setPrimary own p).primary kind = if kind = own then p else inner.primary kind := by
  cases kind <;> cases own <;> rfl

theorem inner_setSpsPps (b : RtpBridge η) (sps pps : Option Bytes) :
    (b.setSpsPps sps pps).inner = b.inner ∧ (b.setSpsPps sps pps).buffer = b.buffer := by
  unfold setSpsPps tryStart
  dsimp only
  split
  · split
    · exact ⟨rfl, rfl⟩
    · split
      · exact ⟨rfl, rfl⟩
      · exact ⟨rfl, rfl⟩
  · exact ⟨rfl, rfl⟩

theorem inner_extract (b : RtpBridge η) (payload : Bytes) :
    (b.extractSpsPpsFromPayload payload).inner = b.inner ∧ (b.extractSpsPpsFromPayload payload).buffer = b.buffer := by
  unfold extractSpsPpsFromPayload
  split
  · exact ⟨rfl, rfl⟩
  · exact inner_setSpsPps _ _ _

theorem writeRtp_accepted {trackId : String} (h : (b.inner.primary kind).trackId = some trackId)
    (packet : RtpPacket η) (now : Instant) :
    (b.writeRtp packet trackId now).buffer = b.buffer.add packet now ∧
      (b.writeRtp packet trackId now).inner = b.inner := by
  have hallowed : (!(b.inner.video.trackId == some trackId || b.inner.audio.trackId == some trackId)) = false := by
    cases kind with
    | video =>
      have h : b.inner.video.trackId = some trackId := h
      rw [h, beq_self_eq_true]
      rfl
    | audio =>
      have h : b.inner.audio.trackId = some trackId := h
      rw [h, beq_self_eq_true, Bool.or_true]
      rfl
  rw [writeRtp, hallowed]
  dsimp only
  split
  · next hfalse => cases hfalse
  · split
    · obtain ⟨hinner, hbuffer⟩ := inner_extract b packet.rest.1
      rw [hbuffer]
      exact ⟨rfl, hinner⟩
    · exact ⟨rfl, rfl⟩

theorem writeRtp_other {trackId : String} (h : ∀ kind, (b.inner.primary kind).trackId ≠ some trackId)
    (packet : RtpPacket η) (now : Instant) : b.writeRtp packet trackId now = b := by
  have hvideo : (b.inner.video.trackId == some trackId) = false := beq_eq_false_iff_ne.mpr (h .video)
  have haudio : (b.inner.audio.trackId == some trackId) = false := beq_eq_false_iff_ne.mpr (h .audio)
  rw [writeRtp, hvideo, haudio]
  rfl

theorem inner_writeRtp (b : RtpBridge η) (packet : RtpPacket η) (trackId : String) (now : Instant) :
    (b.writeRtp packet trackId now).inner = b.inner := by
  by_cases h : ∃ kind, (b.inner.primary kind).trackId = some trackId
  · obtain ⟨kind, hkind⟩ := h
    exact (writeRtp_accepted hkind packet now).2
  · rw [writeRtp_other (not_exists.mp h) packet now]

/-- What a call does to the tracks, case by case. -/
theorem inner_step {call : BridgeCall η} (h : b.step call = some b') :
    (∃ ssrc mimeType nanos, call = .trackStarted ssrc mimeType nanos ∧
      b'.inner.activeTracks = b.inner.activeTracks.insert ssrc (Text.toAsciiLowercase mimeType) ∧
      ∀ kind, b'.inner.primary kind =
        if kindOf mimeType = some kind then (b.inner.primary kind).start ssrc (trackIdOf ssrc nanos)
        else b.inner.primary kind) ∨
    (∃ ssrc trackId, call = .trackStopped ssrc trackId ∧
      b'.inner.activeTracks = b.inner.activeTracks.erase ssrc ∧
      ∀ kind, b'.inner.primary kind = (b.inner.primary kind).stop ssrc trackId) ∨
    ((∀ t, startOf ⟨b, call⟩ ≠ some t) ∧ (∀ ssrc trackId, call ≠ .trackStopped ssrc trackId) ∧ b'.inner = b.inner) := by
  cases call with
  | trackStarted ssrc mimeType nanos =>
    cases h
    refine .inl ⟨ssrc, mimeType, nanos, rfl, ?_⟩
    unfold trackStarted
    dsimp only
    split
    · next hkind =>
      refine ⟨rfl, fun kind => (if_neg ?_).symm⟩
      rw [hkind]
      exact Option.some_ne_none kind |>.symm
    · next own hkind =>
      refine ⟨?_, fun kind => ?_⟩
      · cases own <;> rfl
      · rw [hkind, primary_setPrimary]
        by_cases heq : kind = own
        · rw [heq, if_pos rfl, if_pos rfl]
          cases own <;> rfl
        · rw [if_neg heq, if_neg fun hsome => heq (Option.some.inj hsome).symm]
          cases kind <;> rfl
  | trackStopped ssrc trackId =>
    cases h
    refine .inr (.inl ⟨ssrc, trackId, rfl, ?_⟩)
    unfold trackStopped
    dsimp only
    split
    · exact ⟨rfl, fun kind => by cases kind <;> rfl⟩
    · exact ⟨rfl, fun kind => by cases kind <;> rfl⟩
  | writeRtp packet trackId now =>
    cases h
    exact .inr (.inr ⟨fun t => nofun, fun _ _ => nofun, inner_writeRtp b packet trackId now⟩)
  | setSpsPps sps pps =>
    cases h
    exact .inr (.inr ⟨fun t => nofun, fun _ _ => nofun, (inner_setSpsPps b sps pps).1⟩)
  | pace videoClock audioClock =>
    obtain ⟨r, _, rfl⟩ := Option.map_eq_some_iff.mp h
    exact .inr (.inr ⟨fun t => nofun, fun _ _ => nofun, rfl⟩)

variable {bufferSize : Nat}

/-- After every run the pair of a kind is that of its accepted track. -/
theorem run_follows (run : Run step (new bufferSize) moves b) (kind : Kind) :
    Follows kind moves (b.inner.primary kind) := by
  have hnew : ((new bufferSize : RtpBridge η).inner.primary kind) = ⟨none, none⟩ := by
    cases kind <;> rfl
  refine run.keeps (P := fun moves b => Follows kind moves (b.inner.primary kind))
    ⟨fun t ht => ht.elim, .inl hnew⟩ fun past b call b' h hstep => ?_
  rcases inner_step hstep with
    ⟨ssrc, mimeType, nanos, rfl, _, hprimary⟩ | ⟨ssrc, trackId, rfl, _, hprimary⟩ | ⟨hstart, hstop, hinner⟩
  · rw [hprimary]
    split
    · next hkind => exact h.started (t := ⟨ssrc, kindOf mimeType, trackIdOf ssrc nanos⟩) rfl hkind
    · next hkind =>
      refine h.pass (fun t hstart => ?_) fun t _ => nofun
      cases hstart
      exact hkind
  · rw [hprimary]
    exact h.stopped b ssrc trackId
  · rw [hinner]
    exact h.pass (fun t ht => absurd ht (hstart t)) fun t _ => hstop t.ssrc t.id

/-- The bridge counts with a source: a track of it has started and since then none of it has
been stopped. -/
def Listed (moves : List (Move (RtpBridge η) (BridgeCall η))) (ssrc : UInt32) : Prop :=
  ∃ newer m older t, moves = newer ++ m :: older ∧ startOf m = some t ∧ t.ssrc = ssrc ∧
    ∀ m' ∈ newer, ∀ trackId, m'.input ≠ .trackStopped ssrc trackId

variable {ssrc : UInt32}

theorem Listed.of_cons (h : Listed (m :: past) ssrc) :
    (∃ t, startOf m = some t ∧ t.ssrc = ssrc) ∨
      Listed past ssrc ∧ ∀ trackId, m.input ≠ .trackStopped ssrc trackId := by
  obtain ⟨newer, m', older, t, heq, hstart, hssrc, hnewer⟩ := h
  cases newer with
  | nil =>
    obtain ⟨rfl, rfl⟩ := List.cons_eq_cons.mp heq
    exact .inl ⟨t, hstart, hssrc⟩
  | cons first newer =>
    obtain ⟨rfl, rfl⟩ := List.cons_eq_cons.mp heq
    obtain ⟨hfirst, hnewer⟩ := List.forall_mem_cons.mp hnewer
    exact .inr ⟨⟨newer, m', older, t, rfl, hstart, hssrc, hnewer⟩, hfirst⟩

/-- What was started and goes on is listed. -/
theorem run_listed (run : Run step (new bufferSize) moves b) (h : Listed moves ssrc) :
    b.inner.activeTracks.contains ssrc = true := by
  refine run.keeps (P := fun moves b => Listed moves ssrc → b.inner.activeTracks.contains ssrc = true) ?_ ?_ h
  · rintro ⟨newer, m, older, _, heq, _⟩
    exact absurd heq (List.append_ne_nil_of_right_ne_nil newer (List.cons_ne_nil m older)).symm
  · intro past b call b' ih hstep hlisted
    rcases inner_step hstep with
      ⟨started, mimeType, nanos, rfl, hactive, _⟩ | ⟨stopped, trackId, rfl, hactive, _⟩ | ⟨hstart, _, hinner⟩
    · rw [hactive, Table.contains, Table.get_insert]
      split
      · rfl
      · next hne =>
        rcases hlisted.of_cons with ⟨t, hstart, hssrc⟩ | ⟨hpast, _⟩
        · cases hstart
          exact absurd hssrc.symm hne
        · exact ih hpast
    · rcases hlisted.of_cons with ⟨t, hstart, _⟩ | ⟨hpast, hnot⟩
      · cases hstart
      · rw [hactive, Table.contains, Table.get_erase]
        split
        · next heq =>
          rw [heq] at hnot
          exact absurd rfl (hnot trackId)
        · exact ih hpast
    · rcases hlisted.of_cons with ⟨t, hnow, _⟩ | ⟨hpast, _⟩
      · exact absurd hnow (hstart t)
      · rw [hinner]
        exact ih hpast

theorem trackStopped_keeps {other : UInt32} (hne : other ≠ ssrc)
    (h : b.inner.activeTracks.contains other = true) (trackId : String) :
    (b.trackStopped ssrc trackId).sps = b.sps ∧ (b.trackStopped ssrc trackId).pps = b.pps ∧
      (b.trackStopped ssrc trackId).started = b.started ∧ (b.trackStopped ssrc trackId).buffer = b.buffer := by
  have hsize : (b.inner.activeTracks.erase ssrc).size ≠ 0 := by
    intro hzero
    have hget : ((b.inner.activeTracks.erase ssrc).get other).isSome = true := by
      rw [Table.get_erase, if_neg hne]
      exact h
    obtain ⟨mime, hmime⟩ := Option.isSome_iff_exists.mp hget
    rw [Table.get_eq_some_iff, List.eq_nil_of_length_eq_zero hzero] at hmime
    cases hmime
  unfold trackStopped
  dsimp only
  rw [if_neg hsize]
  exact ⟨rfl, rfl, rfl, rfl⟩

theorem Accepted.started (h : Accepted kind moves t) :
    t ∈ moves.filterMap startOf ∧ t.kind = some kind := by
  obtain ⟨newer, m, older, rfl, hstart, hkind, _⟩ := accepted_iff.mp h
  refine ⟨List.mem_filterMap.mpr ⟨m, ?_, hstart⟩, hkind⟩
  exact List.mem_append_right newer List.mem_cons_self

section

variable {newer older : List (Move (RtpBridge η) (BridgeCall η))}
  {m' : Move (RtpBridge η) (BridgeCall η)} {t' : Track}

theorem not_accepted_of_replaced
    (hids : (((newer ++ m :: older).filterMap startOf).map Track.id).Nodup)
    (hstart : startOf m = some t) (hm' : m' ∈ newer) (hstart' : startOf m' = some t')
    (hssrc : t'.ssrc = t.ssrc) (hkind : t'.kind = t.kind) (kind : Kind) :
    ¬ Accepted kind (newer ++ m :: older) t := by
  induction newer with
  | nil => cases hm'
  | cons first newer ih =>
    rintro (⟨hfirst, _⟩ | ⟨hrest, _, hnewer⟩)
    · -- The same track would have started twice.
      rw [List.cons_append, List.filterMap_cons_some hfirst, List.map_cons, List.nodup_cons] at hids
      refine hids.1 (List.mem_map_of_mem (List.mem_filterMap.mpr ⟨m, ?_, hstart⟩))
      exact List.mem_append_right newer List.mem_cons_self
    · rcases List.mem_cons.mp hm' with rfl | hm'
      · exact hnewer t' hstart' (hkind.trans hrest.started.2) hssrc
      · refine ih (hids.sublist ?_) hm' hrest
        exact ((List.sublist_cons_self first _).filterMap startOf).map Track.id

theorem stop_replaced (run : Run step (new bufferSize) (newer ++ m :: older) b)
    (hids : (((newer ++ m :: older).filterMap startOf).map Track.id).Nodup)
    (hstart : startOf m = some t) (hm' : m' ∈ newer) (hstart' : startOf m' = some t')
    (hssrc : t'.ssrc = t.ssrc) (hkind : t'.kind = t.kind) (kind : Kind) :
    (b.trackStopped t.ssrc t.id).inner.primary kind = b.inner.primary kind := by
  have hstep : b.step (.trackStopped t.ssrc t.id) = some (b.trackStopped t.ssrc t.id) := rfl
  rcases inner_step hstep with ⟨_, _, _, heq, _⟩ | ⟨ssrc, trackId, heq, _, hprimary⟩ | ⟨_, hno, _⟩
  · cases heq
  · cases heq
    rw [hprimary, Primary.stop, if_neg]
    rintro ⟨hpssrc, hpid⟩
    rcases (run_follows run kind).known with hnone | ⟨u, hu⟩
    · rw [hnone] at hpid
      cases hpid
    · rw [((run_follows run kind).kept u hu).2] at hpid
      have hsame : u = t := by
        refine List.inj_on_of_nodup_map hids hu.started.1 ?_ (Option.some.inj hpid)
        exact List.mem_filterMap.mpr ⟨m, List.mem_append_right newer List.mem_cons_self, hstart⟩
      rw [hsame] at hu
      exact not_accepted_of_replaced hids hstart hm' hstart' hssrc hkind kind hu
  · exact absurd rfl (hno t.ssrc t.id)

end

/-! ## The parameter sets -/

/-- A stop that leaves no source listed. -/
def Empties (m : Move (RtpBridge η) (BridgeCall η)) : Prop :=
  match m.input with
  | .trackStopped ssrc _ => (m.before.inner.activeTracks.erase ssrc).size = 0
  | _ => False

/-- What a call offers: the parameter sets in a packet of the accepted video track, or those
that are set. -/
def offer (m : Move (RtpBridge η) (BridgeCall η)) : Option SpsPps :=
  match m.input with
  | .writeRtp packet trackId _ =>
    if m.before.inner.video.trackId = some trackId then extractSpsPps packet.rest.1 (getNalType packet.rest.1) else none
  | .setSpsPps sps pps => some ⟨sps, pps⟩
  | _ => none

/-- A parameter set was offered since the bridge was last emptied. -/
def Offered (moves : List (Move (RtpBridge η) (BridgeCall η))) (pick : SpsPps → Option Bytes) (set : Bytes) : Prop :=
  ∃ newer m older found, moves = newer ++ m :: older ∧ offer m = some found ∧ pick found = some set ∧
    ∀ m' ∈ newer, ¬ Empties m'

theorem Offered.cons {pick : SpsPps → Option Bytes} {set : Bytes} (h : Offered past pick set)
    (hkeeps : ¬ Empties m) :
    Offered (m :: past) pick set := by
  obtain ⟨newer, m', older, found, rfl, hoffer, hpick, hnewer⟩ := h
  exact ⟨m :: newer, m', older, found, rfl, hoffer, hpick, List.forall_mem_cons.mpr ⟨hkeeps, hnewer⟩⟩

theorem spsPps_setSpsPps (b : RtpBridge η) (sps pps : Option Bytes) :
    (b.setSpsPps sps pps).sps = b.sps.or sps ∧ (b.setSpsPps sps pps).pps = b.pps.or pps := by
  unfold setSpsPps tryStart
  dsimp only
  split
  · split
    · exact ⟨rfl, rfl⟩
    · split
      · exact ⟨rfl, rfl⟩
      · exact ⟨rfl, rfl⟩
  · exact ⟨rfl, rfl⟩

theorem spsPps_extract (b : RtpBridge η) (payload : Bytes) :
    (b.extractSpsPpsFromPayload payload).sps =
        b.sps.or ((extractSpsPps payload (getNalType payload)).bind SpsPps.sps) ∧
      (b.extractSpsPpsFromPayload payload).pps =
        b.pps.or ((extractSpsPps payload (getNalType payload)).bind SpsPps.pps) := by
  unfold extractSpsPpsFromPayload
  cases extractSpsPps payload (getNalType payload) with
  | none => exact ⟨Option.or_none.symm, Option.or_none.symm⟩
  | some found => exact spsPps_setSpsPps b found.sps found.pps

/-- A call empties the parameter sets or adds to them. -/
theorem sets_step {call : BridgeCall η} (h : b.step call = some b') :
    (Empties ⟨b, call⟩ ∧ b'.sps = none ∧ b'.pps = none) ∨
      (¬ Empties ⟨b, call⟩ ∧ b'.sps = b.sps.or ((offer ⟨b, call⟩).bind SpsPps.sps) ∧
        b'.pps = b.pps.or ((offer ⟨b, call⟩).bind SpsPps.pps)) := by
  cases call with
  | trackStarted ssrc mimeType nanos =>
    cases h
    refine .inr ⟨id, ?_⟩
    unfold trackStarted
    dsimp only
    split
    · exact ⟨Option.or_none.symm, Option.or_none.symm⟩
    · exact ⟨Option.or_none.symm, Option.or_none.symm⟩
  | trackStopped ssrc trackId =>
    cases h
    unfold trackStopped
    dsimp only
    split
    · next hempty => exact .inl ⟨hempty, rfl, rfl⟩
    · next hempty => exact .inr ⟨hempty, Option.or_none.symm, Option.or_none.symm⟩
  | writeRtp packet trackId now =>
    cases h
    refine .inr ⟨id, ?_⟩
    simp only [offer]
    by_cases hvideo : b.inner.video.trackId = some trackId
    · have hbeq : (b.inner.video.trackId == some trackId) = true := beq_iff_eq.mpr hvideo
      rw [if_pos hvideo, writeRtp, hbeq]
      exact spsPps_extract b packet.rest.1
    · have hbeq : (b.inner.video.trackId == some trackId) = false := beq_eq_false_iff_ne.mpr hvideo
      rw [if_neg hvideo, writeRtp, hbeq]
      dsimp only
      split
      · exact ⟨Option.or_none.symm, Option.or_none.symm⟩
      · exact ⟨Option.or_none.symm, Option.or_none.symm⟩
  | setSpsPps sps pps =>
    cases h
    exact .inr ⟨id, spsPps_setSpsPps b sps pps⟩
  | pace videoClock audioClock =>
    obtain ⟨r, _, rfl⟩ := Option.map_eq_some_iff.mp h
    exact .inr ⟨id, Option.or_none.symm, Option.or_none.symm⟩

/-- The parameter sets kept have been offered. -/
theorem run_offered (run : Run step (new bufferSize) moves b) :
    (∀ set, b.sps = some set → Offered moves SpsPps.sps set) ∧
      ∀ set, b.pps = some set → Offered moves SpsPps.pps set := by
  have hadded : ∀ {past : List (Move (RtpBridge η) (BridgeCall η))} {m : Move (RtpBridge η) (BridgeCall η)}
      {pick : SpsPps → Option Bytes} {was : Option Bytes}, ¬ Empties m →
      (∀ set, was = some set → Offered past pick set) →
      ∀ set, was.or ((offer m).bind pick) = some set → Offered (m :: past) pick set := by
    intro past m pick was hkeeps ih set hset
    rcases Option.or_eq_some_iff.mp hset with hwas | ⟨_, hnow⟩
    · exact (ih set hwas).cons hkeeps
    · obtain ⟨found, hoffer, hpick⟩ := Option.bind_eq_some_iff.mp hnow
      exact ⟨[], m, past, found, rfl, hoffer, hpick, List.forall_mem_nil _⟩
  refine run.keeps (P := fun moves b => (∀ set, b.sps = some set → Offered moves SpsPps.sps set) ∧
    ∀ set, b.pps = some set → Offered moves SpsPps.pps set)
    ⟨fun _ hset => (Option.some_ne_none _ hset.symm).elim, fun _ hset => (Option.some_ne_none _ hset.symm).elim⟩ ?_
  rintro past b call b' ⟨hsps, hpps⟩ hstep
  rcases sets_step hstep with ⟨_, hnosps, hnopps⟩ | ⟨hkeeps, hsps', hpps'⟩
  · rw [hnosps, hnopps]
    exact ⟨nofun, nofun⟩
  · rw [hsps', hpps']
    exact ⟨hadded hkeeps hsps, hadded hkeeps hpps⟩

/-- A parameter set comes out of a packet of the track that was the accepted video track then,
or it was set, and since then the bridge has not been emptied. -/
def TakenFrom (moves : List (Move (RtpBridge η) (BridgeCall η))) (pick : SpsPps → Option Bytes) (set : Bytes) : Prop :=
  ∃ newer m older found, moves = newer ++ m :: older ∧ (∀ m' ∈ newer, ¬ Empties m') ∧ pick found = some set ∧
    ((∃ packet t now, m.input = .writeRtp packet t.id now ∧ Accepted .video older t ∧
        extractSpsPps packet.rest.1 (getNalType packet.rest.1) = some found) ∨
      m.input = .setSpsPps found.sps found.pps)

theorem Offered.takenFrom (run : Run step (new bufferSize) moves b) {pick : SpsPps → Option Bytes}
    {set : Bytes} (h : Offered moves pick set) : TakenFrom moves pick set := by
  obtain ⟨newer, m, older, found, rfl, hoffer, hpick, hkeeps⟩ := h
  refine ⟨newer, m, older, found, rfl, hkeeps, hpick, ?_⟩
  obtain ⟨before, call⟩ := m
  cases call with
  | trackStarted | trackStopped | pace => cases hoffer
  | setSpsPps sps pps =>
    cases hoffer
    exact .inr rfl
  | writeRtp packet trackId now =>
    obtain ⟨_, hbefore, _⟩ := run.split
    simp only [offer] at hoffer
    split at hoffer
    · next hvideo =>
      have hprimary : (before.inner.primary .video).trackId = some trackId := hvideo
      have hfollows := run_follows hbefore .video
      rcases hfollows.known with hnone | ⟨t, ht⟩
      · rw [hnone] at hprimary
        cases hprimary
      · rw [(hfollows.kept t ht).2] at hprimary
        cases hprimary
        exact .inl ⟨packet, t, now, rfl, ht, hoffer⟩
    · cases hoffer

/-- After every run of the bridge: a track that was not ignored when it started and has gone
on since is the accepted one of its kind, alone, and its packets go into the buffer; without
such a track none is accepted, and packets of others do nothing. To stop a track whose place
a newer one of its kind and source has taken leaves the accepted tracks as they are, and the
rest too if another source is listed. The parameter sets come from the tracks accepted since
the bridge was emptied, or have been set. -/
theorem bridge_run {bufferSize : Nat} {moves : List (Move (RtpBridge η) (BridgeCall η))}
    (run : Run step (new bufferSize) moves b) :
    (∀ kind newer m older t, moves = newer ++ m :: older → startOf m = some t → t.kind = some kind →
      (∀ other, Accepted kind older other → other.ssrc = t.ssrc) → (∀ m' ∈ newer, GoesOn kind t m') →
      (∀ other, Accepted kind moves other ↔ other = t) ∧ b.inner.primary kind = ⟨some t.ssrc, some t.id⟩ ∧
        ∀ packet now, (b.writeRtp packet t.id now).buffer = b.buffer.add packet now) ∧
    (∀ kind, b.inner.primary kind = ⟨none, none⟩ ∨
      ∃ t, Accepted kind moves t ∧ b.inner.primary kind = ⟨some t.ssrc, some t.id⟩) ∧
    (∀ packet trackId now, (∀ kind t, Accepted kind moves t → t.id ≠ trackId) →
      b.writeRtp packet trackId now = b) ∧
    (∀ newer m older t m' t', moves = newer ++ m :: older → ((moves.filterMap startOf).map Track.id).Nodup →
      startOf m = some t → m' ∈ newer → startOf m' = some t' → t'.ssrc = t.ssrc → t'.kind = t.kind →
      (∀ kind, (b.trackStopped t.ssrc t.id).inner.primary kind = b.inner.primary kind) ∧
        ∀ other, other ≠ t.ssrc → Listed moves other →
          (b.trackStopped t.ssrc t.id).sps = b.sps ∧ (b.trackStopped t.ssrc t.id).pps = b.pps ∧
          (b.trackStopped t.ssrc t.id).started = b.started ∧ (b.trackStopped t.ssrc t.id).buffer = b.buffer) ∧
    ∀ sps pps, b.spsPps = some (sps, pps) → TakenFrom moves SpsPps.sps sps ∧ TakenFrom moves SpsPps.pps pps := by
  have hfollows := run_follows run
  refine ⟨?_, fun kind => ?_, fun packet trackId now hothers => ?_, ?_, fun sps pps hsets => ?_⟩
  · intro kind newer m older t heq hstart hkind hothers hgoes
    have ht : Accepted kind moves t := accepted_iff.mpr ⟨newer, m, older, heq, hstart, hkind, hothers, hgoes⟩
    have hprimary := ((hfollows kind).kept t ht).2
    refine ⟨fun other => ⟨fun hother => ?_, fun h => h ▸ ht⟩, hprimary, fun packet now => ?_⟩
    · obtain ⟨hotherKind, hpair⟩ := (hfollows kind).kept other hother
      obtain ⟨ssrc, otherKind, id⟩ := other
      obtain ⟨ssrc', kind', id'⟩ := t
      cases hpair.symm.trans hprimary
      cases hotherKind.trans hkind.symm
      rfl
    · have hid : (b.inner.primary kind).trackId = some t.id := by
        rw [hprimary]
      exact (writeRtp_accepted hid packet now).1
  · exact (hfollows kind).known.imp_right fun ⟨t, ht⟩ => ⟨t, ht, ((hfollows kind).kept t ht).2⟩
  · refine writeRtp_other (fun kind hid => ?_) packet now
    rcases (hfollows kind).known with hnone | ⟨t, ht⟩
    · rw [hnone] at hid
      cases hid
    · rw [((hfollows kind).kept t ht).2] at hid
      exact hothers kind t ht (Option.some.inj hid)
  · rintro newer m older t m' t' rfl hids hstart hm' hstart' hssrc hkind
    refine ⟨stop_replaced run hids hstart hm' hstart' hssrc hkind, fun other hne hlisted => ?_⟩
    exact trackStopped_keeps hne (run_listed run hlisted) t.id
  · obtain ⟨hsps, hpps⟩ := run_offered run
    obtain ⟨first, hfirst, hrest⟩ := Option.bind_eq_some_iff.mp hsets
    obtain ⟨second, hsecond, heq⟩ := Option.bind_eq_some_iff.mp hrest
    cases heq
    exact ⟨(hsps sps hfirst).takenFrom run, (hpps pps hsecond).takenFrom run⟩

section Handover

def h264 : List Char := "video/H264".toList

def parameterSet (header : UInt8) : RtpPacket Unit := ⟨96, 1, 0, 7, ([header, 1], ())⟩

def after (calls : List (BridgeCall Unit)) : RtpBridge Unit := (Reactive.play step (new 0) calls).2

/-- The calls of a track that starts and brings both parameter sets. -/
def running (ssrc : UInt32) (nanos : Nat) : List (BridgeCall Unit) :=
  [.writeRtp (parameterSet 0x68) (trackIdOf ssrc nanos) 0, .writeRtp (parameterSet 0x67) (trackIdOf ssrc nanos) 0,
    .trackStarted ssrc h264 nanos]

/-- The first video track is accepted, and a second one with its source takes its place, which
the stop of the first one leaves to it. -/
theorem bridge_run_restart :
    let first : RtpBridge Unit := ((new 0).trackStarted 7 h264 10).2.1
    let second : RtpBridge Unit := (first.trackStarted 7 h264 20).2.1
    (∀ packet now, (first.writeRtp packet (trackIdOf 7 10) now).buffer = first.buffer.add packet now) ∧
      (second.trackStopped 7 (trackIdOf 7 10)).inner.primary .video = second.inner.primary .video := by
  intro first second
  have hfirst : Run step (new 0) [⟨new 0, .trackStarted 7 h264 10⟩] first := .snoc .nil rfl
  have hsecond : Run step (new 0) [⟨first, .trackStarted 7 h264 20⟩, ⟨new 0, .trackStarted 7 h264 10⟩] second :=
    .snoc hfirst rfl
  have hkind : kindOf h264 = some .video := by decide
  refine ⟨?_, ?_⟩
  · exact ((bridge_run hfirst).1 .video [] _ [] ⟨7, kindOf h264, trackIdOf 7 10⟩ rfl rfl hkind
      (fun _ hother => hother.elim) (List.forall_mem_nil _)).2.2
  · have hids : ([trackIdOf 7 20, trackIdOf 7 10] : List String).Nodup := by decide +kernel
    have hstop := (bridge_run hsecond).2.2.2.1 [⟨first, .trackStarted 7 h264 20⟩] _ []
      ⟨7, kindOf h264, trackIdOf 7 10⟩ _ ⟨7, kindOf h264, trackIdOf 7 20⟩ rfl hids rfl List.mem_cons_self rfl rfl rfl
    exact hstop.1 .video

/-- The accepted track stops, and the one that was ignored is not accepted: its packet does not go
into the buffer. The stop of a replaced track takes away the parameter sets of the newer one. -/
theorem bridge_lets_go :
    (after [.trackStopped 1 (trackIdOf 1 10), .trackStarted 2 h264 20, .trackStarted 1 h264 10]).inner.video =
        ⟨none, none⟩ ∧
      (after [.writeRtp (parameterSet 0x67) (trackIdOf 2 20) 0, .trackStopped 1 (trackIdOf 1 10),
        .trackStarted 2 h264 20, .trackStarted 1 h264 10]).buffer.video.order = [] ∧
    (after (.trackStarted 7 h264 20 :: running 7 10)).inner.video = ⟨some 7, some (trackIdOf 7 20)⟩ ∧
      (after (.trackStarted 7 h264 20 :: running 7 10)).spsPps = some ([0x67, 1], [0x68, 1]) ∧
    (after (running 7 20 ++ [.trackStarted 7 h264 10])).spsPps = some ([0x67, 1], [0x68, 1]) ∧
      (after (.trackStopped 7 (trackIdOf 7 10) :: running 7 20 ++ [.trackStarted 7 h264 10])).spsPps = none := by
  decide +kernel

end Handover

end RtpBridge

end Mistlib.Media
