import Mistlib.Storage.Transfer
import Mistlib.Storage.WantLoop

/-!
# Sending a block

`send_block` submits the frames of a block one after the other. A frame that finds no route is
submitted again after a delay, and the delays of the whole block come out of one budget; any other
error ends the block.
-/

namespace Mistlib.Storage

open Reactive (Move Run)

def ROUTE_RETRY_INTERVAL : Duration := 200 * 1000000

theorem route_recovery_eq : RESPONDER_ROUTE_RECOVERY = ROUTE_RETRY_INTERVAL * 25 := rfl

/-- The counters of the storage telemetry that a responder moves. -/
structure ResponderCounters where
  routeRecoveries : Nat
  writeErrors : Nat
  routeRetries : Nat
  chunksSubmitted : Nat
  bytesSubmitted : Nat
deriving DecidableEq, Repr

/-- A block as it is served to one peer. -/
structure ServedBlock where
  cid : Cid
  data : Bytes
  chunkSize : Nat
  totalChunks : Nat
deriving DecidableEq, Repr

/-- Where `send_block` stands: at the submission of the frame `index`, or at its end. -/
structure BlockSend where
  index : Nat
  routeWait : Duration
  retried : Bool
  counters : ResponderCounters
  /-- The delays it has slept, the latest first. -/
  slept : List Duration
  /-- The frames after which `after_frame` ran, the latest first. -/
  after : List Nat
  result : Option (Except MistError Unit)

def isRouteNotFound : MistError → Bool
  | .routeNotFound _ => true
  | _ => false

namespace ServedBlock

variable (b : ServedBlock)

/-- The frame that is submitted at an index. -/
def frame (index : Nat) : Option Bytes := buildHavePayload b.cid b.data index b.totalChunks b.chunkSize

def frames : Option (List Bytes) := sendBlockFrames b.cid b.data b.chunkSize b.totalChunks

/-- The bytes of the block that a frame counts for. -/
def frameBytes (index : Nat) : Nat :=
  if b.totalChunks ≤ 1 then b.data.length else min (b.data.length - index * b.chunkSize) b.chunkSize

end ServedBlock

namespace BlockSend

def start : BlockSend where
  index := 0
  routeWait := 0
  retried := false
  counters := ⟨0, 0, 0, 0, 0⟩
  slept := []
  after := []
  result := none

/-- The frame got through: the next one begins, if there is one. -/
def submitted (b : ServedBlock) (s : BlockSend) : BlockSend :=
  { s with
    index := s.index + 1
    retried := false
    counters :=
      { s.counters with
        routeRecoveries := if s.retried then s.counters.routeRecoveries + 1 else s.counters.routeRecoveries
        chunksSubmitted := s.counters.chunksSubmitted + 1
        bytesSubmitted := s.counters.bytesSubmitted + b.frameBytes s.index }
    after := s.index :: s.after
    result := if s.index + 1 < max b.totalChunks 1 then none else some (.ok ()) }

/-- The frame did not get through: it is submitted again after a delay, or the block
ends. -/
def failed (s : BlockSend) (error : MistError) : BlockSend :=
  let counters := { s.counters with writeErrors := s.counters.writeErrors + 1 }
  if ¬ isRouteNotFound error ∨ s.routeWait ≥ RESPONDER_ROUTE_RECOVERY then
    { s with counters, result := some (.error error) }
  else
    let delay := min ROUTE_RETRY_INTERVAL (RESPONDER_ROUTE_RECOVERY - s.routeWait)
    { s with
      counters := { counters with routeRetries := counters.routeRetries + 1 }
      routeWait := s.routeWait + delay
      slept := delay :: s.slept
      retried := true }

/-- What becomes of the block when `send_response` returns. It is called with a frame that was
built. -/
def answer (b : ServedBlock) (s : BlockSend) (outcome : Except MistError Unit) : Option BlockSend :=
  if s.result.isSome ∨ (b.frame s.index).isNone then none
  else
    match outcome with
    | .ok () => some (s.submitted b)
    | .error error => some (s.failed error)

/-- The frame that a move got through, if it did. -/
def accepted (b : ServedBlock) (m : Move BlockSend (Except MistError Unit)) : Option Bytes :=
  match m.input with
  | .ok () => b.frame m.before.index
  | .error _ => none

/-- What each outcome keeps. The moves are listed with the latest first. -/
structure Kept (b : ServedBlock) (frames : List Bytes) (moves : List (Move BlockSend (Except MistError Unit)))
    (s : BlockSend) : Prop where
  accepted : (moves.filterMap (accepted b)).reverse = frames.take s.index
  more : s.result ≠ some (.ok ()) → s.index < max b.totalChunks 1
  done : s.result = some (.ok ()) → s.index = max b.totalChunks 1
  slept : s.slept.sum = s.routeWait
  budget : s.routeWait = ROUTE_RETRY_INTERVAL * s.slept.length ∧ s.routeWait ≤ RESPONDER_ROUTE_RECOVERY
  calls : moves.length ≤ s.index + s.slept.length + if s.result = none ∨ s.result = some (.ok ()) then 0 else 1
  retried : ∀ m ∈ moves, ∀ error, m.input = .error error →
    isRouteNotFound error ∨ s.result = some (.error error)

variable {b : ServedBlock} {frames : List Bytes} {s s' : BlockSend}
  {moves : List (Move BlockSend (Except MistError Unit))}

theorem length_frames (hframes : b.frames = some frames) : frames.length = max b.totalChunks 1 := by
  have hlength := congrArg List.length (sendBlockFrames_eq_some.mp hframes)
  rw [List.length_map, List.length_map, List.length_range] at hlength
  exact hlength.symm

theorem frame_eq_getElem (hframes : b.frames = some frames) {index : Nat} (h : index < frames.length) :
    b.frame index = some frames[index] := by
  have hall := congrArg (·[index]?) (sendBlockFrames_eq_some.mp hframes)
  have hrange : index < max b.totalChunks 1 := length_frames hframes ▸ h
  simpa [h, hrange, ServedBlock.frame] using hall

theorem kept_start (b : ServedBlock) (frames : List Bytes) : Kept b frames [] start where
  accepted := rfl
  more _ := Nat.lt_of_lt_of_le Nat.zero_lt_one (Nat.le_max_right _ _)
  done h := nomatch h
  slept := rfl
  budget := ⟨rfl, Nat.zero_le _⟩
  calls := Nat.zero_le _
  retried := List.forall_mem_nil _

theorem Kept.submitted (hframes : b.frames = some frames) (h : Kept b frames moves s)
    (hopen : s.result = none) : Kept b frames (⟨s, .ok ()⟩ :: moves) (s.submitted b) where
  accepted := by
    have hindex : s.index < frames.length := by
      rw [length_frames hframes]
      exact h.more (by rw [hopen]; exact nofun)
    have hframe : BlockSend.accepted b ⟨s, .ok ()⟩ = some frames[s.index] := frame_eq_getElem hframes hindex
    rw [List.filterMap_cons_some hframe, List.reverse_cons, h.accepted]
    show _ = frames.take (s.index + 1)
    rw [List.take_add_one, List.getElem?_eq_getElem hindex]
    rfl
  more := by
    show (if _ then _ else _ : Option (Except MistError Unit)) ≠ _ → s.index + 1 < _
    split
    · next hmore => exact fun _ => hmore
    · exact fun hne => absurd rfl hne
  done := by
    have hroom := h.more (by rw [hopen]; exact nofun)
    show (if _ then _ else _ : Option (Except MistError Unit)) = _ → s.index + 1 = _
    split
    · exact nofun
    · next hdone => exact fun _ => Nat.le_antisymm hroom (Nat.not_lt.mp hdone)
  slept := h.slept
  budget := h.budget
  calls := by
    have hcalls := h.calls
    rw [if_pos (Or.inl hopen)] at hcalls
    show moves.length + 1 ≤ s.index + 1 + s.slept.length + _
    omega
  retried := by
    refine List.forall_mem_cons.mpr ⟨nofun, fun m hm error herror => Or.inl ?_⟩
    obtain hroute | hended := h.retried m hm error herror
    · exact hroute
    · rw [hopen] at hended
      cases hended

theorem Kept.failed (h : Kept b frames moves s) (hopen : s.result = none) (error : MistError) :
    Kept b frames (⟨s, .error error⟩ :: moves) (s.failed error) := by
  have hcalls := h.calls
  rw [if_pos (Or.inl hopen)] at hcalls
  have hmore := h.more (by rw [hopen]; exact nofun)
  have hretried : ∀ m ∈ moves, ∀ error, m.input = .error error → isRouteNotFound error := by
    intro m hm error herror
    obtain hroute | hended := h.retried m hm error herror
    · exact hroute
    · rw [hopen] at hended
      cases hended
  rw [BlockSend.failed]
  split
  · refine ⟨h.accepted, fun _ => hmore, nofun, h.slept, h.budget, ?_, ?_⟩
    · show moves.length + 1 ≤ s.index + s.slept.length + 1
      omega
    · refine List.forall_mem_cons.mpr ⟨fun e herror => Or.inr ?_, fun m hm e herror => Or.inl ?_⟩
      · rw [Except.error.inj herror]
      · exact hretried m hm e herror
  · next hagain =>
    obtain ⟨hroute, hbudget⟩ := not_or.mp hagain
    -- the interval divides the budget, so that no delay is clipped
    have hfits : s.routeWait + ROUTE_RETRY_INTERVAL ≤ RESPONDER_ROUTE_RECOVERY := by
      rw [h.budget.1, route_recovery_eq, ← Nat.mul_succ]
      refine Nat.mul_le_mul_left _ ?_
      rw [h.budget.1, route_recovery_eq] at hbudget
      exact Nat.lt_of_mul_lt_mul_left (Nat.not_le.mp hbudget)
    have hdelay : min ROUTE_RETRY_INTERVAL (RESPONDER_ROUTE_RECOVERY - s.routeWait) = ROUTE_RETRY_INTERVAL :=
      Nat.min_eq_left (Nat.le_sub_of_add_le' hfits)
    rw [hdelay]
    refine ⟨h.accepted, fun _ => hmore, fun hdone => ?_, ?_, ⟨?_, ?_⟩, ?_, ?_⟩
    · rw [hopen] at hdone
      cases hdone
    · show ROUTE_RETRY_INTERVAL + s.slept.sum = s.routeWait + ROUTE_RETRY_INTERVAL
      rw [h.slept, Nat.add_comm]
    · show s.routeWait + ROUTE_RETRY_INTERVAL = ROUTE_RETRY_INTERVAL * (s.slept.length + 1)
      rw [h.budget.1, Nat.mul_succ]
    · exact hfits
    · show moves.length + 1 ≤ s.index + (s.slept.length + 1) + _
      omega
    · refine List.forall_mem_cons.mpr ⟨fun e herror => Or.inl ?_, fun m hm e herror => Or.inl ?_⟩
      · rw [← Except.error.inj herror]
        exact not_not.mp hroute
      · exact hretried m hm e herror

theorem answer_of_open (hframes : b.frames = some frames) (h : Kept b frames moves s)
    (hopen : s.result = none) (outcome : Except MistError Unit) : ∃ s', answer b s outcome = some s' := by
  have hindex : s.index < frames.length := by
    rw [length_frames hframes]
    exact h.more (by rw [hopen]; exact nofun)
  unfold answer
  rw [if_neg (by simp [hopen, frame_eq_getElem hframes hindex])]
  cases outcome with
  | ok _ | error error => exact ⟨_, rfl⟩

theorem open_of_answer {outcome : Except MistError Unit} (h : answer b s outcome = some s') :
    s.result = none := by
  unfold answer at h
  split at h
  · cases h
  · next hopen => exact Option.not_isSome_iff_eq_none.mp (not_or.mp hopen).1

/-- After every run the frames accepted are the block's first ones. -/
theorem kept_run (hframes : b.frames = some frames) (run : Run (answer b) start moves s) :
    Kept b frames moves s := by
  refine run.keeps (P := Kept b frames) (kept_start b frames) fun moves s outcome s' h hanswer => ?_
  have hopen := open_of_answer hanswer
  unfold answer at hanswer
  obtain ⟨-, hanswer⟩ := Option.ite_none_left_eq_some.mp hanswer
  cases outcome with
  | ok _ =>
    cases hanswer
    exact h.submitted hframes hopen
  | error error =>
    cases hanswer
    exact h.failed hopen error

/-- What has been done for a block so far. The moves are listed with the latest first. -/
structure Sends (b : ServedBlock) (frames : List Bytes) (moves : List (Move BlockSend (Except MistError Unit)))
    (s : BlockSend) : Prop where
  /-- The frames that got through are the first ones, in order and each once. -/
  front : (moves.filterMap (accepted b)).reverse <+: frames
  whole : (moves.filterMap (accepted b)).reverse = frames ↔ s.result = some (.ok ())
  retried : ∀ m ∈ moves, ∀ error, m.input = .error error →
    isRouteNotFound error ∨ s.result = some (.error error)
  slept : s.slept.sum ≤ RESPONDER_ROUTE_RECOVERY
  calls : moves.length ≤ max b.totalChunks 1 + 25

/-- What a run keeps says what was sent. -/
theorem Kept.sends (hframes : b.frames = some frames) (h : Kept b frames moves s) :
    s.Sends b frames moves := by
  have hroom : s.index ≤ max b.totalChunks 1 ∧
      (s.result ≠ none → s.result ≠ some (.ok ()) → s.index + 1 ≤ max b.totalChunks 1) := by
    by_cases hdone : s.result = some (.ok ())
    · exact ⟨Nat.le_of_eq (h.done hdone), fun _ hne => absurd hdone hne⟩
    · exact ⟨Nat.le_of_lt (h.more hdone), fun _ _ => h.more hdone⟩
  refine ⟨?_, ?_, h.retried, ?_, ?_⟩
  · rw [h.accepted]
    exact List.take_prefix _ _
  · rw [h.accepted, List.take_eq_self_iff, length_frames hframes]
    constructor
    · intro hle
      by_contra hne
      exact Nat.not_lt_of_le hle (h.more hne)
    · exact fun hdone => Nat.le_of_eq (h.done hdone).symm
  · rw [h.slept]
    exact h.budget.2
  · have hretries : s.slept.length ≤ 25 := by
      obtain ⟨hwait, hbudget⟩ := h.budget
      rw [hwait, route_recovery_eq] at hbudget
      exact Nat.le_of_mul_le_mul_left hbudget (by decide)
    have hcalls := h.calls
    split at hcalls
    · omega
    · next hended =>
      obtain ⟨hclosed, hfailed⟩ := not_or.mp hended
      have := hroom.2 hclosed hfailed
      omega

end BlockSend

namespace ServedBlock

/-- The block has a frame for each of its chunks: every slice that is taken lies within it. -/
theorem frames_built {b : ServedBlock} (hchunk : 0 < b.chunkSize)
    (htotal : haveChunkCount b.data.length b.chunkSize = some b.totalChunks) :
    ∃ frames, b.frames = some frames :=
  ⟨_, sendBlockFrames_built b.cid fun _ hindex => chunk_begins hchunk htotal hindex⟩

/-- The end of a slice is computed below twice the length of the block, which a `usize` holds. -/
def EndFits (b : ServedBlock) (index : Nat) : Prop :=
  b.totalChunks ≤ 1 ∨ (index + 1) * b.chunkSize < 2 * b.data.length

theorem endFits {b : ServedBlock} (hchunk : 0 < b.chunkSize)
    (htotal : haveChunkCount b.data.length b.chunkSize = some b.totalChunks)
    {index : Nat} (hindex : index < max b.totalChunks 1) : b.EndFits index := by
  obtain hsingle | hseveral := Nat.lt_or_ge 1 b.totalChunks |>.symm
  · exact .inl hsingle
  · have hfirst : index * b.chunkSize < b.data.length := chunk_begins hchunk htotal (by omega)
    have hsecond : 1 * b.chunkSize < b.data.length := chunk_begins hchunk htotal hseveral
    have hnext : (index + 1) * b.chunkSize = index * b.chunkSize + b.chunkSize := Nat.succ_mul _ _
    exact .inr (by omega)

end ServedBlock

/-- Whatever `send_response` returns: the frames that get through are a prefix of the
block's, the block ends after a bounded number of calls, and until then each outcome
leads on. Every frame can be built. -/
theorem sendBlock_submits {b : ServedBlock} (hchunk : 0 < b.chunkSize)
    (htotal : haveChunkCount b.data.length b.chunkSize = some b.totalChunks)
    {moves : List (Move BlockSend (Except MistError Unit))} {s : BlockSend}
    (run : Run (BlockSend.answer b) .start moves s) :
    ∃ frames, b.frames = some frames ∧ s.Sends b frames moves ∧
      (s.result = none → ∀ outcome, ∃ s', s.answer b outcome = some s') ∧
      ∀ m ∈ moves, b.EndFits m.before.index := by
  obtain ⟨frames, hframes⟩ := ServedBlock.frames_built hchunk htotal
  have hkept := BlockSend.kept_run hframes run
  refine ⟨frames, hframes, hkept.sends hframes, BlockSend.answer_of_open hframes hkept, fun m hm => ?_⟩
  obtain ⟨newer, older, rfl⟩ := List.append_of_mem hm
  obtain ⟨mid, hbefore, hanswer, _⟩ := run.split
  have hopen := BlockSend.open_of_answer hanswer
  have hmore := (BlockSend.kept_run hframes hbefore).more (by rw [hopen]; exact nofun)
  exact ServedBlock.endFits hchunk htotal hmore

def octet : ServedBlock where
  cid := "cid"
  data := [1, 2, 3, 4, 5, 6, 7, 8]
  chunkSize := 2
  totalChunks := 4

/-- The second chunk meets a route gap, and then the block goes through. -/
def gapOutcomes : List (Except MistError Unit) :=
  [.ok (), .error (.routeNotFound ⟨"peer"⟩), .ok (), .ok (), .ok ()]

def gapRun : List (Move BlockSend (Except MistError Unit)) × BlockSend :=
  Reactive.play (BlockSend.answer octet) .start gapOutcomes.reverse

theorem sendBlock_submits_gap :
    ∃ frames, octet.frames = some frames ∧ gapRun.2.Sends octet frames gapRun.1 ∧
      (gapRun.2.result = none → ∀ outcome, ∃ s', gapRun.2.answer octet outcome = some s') ∧
      ∀ m ∈ gapRun.1, octet.EndFits m.before.index :=
  sendBlock_submits (by decide) (by decide) (Reactive.run_play _ _ gapOutcomes.reverse)

example : gapRun.1.length = 5 ∧ gapRun.2.slept = [ROUTE_RETRY_INTERVAL] ∧ gapRun.2.counters = ⟨1, 1, 1, 4, 8⟩ := by
  decide +kernel

end Mistlib.Storage
