import Mathlib.Data.List.Chain
import Mistlib.Data.Table
import Mistlib.Types

/-!
# The media output buffer

Packets of a stream wait in `slots` by their sequence number, and `order` lists the numbers as
they arrived. A flush hands out what stands at its pointer and moves on by one; where nothing
stands there it stops, unless what arrived first has waited too long, in which case the pointer
goes to that packet. What is handed out is numbered anew.

The two cannot disagree (`Sound`), so a flush never takes out of an empty queue or slot, and it
ends: a turn that only moves the pointer is followed by one that sends (`flushLoop_drains`).
-/

namespace Mistlib.Media

def PAYLOAD_TYPE_OPUS : UInt8 := 111

def VIDEO_SSRC : UInt32 := 0x12345678

def AUDIO_SSRC : UInt32 := 0x87654321

def MAX_TIMESTAMP_DELTA : UInt32 := 90000

def DEFAULT_BUFFER_SIZE : Nat := 2000

def MIN_MAX_BUFFER_SIZE : Nat := 1000

def MAX_FLUSH_BATCH : Nat := 500

def MAX_STALE_PACKET_AGE : Duration := 100000000

/-- An RTP packet. `rest` is the payload and what else is in the header, which the buffer
passes on as it is. -/
structure Packet (ρ : Type) where
  payloadType : UInt8
  sequenceNumber : UInt16
  timestamp : UInt32
  ssrc : UInt32
  rest : ρ
deriving DecidableEq, Repr

structure BufferedPacket (ρ : Type) where
  pkt : Packet ρ
  received : Instant
deriving DecidableEq, Repr

structure StreamState (ρ : Type) where
  slots : Table UInt16 (BufferedPacket ρ)
  order : List UInt16
  nextSeq : Option UInt16
  outgoingSeq : Option UInt16
  lastInputTs : Option UInt32
  lastOutputTs : Option UInt32

/-- How a flush panics, or runs out of turns. -/
inductive FlushFault where
  | indexOutOfBounds
  | unwrapNone
  | outOfFuel
deriving DecidableEq, Repr

/-- A packet as it was taken out of its slot, and as it is handed out. -/
structure Sent (ρ : Type) where
  taken : Packet ρ
  packet : Packet ρ
deriving DecidableEq, Repr

inductive Turn (ρ : Type) where
  | stop
  | skip (next : UInt16)
  | send (sent : Sent ρ) (s : StreamState ρ)

namespace StreamState

variable {ρ : Type}

def new : StreamState ρ := ⟨∅, [], none, none, none, none⟩

variable (s : StreamState ρ)

def evictOldest : StreamState ρ :=
  match s.order with
  | [] => s
  | oldest :: order => { s with order, slots := s.slots.erase oldest }

def addTo (pkt : Packet ρ) (maxPerStream : Nat) (now : Instant) : StreamState ρ :=
  let seq := pkt.sequenceNumber
  let s := if s.order.length ≥ maxPerStream then s.evictOldest else s
  { s with
    slots := s.slots.insert seq ⟨pkt, now⟩
    order := if s.slots.contains seq then s.order else s.order ++ [seq] }

/-- The timestamp and the number a packet is handed out with. -/
def outgoing (pkt : Packet ρ) : UInt32 × UInt16 :=
  match s.lastOutputTs, s.outgoingSeq with
  | some lastOutTs, some outSeq =>
    let lastInTs := s.lastInputTs.getD pkt.timestamp
    let delta := pkt.timestamp - lastInTs
    let delta := if delta > MAX_TIMESTAMP_DELTA then 0 else delta
    (lastOutTs + delta, outSeq + 1)
  | _, _ => (pkt.timestamp, pkt.sequenceNumber)

def sendFrom (next : UInt16) (buffered : BufferedPacket ρ) (outSsrc : UInt32) : Except FlushFault (Turn ρ) :=
  let (outTs, outSeq) := s.outgoing buffered.pkt
  match s.slots.get next with
  | none => .error .unwrapNone
  | some taken =>
    let pkt := taken.pkt
    .ok (.send ⟨pkt, { pkt with ssrc := outSsrc, timestamp := outTs, sequenceNumber := outSeq }⟩
      { s with
        slots := s.slots.erase next
        order := s.order.erase next
        lastInputTs := some buffered.pkt.timestamp
        lastOutputTs := some outTs
        outgoingSeq := some outSeq })

def turn (outSsrc : UInt32) (next : UInt16) (now : Instant) : Except FlushFault (Turn ρ) :=
  match s.slots.get next with
  | none =>
    match s.order with
    | [] => .error .indexOutOfBounds
    | oldest :: _ =>
      let isStale := (s.slots.get oldest).any fun p => decide (now - p.received > MAX_STALE_PACKET_AGE)
      .ok (if isStale then .skip oldest else .stop)
  | some buffered => s.sendFrom next buffered outSsrc

/-- The loop of `flush_stream`, which counts in `sent` what it has put in `out`. The clock is
read in each turn. -/
def flushLoop (outSsrc : UInt32) : Nat → (Nat → Instant) → StreamState ρ → UInt16 → List (Sent ρ) →
    Except FlushFault (List (Sent ρ) × StreamState ρ)
  | 0, _, _, _, _ => .error .outOfFuel
  | fuel + 1, clock, s, next, out =>
    if out.length < MAX_FLUSH_BATCH ∧ s.order ≠ [] then
      match s.turn outSsrc next (clock 0) with
      | .error fault => .error fault
      | .ok .stop => .ok (out, { s with nextSeq := some next })
      | .ok (.skip oldest) => flushLoop outSsrc fuel (fun i => clock (i + 1)) s oldest out
      | .ok (.send sent s) => flushLoop outSsrc fuel (fun i => clock (i + 1)) s (next + 1) (out ++ [sent])
    else .ok (out, { s with nextSeq := some next })

def flushStream (outSsrc : UInt32) (fuel : Nat) (clock : Nat → Instant) :
    Except FlushFault (List (Sent ρ) × StreamState ρ) :=
  match s.order with
  | [] => .ok ([], s)
  | first :: _ => flushLoop outSsrc fuel clock s (s.nextSeq.getD first) []

end StreamState

/-- Two turns for each packet of a batch, and one that ends the loop. -/
def FLUSH_TURNS : Nat := 2 * MAX_FLUSH_BATCH + 1

structure OutputBuffer (ρ : Type) where
  maxPerStream : Nat
  video : StreamState ρ
  audio : StreamState ρ

namespace OutputBuffer

variable {ρ : Type}

def new (bufferSize : Nat) : OutputBuffer ρ :=
  let size := if bufferSize = 0 then DEFAULT_BUFFER_SIZE else bufferSize
  ⟨max (size / 2) MIN_MAX_BUFFER_SIZE, .new, .new⟩

variable (b : OutputBuffer ρ)

def add (pkt : Packet ρ) (now : Instant) : OutputBuffer ρ :=
  if pkt.payloadType = PAYLOAD_TYPE_OPUS then { b with audio := b.audio.addTo pkt b.maxPerStream now }
  else { b with video := b.video.addTo pkt b.maxPerStream now }

/-- The video first. Each stream reads the clock for itself. -/
def flushReady (fuel : Nat) (videoClock audioClock : Nat → Instant) :
    Except FlushFault (List (Sent ρ) × OutputBuffer ρ) := do
  let (video, videoState) ← b.video.flushStream VIDEO_SSRC fuel videoClock
  let (audio, audioState) ← b.audio.flushStream AUDIO_SSRC fuel audioClock
  return (video ++ audio, { b with video := videoState, audio := audioState })

def clear : OutputBuffer ρ := { b with video := .new, audio := .new }

end OutputBuffer

namespace StreamState

variable {ρ : Type} {s s' : StreamState ρ} {seq next oldest : UInt16} {buffered : BufferedPacket ρ} {outSsrc : UInt32}

/-! ## One stream -/

/-- The queue lists the slots that are filled, and a slot holds a packet of its number. -/
structure Sound (s : StreamState ρ) : Prop where
  listed : ∀ seq, seq ∈ s.order ↔ s.slots.contains seq = true
  nodup : s.order.Nodup
  keyed : ∀ seq buffered, s.slots.get seq = some buffered → buffered.pkt.sequenceNumber = seq

theorem sound_new : (new : StreamState ρ).Sound where
  listed seq := by
    refine iff_of_false List.not_mem_nil ?_
    rw [new, Table.contains, Table.get_empty]
    exact Bool.false_ne_true
  nodup := List.nodup_nil
  keyed seq buffered h := by
    rw [new, Table.get_empty] at h
    cases h

section

variable (h : s.Sound)
include h

theorem Sound.get_of_mem (hmem : seq ∈ s.order) : ∃ buffered, s.slots.get seq = some buffered :=
  Table.contains_iff.mp ((h.listed seq).mp hmem)

theorem Sound.mem_of_get (hget : s.slots.get seq = some buffered) : seq ∈ s.order :=
  (h.listed seq).mpr (Table.contains_iff.mpr ⟨buffered, hget⟩)

theorem Sound.remove (hslots : s'.slots = s.slots.erase seq) (horder : s'.order = s.order.erase seq) :
    s'.Sound := by
  refine ⟨fun other => ?_, ?_, fun other buffered hget => ?_⟩
  · rw [horder, h.nodup.mem_erase_iff, h.listed, hslots, Table.contains, Table.contains, Table.get_erase]
    split
    · next heq => exact iff_of_false (fun hmem => hmem.1 heq) Bool.false_ne_true
    · next hne => exact and_iff_right hne
  · rw [horder]
    exact h.nodup.erase seq
  · rw [hslots, Table.get_erase] at hget
    split at hget
    · cases hget
    · exact h.keyed other buffered hget

theorem Sound.evictOldest : s.evictOldest.Sound := by
  unfold StreamState.evictOldest
  split
  · exact h
  · next oldest order horder =>
    refine h.remove rfl ?_
    rw [horder, List.erase_cons_head]

theorem Sound.fill (pkt : Packet ρ) (now : Instant) : Sound { s with
      slots := s.slots.insert pkt.sequenceNumber ⟨pkt, now⟩
      order := if s.slots.contains pkt.sequenceNumber then s.order else s.order ++ [pkt.sequenceNumber] } := by
  have hcontains : ∀ other, (s.slots.insert pkt.sequenceNumber ⟨pkt, now⟩).contains other = true ↔
      other = pkt.sequenceNumber ∨ s.slots.contains other = true := by
    intro other
    rw [Table.contains, Table.contains, Table.get_insert]
    split
    · next heq => exact iff_of_true rfl (.inl heq)
    · next hne => exact (or_iff_right hne).symm
  refine ⟨fun other => ?_, ?_, fun other buffered hget => ?_⟩
  · rw [hcontains]
    show other ∈ (if s.slots.contains pkt.sequenceNumber = true then _ else _) ↔ _
    split
    · next hin =>
      rw [h.listed]
      refine ⟨.inr, fun hor => hor.elim (fun heq => ?_) id⟩
      rw [heq]
      exact hin
    · rw [List.mem_append, List.mem_singleton, h.listed]
      exact or_comm
  · show List.Nodup (if s.slots.contains pkt.sequenceNumber = true then _ else _)
    split
    · exact h.nodup
    · next hnot =>
      refine List.nodup_append.mpr ⟨h.nodup, List.nodup_singleton _, ?_⟩
      rintro a ha b hb rfl
      obtain rfl := List.mem_singleton.mp hb
      exact hnot ((h.listed _).mp ha)
  · have hget := hget
    rw [Table.get_insert] at hget
    split at hget
    · next heq =>
      cases hget
      exact heq.symm
    · exact h.keyed other buffered hget

theorem Sound.addTo (pkt : Packet ρ) (maxPerStream : Nat) (now : Instant) :
    (s.addTo pkt maxPerStream now).Sound := by
  unfold StreamState.addTo
  dsimp only
  split
  · exact h.evictOldest.fill pkt now
  · exact h.fill pkt now

end

theorem length_addTo {maxPerStream : Nat} (hmax : 0 < maxPerStream) (h : s.order.length ≤ maxPerStream)
    (pkt : Packet ρ) (now : Instant) : (s.addTo pkt maxPerStream now).order.length ≤ maxPerStream := by
  have hfill : ∀ t : StreamState ρ, t.order.length < maxPerStream →
      (if t.slots.contains pkt.sequenceNumber then t.order else t.order ++ [pkt.sequenceNumber]).length ≤
        maxPerStream := by
    intro t ht
    split
    · exact Nat.le_of_lt ht
    · rw [List.length_append]
      exact ht
  unfold addTo
  dsimp only
  split
  · refine hfill _ ?_
    unfold evictOldest
    split
    · next hnil =>
      rw [hnil]
      exact hmax
    · next horder =>
      rw [horder, List.length_cons] at h
      exact h
  · next hroom => exact hfill s (Nat.lt_of_not_le hroom)

def sentOf (s : StreamState ρ) (pkt : Packet ρ) (outSsrc : UInt32) : Sent ρ :=
  ⟨pkt, { pkt with ssrc := outSsrc, timestamp := (s.outgoing pkt).1, sequenceNumber := (s.outgoing pkt).2 }⟩

def takenOut (s : StreamState ρ) (next : UInt16) (pkt : Packet ρ) : StreamState ρ :=
  { s with
    slots := s.slots.erase next
    order := s.order.erase next
    lastInputTs := some pkt.timestamp
    lastOutputTs := some (s.outgoing pkt).1
    outgoingSeq := some (s.outgoing pkt).2 }

theorem Sound.takenOut (h : s.Sound) (next : UInt16) (pkt : Packet ρ) : (s.takenOut next pkt).Sound :=
  h.remove rfl rfl

theorem turn_send (hget : s.slots.get next = some buffered) (now : Instant) :
    s.turn outSsrc next now = .ok (.send (s.sentOf buffered.pkt outSsrc) (s.takenOut next buffered.pkt)) := by
  simp only [turn, sendFrom, hget]
  rfl

theorem turn_wait (hget : s.slots.get next = none) {rest : List UInt16} (horder : s.order = oldest :: rest)
    (now : Instant) : s.turn outSsrc next now = .ok .stop ∨ s.turn outSsrc next now = .ok (.skip oldest) := by
  simp only [turn, hget, horder]
  split
  · exact .inr rfl
  · exact .inl rfl

/-- The packets that a flush takes from a pointer on: those that stand there and, after a
skip, the first arrival. The skips are listed with the pointer they leave. -/
inductive Drains (outSsrc : UInt32) :
    StreamState ρ → UInt16 → List (UInt16 × UInt16) → List (Sent ρ) → StreamState ρ → UInt16 → Prop
  | done (s : StreamState ρ) (next : UInt16) : Drains outSsrc s next [] [] s next
  | send {s s' : StreamState ρ} {next next' : UInt16} {buffered : BufferedPacket ρ} {skips : List (UInt16 × UInt16)}
      {sents : List (Sent ρ)} (hget : s.slots.get next = some buffered)
      (rest : Drains outSsrc (s.takenOut next buffered.pkt) (next + 1) skips sents s' next') :
      Drains outSsrc s next skips (s.sentOf buffered.pkt outSsrc :: sents) s' next'
  | skip {s s' : StreamState ρ} {next oldest next' : UInt16} {buffered : BufferedPacket ρ}
      {skips : List (UInt16 × UInt16)} {sents : List (Sent ρ)} (hnone : s.slots.get next = none)
      (hget : s.slots.get oldest = some buffered)
      (rest : Drains outSsrc (s.takenOut oldest buffered.pkt) (oldest + 1) skips sents s' next') :
      Drains outSsrc s next ((next, oldest) :: skips) (s.sentOf buffered.pkt outSsrc :: sents) s' next'

/-- The skips of a flush, each with the pointer it leaves: the loop over again. -/
def skips (outSsrc : UInt32) : Nat → (Nat → Instant) → StreamState ρ → UInt16 → List (Sent ρ) →
    List (UInt16 × UInt16)
  | 0, _, _, _, _ => []
  | fuel + 1, clock, s, next, out =>
    if out.length < MAX_FLUSH_BATCH ∧ s.order ≠ [] then
      match s.turn outSsrc next (clock 0) with
      | .ok (.skip oldest) => (next, oldest) :: skips outSsrc fuel (fun i => clock (i + 1)) s oldest out
      | .ok (.send sent s) => skips outSsrc fuel (fun i => clock (i + 1)) s (next + 1) (out ++ [sent])
      | _ => []
    else []

section Loop

variable (outSsrc : UInt32) (fuel : Nat) (clock : Nat → Instant) {out : List (Sent ρ)}

theorem flushLoop_over (hover : ¬ (out.length < MAX_FLUSH_BATCH ∧ s.order ≠ [])) :
    flushLoop outSsrc (fuel + 1) clock s next out = .ok (out, { s with nextSeq := some next }) ∧
      skips outSsrc (fuel + 1) clock s next out = [] := by
  rw [flushLoop, skips, if_neg hover, if_neg hover]
  exact ⟨rfl, rfl⟩

theorem flushLoop_send (hroom : out.length < MAX_FLUSH_BATCH ∧ s.order ≠ []) (hget : s.slots.get next = some buffered) :
    flushLoop outSsrc (fuel + 1) clock s next out = flushLoop outSsrc fuel (fun i => clock (i + 1))
        (s.takenOut next buffered.pkt) (next + 1) (out ++ [s.sentOf buffered.pkt outSsrc]) ∧
      skips outSsrc (fuel + 1) clock s next out = skips outSsrc fuel (fun i => clock (i + 1))
        (s.takenOut next buffered.pkt) (next + 1) (out ++ [s.sentOf buffered.pkt outSsrc]) := by
  rw [flushLoop, skips, if_pos hroom, if_pos hroom, turn_send hget]
  exact ⟨rfl, rfl⟩

theorem flushLoop_wait (hroom : out.length < MAX_FLUSH_BATCH) (hget : s.slots.get next = none) {rest : List UInt16}
    (horder : s.order = oldest :: rest) :
    (flushLoop outSsrc (fuel + 1) clock s next out = .ok (out, { s with nextSeq := some next }) ∧
      skips outSsrc (fuel + 1) clock s next out = []) ∨
    (flushLoop outSsrc (fuel + 1) clock s next out =
        flushLoop outSsrc fuel (fun i => clock (i + 1)) s oldest out ∧
      skips outSsrc (fuel + 1) clock s next out =
        (next, oldest) :: skips outSsrc fuel (fun i => clock (i + 1)) s oldest out) := by
  have hcond : out.length < MAX_FLUSH_BATCH ∧ s.order ≠ [] := by
    refine ⟨hroom, ?_⟩
    rw [horder]
    exact List.cons_ne_nil oldest rest
  rw [flushLoop, skips, if_pos hcond, if_pos hcond]
  rcases turn_wait hget horder (clock 0) with hstop | hskip
  · rw [hstop]
    exact .inl ⟨rfl, rfl⟩
  · rw [hskip]
    exact .inr ⟨rfl, rfl⟩

end Loop

/-- A loop with two turns for each packet it may still hand out ends, and without a panic. -/
theorem flushLoop_drains (h : s.Sound) (outSsrc : UInt32) {fuel : Nat} (clock : Nat → Instant) (next : UInt16)
    (out : List (Sent ρ)) (hout : out.length ≤ MAX_FLUSH_BATCH) (hfuel : 2 * (MAX_FLUSH_BATCH - out.length) < fuel) :
    ∃ sents s' next', flushLoop outSsrc fuel clock s next out = .ok (out ++ sents, { s' with nextSeq := some next' }) ∧
      Drains outSsrc s next (skips outSsrc fuel clock s next out) sents s' next' ∧
      out.length + sents.length ≤ MAX_FLUSH_BATCH := by
  have hends : ∀ {fuel : Nat} {s : StreamState ρ} {clock : Nat → Instant} {next : UInt16} {out : List (Sent ρ)},
      out.length ≤ MAX_FLUSH_BATCH →
      flushLoop outSsrc fuel clock s next out = .ok (out, { s with nextSeq := some next }) ∧
        skips outSsrc fuel clock s next out = [] →
      ∃ sents s' next', flushLoop outSsrc fuel clock s next out =
          .ok (out ++ sents, { s' with nextSeq := some next' }) ∧
        Drains outSsrc s next (skips outSsrc fuel clock s next out) sents s' next' ∧
        out.length + sents.length ≤ MAX_FLUSH_BATCH := by
    rintro fuel s clock next out hout ⟨hloop, hskips⟩
    refine ⟨[], s, next, ?_, ?_, hout⟩
    · rw [hloop, List.append_nil]
    · rw [hskips]
      exact .done s next
  induction hleft : MAX_FLUSH_BATCH - out.length generalizing fuel clock s next out with
  | zero =>
    obtain ⟨fuel, rfl⟩ := Nat.exists_eq_succ_of_ne_zero (Nat.ne_zero_of_lt hfuel)
    exact hends hout (flushLoop_over _ _ _ fun hroom => absurd hroom.1 (by omega))
  | succ left ih =>
    obtain ⟨fuel, rfl⟩ : ∃ n, fuel = n + 2 := ⟨fuel - 2, by omega⟩
    have hroom : out.length < MAX_FLUSH_BATCH := by omega
    -- What is left once the packet in a slot is handed out.
    have hsend : ∀ (fuel : Nat) (clock : Nat → Instant) {slot : UInt16} {buffered : BufferedPacket ρ},
        2 * left < fuel → s.slots.get slot = some buffered →
        ∃ sents s' next', flushLoop outSsrc (fuel + 1) clock s slot out =
            .ok (out ++ s.sentOf buffered.pkt outSsrc :: sents, { s' with nextSeq := some next' }) ∧
          Drains outSsrc (s.takenOut slot buffered.pkt) (slot + 1) (skips outSsrc (fuel + 1) clock s slot out)
            sents s' next' ∧
          out.length + (sents.length + 1) ≤ MAX_FLUSH_BATCH := by
      intro fuel clock slot buffered hfuel hget
      obtain ⟨hloop, hskips⟩ := flushLoop_send outSsrc fuel clock
        ⟨hroom, List.ne_nil_of_mem (h.mem_of_get hget)⟩ hget
      have hlength : (out ++ [s.sentOf buffered.pkt outSsrc]).length = out.length + 1 := List.length_append
      have hfuel' : 2 * (MAX_FLUSH_BATCH - (out ++ [s.sentOf buffered.pkt outSsrc]).length) < fuel := by omega
      obtain ⟨sents, s', next', hrest, hdrains, hbatch⟩ := ih (h.takenOut slot buffered.pkt)
        (fun i => clock (i + 1)) (slot + 1) (out ++ [s.sentOf buffered.pkt outSsrc]) (by omega) hfuel' (by omega)
      rw [List.append_assoc, List.singleton_append] at hrest
      refine ⟨sents, s', next', hloop.trans hrest, ?_, by omega⟩
      rw [hskips]
      exact hdrains
    cases hget : s.slots.get next with
    | some buffered =>
      obtain ⟨sents, s', next', hloop, hdrains, hbatch⟩ := hsend (fuel + 1) clock (by omega) hget
      exact ⟨_, s', next', hloop, .send hget hdrains, hbatch⟩
    | none =>
      cases horder : s.order with
      | nil => exact hends hout (flushLoop_over _ _ _ fun hcond => hcond.2 horder)
      | cons oldest rest =>
        rcases flushLoop_wait outSsrc (fuel + 1) clock hroom hget horder with
          hstop | ⟨hskip, hskips⟩
        · exact hends hout hstop
        · obtain ⟨buffered, hbuffered⟩ := h.get_of_mem (horder ▸ List.mem_cons_self)
          obtain ⟨sents, s', next', hloop, hdrains, hbatch⟩ :=
            hsend fuel (fun i => clock (i + 1)) (by omega) hbuffered
          refine ⟨_, s', next', hskip.trans hloop, ?_, hbatch⟩
          rw [hskips]
          exact .skip hget hbuffered hdrains

/-! ### A flush -/

theorem flushLoop_mono {fuel : Nat} {clock : Nat → Instant} {out : List (Sent ρ)} {r : List (Sent ρ) × StreamState ρ}
    (h : flushLoop outSsrc fuel clock s next out = .ok r) (more : Nat) :
    flushLoop outSsrc (fuel + more) clock s next out = .ok r := by
  induction fuel generalizing clock s next out with
  | zero => cases h
  | succ fuel ih =>
    rw [Nat.add_right_comm]
    rw [flushLoop] at h ⊢
    split at h
    · next hroom =>
      rw [if_pos hroom]
      split at h
      · cases h
      · exact h
      · exact ih h
      · exact ih h
    · next hover =>
      rw [if_neg hover]
      exact h

def flushSkips (s : StreamState ρ) (outSsrc : UInt32) (clock : Nat → Instant) : List (UInt16 × UInt16) :=
  match s.order with
  | [] => []
  | first :: _ => skips outSsrc FLUSH_TURNS clock s (s.nextSeq.getD first) []

/-- A flush of an empty stream does nothing. Another one goes on from the pointer, or from the
first arrival if there is no pointer yet, and ends with at most a batch handed out. -/
theorem flushStream_cases (h : s.Sound) (outSsrc : UInt32) (clock : Nat → Instant) :
    (s.order = [] ∧ ∀ fuel, s.flushStream outSsrc fuel clock = .ok ([], s)) ∨
      ∃ first rest sents s' next', s.order = first :: rest ∧
        (∀ fuel, FLUSH_TURNS ≤ fuel →
          s.flushStream outSsrc fuel clock = .ok (sents, { s' with nextSeq := some next' })) ∧
        Drains outSsrc s (s.nextSeq.getD first) (s.flushSkips outSsrc clock) sents s' next' ∧
        sents.length ≤ MAX_FLUSH_BATCH := by
  cases horder : s.order with
  | nil =>
    refine .inl ⟨rfl, fun fuel => ?_⟩
    simp only [flushStream, horder]
  | cons first rest =>
    obtain ⟨sents, s', next', hloop, hdrains, hbatch⟩ := flushLoop_drains h outSsrc clock
      (s.nextSeq.getD first) [] (Nat.zero_le _) (Nat.lt_succ_self (2 * MAX_FLUSH_BATCH))
    refine .inr ⟨first, rest, sents, s', next', rfl, fun fuel hfuel => ?_, ?_, ?_⟩
    · obtain ⟨more, rfl⟩ := Nat.exists_eq_add_of_le hfuel
      simp only [flushStream, horder]
      exact flushLoop_mono hloop more
    · simp only [flushSkips, horder]
      exact hdrains
    · exact (Nat.zero_add _).symm.trans_le hbatch

/-- A packet is handed out as it came but for its source, timestamp and number. -/
def Rewritten (outSsrc : UInt32) (sent : Sent ρ) : Prop :=
  sent.packet = { sent.taken with
    ssrc := outSsrc
    timestamp := sent.packet.timestamp
    sequenceNumber := sent.packet.sequenceNumber }

namespace Drains

variable {next' : UInt16} {skips : List (UInt16 × UInt16)} {sents : List (Sent ρ)}

section

variable (d : Drains outSsrc s next skips sents s' next')
include d

theorem rewritten : ∀ sent ∈ sents, Rewritten outSsrc sent := by
  induction d with
  | done => exact List.forall_mem_nil _
  | send _ _ ih | skip _ _ _ ih => exact List.forall_mem_cons.mpr ⟨rfl, ih⟩

theorem sound (h : s.Sound) : s'.Sound := by
  induction d with
  | done => exact h
  | send _ _ ih | skip _ _ _ ih => exact ih (h.takenOut _ _)

theorem length_le : s'.order.length ≤ s.order.length := by
  induction d with
  | done => exact le_rfl
  | send _ _ ih | skip _ _ _ ih => exact Nat.le_trans ih List.length_erase_le

end

end Drains

theorem Sound.flushStream_returns (h : s.Sound) (outSsrc : UInt32) (clock : Nat → Instant) :
    ∃ sents s', (∀ fuel, FLUSH_TURNS ≤ fuel → s.flushStream outSsrc fuel clock = .ok (sents, s')) ∧
      sents.length ≤ MAX_FLUSH_BATCH ∧ ∀ sent ∈ sents, sent.packet.ssrc = outSsrc := by
  rcases flushStream_cases h outSsrc clock with ⟨_, hflush⟩ | ⟨_, _, sents, s', next', _, hflush, hdrains, hbatch⟩
  · exact ⟨[], s, fun fuel _ => hflush fuel, Nat.zero_le _, List.forall_mem_nil _⟩
  · refine ⟨sents, _, hflush, hbatch, fun sent hsent => ?_⟩
    rw [hdrains.rewritten sent hsent]

def held (s : StreamState ρ) : List (Packet ρ) := s.slots.values.map BufferedPacket.pkt

theorem held_takenOut (hget : s.slots.get seq = some buffered) :
    s.held.Perm (buffered.pkt :: (s.takenOut seq buffered.pkt).held) := by
  have hvalues : s.slots.values.Perm (buffered :: (s.slots.erase seq).values) :=
    (Table.entries_perm_of_get hget).map fun e : (_ : UInt16) × BufferedPacket ρ => e.2
  exact hvalues.map BufferedPacket.pkt

theorem Drains.held {next' : UInt16} {skips : List (UInt16 × UInt16)} {sents : List (Sent ρ)}
    (d : Drains outSsrc s next skips sents s' next') : s.held.Perm (sents.map Sent.taken ++ s'.held) := by
  induction d with
  | done => exact List.Perm.refl _
  | send hget _ ih | skip _ hget _ ih => exact (held_takenOut hget).trans (ih.cons _)

theorem held_erase (s : StreamState ρ) (seq : UInt16) :
    ((s.slots.erase seq).values.map BufferedPacket.pkt).Subperm s.held := by
  cases hget : s.slots.get seq with
  | none =>
    rw [Table.erase_of_get_none hget]
    exact List.Subperm.refl _
  | some buffered => exact (List.sublist_cons_self _ _).subperm.trans (held_takenOut hget).symm.subperm

theorem held_addTo (s : StreamState ρ) (pkt : Packet ρ) (maxPerStream : Nat) (now : Instant) :
    (s.addTo pkt maxPerStream now).held.Subperm (pkt :: s.held) := by
  have hfill : ∀ t : StreamState ρ,
      ((t.slots.insert pkt.sequenceNumber ⟨pkt, now⟩).values.map BufferedPacket.pkt).Subperm (pkt :: t.held) := by
    intro t
    rw [Table.values, Table.entries_insert]
    exact (List.subperm_cons pkt).mpr (held_erase t pkt.sequenceNumber)
  unfold addTo
  dsimp only
  split
  · refine (hfill _).trans ((List.subperm_cons pkt).mpr ?_)
    unfold evictOldest
    split
    · exact List.Subperm.refl _
    · next oldest order _ => exact held_erase s oldest
  · exact hfill s

/-- A packet continues another: it has the next number, and its timestamp is at most
`MAX_TIMESTAMP_DELTA` later. -/
def Continues (earlier later : Packet ρ) : Prop :=
  later.sequenceNumber = earlier.sequenceNumber + 1 ∧ later.timestamp - earlier.timestamp ≤ MAX_TIMESTAMP_DELTA

structure Remembers (s : StreamState ρ) (last : Option (Packet ρ)) : Prop where
  ts : s.lastOutputTs = last.map Packet.timestamp
  seq : s.outgoingSeq = last.map Packet.sequenceNumber

theorem Remembers.continues {last : Packet ρ} (h : s.Remembers (some last)) (pkt : Packet ρ) (outSsrc : UInt32) :
    Continues last (s.sentOf pkt outSsrc).packet := by
  obtain ⟨hts, hseq⟩ := h
  rw [Option.map_some] at hts hseq
  refine ⟨?_, ?_⟩
  · simp only [sentOf, outgoing, hts, hseq]
  · simp only [sentOf, outgoing, hts, hseq]
    rw [UInt32.add_comm, UInt32.add_sub_cancel]
    split
    · exact UInt32.zero_le
    · next hle => exact UInt32.not_lt.mp hle

theorem remembers_takenOut (s : StreamState ρ) (next : UInt16) (pkt : Packet ρ) (outSsrc : UInt32) :
    (s.takenOut next pkt).Remembers (some (s.sentOf pkt outSsrc).packet) := ⟨rfl, rfl⟩

theorem Drains.continues {next' : UInt16} {skips : List (UInt16 × UInt16)} {sents : List (Sent ρ)}
    (d : Drains outSsrc s next skips sents s' next') {before : List (Packet ρ)} (h : s.Remembers before.getLast?)
    (hbefore : before.IsChain Continues) :
    (before ++ sents.map Sent.packet).IsChain Continues ∧
      s'.Remembers (before ++ sents.map Sent.packet).getLast? := by
  have hsent : ∀ {s : StreamState ρ} (pkt : Packet ρ) {before : List (Packet ρ)}, s.Remembers before.getLast? →
      before.IsChain Continues → (before ++ [(s.sentOf pkt outSsrc).packet]).IsChain Continues := by
    intro s pkt before h hbefore
    refine List.isChain_append.mpr ⟨hbefore, .singleton _, fun last hlast sent hsent => ?_⟩
    cases hsent
    rw [hlast] at h
    exact h.continues pkt outSsrc
  induction d generalizing before with
  | done =>
    rw [List.map_nil, List.append_nil]
    exact ⟨hbefore, h⟩
  | @send s _ next _ buffered _ _ _ _ ih =>
    rw [List.map_cons, List.append_cons]
    refine ih ?_ (hsent buffered.pkt h hbefore)
    rw [List.getLast?_concat]
    exact remembers_takenOut s next buffered.pkt outSsrc
  | @skip s _ _ oldest _ buffered _ _ _ _ _ ih =>
    rw [List.map_cons, List.append_cons]
    refine ih ?_ (hsent buffered.pkt h hbefore)
    rw [List.getLast?_concat]
    exact remembers_takenOut s oldest buffered.pkt outSsrc

end StreamState

end Mistlib.Media
