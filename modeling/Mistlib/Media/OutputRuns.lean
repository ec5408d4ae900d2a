import Mistlib.Async.Reactive
import Mistlib.Media.OutputBuffer

/-!
# Runs of the output buffer

Packets come in, flushes are made and the buffer is cleared in any order. `Kept` is what holds
of a stream after a run; the buffer is two streams side by side, each of which goes through
its own calls (`stream_part`).
-/

namespace Mistlib.Media

open Reactive (Move Run)

namespace StreamState

variable {ρ : Type} {s s' : StreamState ρ} {outSsrc : UInt32}

/-! ## One stream -/

/-- What is done to a stream. A flush reads the clock in each turn. -/
inductive Call (ρ : Type) where
  | add (pkt : Packet ρ) (now : Instant)
  | flush (clock : Nat → Instant)
  | clear

def step (outSsrc : UInt32) (maxPerStream : Nat) (s : StreamState ρ) : Call ρ → Option (StreamState ρ)
  | .add pkt now => some (s.addTo pkt maxPerStream now)
  | .flush clock => (s.flushStream outSsrc FLUSH_TURNS clock).toOption.map Prod.snd
  | .clear => some new

/-- The packet that comes in by a call. -/
def Call.packet : Call ρ → Option (Packet ρ)
  | .add pkt _ => some pkt
  | _ => none

def Call.isClear : Call ρ → Bool
  | .clear => true
  | _ => false

def sents (outSsrc : UInt32) (m : Move (StreamState ρ) (Call ρ)) : List (Sent ρ) :=
  match m.input with
  | .flush clock => ((m.before.flushStream outSsrc FLUSH_TURNS clock).toOption.map Prod.fst).getD []
  | _ => []

def output (outSsrc : UInt32) (moves : List (Move (StreamState ρ) (Call ρ))) : List (Sent ρ) :=
  moves.reverse.flatMap (sents outSsrc)

theorem output_cons (m : Move (StreamState ρ) (Call ρ)) (past : List (Move (StreamState ρ) (Call ρ))) :
    output outSsrc (m :: past) = output outSsrc past ++ sents outSsrc m := by
  rw [output, List.reverse_cons, List.flatMap_append, List.flatMap_singleton]
  rfl

def sinceClear (moves : List (Move (StreamState ρ) (Call ρ))) : List (Move (StreamState ρ) (Call ρ)) :=
  moves.takeWhile fun m => !m.input.isClear

variable {maxPerStream : Nat}

/-- A flush does nothing to an empty stream and otherwise takes packets from its pointer on. -/
theorem step_flush (h : s.Sound) (outSsrc : UInt32) (clock : Nat → Instant)
    (hstep : s.step outSsrc maxPerStream (.flush clock) = some s') :
    (s.order = [] ∧ s' = s ∧ sents outSsrc ⟨s, .flush clock⟩ = []) ∨
      ∃ first rest s'' next', s.order = first :: rest ∧ s' = { s'' with nextSeq := some next' } ∧
        Drains outSsrc s (s.nextSeq.getD first) (s.flushSkips outSsrc clock) (sents outSsrc ⟨s, .flush clock⟩)
          s'' next' := by
  rcases flushStream_cases h outSsrc clock with
    ⟨hnil, hflush⟩ | ⟨first, rest, sents, s'', next', horder, hflush, hdrains, _⟩
  · rw [step, hflush] at hstep
    cases hstep
    refine .inl ⟨hnil, rfl, ?_⟩
    simp only [StreamState.sents, hflush]
    rfl
  · rw [step, hflush _ le_rfl] at hstep
    cases hstep
    refine .inr ⟨first, rest, s'', next', horder, rfl, ?_⟩
    simp only [StreamState.sents, hflush _ le_rfl]
    exact hdrains

/-- What holds of a stream after a run. -/
structure Kept (outSsrc : UInt32) (maxPerStream : Nat) (moves : List (Move (StreamState ρ) (Call ρ)))
    (s : StreamState ρ) : Prop where
  sound : s.Sound
  bounded : s.order.length ≤ maxPerStream
  rewritten : ∀ sent ∈ output outSsrc moves, Rewritten outSsrc sent
  once : ((output outSsrc moves).map Sent.taken ++ s.held).Subperm (moves.filterMap fun m => m.input.packet)
  continuous : ((output outSsrc (sinceClear moves)).map Sent.packet).IsChain Continues
  remembers : s.Remembers ((output outSsrc (sinceClear moves)).map Sent.packet).getLast?

theorem kept_new (outSsrc : UInt32) (maxPerStream : Nat) : Kept outSsrc maxPerStream [] (new : StreamState ρ) where
  sound := sound_new
  bounded := Nat.zero_le _
  rewritten := List.forall_mem_nil _
  once := List.Subperm.refl _
  continuous := .nil
  remembers := ⟨rfl, rfl⟩

/-- Each call keeps the books of a stream. -/
theorem Kept.step (hmax : 0 < maxPerStream) {past : List (Move (StreamState ρ) (Call ρ))}
    {call : Call ρ} (h : Kept outSsrc maxPerStream past s)
    (hstep : s.step outSsrc maxPerStream call = some s') :
    Kept outSsrc maxPerStream (⟨s, call⟩ :: past) s' := by
  cases call with
  | add pkt now =>
    obtain rfl := Option.some_injective _ hstep
    have hout : ∀ moves, output outSsrc (⟨s, .add pkt now⟩ :: moves) = output outSsrc moves := by
      intro moves
      rw [output_cons]
      exact List.append_nil _
    refine ⟨h.sound.addTo pkt maxPerStream now, length_addTo hmax h.bounded pkt now, ?_, ?_, ?_, ?_⟩
    · rw [hout]
      exact h.rewritten
    · rw [hout]
      refine ((List.subperm_append_left _).mpr (held_addTo s pkt maxPerStream now)).trans ?_
      refine (List.perm_middle.subperm).trans ((List.subperm_cons pkt).mpr h.once)
    · rw [sinceClear, List.takeWhile_cons_of_pos rfl, hout]
      exact h.continuous
    · rw [sinceClear, List.takeWhile_cons_of_pos rfl, hout]
      unfold addTo
      dsimp only
      split
      · unfold evictOldest
        split
        · exact ⟨h.remembers.ts, h.remembers.seq⟩
        · exact ⟨h.remembers.ts, h.remembers.seq⟩
      · exact ⟨h.remembers.ts, h.remembers.seq⟩
  | clear =>
    obtain rfl := Option.some_injective _ hstep
    have hout : output outSsrc (⟨s, .clear⟩ :: past) = output outSsrc past := by
      rw [output_cons]
      exact List.append_nil _
    refine ⟨sound_new, Nat.zero_le _, ?_, ?_, .nil, ⟨rfl, rfl⟩⟩
    · rw [hout]
      exact h.rewritten
    · rw [hout, show (new : StreamState ρ).held = [] from rfl, List.append_nil]
      exact (List.sublist_append_left _ _).subperm.trans h.once
  | flush clock =>
    rcases step_flush h.sound outSsrc clock hstep with
      ⟨_, rfl, hnone⟩ | ⟨first, rest, s'', next', _, rfl, hdrains⟩
    · have hout : ∀ moves, output outSsrc (⟨s', .flush clock⟩ :: moves) = output outSsrc moves := by
        intro moves
        rw [output_cons, hnone, List.append_nil]
      refine ⟨h.sound, h.bounded, ?_, ?_, ?_, ?_⟩
      · rw [hout]
        exact h.rewritten
      · rw [hout]
        exact h.once
      · rw [sinceClear, List.takeWhile_cons_of_pos rfl, hout]
        exact h.continuous
      · rw [sinceClear, List.takeWhile_cons_of_pos rfl, hout]
        exact h.remembers
    · obtain ⟨hchain, hlast⟩ := hdrains.continues h.remembers h.continuous
      rw [← List.map_append] at hchain hlast
      refine ⟨?_, Nat.le_trans hdrains.length_le h.bounded, ?_, ?_, ?_, ?_⟩
      · obtain ⟨hlisted, hnodup, hkeyed⟩ := hdrains.sound h.sound
        exact ⟨hlisted, hnodup, hkeyed⟩
      · rw [output_cons]
        exact List.forall_mem_append.mpr ⟨h.rewritten, hdrains.rewritten⟩
      · rw [output_cons, List.map_append, List.append_assoc]
        exact ((hdrains.held.symm.append_left _).subperm).trans h.once
      · rw [sinceClear, List.takeWhile_cons_of_pos rfl, output_cons]
        exact hchain
      · rw [sinceClear, List.takeWhile_cons_of_pos rfl, output_cons]
        exact ⟨hlast.ts, hlast.seq⟩

theorem run_kept (hmax : 0 < maxPerStream) {moves : List (Move (StreamState ρ) (Call ρ))}
    (run : Run (StreamState.step outSsrc maxPerStream) new moves s) :
    Kept outSsrc maxPerStream moves s :=
  run.keeps (kept_new outSsrc maxPerStream) fun _ _ _ _ h hstep => h.step hmax hstep

end StreamState

/-! ## The two streams of a buffer -/

inductive Kind where
  | video
  | audio
deriving DecidableEq, Repr

def Kind.ssrc : Kind → UInt32
  | .video => VIDEO_SSRC
  | .audio => AUDIO_SSRC

theorem Kind.ssrc_injective : Function.Injective Kind.ssrc := by
  intro a b h
  cases a <;> cases b <;> first | rfl | exact absurd h (by decide)

/-- What is the stream's own of a pair. -/
def Kind.pick {α : Type} (kind : Kind) (video audio : α) : α :=
  match kind with
  | .video => video
  | .audio => audio

def Kind.of {ρ : Type} (pkt : Packet ρ) : Kind := if pkt.payloadType = PAYLOAD_TYPE_OPUS then .audio else .video

inductive BufferCall (ρ : Type) where
  | add (pkt : Packet ρ) (now : Instant)
  | flushReady (videoClock audioClock : Nat → Instant)
  | clear

def BufferCall.isClear {ρ : Type} : BufferCall ρ → Bool
  | .clear => true
  | _ => false

namespace OutputBuffer

variable {ρ : Type} {b b' : OutputBuffer ρ} {moves : List (Move (OutputBuffer ρ) (BufferCall ρ))}

def stream (b : OutputBuffer ρ) (kind : Kind) : StreamState ρ := kind.pick b.video b.audio

def step (b : OutputBuffer ρ) : BufferCall ρ → Option (OutputBuffer ρ)
  | .add pkt now => some (b.add pkt now)
  | .flushReady videoClock audioClock => (b.flushReady FLUSH_TURNS videoClock audioClock).toOption.map Prod.snd
  | .clear => some b.clear

/-- What a call of the buffer is to one of its streams. -/
def streamCall (kind : Kind) : BufferCall ρ → Option (StreamState.Call ρ)
  | .add pkt now => if Kind.of pkt = kind then some (.add pkt now) else none
  | .flushReady videoClock audioClock => some (.flush (kind.pick videoClock audioClock))
  | .clear => some .clear

def streamMove (kind : Kind) (m : Move (OutputBuffer ρ) (BufferCall ρ)) :
    Option (Move (StreamState ρ) (StreamState.Call ρ)) :=
  (streamCall kind m.input).map fun call => ⟨m.before.stream kind, call⟩

def output (kind : Kind) (moves : List (Move (OutputBuffer ρ) (BufferCall ρ))) : List (Sent ρ) :=
  StreamState.output kind.ssrc (moves.filterMap (streamMove kind))

theorem flushReady_eq {fuel : Nat} {videoClock audioClock : Nat → Instant} {video audio : List (Sent ρ)}
    {videoState audioState : StreamState ρ}
    (hvideo : b.video.flushStream VIDEO_SSRC fuel videoClock = .ok (video, videoState))
    (haudio : b.audio.flushStream AUDIO_SSRC fuel audioClock = .ok (audio, audioState)) :
    b.flushReady fuel videoClock audioClock =
      .ok (video ++ audio, { b with video := videoState, audio := audioState }) := by
  rw [flushReady, hvideo, haudio]
  rfl

theorem step_flushReady {videoClock audioClock : Nat → Instant}
    (h : b.step (.flushReady videoClock audioClock) = some b') :
    ∃ video videoState audio audioState,
      b.video.flushStream VIDEO_SSRC FLUSH_TURNS videoClock = .ok (video, videoState) ∧
      b.audio.flushStream AUDIO_SSRC FLUSH_TURNS audioClock = .ok (audio, audioState) ∧
      b' = { b with video := videoState, audio := audioState } := by
  cases hvideo : b.video.flushStream VIDEO_SSRC FLUSH_TURNS videoClock with
  | error fault =>
    rw [step, flushReady, hvideo] at h
    cases h
  | ok video =>
    cases haudio : b.audio.flushStream AUDIO_SSRC FLUSH_TURNS audioClock with
    | error fault =>
      rw [step, flushReady, hvideo, haudio] at h
      cases h
    | ok audio =>
      rw [step, flushReady_eq hvideo haudio] at h
      exact ⟨video.1, video.2, audio.1, audio.2, rfl, rfl, (Option.some.inj h).symm⟩

theorem stream_add (b : OutputBuffer ρ) (pkt : Packet ρ) (now : Instant) (kind : Kind) :
    (b.add pkt now).stream kind =
      if Kind.of pkt = kind then (b.stream kind).addTo pkt b.maxPerStream now else b.stream kind := by
  unfold add Kind.of
  cases kind
  · split
    · exact (if_neg Kind.noConfusion).symm
    · exact (if_pos rfl).symm
  · split
    · exact (if_pos rfl).symm
    · exact (if_neg Kind.noConfusion).symm

theorem maxPerStream_step {call : BufferCall ρ} (h : b.step call = some b') : b'.maxPerStream = b.maxPerStream := by
  cases call with
  | add pkt now =>
    cases h
    unfold add
    split
    · rfl
    · rfl
  | flushReady videoClock audioClock =>
    obtain ⟨_, _, _, _, _, _, rfl⟩ := step_flushReady h
    rfl
  | clear =>
    cases h
    rfl

theorem stream_part (kind : Kind) (maxPerStream : Nat) :
    Reactive.Part (step (ρ := ρ)) (StreamState.step kind.ssrc maxPerStream) (streamMove kind)
      fun b s => b.maxPerStream = maxPerStream ∧ b.stream kind = s := by
  refine ⟨?_, ?_⟩
  · rintro b call b' s m hstep ⟨rfl, rfl⟩ hmove
    cases call with
    | add pkt now =>
      rw [streamMove, streamCall] at hmove
      split at hmove
      · next hkind =>
        cases hmove
        refine ⟨rfl, _, rfl, maxPerStream_step hstep, ?_⟩
        cases hstep
        rw [stream_add, if_pos hkind]
      · cases hmove
    | flushReady videoClock audioClock =>
      cases hmove
      obtain ⟨video, videoState, audio, audioState, hvideo, haudio, rfl⟩ := step_flushReady hstep
      cases kind with
      | video =>
        refine ⟨rfl, videoState, ?_, rfl, rfl⟩
        show (b.video.flushStream VIDEO_SSRC FLUSH_TURNS videoClock).toOption.map Prod.snd = some videoState
        rw [hvideo]
        rfl
      | audio =>
        refine ⟨rfl, audioState, ?_, rfl, rfl⟩
        show (b.audio.flushStream AUDIO_SSRC FLUSH_TURNS audioClock).toOption.map Prod.snd = some audioState
        rw [haudio]
        rfl
    | clear =>
      cases hmove
      refine ⟨rfl, _, rfl, maxPerStream_step hstep, ?_⟩
      cases hstep
      cases kind <;> rfl
  · rintro b call b' s hstep ⟨rfl, rfl⟩ hmove
    refine ⟨maxPerStream_step hstep, ?_⟩
    cases call with
    | add pkt now =>
      rw [streamMove, streamCall] at hmove
      split at hmove
      · cases hmove
      · next hkind =>
        cases hstep
        rw [stream_add, if_neg hkind]
    | flushReady | clear => cases hmove

theorem stream_new (bufferSize : Nat) (kind : Kind) : (new bufferSize : OutputBuffer ρ).stream kind = .new := by
  cases kind <;> rfl

theorem maxPerStream_pos (bufferSize : Nat) : 0 < (new bufferSize : OutputBuffer ρ).maxPerStream :=
  Nat.lt_of_lt_of_le (Nat.zero_lt_succ 999) (Nat.le_max_right _ _)

variable {bufferSize : Nat}

/-- A run of the buffer is a run of each of its streams. -/
theorem run_stream (run : Run step (new bufferSize) moves b) (kind : Kind) :
    Run (StreamState.step kind.ssrc (new bufferSize : OutputBuffer ρ).maxPerStream) .new
        (moves.filterMap (streamMove kind)) (b.stream kind) ∧
      b.maxPerStream = (new bufferSize : OutputBuffer ρ).maxPerStream := by
  obtain ⟨s, hrun, hmax, rfl⟩ := run.part (stream_part kind _) ⟨rfl, stream_new bufferSize kind⟩
  exact ⟨hrun, hmax⟩

/-- After every run of the buffer each stream has kept its books. -/
theorem run_kept (run : Run step (new bufferSize) moves b) (kind : Kind) :
    StreamState.Kept kind.ssrc b.maxPerStream (moves.filterMap (streamMove kind)) (b.stream kind) := by
  obtain ⟨hrun, hmax⟩ := run_stream run kind
  rw [hmax]
  exact StreamState.run_kept (maxPerStream_pos bufferSize) hrun

def added (kind : Kind) (moves : List (Move (OutputBuffer ρ) (BufferCall ρ))) : List (Packet ρ) :=
  moves.filterMap fun m => (streamCall kind m.input).bind StreamState.Call.packet

theorem added_eq (kind : Kind) (moves : List (Move (OutputBuffer ρ) (BufferCall ρ))) :
    (moves.filterMap (streamMove kind)).filterMap (fun m => m.input.packet) = added kind moves := by
  rw [List.filterMap_filterMap]
  refine List.filterMap_congr fun m _ => ?_
  rw [streamMove, Option.bind_map]
  rfl

theorem streamCall_isClear {call : BufferCall ρ} {kind : Kind} {inner : StreamState.Call ρ}
    (h : streamCall kind call = some inner) : inner.isClear = call.isClear := by
  cases call with
  | add pkt now =>
    rw [streamCall] at h
    split at h
    · cases h
      rfl
    · cases h
  | flushReady | clear => cases h; rfl

theorem output_suffix (kind : Kind) {newer : List (Move (OutputBuffer ρ) (BufferCall ρ))}
    (hclear : ∀ m ∈ newer, m.input.isClear = false) (older : List (Move (OutputBuffer ρ) (BufferCall ρ))) :
    output kind newer <:+
      StreamState.output kind.ssrc (StreamState.sinceClear ((newer ++ older).filterMap (streamMove kind))) := by
  have hinner : ∀ m ∈ newer.filterMap (streamMove kind), (!m.input.isClear) = true := by
    intro m hm
    obtain ⟨m', hm', hmove⟩ := List.mem_filterMap.mp hm
    obtain ⟨inner, hcall, rfl⟩ := Option.map_eq_some_iff.mp hmove
    rw [streamCall_isClear hcall, hclear m' hm']
    rfl
  rw [List.filterMap_append, StreamState.sinceClear, List.takeWhile_append_of_pos hinner, output, StreamState.output,
    StreamState.output, List.reverse_append, List.flatMap_append]
  exact List.suffix_append _ _

/-- A flush returns within its turns, with a batch of each stream. -/
theorem flushReady_returns (h : ∀ kind, (b.stream kind).Sound) (videoClock audioClock : Nat → Instant) :
    ∃ out b', (∀ fuel, FLUSH_TURNS ≤ fuel → b.flushReady fuel videoClock audioClock = .ok (out, b')) ∧
      ∀ kind, output kind [⟨b, .flushReady videoClock audioClock⟩] =
          out.filter (fun sent => sent.packet.ssrc = kind.ssrc) ∧
        (output kind [⟨b, .flushReady videoClock audioClock⟩]).length ≤ MAX_FLUSH_BATCH := by
  choose sents state hflush hlength hssrc using fun kind =>
    (h kind).flushStream_returns kind.ssrc (kind.pick videoClock audioClock)
  have houtput : ∀ kind, output kind [⟨b, .flushReady videoClock audioClock⟩] = sents kind := by
    intro kind
    show (((b.stream kind).flushStream kind.ssrc FLUSH_TURNS (kind.pick videoClock audioClock)).toOption.map
      Prod.fst).getD [] ++ [] = sents kind
    rw [hflush kind _ le_rfl, List.append_nil]
    rfl
  have hfilter : ∀ own kind, (sents own).filter (fun sent => sent.packet.ssrc = kind.ssrc) =
      if own = kind then sents own else [] := by
    intro own kind
    split
    · next heq => exact List.filter_eq_self.mpr fun sent hsent => decide_eq_true (heq ▸ hssrc own sent hsent)
    · next hne =>
      refine List.filter_eq_nil_iff.mpr fun sent hsent hdec => hne (Kind.ssrc_injective ?_)
      exact (hssrc own sent hsent).symm.trans (of_decide_eq_true hdec)
  refine ⟨sents .video ++ sents .audio, _, fun fuel hfuel =>
    flushReady_eq (hflush .video fuel hfuel) (hflush .audio fuel hfuel), fun kind => ?_⟩
  rw [houtput kind, List.filter_append, hfilter, hfilter]
  refine ⟨?_, hlength kind⟩
  cases kind with
  | video => exact (List.append_nil _).symm
  | audio => rfl

theorem output_eq_of_calls {moves' : List (Move (OutputBuffer ρ) (BufferCall ρ))}
    (run : Run step (new bufferSize) moves b) (run' : Run step (new bufferSize) moves' b')
    (kind : Kind)
    (h : moves.filterMap (fun m => streamCall kind m.input) = moves'.filterMap (fun m => streamCall kind m.input)) :
    output kind moves = output kind moves' := by
  have hinputs : ∀ moves : List (Move (OutputBuffer ρ) (BufferCall ρ)),
      (moves.filterMap (streamMove kind)).map Move.input = moves.filterMap fun m => streamCall kind m.input := by
    intro moves
    rw [List.map_filterMap]
    refine List.filterMap_congr fun m _ => ?_
    rw [streamMove, Option.map_map]
    exact congrFun Option.map_id _
  have heq := (run_stream run kind).1.unique (run_stream run' kind).1 (by rw [hinputs, hinputs, h])
  rw [output, output, heq.1]

theorem output_cons (kind : Kind) (m : Move (OutputBuffer ρ) (BufferCall ρ)) :
    output kind (m :: moves) = output kind moves ++ output kind [m] := by
  rw [output, output, output, ← List.singleton_append, List.filterMap_append, StreamState.output, StreamState.output,
    StreamState.output, List.reverse_append, List.flatMap_append]

/-- After every run of a buffer: the queue of a stream lists the keys of its slots, once each
and no more than there may be; what a stream has handed out are packets that came in for it,
each once and as it came but for its source, timestamp and number; a flush returns, with at
most a batch of each stream; between clears the numbers handed out follow each other and the
timestamps go forward; and what a stream hands out does not depend on the packets of the other. -/
theorem output_buffer_run {bufferSize : Nat} (run : Run step (new bufferSize) moves b) :
    (∀ kind, (∀ seq, seq ∈ (b.stream kind).order ↔ (b.stream kind).slots.contains seq = true) ∧
      (b.stream kind).order.Nodup ∧ (b.stream kind).order.length ≤ b.maxPerStream) ∧
    (∀ kind, ((output kind moves).map Sent.taken).Subperm (added kind moves) ∧
      ∀ sent ∈ output kind moves, StreamState.Rewritten kind.ssrc sent) ∧
    (∀ videoClock audioClock, ∃ out b',
      (∀ fuel, FLUSH_TURNS ≤ fuel → b.flushReady fuel videoClock audioClock = .ok (out, b')) ∧
      ∀ kind, (out.filter fun sent => sent.packet.ssrc = kind.ssrc).length ≤ MAX_FLUSH_BATCH ∧
        output kind (⟨b, .flushReady videoClock audioClock⟩ :: moves) =
          output kind moves ++ out.filter fun sent => sent.packet.ssrc = kind.ssrc) ∧
    (∀ kind newer older, moves = newer ++ older → (∀ m ∈ newer, m.input.isClear = false) →
      ((output kind newer).map Sent.packet).IsChain StreamState.Continues) ∧
    ∀ kind moves' b', Run step (new bufferSize) moves' b' →
      moves.filterMap (fun m => streamCall kind m.input) = moves'.filterMap (fun m => streamCall kind m.input) →
      output kind moves = output kind moves' := by
  have hkept := run_kept run
  refine ⟨fun kind => ⟨(hkept kind).sound.listed, (hkept kind).sound.nodup, (hkept kind).bounded⟩,
    fun kind => ⟨?_, (hkept kind).rewritten⟩, fun videoClock audioClock => ?_,
    fun kind newer older heq hclear => ?_, fun kind moves' b' run' => output_eq_of_calls run run' kind⟩
  · rw [← added_eq]
    exact (List.sublist_append_left _ _).subperm.trans (hkept kind).once
  · obtain ⟨out, b', hflush, hout⟩ := flushReady_returns (fun kind => (hkept kind).sound) videoClock audioClock
    refine ⟨out, b', hflush, fun kind => ?_⟩
    obtain ⟨heq, hlength⟩ := hout kind
    rw [output_cons, ← heq]
    exact ⟨hlength, rfl⟩
  · subst heq
    exact (hkept kind).continuous.suffix ((output_suffix kind hclear older).map Sent.packet)

/-- Packet 3 is handed out second, as number 2, once it has waited for packet 2 for too long. -/
theorem output_buffer_run_gap :
    let packet (seq : UInt16) : Packet Unit := ⟨96, seq, 3000, 7, ()⟩
    let inputs : List (BufferCall Unit) := [.flushReady (fun _ => 300000000) (fun _ => 300000000), .add (packet 3) 5,
      .flushReady (fun _ => 0) (fun _ => 0), .add (packet 1) 0]
    let moves := (Reactive.play step (new 0) inputs).1
    ((output .video moves).map Sent.packet).IsChain StreamState.Continues ∧
      (output .video moves).map (fun sent => (sent.taken.sequenceNumber, sent.packet.sequenceNumber)) =
        [(1, 1), (3, 2)] := by
  intro packet inputs moves
  have hrun := output_buffer_run (Reactive.run_play step (new 0) inputs)
  refine ⟨hrun.2.2.2.1 .video _ [] (List.append_nil _).symm ?_, ?_⟩
  · decide +kernel
  · decide +kernel

end OutputBuffer

end Mistlib.Media
