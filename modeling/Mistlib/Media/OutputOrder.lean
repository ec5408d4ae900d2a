import Mistlib.Media.OutputRuns

/-!
# The order of what is handed out

What a flush takes at its pointer comes after what it took before. Only the skip over a gap can
go wrong: it goes to the packet that arrived first, wherever that one lies, and a packet that
came in behind the pointer is a first arrival too once it has waited for long enough.

One number is later than another modulo `2 ^ 16` if it lies in the half of the circle ahead of
it.
-/

namespace Mistlib.Media

open Reactive (Move Run)

/-- The serial order of the numbers of packets. -/
def SerialLt (a b : UInt16) : Prop := 0 < b - a ∧ b - a < 0x8000
deriving Decidable

/-- A number that the pointer may go to: not behind it. -/
def Ahead (pointer target : UInt16) : Prop := target - pointer < 0x7fff
deriving Decidable

theorem serialLt_iff_ahead (a target : UInt16) : SerialLt a target ↔ Ahead (a + 1) target := by
  have hsub : target - (a + 1) = target - a - 1 := by
    rw [UInt16.sub_eq_add_neg, UInt16.sub_eq_add_neg, UInt16.sub_eq_add_neg, UInt16.neg_add, UInt16.sub_eq_add_neg,
      UInt16.add_assoc]
  rw [SerialLt, Ahead, hsub]
  generalize target - a = distance
  rw [UInt16.lt_iff_toNat_lt, UInt16.lt_iff_toNat_lt, UInt16.lt_iff_toNat_lt, UInt16.toNat_sub]
  have hlt := distance.toNat_lt
  show 0 < distance.toNat ∧ distance.toNat < 32768 ↔ (2 ^ 16 - 1 + distance.toNat) % 2 ^ 16 < 32767
  omega

theorem serialLt_add_one (a : UInt16) : SerialLt a (a + 1) := by
  rw [serialLt_iff_ahead, Ahead, UInt16.sub_self]
  decide

namespace StreamState

variable {ρ : Type} {s s' : StreamState ρ} {outSsrc : UInt32}

def number (sent : Sent ρ) : UInt16 := sent.taken.sequenceNumber

/-- The numbers a flush takes come after those before, if and only if its skips go ahead. -/
theorem Drains.ordered_iff {next next' : UInt16} {skips : List (UInt16 × UInt16)} {sents : List (Sent ρ)}
    (d : Drains outSsrc s next skips sents s' next') (h : s.Sound) (before : List UInt16)
    (hlast : ∀ last, before.getLast? = some last → next = last + 1)
    (hfirst : before = [] → (s.slots.get next).isSome) :
    ((before ++ sents.map number).IsChain SerialLt ↔
      before.IsChain SerialLt ∧ ∀ skip ∈ skips, Ahead skip.1 skip.2) ∧
    ∀ last, (before ++ sents.map number).getLast? = some last → next' = last + 1 := by
  induction d generalizing before with
  | done =>
    rw [List.map_nil, List.append_nil]
    exact ⟨(and_iff_left (List.forall_mem_nil _)).symm, hlast⟩
  | @send s _ next _ buffered skips sents hget _ ih =>
    have hnumber : number (s.sentOf buffered.pkt outSsrc) = next := h.keyed next buffered hget
    rw [List.map_cons, List.append_cons, hnumber]
    have hbefore : (before ++ [next]).IsChain SerialLt ↔ before.IsChain SerialLt := by
      rw [List.isChain_append]
      refine ⟨fun hchain => hchain.1, fun hchain => ⟨hchain, .singleton _, fun last hmem x hx => ?_⟩⟩
      cases hx
      rw [hlast last hmem]
      exact serialLt_add_one last
    have hrest := ih (h.takenOut next buffered.pkt) (before ++ [next])
    rw [hbefore] at hrest
    refine hrest ?_ fun hnil => absurd hnil (List.append_ne_nil_of_right_ne_nil _ (List.cons_ne_nil _ _))
    intro last hgetLast
    rw [List.getLast?_concat] at hgetLast
    rw [Option.some.inj hgetLast]
  | @skip s _ next oldest _ buffered skips sents hnone hget _ ih =>
    have hnumber : number (s.sentOf buffered.pkt outSsrc) = oldest := h.keyed oldest buffered hget
    rw [List.map_cons, List.append_cons, hnumber, List.forall_mem_cons]
    have hbefore : (before ++ [oldest]).IsChain SerialLt ↔ before.IsChain SerialLt ∧ Ahead next oldest := by
      cases hgetLast : before.getLast? with
      | none =>
        have hsome := hfirst (List.getLast?_eq_none_iff.mp hgetLast)
        rw [hnone] at hsome
        cases hsome
      | some last =>
        rw [List.isChain_append, hlast last hgetLast, ← serialLt_iff_ahead, hgetLast]
        refine ⟨fun hchain => ⟨hchain.1, hchain.2.2 last rfl oldest rfl⟩, fun hchain =>
          ⟨hchain.1, .singleton _, fun x hx y hy => ?_⟩⟩
        cases hx
        cases hy
        exact hchain.2
    have hrest := ih (h.takenOut oldest buffered.pkt) (before ++ [oldest])
    rw [hbefore, and_assoc] at hrest
    refine hrest ?_ fun hnil => absurd hnil (List.append_ne_nil_of_right_ne_nil _ (List.cons_ne_nil _ _))
    intro last hgetLast
    rw [List.getLast?_concat] at hgetLast
    rw [Option.some.inj hgetLast]

theorem sents_first (h : s.Sound) {first : UInt16} {rest : List UInt16} (horder : s.order = first :: rest)
    (hpointer : s.nextSeq = none) (outSsrc : UInt32) (clock : Nat → Instant) :
    sents outSsrc ⟨s, .flush clock⟩ ≠ [] := by
  obtain ⟨buffered, hget⟩ := h.get_of_mem (horder ▸ List.mem_cons_self)
  have hroom : ([] : List (Sent ρ)).length < MAX_FLUSH_BATCH ∧ s.order ≠ [] :=
    ⟨Nat.zero_lt_succ 499, List.ne_nil_of_mem (h.mem_of_get hget)⟩
  obtain ⟨hsend, _⟩ := flushLoop_send outSsrc (2 * MAX_FLUSH_BATCH) clock hroom hget
  obtain ⟨later, s', next', hrest, _⟩ := flushLoop_drains (h.takenOut first buffered.pkt) outSsrc
    (fun i => clock (i + 1)) (first + 1) [s.sentOf buffered.pkt outSsrc] (Nat.succ_le_succ (Nat.zero_le 499))
    (show 2 * (MAX_FLUSH_BATCH - 1) < 2 * MAX_FLUSH_BATCH by decide)
  have hflush : s.flushStream outSsrc FLUSH_TURNS clock =
      .ok (s.sentOf buffered.pkt outSsrc :: later, { s' with nextSeq := some next' }) := by
    simp only [flushStream, horder, hpointer]
    exact hsend.trans hrest
  simp only [sents, hflush]
  exact List.cons_ne_nil _ _

def skipsOf (outSsrc : UInt32) (m : Move (StreamState ρ) (Call ρ)) : List (UInt16 × UInt16) :=
  match m.input with
  | .flush clock => m.before.flushSkips outSsrc clock
  | _ => []

theorem nextSeq_addTo (s : StreamState ρ) (pkt : Packet ρ) (maxPerStream : Nat) (now : Instant) :
    (s.addTo pkt maxPerStream now).nextSeq = s.nextSeq := by
  unfold addTo evictOldest
  dsimp only
  split
  · split
    · rfl
    · rfl
  · rfl

/-- What holds of a stream that has not been cleared: the pointer is one beyond the number
taken last, and the numbers are in order as far as the skips go ahead. -/
structure Passed (outSsrc : UInt32) (moves : List (Move (StreamState ρ) (Call ρ))) (s : StreamState ρ) : Prop where
  sound : s.Sound
  pointer : s.nextSeq = ((output outSsrc moves).map number).getLast?.map (· + 1)
  ordered : ((output outSsrc moves).map number).IsChain SerialLt ↔
    ∀ m ∈ moves, ∀ skip ∈ skipsOf outSsrc m, Ahead skip.1 skip.2

theorem Passed.quiet {past : List (Move (StreamState ρ) (Call ρ))} {m : Move (StreamState ρ) (Call ρ)}
    (h : Passed outSsrc past s) (hsents : sents outSsrc m = []) (hskips : skipsOf outSsrc m = []) (hsound : s'.Sound)
    (hpointer : s'.nextSeq = s.nextSeq) : Passed outSsrc (m :: past) s' := by
  have hout : output outSsrc (m :: past) = output outSsrc past := by
    rw [output_cons, hsents, List.append_nil]
  refine ⟨hsound, ?_, ?_⟩
  · rw [hout, hpointer]
    exact h.pointer
  · rw [hout, List.forall_mem_cons, hskips]
    exact h.ordered.trans (and_iff_right (List.forall_mem_nil _)).symm

/-- A step without a clear keeps what has passed. -/
theorem Passed.step {maxPerStream : Nat} {past : List (Move (StreamState ρ) (Call ρ))} {call : Call ρ}
    (h : Passed outSsrc past s) (hclear : call.isClear = false)
    (hstep : s.step outSsrc maxPerStream call = some s') : Passed outSsrc (⟨s, call⟩ :: past) s' := by
  cases call with
  | clear => cases hclear
  | add pkt now =>
    cases hstep
    exact h.quiet rfl rfl (h.sound.addTo pkt maxPerStream now) (nextSeq_addTo s pkt maxPerStream now)
  | flush clock =>
    rcases step_flush h.sound outSsrc clock hstep with
      ⟨hnil, rfl, hnone⟩ | ⟨first, rest, s'', next', horder, rfl, hdrains⟩
    · refine h.quiet hnone ?_ h.sound rfl
      simp only [skipsOf, flushSkips, hnil]
    · have hpointer := h.pointer
      have hpast : ∀ last, ((output outSsrc past).map number).getLast? = some last →
          s.nextSeq.getD first = last + 1 := by
        intro last hgetLast
        rw [hpointer, hgetLast]
        rfl
      have hfirst : (output outSsrc past).map number = [] → (s.slots.get (s.nextSeq.getD first)).isSome := by
        intro hnil
        rw [hpointer, hnil]
        obtain ⟨buffered, hget⟩ := h.sound.get_of_mem (horder ▸ List.mem_cons_self)
        exact Option.isSome_iff_exists.mpr ⟨buffered, hget⟩
      obtain ⟨hordered, hlast⟩ := hdrains.ordered_iff h.sound _ hpast hfirst
      obtain ⟨hlisted, hnodup, hkeyed⟩ := hdrains.sound h.sound
      refine ⟨⟨hlisted, hnodup, hkeyed⟩, ?_, ?_⟩
      · rw [output_cons, List.map_append]
        cases hgetLast :
          ((output outSsrc past).map number ++ (sents outSsrc ⟨s, .flush clock⟩).map number).getLast? with
        | some last => exact congrArg some (hlast last hgetLast)
        | none =>
          obtain ⟨hbefore, hnow⟩ := List.append_eq_nil_iff.mp (List.getLast?_eq_none_iff.mp hgetLast)
          rw [hbefore] at hpointer
          exact absurd (List.map_eq_nil_iff.mp hnow) (sents_first h.sound horder hpointer outSsrc clock)
      · rw [output_cons, List.map_append, hordered, h.ordered, List.forall_mem_cons]
        exact and_comm

/-- Without a clear the pointer stays one beyond the number taken last. -/
theorem run_passed {maxPerStream : Nat} {moves : List (Move (StreamState ρ) (Call ρ))}
    (run : Run (StreamState.step outSsrc maxPerStream) new moves s)
    (hclear : ∀ m ∈ moves, m.input.isClear = false) : Passed outSsrc moves s := by
  refine run.keeps (P := fun moves s => (∀ m ∈ moves, m.input.isClear = false) → Passed outSsrc moves s) ?_ ?_ hclear
  · exact fun _ => ⟨sound_new, rfl, iff_of_true .nil (List.forall_mem_nil _)⟩
  · intro past s call s' ih hstep hclear
    obtain ⟨hcall, hpast⟩ := List.forall_mem_cons.mp hclear
    exact (ih hpast).step hcall hstep

end StreamState

namespace OutputBuffer

variable {ρ : Type} {b : OutputBuffer ρ} {moves : List (Move (OutputBuffer ρ) (BufferCall ρ))}

/-- The skips of a move in a stream: the pointer each leaves and where it goes to. -/
def skips (kind : Kind) (m : Move (OutputBuffer ρ) (BufferCall ρ)) : List (UInt16 × UInt16) :=
  ((streamMove kind m).map (StreamState.skipsOf kind.ssrc)).getD []

/-- A stream that is not cleared hands its packets out in the order of their numbers, if and
only if no flush goes from its pointer to a first arrival that lies behind it. -/
theorem output_ordered_iff {bufferSize : Nat} (run : Run step (new bufferSize) moves b)
    (hclear : ∀ m ∈ moves, m.input.isClear = false) (kind : Kind) :
    ((output kind moves).map fun sent => sent.taken.sequenceNumber).IsChain SerialLt ↔
      ∀ m ∈ moves, ∀ skip ∈ skips kind m, Ahead skip.1 skip.2 := by
  have hinner : ∀ m ∈ moves.filterMap (streamMove kind), m.input.isClear = false := by
    intro m hm
    obtain ⟨m', hm', hmove⟩ := List.mem_filterMap.mp hm
    obtain ⟨inner, hcall, rfl⟩ := Option.map_eq_some_iff.mp hmove
    exact (streamCall_isClear hcall).trans (hclear m' hm')
  refine (StreamState.run_passed (run_stream run kind).1 hinner).ordered.trans ⟨fun h m hm => ?_, fun h m hm => ?_⟩
  · cases hmove : streamMove kind m with
    | none =>
      rw [skips, hmove]
      exact List.forall_mem_nil _
    | some inner =>
      rw [skips, hmove]
      exact h inner (List.mem_filterMap.mpr ⟨m, hm, hmove⟩)
  · obtain ⟨m', hm', hmove⟩ := List.mem_filterMap.mp hm
    have hskips := h m' hm'
    rw [skips, hmove] at hskips
    exact hskips

/-- Packet 3 is handed out over the gap at 2, which is ahead. -/
theorem output_ordered_gap :
    let packet (seq : UInt16) : Packet Unit := ⟨96, seq, 3000, 7, ()⟩
    let inputs : List (BufferCall Unit) := [.flushReady (fun _ => 300000000) (fun _ => 300000000), .add (packet 3) 5,
      .flushReady (fun _ => 0) (fun _ => 0), .add (packet 1) 0]
    ((output .video (Reactive.play step (new 0) inputs).1).map fun sent => sent.taken.sequenceNumber).IsChain
      SerialLt := by
  intro packet inputs
  have hskips : ((Reactive.play step (new 0) inputs).1.flatMap (skips .video)).all fun skip => Ahead skip.1 skip.2 := by
    decide +kernel
  refine (output_ordered_iff (Reactive.run_play step (new 0) inputs) ?_ .video).mpr fun m hm skip hskip => ?_
  · decide +kernel
  · exact of_decide_eq_true (List.all_eq_true.mp hskips skip (List.mem_flatMap.mpr ⟨m, hm, hskip⟩))

/-- Packet 5 is handed out, then 8 and 4 come in. Once both have waited for too long, a flush
goes over the gap to 8, and from there to 4, which the pointer had passed before. -/
theorem output_runs_backwards :
    let packet (seq : UInt16) : Packet Unit := ⟨96, seq, 3000, 7, ()⟩
    let inputs : List (BufferCall Unit) := [.flushReady (fun _ => 200000000) (fun _ => 200000000),
      .add (packet 4) 20000000, .add (packet 8) 10000000, .flushReady (fun _ => 0) (fun _ => 0), .add (packet 5) 0]
    let moves := (Reactive.play step (new 0) inputs).1
    Run step (new 0) moves (Reactive.play step (new 0) inputs).2 ∧ moves.length = inputs.length ∧
      (∀ m ∈ moves, m.input.isClear = false) ∧
      (output .video moves).map (fun sent => sent.taken.sequenceNumber) = [5, 8, 4] ∧
      ¬ ((output .video moves).map fun sent => sent.taken.sequenceNumber).IsChain SerialLt := by
  intro packet inputs moves
  have hnumbers : (output .video moves).map (fun sent => sent.taken.sequenceNumber) = [5, 8, 4] := by
    decide +kernel
  refine ⟨Reactive.run_play step (new 0) inputs, ?_, ?_, hnumbers, ?_⟩
  · decide +kernel
  · decide +kernel
  · rw [hnumbers]
    decide

end OutputBuffer

end Mistlib.Media
