import Mathlib.Data.Finset.Insert
import Mistlib.Async.Couriers
import Mistlib.Overlay.ReorderStretch

/-!
# From the reorder buffer to the application

The network task feeds an arriving message to the reorder buffer (`process_network_event`), the
tick task flushes gaps that were open for too long (`step_reorder_flush`). Either call returns
under the buffer's lock a batch that is handed over, one `handle_message_content` at a time,
after the lock was dropped.

Of the messages of one source the two tasks are couriers, and the buffer releases numbers in
increasing order as long as the source is not evicted and does not restart. So the application
receives them in increasing order exactly if no task is released any while the other one has
some in hand (`inOrder_iff`). Nothing in the engine sees to that (`tick_overtaken`).

The buffer drops the number of a message. To speak of it the messages carry stamps (`Stamped`),
which the buffer does not look at.
-/

namespace Mistlib.MistEngine

open Mistlib.Overlay

variable {κ : Type}

/-- The tasks that call the reorder buffer. -/
inductive Courier where
  | network
  | tick
deriving DecidableEq, Repr

instance : Fintype Courier where
  elems := {.network, .tick}
  complete := by
    intro who
    cases who <;> simp

instance : Nonempty Courier := ⟨.network⟩

/-- Who makes a call of the buffer: `reorder_inbound` is called for a message
by the network task, `flush_expired_inbound` by the tick task. -/
def courier : Arrival κ → Courier
  | .message .. => .network
  | .poll _ => .tick

/-- The reorder buffer, and the messages each task was returned by its last
call and has not handed to `handle_message_content` yet. `calls` counts the
calls of the buffer, for the stamps. -/
structure Inbound (κ : Type) where
  buffer : ReorderBuffer (Stamped κ)
  calls : Nat
  inHand : Courier → List (NodeId × Stamped κ)

inductive Happening (κ : Type) where
  | released (p : Pass (Stamped κ))
  | handled (who : Courier) (source : NodeId) (message : Stamped κ)

def Happening.IsHandled : Happening κ → Prop
  | .released _ => False
  | .handled .. => True

namespace Inbound

def new (maxPerSource maxSources : Nat) (gapTimeout : Duration) : Inbound κ :=
  { buffer := .new maxPerSource maxSources gapTimeout, calls := 0, inHand := fun _ => [] }

/-- The messages in the order in which the loops over a result hand them over. -/
def queue (out : List (NodeId × List (Stamped κ))) : List (NodeId × Stamped κ) :=
  out.flatMap fun e => e.2.map (Prod.mk e.1)

/-- The state after a call of the buffer whose table is in the order `t`. -/
def call (s : Inbound κ) (a : Arrival κ) (t : Table NodeId (SourceState (Stamped κ))) :
    Happening κ × Inbound κ :=
  let handled := { s.buffer with sources := t }.handle (a.stamp s.calls)
  (.released ⟨{ s.buffer with sources := t }, a.stamp s.calls, handled.1⟩,
    { buffer := handled.2
      calls := s.calls + 1
      inHand := Function.update s.inHand (courier a) (queue handled.1) })

/-- The state after a task handed over a message and has `rest` left. -/
def handOver (s : Inbound κ) (who : Courier) (rest : List (NodeId × Stamped κ)) : Inbound κ :=
  { s with inHand := Function.update s.inHand who rest }

/-- One step of one of the two tasks. A task calls the buffer again when it
has handed over everything its last call returned. -/
inductive Step : Inbound κ → Happening κ → Inbound κ → Prop
  | call (s : Inbound κ) (a : Arrival κ) (t : Table NodeId (SourceState (Stamped κ)))
      (idle : s.inHand (courier a) = []) (shuffle : s.buffer.sources.Shuffle t) :
      Step s (s.call a t).1 (s.call a t).2
  | handle (s : Inbound κ) (who : Courier) (source : NodeId) (message : Stamped κ)
      (rest : List (NodeId × Stamped κ)) (next : s.inHand who = (source, message) :: rest) :
      Step s (.handled who source message) (s.handOver who rest)

inductive Run : Inbound κ → List (Happening κ) → Inbound κ → Prop
  | nil (s : Inbound κ) : Run s [] s
  | snoc {s s' s'' : Inbound κ} {past : List (Happening κ)} {h : Happening κ} (run : Run s past s')
      (step : Step s' h s'') : Run s (h :: past) s''

/-- The calls of the buffer, the first one first. -/
def passes : List (Happening κ) → List (Pass (Stamped κ))
  | [] => []
  | .released p :: past => passes past ++ [p]
  | .handled .. :: past => passes past

def called (who : Courier) : List (Happening κ) → Bool
  | [] => false
  | .released p :: past => decide (courier p.arrival = who) || called who past
  | .handled .. :: past => called who past

/-- The sequenced messages of `src` that the application received in a stretch
and that were released in it: a task that made no call yet hands over what
older calls returned. -/
def received (src : NodeId) : List (Happening κ) → List (Stamped κ)
  | [] => []
  | .released _ :: past => received src past
  | .handled who source message :: past =>
    if called who past ∧ source = src ∧ message.seq ≠ 0 then
      received src past ++ [message]
    else received src past

/-- The sequenced messages of `src` in a queue. -/
def mine (src : NodeId) (queue : List (NodeId × Stamped κ)) : List (Stamped κ) :=
  queue.filterMap fun e => if e.1 = src ∧ e.2.seq ≠ 0 then some e.2 else none

/-- What the two tasks do with the sequenced messages of `src` released in a stretch. -/
def moves (src : NodeId) : List (Happening κ) → List (Couriers.Move Courier (Stamped κ))
  | [] => []
  | .released p :: past => .take (courier p.arrival) (p.released src) :: moves src past
  | .handled who source message :: past =>
    if called who past ∧ source = src ∧ message.seq ≠ 0 then
      .hand who :: moves src past
    else moves src past

/-! ## The tasks as couriers -/

@[simp] theorem courier_stamp (a : Arrival κ) (n : Nat) : courier (a.stamp n) = courier a := by
  cases a <;> rfl

section Mine

variable {src : NodeId} {rest : List (NodeId × Stamped κ)} {source : NodeId} {message : Stamped κ}

theorem mine_cons (h : source = src ∧ message.seq ≠ 0) :
    mine src ((source, message) :: rest) = message :: mine src rest :=
  List.filterMap_cons_some (if_pos h)

theorem mine_cons_other (h : ¬ (source = src ∧ message.seq ≠ 0)) :
    mine src ((source, message) :: rest) = mine src rest :=
  List.filterMap_cons_none (if_neg h)

theorem mine_batch (src source : NodeId) (batch : List (Stamped κ)) :
    mine src (batch.map (Prod.mk source)) =
      if source = src then batch.filter (·.seq ≠ 0) else [] := by
  induction batch with
  | nil => simp [mine]
  | cons message batch ih =>
    rw [List.map_cons]
    by_cases hmine : source = src ∧ message.seq ≠ 0
    · rw [mine_cons hmine, ih, if_pos hmine.1, if_pos hmine.1,
        List.filter_cons_of_pos (by simpa using hmine.2)]
    · rw [mine_cons_other hmine, ih]
      split
      · next heq =>
        rw [List.filter_cons_of_neg]
        simpa using fun hseq => hmine ⟨heq, hseq⟩
      · rfl

theorem mine_queue (src : NodeId) (out : List (NodeId × List (Stamped κ))) :
    mine src (queue out) = (ReorderBuffer.mine src out).filter (·.seq ≠ 0) := by
  induction out with
  | nil => rfl
  | cons e out ih =>
    have hsplit : mine src (queue (e :: out)) =
        mine src (e.2.map (Prod.mk e.1)) ++ mine src (queue out) := by
      simp only [mine, queue, List.flatMap_cons, List.filterMap_append]
    rw [hsplit, ih, mine_batch]
    by_cases heq : e.1 = src <;> simp [ReorderBuffer.mine, heq]

end Mine

/-- What a run does to the messages of `src`, told by its moves. -/
structure Told (src : NodeId) (run : List (Happening κ)) (s : Inbound κ) : Prop where
  held : ∀ who, Couriers.held (moves src run) who =
    if called who run then mine src (s.inHand who) else []
  delivered : Couriers.delivered (moves src run) = received src run
  released : Couriers.released (moves src run) = (passes run).flatMap (Pass.released src)

section Told

variable {src : NodeId} {run : List (Happening κ)} {s : Inbound κ}

theorem Told.call (h : Told src run s) (a : Arrival κ)
    (t : Table NodeId (SourceState (Stamped κ))) (idle : s.inHand (courier a) = []) :
    Told src ((s.call a t).1 :: run) (s.call a t).2 := by
  have hnothing : Couriers.held (moves src run) (courier a) = [] := by
    rw [h.held, idle]
    split <;> rfl
  refine ⟨fun who => ?_, h.delivered, ?_⟩
  · simp only [Inbound.call, moves, Couriers.held, courier_stamp, hnothing, List.nil_append, called]
    by_cases hwho : who = courier a
    · subst hwho
      simp [mine_queue, Pass.released]
    · rw [Function.update_of_ne hwho, Function.update_of_ne hwho, h.held,
        decide_eq_false (Ne.symm hwho), Bool.false_or]
  · simp only [Inbound.call, moves, Couriers.released, passes, h.released, List.flatMap_append,
      List.flatMap_cons, List.flatMap_nil, List.append_nil]

theorem Told.handle (h : Told src run s) {who : Courier} {source : NodeId} {message : Stamped κ}
    {rest : List (NodeId × Stamped κ)} (next : s.inHand who = (source, message) :: rest) :
    Told src (.handled who source message :: run) (s.handOver who rest) := by
  by_cases hmine : called who run ∧ source = src ∧ message.seq ≠ 0
  · have hhead : Couriers.held (moves src run) who = message :: mine src rest := by
      rw [h.held, if_pos hmine.1, next, mine_cons hmine.2]
    refine ⟨fun other => ?_, ?_, ?_⟩
    · rw [moves, if_pos hmine, Couriers.held, hhead, called, handOver]
      by_cases hother : other = who
      · subst hother
        simp [hmine.1]
      · simp [hother, h.held]
    · rw [moves, if_pos hmine, Couriers.delivered, hhead, h.delivered, received, if_pos hmine]
      rfl
    · rw [moves, if_pos hmine, Couriers.released, h.released, passes]
  · refine ⟨fun other => ?_, ?_, ?_⟩
    · rw [moves, if_neg hmine, h.held, called, handOver]
      by_cases hother : other = who
      · subst hother
        by_cases hcalled : called other run
        · have hforeign : ¬ (source = src ∧ message.seq ≠ 0) := fun hsrc => hmine ⟨hcalled, hsrc⟩
          simp [hcalled, next, mine_cons_other hforeign]
        · simp [hcalled]
      · simp [hother]
    · rw [moves, if_neg hmine, h.delivered, received, if_neg hmine]
    · rw [moves, if_neg hmine, h.released, passes]

theorem Run.told {s' : Inbound κ} (hrun : Run s run s') (src : NodeId) : Told src run s' := by
  induction hrun with
  | nil => exact ⟨fun _ => rfl, rfl, rfl⟩
  | snoc _ step ih =>
    cases step with
    | call a t idle _ => exact ih.call a t idle
    | handle who source message rest next => exact ih.handle next

end Told

/-! ## The calls of a run -/

theorem Run.runs {s s' : Inbound κ} {run : List (Happening κ)} (hrun : Run s run s') :
    Runs s.buffer (passes run) s'.buffer ∧ ∃ arrivals,
      (passes run).map Pass.arrival = stampAll s.calls arrivals ∧
        s'.calls = s.calls + arrivals.length := by
  induction hrun with
  | nil => exact ⟨.nil _, [], rfl, rfl⟩
  | snoc _ step ih =>
    obtain ⟨hruns, arrivals, hstamps, hcalls⟩ := ih
    cases step with
    | call a t idle shuffle =>
      refine ⟨hruns.append (.cons t shuffle (.nil _)), arrivals ++ [a], ?_, ?_⟩
      · rw [stampAll_concat, ← hcalls, ← hstamps]
        simp only [Inbound.call, passes, List.map_append, List.map_cons, List.map_nil]
      · simp only [Inbound.call, hcalls, List.length_append, List.length_cons, List.length_nil]
        omega
    | handle who source message rest next => exact ⟨hruns, arrivals, hstamps, hcalls⟩

theorem Run.released_sorted {maxPerSource maxSources : Nat} {gapTimeout : Duration}
    {before stretch : List (Happening κ)} {s s' : Inbound κ}
    (start : Run (Inbound.new maxPerSource maxSources gapTimeout) before s)
    (run : Run s stretch s') {src : NodeId} (keeps : ∀ p ∈ passes stretch, p.Keeps src)
    (calm : ∀ p ∈ passes stretch, p.Calm src) :
    ((passes stretch).flatMap (Pass.released src)).Pairwise (·.seq < ·.seq) := by
  obtain ⟨hbefore, _, hstamps, _⟩ := start.runs
  obtain ⟨hstretch, _, hstamps', _⟩ := run.runs
  obtain ⟨_, _, hknown, _⟩ := hbefore.known hstamps src (.unknown rfl) (by simp)
  exact ((hstretch.tally hstamps' keeps calm hknown.rebase).tally 0).sorted

theorem Run.of_suffix {s s' : Inbound κ} {run past : List (Happening κ)} (hrun : Run s run s')
    (hpast : past <:+ run) : ∃ mid, Run s past mid := by
  induction hrun with
  | nil =>
    rw [List.suffix_nil.mp hpast]
    exact ⟨_, .nil _⟩
  | snoc hrun step ih =>
    rcases List.suffix_cons_iff.mp hpast with rfl | hpast
    · exact ⟨_, hrun.snoc step⟩
    · exact ih hpast

/-! ## The turns of the tasks -/

section Turns

variable {src : NodeId} {run past : List (Happening κ)}

theorem moves_suffix (h : past <:+ run) : moves src past <:+ moves src run := by
  induction run with
  | nil => rw [List.suffix_nil.mp h]
  | cons happening run ih =>
    rcases List.suffix_cons_iff.mp h with rfl | h
    · exact List.suffix_rfl
    · refine (ih h).trans ?_
      cases happening with
      | released p => exact List.suffix_cons _ _
      | handled who source message =>
        rw [moves]
        split
        · exact List.suffix_cons _ _
        · exact List.suffix_rfl

theorem exists_of_moves_suffix {told : List (Couriers.Move Courier (Stamped κ))}
    (h : told <:+ moves src run) : ∃ past, past <:+ run ∧ moves src past = told := by
  induction run with
  | nil => exact ⟨[], List.suffix_rfl, (List.suffix_nil.mp h).symm⟩
  | cons happening run ih =>
    have hearlier : told <:+ moves src run →
        ∃ past, past <:+ happening :: run ∧ moves src past = told := by
      intro htold
      obtain ⟨past, hpast, hmoves⟩ := ih htold
      exact ⟨past, hpast.trans (List.suffix_cons _ _), hmoves⟩
    by_cases hall : told = moves src (happening :: run)
    · exact ⟨_, List.suffix_rfl, hall.symm⟩
    · apply hearlier
      cases happening with
      | released p => exact (List.suffix_cons_iff.mp h).resolve_left hall
      | handled who source message =>
        rw [moves] at h hall
        split at h
        · next hmine =>
          rw [if_pos hmine] at hall
          exact (List.suffix_cons_iff.mp h).resolve_left hall
        · exact h

/-- What is only handled moves the couriers by handing over. -/
theorem moves_handled (src : NodeId) (past : List (Happening κ)) {more : List (Happening κ)}
    (h : ∀ happening ∈ more, happening.IsHandled) :
    ∃ hands, moves src (more ++ past) = Couriers.handing hands (moves src past) := by
  induction more with
  | nil => exact ⟨[], rfl⟩
  | cons happening more ih =>
    obtain ⟨hhandled, hmore⟩ := List.forall_mem_cons.mp h
    obtain ⟨hands, hhands⟩ := ih hmore
    cases happening with
    | released p => exact hhandled.elim
    | handled who source message =>
      rw [List.cons_append, moves, hhands]
      split
      · exact ⟨who :: hands, rfl⟩
      · exact ⟨hands, rfl⟩

/-- After `run` the tasks can hand over messages so that the couriers stand
where `hands` takes them. -/
def CanHand (src : NodeId) (s : Inbound κ) (run : List (Happening κ)) (hands : List Courier) :
    Prop :=
  ∃ more s', (∀ happening ∈ more, happening.IsHandled) ∧ Run s (more ++ run) s' ∧
    Couriers.held (moves src (more ++ run)) =
      Couriers.held (Couriers.handing hands (moves src run)) ∧
    Couriers.delivered (moves src (more ++ run)) =
      Couriers.delivered (Couriers.handing hands (moves src run))

theorem canHand_one (src : NodeId) {s s' : Inbound κ} (hrun : Run s run s') (who : Courier) :
    CanHand src s run [who] := by
  generalize hqueue : s'.inHand who = queue
  induction queue generalizing run s' with
  | nil =>
    have hnothing : Couriers.held (moves src run) who = [] := by
      rw [(hrun.told src).held, hqueue]
      split <;> rfl
    refine ⟨[], s', by simp, hrun, ?_, ?_⟩
    · have hsame : Function.update (Couriers.held (moves src run)) who
          (Couriers.held (moves src run) who).tail = Couriers.held (moves src run) := by
        rw [hnothing, List.tail_nil, ← hnothing, Function.update_eq_self]
      exact hsame.symm
    · simp [Couriers.handing, Couriers.delivered, hnothing]
  | cons e rest ih =>
    have hstep := hrun.snoc (.handle s' who e.1 e.2 rest hqueue)
    by_cases hmine : called who run ∧ e.1 = src ∧ e.2.seq ≠ 0
    · have hmoves : moves src (.handled who e.1 e.2 :: run) =
          Couriers.handing [who] (moves src run) := if_pos hmine
      exact ⟨[.handled who e.1 e.2], _, by simp [Happening.IsHandled], hstep,
        congrArg _ hmoves, congrArg _ hmoves⟩
    · have hmoves : moves src (.handled who e.1 e.2 :: run) = moves src run := if_neg hmine
      obtain ⟨more, s'', hall, hmore, hheld, hdelivered⟩ := ih hstep (by simp [handOver])
      rw [hmoves] at hheld hdelivered
      refine ⟨more ++ [.handled who e.1 e.2], s'', ?_, ?_, ?_, ?_⟩
      · intro happening hmem
        rcases List.mem_append.mp hmem with hmem | hmem
        · exact hall _ hmem
        · rw [List.mem_singleton.mp hmem]
          trivial
      · rwa [List.append_assoc]
      · rwa [List.append_assoc]
      · rwa [List.append_assoc]

theorem canHand (src : NodeId) {s s' : Inbound κ} (hrun : Run s run s') (hands : List Courier) :
    CanHand src s run hands := by
  induction hands with
  | nil => exact ⟨[], s', by simp, hrun, rfl, rfl⟩
  | cons who hands ih =>
    obtain ⟨more, mid, hall, hmore, hheld, hdelivered⟩ := ih
    obtain ⟨next, s'', hnext, hrun', hheld', hdelivered'⟩ := canHand_one src hmore who
    refine ⟨next ++ more, s'', ?_, ?_, ?_, ?_⟩
    · exact fun happening hmem => (List.mem_append.mp hmem).elim (hnext _) (hall _)
    · rwa [List.append_assoc]
    · rw [List.append_assoc, hheld']
      simp only [Couriers.handing, List.map_cons, List.map_nil, List.cons_append, List.nil_append,
        Couriers.held, hheld]
    · rw [List.append_assoc, hdelivered']
      simp only [Couriers.handing, List.map_cons, List.map_nil, List.cons_append, List.nil_append,
        Couriers.delivered, hheld, hdelivered]

end Turns

/-- In a stretch of any run in which `src` is neither evicted nor restarted, its sequenced
messages reach the application in increasing order, from every point of the stretch on and
whatever the turns, if and only if no call of the buffer releases messages of `src` to one task
while the other one has some to hand over. -/
theorem inOrder_iff {maxPerSource maxSources : Nat} {gapTimeout : Duration}
    {before stretch : List (Happening κ)} {s s' : Inbound κ}
    (start : Run (Inbound.new maxPerSource maxSources gapTimeout) before s)
    (run : Run s stretch s') (src : NodeId) (keeps : ∀ p ∈ passes stretch, p.Keeps src)
    (calm : ∀ p ∈ passes stretch, p.Calm src) :
    Couriers.Solo (moves src stretch) ↔
      ∀ past, past <:+ stretch → ∀ more s'', (∀ happening ∈ more, happening.IsHandled) →
        Run s (more ++ past) s'' → (received src (more ++ past)).Pairwise (·.seq < ·.seq) := by
  have hsorted := start.released_sorted run keeps calm
  rw [← (run.told src).released] at hsorted
  rw [Couriers.solo_iff (fun _ _ => Nat.lt_asymm) hsorted]
  constructor
  · intro horder past hpast more s'' hmore hrun
    obtain ⟨hands, hhands⟩ := moves_handled src past hmore
    rw [← (hrun.told src).delivered, hhands]
    exact horder _ (moves_suffix hpast) hands
  · intro horder told htold hands
    obtain ⟨past, hpast, rfl⟩ := exists_of_moves_suffix htold
    obtain ⟨mid, hrun⟩ := run.of_suffix hpast
    obtain ⟨more, s'', hmore, hrun', _, hdelivered⟩ := canHand src hrun hands
    rw [← hdelivered, (hrun'.told src).delivered]
    exact horder past hpast more s'' hmore hrun'

/-! ## A run on fixed arrivals -/

inductive Order (κ : Type) where
  | call (a : Arrival κ)
  | handOver (who : Courier)

/-- What comes of an order, where it can be carried out. -/
def obey (s : Inbound κ) : Order κ → Option (Happening κ × Inbound κ)
  | .call a => if (s.inHand (courier a)).isEmpty then some (s.call a s.buffer.sources) else none
  | .handOver who =>
    match s.inHand who with
    | [] => none
    | (source, message) :: rest => some (.handled who source message, s.handOver who rest)

def play (s : Inbound κ) : List (Order κ) → List (Happening κ) × Inbound κ
  | [] => ([], s)
  | order :: past =>
    let before := play s past
    match before.2.obey order with
    | some result => (result.1 :: before.1, result.2)
    | none => before

theorem step_of_obey {s : Inbound κ} {order : Order κ} {result : Happening κ × Inbound κ}
    (h : s.obey order = some result) : Step s result.1 result.2 := by
  unfold obey at h
  split at h
  · next a =>
    obtain ⟨hidle, ⟨⟩⟩ := Option.ite_none_right_eq_some.mp h
    exact .call s a _ (List.isEmpty_iff.mp hidle) (.refl _)
  · next who =>
    split at h
    · cases h
    · next source message rest hqueue =>
      cases h
      exact .handle s who source message rest hqueue

/-- What is played is a run. -/
theorem run_play (s : Inbound κ) (orders : List (Order κ)) :
    Run s (s.play orders).1 (s.play orders).2 := by
  induction orders with
  | nil => exact .nil s
  | cons order past ih =>
    unfold play
    simp only
    split
    · next result hobey => exact ih.snoc (step_of_obey hobey)
    · exact ih

namespace Overtaken

def carol : NodeId := ⟨"c"⟩

def start : Inbound Unit :=
  .new REORDER_MAX_PER_SOURCE REORDER_MAX_SOURCES REORDER_GAP_TIMEOUT

/-- Number 1 is lost. Number 2 waits for it until the tick gives it up; before
the tick hands over number 2, number 3 arrives and is handed over. -/
def orders : List (Order Unit) :=
  [.handOver .tick, .handOver .network, .call (.message carol 3 () REORDER_GAP_TIMEOUT),
    .call (.poll REORDER_GAP_TIMEOUT), .call (.message carol 2 () 0)]

theorem keeps : ∀ p ∈ passes (start.play orders).1, p.Keeps carol := by decide

theorem calm : ∀ p ∈ passes (start.play orders).1, p.Calm carol := by decide

/-- The application receives number 3 before number 2. -/
theorem tick_overtaken :
    ∃ stretch s', Run start stretch s' ∧ (∀ p ∈ passes stretch, p.Keeps carol) ∧
      (∀ p ∈ passes stretch, p.Calm carol) ∧
      (received carol stretch).map Stamped.seq = [3, 2] ∧
      ¬ (received carol stretch).Pairwise (·.seq < ·.seq) :=
  ⟨_, _, run_play start orders, keeps, calm, by decide, by decide⟩

/-- The same calls, with the tick in time. -/
def inTime : List (Order Unit) :=
  [.handOver .network, .call (.message carol 3 () REORDER_GAP_TIMEOUT), .handOver .tick,
    .call (.poll REORDER_GAP_TIMEOUT), .call (.message carol 2 () 0)]

theorem overtaken_inTime :
    ¬ Couriers.Solo (moves carol (start.play orders).1) ∧
      (received carol (start.play inTime).1).Pairwise (·.seq < ·.seq) := by
  refine ⟨fun hsolo => ?_, ?_⟩
  · have horder := (inOrder_iff (.nil _) (run_play start orders) carol keeps calm).mp hsolo _
      List.suffix_rfl [] _ (by simp) (run_play start orders)
    exact absurd horder (by decide)
  · exact (inOrder_iff (.nil _) (run_play start inTime) carol (by decide) (by decide)).mp
      (by decide) _ List.suffix_rfl [] _ (by simp) (run_play start inTime)

end Overtaken

end Inbound

end Mistlib.MistEngine
