import Mistlib.Async.Reactive
import Mistlib.Signaling.Pacing

/-!
# The order of the outbox

A request that is pushed to the outbox holds a reservation in the table of exchanges, and whoever
takes it out must give that back or use it. `Reported` says which requests a call tells its
caller have left; over a run these and what is still queued are all that was pushed. Priorities
change while requests wait: of the best priority in the queue of the moment, a pop takes the
request that was pushed first.
-/

namespace Mistlib.Signaling

open Reactive (Move Run)

theorem cut_findIdx {α : Type} {p : α → Bool} {l : List α} (h : ∃ x ∈ l, p x = true) :
    ∃ front x back, l = front ++ x :: back ∧ p x = true ∧ (∀ y ∈ front, p y = false) ∧
      l[l.findIdx p]? = some x ∧ l.eraseIdx (l.findIdx p) = front ++ back := by
  induction l with
  | nil =>
    obtain ⟨x, hx, -⟩ := h
    cases hx
  | cons y l ih =>
    cases hy : p y with
    | true =>
      refine ⟨[], y, l, rfl, hy, List.forall_mem_nil _, ?_, ?_⟩
      · rw [List.findIdx_cons, hy]
        rfl
      · rw [List.findIdx_cons, hy]
        rfl
    | false =>
      obtain ⟨x, hx, hpx⟩ := h
      have hrest : ∃ x ∈ l, p x = true := by
        rcases List.mem_cons.mp hx with rfl | hx
        · exact absurd hpx (ne_true_of_eq_false hy)
        · exact ⟨x, hx, hpx⟩
      obtain ⟨front, x, back, rfl, hpx, hfront, hget, herase⟩ := ih hrest
      refine ⟨y :: front, x, back, rfl, hpx, List.forall_mem_cons.mpr ⟨hy, hfront⟩, ?_, ?_⟩
      · rw [List.findIdx_cons, hy]
        exact hget
      · rw [List.findIdx_cons, hy]
        exact congrArg (y :: ·) herase

namespace DiscoveryOutbox

variable {o : DiscoveryOutbox} {pubkey : String} {priority : DiscoveryPriority} {delay : Duration} {now : Instant}

/-! ### What the calls do -/

theorem lowest_mem (h : o.queue ≠ []) : ∃ item ∈ o.queue, item.priority.order = o.lowest := by
  let orders := o.queue.map fun item => item.priority.order
  obtain ⟨most, hmost⟩ : ∃ most, orders.max? = some most := by
    refine Option.ne_none_iff_exists'.mp fun hnone => h ?_
    exact List.map_eq_nil_iff.mp (List.max?_eq_none_iff.mp hnone)
  obtain ⟨item, hitem, horder⟩ := List.mem_map.mp (List.max?_mem hmost)
  refine ⟨item, hitem, horder.trans ?_⟩
  rw [lowest, List.foldl_max]
  change most = max 0 (orders.max?.getD 0)
  rw [hmost, Option.getD_some, Nat.zero_max]

theorem best_le {item : DiscoveryRequest} (h : item ∈ o.queue) :
    (o.queue.map fun item => item.priority.order).foldl min 2 ≤ item.priority.order := by
  rw [List.foldl_min]
  exact Nat.le_trans (Nat.min_le_right _ _) (List.min?_getD_le_of_mem (List.mem_map_of_mem h))

/-- What a push comes to: the pushed request goes at once, or the oldest one of the lowest
priority goes for it, or there is room. -/
theorem push_cases (o : DiscoveryOutbox) (pubkey : String) (priority : DiscoveryPriority) (delay : Duration)
    (now : Instant) :
    o.push pubkey priority delay now = (some pubkey, o) ∨
      (∃ front item back, o.queue = front ++ item :: back ∧ priority.order ≤ item.priority.order ∧
        o.push pubkey priority delay now =
          (some item.pubkey, { o with queue := front ++ back ++ [⟨pubkey, priority, delay, now⟩] })) ∨
      (o.queue.length ≠ CAPACITY ∧ o.push pubkey priority delay now =
        (none, { o with queue := o.queue ++ [⟨pubkey, priority, delay, now⟩] })) := by
  by_cases hfull : o.queue.length = CAPACITY
  · by_cases hlow : priority.order > o.lowest
    · exact .inl (by rw [push, if_pos hfull, if_pos hlow])
    · have hne : o.queue ≠ [] := fun hnil => by rw [hnil] at hfull; cases hfull
      obtain ⟨item, hitem, horder⟩ := lowest_mem hne
      obtain ⟨front, item, back, hqueue, hlowest, -, hget, herase⟩ := cut_findIdx
        (p := fun item : DiscoveryRequest => decide (item.priority.order = o.lowest))
        ⟨item, hitem, decide_eq_true horder⟩
      refine .inr (.inl ⟨front, item, back, hqueue, ?_, ?_⟩)
      · rw [of_decide_eq_true hlowest]
        exact Nat.le_of_not_lt hlow
      · rw [push, if_pos hfull, if_neg hlow]
        simp only [hget, herase, Option.map_some]
  · exact .inr (.inr ⟨hfull, by rw [push, if_neg hfull]⟩)

/-- What a pop takes: the first of the best priority, when it is due. -/
theorem pop_cases (o : DiscoveryOutbox) (now : Instant) :
    o.pop now = (none, o) ∨
      ∃ front item back, o.queue = front ++ item :: back ∧
        (∀ other ∈ front, item.priority.order < other.priority.order) ∧
        (∀ other ∈ back, item.priority.order ≤ other.priority.order) ∧
        (∀ last, o.lastSend = some last → last + DISCOVERY_INTERVAL ≤ now) ∧
        o.pop now = (some item, { o with queue := front ++ back, lastSend := some now }) := by
  by_cases hdue : o.delay now = some 0
  · cases hqueue : o.queue with
    | nil =>
      have hnone : o.delay now = none := by rw [DiscoveryOutbox.delay, nextIndex, hqueue]; rfl
      rw [hnone] at hdue
      cases hdue
    | cons first rest =>
      obtain ⟨next, hnext, horder⟩ := best_mem hqueue
      obtain ⟨front, item, back, hsplit, hbest, hfront, hget, herase⟩ := cut_findIdx
        (p := fun item : DiscoveryRequest =>
          decide (item.priority.order = (o.queue.map fun item => item.priority.order).foldl min 2))
        ⟨next, hnext, decide_eq_true horder⟩
      have hindex : o.nextIndex = some (o.queue.findIdx fun item =>
          decide (item.priority.order = (o.queue.map fun item => item.priority.order).foldl min 2)) := by
        rw [nextIndex, hqueue]
      have hbest := of_decide_eq_true hbest
      have hle : ∀ other ∈ o.queue, item.priority.order ≤ other.priority.order := fun other hother => by
        rw [hbest]
        exact best_le hother
      rw [hsplit] at hle
      refine .inr ⟨front, item, back, hqueue.symm.trans hsplit, ?_, ?_, ?_, ?_⟩
      · intro other hother
        refine Nat.lt_of_le_of_ne (hle other (List.mem_append_left _ hother)) fun heq => ?_
        exact absurd (decide_eq_true (heq.symm.trans hbest)) (ne_true_of_eq_false (hfront other hother))
      · exact fun other hother => hle other (List.mem_append_right front (List.mem_cons_of_mem item hother))
      · intro last hlast
        rw [DiscoveryOutbox.delay, hindex, Option.bind_some, hget, Option.map_some, hlast] at hdue
        have hzero := Nat.le_of_sub_eq_zero (Option.some.inj hdue)
        split at hzero
        · exact Nat.le_trans (Nat.add_le_add_left (Nat.le_max_right _ _) last) hzero
        · exact hzero
      · rw [pop, if_pos hdue, hindex]
        simp only [hget, herase]
  · exact .inl (if_neg hdue)

end DiscoveryOutbox

/-! ### Runs -/

inductive OutboxCall where
  | push (pubkey : String) (priority : DiscoveryPriority) (delay : Duration) (now : Instant)
  | promoteReply (pubkey : String)
  | pop (now : Instant)
  | sent (now : Instant)
  | stopProbes
deriving DecidableEq, Repr

/-- The reading of the clock that comes with a call. -/
def OutboxCall.time : OutboxCall → Option Instant
  | .push _ _ _ now | .pop now | .sent now => some now
  | _ => none

/-- What a request keeps while it waits: its key and the time it was pushed. -/
abbrev Stamp := String × Instant

def DiscoveryRequest.stamp (item : DiscoveryRequest) : Stamp := (item.pubkey, item.queuedAt)

namespace DiscoveryOutbox

def outboxStep (o : DiscoveryOutbox) : OutboxCall → Option DiscoveryOutbox
  | .push pubkey priority delay now => some (o.push pubkey priority delay now).2
  | .promoteReply pubkey => some (o.promoteReply pubkey).2
  | .pop now => some (o.pop now).2
  | .sent now => some (o.sent now)
  | .stopProbes => some o.stopProbes.2

def stamps (o : DiscoveryOutbox) : List Stamp := o.queue.map DiscoveryRequest.stamp

def entered (m : Move DiscoveryOutbox OutboxCall) : List Stamp :=
  match m.input with
  | .push pubkey _ _ now => [(pubkey, now)]
  | _ => []

/-- The requests that leave at a call are the ones it answers: a push and the end of the
probes answer their keys, and a pop the request itself. -/
def Reported (m : Move DiscoveryOutbox OutboxCall) (gone : List Stamp) : Prop :=
  match m.input with
  | .push pubkey priority delay now => gone.map Prod.fst = (m.before.push pubkey priority delay now).1.toList
  | .pop now => gone = ((m.before.pop now).1.map DiscoveryRequest.stamp).toList
  | .stopProbes => gone.map Prod.fst = m.before.stopProbes.1
  | _ => gone = []

def sendTime (m : Move DiscoveryOutbox OutboxCall) : Option Instant :=
  match m.input with
  | .pop now => (m.before.pop now).1.map fun _ => now
  | _ => none

def Timed (moves : List (Move DiscoveryOutbox OutboxCall)) : Prop :=
  (moves.filterMap fun m => m.input.time).Pairwise (· ≥ ·)

variable {o' : DiscoveryOutbox} {call : OutboxCall} {past moves : List (Move DiscoveryOutbox OutboxCall)}

/-! #### Nothing is lost -/

theorem stamps_promoteReply (o : DiscoveryOutbox) (pubkey : String) :
    (o.promoteReply pubkey).2.stamps = o.stamps := map_promoteReply (fun _ => rfl) o pubkey

/-- What leaves at a call is reported, the rest stays in its order, and what is pushed goes
to the end. -/
structure Shift (m : Move DiscoveryOutbox OutboxCall) (o' : DiscoveryOutbox) (gone : List Stamp) : Prop where
  reported : Reported m gone
  perm : (m.before.stamps ++ entered m).Perm (gone ++ o'.stamps)
  order : o'.stamps.Sublist (m.before.stamps ++ entered m)

variable {m : Move DiscoveryOutbox OutboxCall}

theorem shift_cut {front back : List DiscoveryRequest} {item : DiscoveryRequest}
    (hqueue : m.before.queue = front ++ item :: back)
    (hafter : o'.stamps = (front ++ back).map DiscoveryRequest.stamp ++ entered m)
    (hreported : Reported m [item.stamp]) : Shift m o' [item.stamp] := by
  have hbefore : m.before.stamps = front.map DiscoveryRequest.stamp ++ item.stamp :: back.map DiscoveryRequest.stamp := by
    rw [stamps, hqueue, List.map_append, List.map_cons]
  refine ⟨hreported, ?_, ?_⟩
  · rw [hbefore, hafter, List.map_append, List.singleton_append, ← List.cons_append]
    exact List.perm_middle.append_right _
  · rw [hbefore, hafter, List.map_append]
    exact ((List.sublist_cons_self _ _).append_left _).append_right _

/-- What a step adds to the outbox and takes out of it. -/
theorem step_shift (h : outboxStep o call = some o') : ∃ gone, Shift ⟨o, call⟩ o' gone := by
  cases call with
  | push pubkey priority delay now =>
    cases h
    rcases push_cases o pubkey priority delay now with hself | ⟨front, item, back, hqueue, -, hpush⟩ | ⟨-, hpush⟩
    · refine ⟨[(pubkey, now)], ?_, ?_, ?_⟩
      · show [pubkey] = _
        rw [hself]
        rfl
      · rw [hself]
        exact List.perm_append_comm
      · rw [hself]
        exact List.sublist_append_left _ _
    · refine ⟨[item.stamp], shift_cut hqueue ?_ ?_⟩
      · rw [hpush, stamps, List.map_append]
        rfl
      · show [item.pubkey] = _
        rw [hpush]
        rfl
    · refine ⟨[], ?_, ?_, ?_⟩
      · show [] = _
        rw [hpush]
        rfl
      · rw [hpush]
        simp [stamps, entered, DiscoveryRequest.stamp]
      · rw [hpush]
        simp [stamps, entered, DiscoveryRequest.stamp]
  | promoteReply pubkey =>
    cases h
    refine ⟨[], rfl, ?_, ?_⟩
    · rw [stamps_promoteReply]
      simp [entered]
    · rw [stamps_promoteReply]
      simp [entered]
  | pop now =>
    cases h
    rcases pop_cases o now with hnone | ⟨front, item, back, hqueue, -, -, -, hpop⟩
    · refine ⟨[], ?_, ?_, ?_⟩
      · show [] = _
        rw [hnone]
        rfl
      · rw [hnone]
        simp [entered]
      · rw [hnone]
        simp [entered]
    · refine ⟨[item.stamp], shift_cut hqueue ?_ ?_⟩
      · rw [hpop, entered, List.append_nil]
        rfl
      · show [item.stamp] = _
        rw [hpop]
        rfl
  | sent now =>
    cases h
    exact ⟨[], rfl, by simp [entered, sent, stamps], by simp [entered, sent, stamps]⟩
  | stopProbes =>
    cases h
    refine ⟨(o.queue.filter fun item => decide (item.priority = .probe)).map DiscoveryRequest.stamp, ?_, ?_, ?_⟩
    · show _ = (o.queue.filter _).map DiscoveryRequest.pubkey
      rw [List.map_map]
      rfl
    · rw [entered, List.append_nil, stamps, stopProbes, stamps, ← List.map_append]
      have hsplit := List.filter_append_perm (fun item : DiscoveryRequest => decide (item.priority = .probe)) o.queue
      simp only [decide_not] at hsplit ⊢
      exact (hsplit.map _).symm
    · rw [entered, List.append_nil]
      exact List.filter_sublist.map _

/-- All that was pushed has left as reported or is still queued, in the order of the pushes. -/
structure Conserved (moves : List (Move DiscoveryOutbox OutboxCall)) (o : DiscoveryOutbox)
    (gone : List (List Stamp)) : Prop where
  reported : List.Forall₂ Reported moves gone
  perm : (moves.reverse.flatMap entered).Perm (gone.flatten ++ o.stamps)
  order : o.stamps.Sublist (moves.reverse.flatMap entered)

/-- What was pushed in a run has left as reported, or is queued. -/
theorem conserved_run (run : Run outboxStep new moves o) : ∃ gone, Conserved moves o gone := by
  refine run.keeps (P := fun moves o => ∃ gone, Conserved moves o gone) ⟨[], .nil, .refl _, .refl _⟩ ?_
  rintro past o call o' ⟨gone, hpast⟩ hstep
  obtain ⟨left, hshift⟩ := step_shift hstep
  have hentered : (Move.mk o call :: past).reverse.flatMap entered =
      past.reverse.flatMap entered ++ entered ⟨o, call⟩ := by
    rw [List.reverse_cons, List.flatMap_append, List.flatMap_singleton]
  refine ⟨left :: gone, .cons hshift.reported hpast.reported, ?_, ?_⟩
  · have hbefore := hpast.perm.append_right (entered ⟨o, call⟩)
    have hcall := hshift.perm.append_left gone.flatten
    have hswap : ((gone.flatten ++ left) ++ o'.stamps).Perm ((left ++ gone.flatten) ++ o'.stamps) :=
      List.perm_append_comm.append_right o'.stamps
    rw [List.append_assoc] at hbefore hswap
    rw [hentered, List.flatten_cons]
    exact (hbefore.trans hcall).trans hswap
  · rw [hentered]
    exact hshift.order.trans (hpast.order.append_right _)

/-- No run takes the outbox over its capacity. -/
theorem capacity_run (run : Run outboxStep new moves o) : o.queue.length ≤ CAPACITY := by
  refine run.keeps (P := fun _ o => o.queue.length ≤ CAPACITY) (Nat.zero_le _) ?_
  intro past o call o' hlen hstep
  cases call with
  | push pubkey priority delay now =>
    cases hstep
    rcases push_cases o pubkey priority delay now with hself | ⟨front, item, back, hqueue, -, hpush⟩ | ⟨hroom, hpush⟩
    · rw [hself]
      exact hlen
    · rw [hpush]
      rw [hqueue] at hlen
      simp only [List.length_append, List.length_cons, List.length_nil] at hlen ⊢
      omega
    · rw [hpush, List.length_append, List.length_singleton]
      omega
  | promoteReply pubkey =>
    cases hstep
    have hsame := congrArg List.length (stamps_promoteReply o pubkey)
    rw [stamps, stamps, List.length_map, List.length_map] at hsame
    rw [hsame]
    exact hlen
  | pop now =>
    cases hstep
    rcases pop_cases o now with hnone | ⟨front, item, back, hqueue, -, -, -, hpop⟩
    · rw [hnone]
      exact hlen
    · rw [hpop]
      rw [hqueue] at hlen
      simp only [List.length_append, List.length_cons] at hlen ⊢
      omega
  | sent now =>
    cases hstep
    exact hlen
  | stopProbes =>
    cases hstep
    exact Nat.le_trans (List.length_filter_le _ _) hlen

/-! #### Pacing -/

theorem timed_past (h : Timed (m :: past)) : Timed past :=
  h.sublist ((List.sublist_cons_self m past).filterMap _)

theorem time_le_of_timed {earlier : Move DiscoveryOutbox OutboxCall} {t time : Instant}
    (h : Timed (m :: past)) (hm : m.input.time = some time) (hmem : earlier ∈ past)
    (ht : earlier.input.time = some t) : t ≤ time := by
  rw [Timed, List.filterMap_cons, hm] at h
  exact List.rel_of_pairwise_cons h (List.mem_filterMap.mpr ⟨earlier, hmem, ht⟩)

theorem time_of_sendTime {t : Instant} (h : sendTime m = some t) : m.input.time = some t := by
  obtain ⟨before, input⟩ := m
  cases input with
  | pop now =>
    obtain ⟨item, -, rfl⟩ := Option.map_eq_some_iff.mp h
    rfl
  | _ => cases h

/-- The sends are an interval apart, and the time of the last one is no later than the
outbox remembers. -/
structure Paced (past : List (Move DiscoveryOutbox OutboxCall)) (o : DiscoveryOutbox) : Prop where
  apart : (past.filterMap sendTime).Pairwise fun later earlier => earlier + DISCOVERY_INTERVAL ≤ later
  anchored : ∀ t ∈ past.filterMap sendTime, ∃ last, o.lastSend = some last ∧ t ≤ last

theorem Paced.quiet (h : Paced past o) (hsend : sendTime ⟨o, call⟩ = none) (hlast : o'.lastSend = o.lastSend) :
    Paced (⟨o, call⟩ :: past) o' := by
  have hsends : (Move.mk o call :: past).filterMap sendTime = past.filterMap sendTime := List.filterMap_cons_none hsend
  refine ⟨hsends ▸ h.apart, ?_⟩
  rw [hsends, hlast]
  exact h.anchored

/-- A step on time keeps the sends an interval apart. -/
theorem paced_step (h : Paced past o) (htimed : Timed (⟨o, call⟩ :: past)) (hstep : outboxStep o call = some o') :
    Paced (⟨o, call⟩ :: past) o' := by
  cases call with
  | push pubkey priority delay now =>
    cases hstep
    refine h.quiet rfl ?_
    rcases push_cases o pubkey priority delay now with hself | ⟨front, item, back, -, -, hpush⟩ | ⟨-, hpush⟩
    · rw [hself]
    · rw [hpush]
    · rw [hpush]
  | promoteReply pubkey =>
    cases hstep
    refine h.quiet rfl ?_
    unfold promoteReply
    split <;> rfl
  | pop now =>
    cases hstep
    rcases pop_cases o now with hnone | ⟨front, item, back, -, -, -, hdue, hpop⟩
    · have hsend : sendTime ⟨o, .pop now⟩ = none := by
        show (o.pop now).1.map _ = _
        rw [hnone]
        rfl
      exact h.quiet hsend (by rw [hnone])
    · have hsend : sendTime ⟨o, .pop now⟩ = some now := by
        show (o.pop now).1.map _ = _
        rw [hpop]
        rfl
      have hearlier : ∀ t ∈ past.filterMap sendTime, t + DISCOVERY_INTERVAL ≤ now := by
        intro t ht
        obtain ⟨last, hlast, hle⟩ := h.anchored t ht
        exact Nat.le_trans (Nat.add_le_add_right hle _) (hdue last hlast)
      refine ⟨?_, ?_⟩
      · rw [List.filterMap_cons_some hsend]
        exact List.pairwise_cons.mpr ⟨hearlier, h.apart⟩
      · rw [List.filterMap_cons_some hsend, hpop]
        refine List.forall_mem_cons.mpr ⟨⟨now, rfl, Nat.le_refl now⟩, fun t ht => ⟨now, rfl, ?_⟩⟩
        exact Nat.le_trans (Nat.le_add_right t _) (hearlier t ht)
  | sent now =>
    cases hstep
    refine ⟨h.apart, fun t ht => ⟨now, rfl, ?_⟩⟩
    obtain ⟨m, hm, hsend⟩ := List.mem_filterMap.mp ht
    have hm : m ∈ past := by
      rcases List.mem_cons.mp hm with rfl | hm
      · cases hsend
      · exact hm
    exact time_le_of_timed htimed rfl hm (time_of_sendTime hsend)
  | stopProbes =>
    cases hstep
    exact h.quiet rfl rfl

/-- Over a run on time the sends are an interval apart. -/
theorem paced_run (run : Run outboxStep new moves o) (htimed : Timed moves) : Paced moves o := by
  induction run with
  | nil => exact ⟨.nil, List.forall_mem_nil _⟩
  | snoc _ hstep ih => exact paced_step (ih (timed_past htimed)) htimed hstep

theorem times_entered (moves : List (Move DiscoveryOutbox OutboxCall)) :
    ((moves.reverse.flatMap entered).map Prod.snd).Sublist (moves.filterMap fun m => m.input.time).reverse := by
  induction moves with
  | nil => exact .refl _
  | cons m past ih =>
    obtain ⟨before, input⟩ := m
    rw [List.reverse_cons, List.flatMap_append, List.map_append, List.flatMap_singleton, List.filterMap_cons]
    cases input with
    | push pubkey priority delay now =>
      rw [OutboxCall.time, List.reverse_cons]
      exact ih.append (.refl _)
    | promoteReply pubkey | stopProbes =>
      rw [entered, List.map_nil, List.append_nil]
      exact ih
    | pop now | sent now =>
      rw [entered, List.map_nil, List.append_nil, OutboxCall.time, List.reverse_cons]
      exact ih.trans (List.sublist_append_left _ _)

theorem queuedAt_sorted {gone : List (List Stamp)} (h : Conserved moves o gone) (htimed : Timed moves) :
    o.queue.Pairwise fun first later => first.queuedAt ≤ later.queuedAt := by
  have hsorted := (List.pairwise_reverse.mpr htimed).sublist ((h.order.map Prod.snd).trans (times_entered moves))
  rw [stamps, List.map_map, List.pairwise_map] at hsorted
  exact hsorted

theorem push_spares (o : DiscoveryOutbox) (pubkey : String) (priority : DiscoveryPriority) (delay : Duration)
    (now : Instant) :
    ((o.push pubkey priority delay now).2.queue.filter fun item => item.priority.order < priority.order) =
      o.queue.filter fun item => item.priority.order < priority.order := by
  have hown : ([(⟨pubkey, priority, delay, now⟩ : DiscoveryRequest)].filter
      fun item => item.priority.order < priority.order) = [] := List.filter_cons_of_neg (by simp)
  rcases push_cases o pubkey priority delay now with hself | ⟨front, item, back, hqueue, hlow, hpush⟩ | ⟨-, hpush⟩
  · rw [hself]
  · have hitem : ((item :: back).filter fun item => item.priority.order < priority.order) =
        back.filter fun item => item.priority.order < priority.order :=
      List.filter_cons_of_neg (by simpa using hlow)
    rw [hpush, hqueue, List.filter_append, List.filter_append, List.filter_append, hitem, hown, List.append_nil]
  · rw [hpush, List.filter_append, hown, List.append_nil]

/-- While the clock does not go back at most 32 requests are queued; what was pushed has left
once, as reported, or is queued in order; a push spares what goes before it; a pop takes the
request of the best priority that waits longest; and two sends are an interval apart. -/
theorem outbox_kept (run : Run outboxStep new moves o) (htimed : Timed moves) :
    o.queue.length ≤ CAPACITY ∧ (∃ gone, Conserved moves o gone) ∧
      (o.queue.Pairwise fun first later => first.queuedAt ≤ later.queuedAt) ∧
      (∀ pubkey (priority : DiscoveryPriority) delay now,
        ((o.push pubkey priority delay now).2.queue.filter fun item => item.priority.order < priority.order) =
          o.queue.filter fun item => item.priority.order < priority.order) ∧
      (∀ now item, (o.pop now).1 = some item → ∃ front back, o.queue = front ++ item :: back ∧
        (∀ other ∈ front, item.priority.order < other.priority.order) ∧
        (∀ other ∈ back, item.priority.order ≤ other.priority.order) ∧ (o.pop now).2.queue = front ++ back) ∧
      (moves.filterMap sendTime).Pairwise fun later earlier => earlier + DISCOVERY_INTERVAL ≤ later := by
  obtain ⟨gone, hconserved⟩ := conserved_run run
  refine ⟨capacity_run run, ⟨gone, hconserved⟩, queuedAt_sorted hconserved htimed, push_spares o, ?_,
    (paced_run run htimed).apart⟩
  intro now item hitem
  rcases pop_cases o now with hnone | ⟨front, first, back, hqueue, hfront, hback, -, hpop⟩
  · rw [hnone] at hitem
    cases hitem
  · rw [hpop] at hitem ⊢
    cases hitem
    exact ⟨front, back, hqueue, hfront, hback, rfl⟩

/-- A probe is promoted and goes before an older ordinary request, and the probe left is
given back. -/
def promoted : List OutboxCall :=
  [.pop (fromMillis 400), .stopProbes, .sent (fromMillis 250), .pop (fromMillis 200), .promoteReply "b",
    .push "c" .probe 0 (fromMillis 200), .push "b" .probe 0 (fromMillis 100), .push "a" .ordinary 0 0]

theorem outbox_kept_promoted :
    (Reactive.play outboxStep new promoted).1.filterMap sendTime = [fromMillis 400, fromMillis 200] ∧
      (∃ gone, Conserved (Reactive.play outboxStep new promoted).1 (Reactive.play outboxStep new promoted).2 gone) ∧
      ((Reactive.play outboxStep new promoted).1.filterMap sendTime).Pairwise
        fun later earlier => earlier + DISCOVERY_INTERVAL ≤ later := by
  have htimed : Timed (Reactive.play outboxStep new promoted).1 := by
    unfold Timed
    decide
  obtain ⟨-, hconserved, -, -, -, happart⟩ := outbox_kept (Reactive.run_play outboxStep new promoted) htimed
  exact ⟨by decide, hconserved, happart⟩

end DiscoveryOutbox

end Mistlib.Signaling
