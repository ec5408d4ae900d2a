import Mistlib.Overlay.Router

/-!
# The lane queue of a peer

Frames for one peer wait in one queue and leave it for one of two writers. The ordered writer
takes the frames that must keep their order; the other takes those that are independent. `pop`
lets a frame of the ordered writer pass independent frames, never another ordered one, and
counts how often it did so.

`LaneQueue.pop_some` says once what a pop can do. Frames carry the number of their push, so that
equal frames stay apart, and the numbers are shown to change nothing.
-/

namespace Mistlib.Transport

open Overlay (SendLane)

/-- What the scheduler knows of a frame. -/
structure SendClass where
  lane : SendLane := .general
  unsequencedBulk : Bool := false
deriving DecidableEq, Repr

class ScheduledSend (T : Type) where
  sendClass : T → SendClass
  reliableUnordered : T → Bool := fun _ => false

open ScheduledSend

/-- How many frames may pass an independent head before it is sent. -/
def CONTROL_BURST : Nat := 16

/-- One more on a counter of the machine's word size. -/
def bump (n : Nat) : Nat := (n + 1) % 2 ^ 64

structure LaneQueue (T : Type) where
  frames : List T
  priority : Bool
  controlBurst : Nat
deriving DecidableEq, Repr

variable {T U : Type} [ScheduledSend T] [ScheduledSend U]

/-- Whether a frame may leave through the independent writer. -/
def independent (priority : Bool) (frame : T) : Bool :=
  reliableUnordered frame || priority && (sendClass frame).unsequencedBulk

namespace LaneQueue

def new (T : Type) (priority : Bool) : LaneQueue T where
  frames := []
  priority := priority
  controlBurst := 0

omit [ScheduledSend T] in
def pushBack (q : LaneQueue T) (frame : T) : LaneQueue T :=
  { q with frames := q.frames ++ [frame] }

/-- The first frame of the ordered writer, if it may pass the head now. -/
def overtaking (q : LaneQueue T) (head : T) (orderedReady bulkReady : Bool) : Option Nat :=
  if orderedReady ∧ (q.controlBurst < CONTROL_BURST ∨ ¬ bulkReady) then
    match q.frames.findIdx? fun f => ! independent q.priority f with
    | some index =>
      if ¬ q.priority ∨ (reliableUnordered head ∧ (sendClass head).lane ≠ .bulk) ∨
          (q.frames[index]?.map fun f => (sendClass f).lane) ≠ some .bulk then some index
      else none
    | none => none
  else none

/-- Take the next frame for a writer that is ready; the flag tells whether it
is the independent writer. -/
def pop (q : LaneQueue T) (orderedReady bulkReady : Bool) : Option (T × Bool) × LaneQueue T :=
  match q.frames with
  | [] => (none, q)
  | head :: rest =>
    let first := sendClass head
    let publicUnordered := reliableUnordered head
    if ¬ q.priority ∧ ¬ publicUnordered then
      if orderedReady then (some (head, false), { q with frames := rest }) else (none, q)
    else if publicUnordered ∨ first.unsequencedBulk then
      match q.overtaking head orderedReady bulkReady with
      | some index =>
        (q.frames[index]?.map (·, false),
          { q with frames := q.frames.eraseIdx index, controlBurst := bump q.controlBurst })
      | none =>
        if bulkReady then (some (head, true), { q with frames := rest, controlBurst := 0 })
        else (none, q)
    else if orderedReady then
      (some (head, false),
        { q with
          frames := rest
          controlBurst := if first.lane = .control then bump q.controlBurst else 0 })
    else (none, q)

/-! ### What a pop does -/

variable {q : LaneQueue T} {orderedReady bulkReady : Bool}

theorem overtaking_some {head : T} {index : Nat}
    (h : q.overtaking head orderedReady bulkReady = some index) :
    (q.controlBurst < CONTROL_BURST ∨ bulkReady = false) ∧
      ∃ pre f post, q.frames = pre ++ f :: post ∧ pre.length = index ∧
        independent q.priority f = false ∧ ∀ g ∈ pre, independent q.priority g = true := by
  unfold overtaking at h
  split at h
  · next hready =>
    split at h
    · next i hfound =>
      split at h
      · cases h
        refine ⟨by simpa using hready.2, ?_⟩
        obtain ⟨hlt, hf, hpre⟩ := List.findIdx?_eq_some_iff_getElem.mp hfound
        refine ⟨q.frames.take index, q.frames[index], q.frames.drop (index + 1), ?_, ?_, ?_, ?_⟩
        · rw [List.getElem_cons_drop, List.take_append_drop]
        · simpa using hlt.le
        · simpa using hf
        · intro g hg
          obtain ⟨j, hj, rfl⟩ := List.mem_take_iff_getElem.mp hg
          simpa using hpre j (by omega)
      · cases h
    · cases h
  · cases h

theorem pop_some {q' : LaneQueue T} {f : T} {flag : Bool}
    (h : q.pop orderedReady bulkReady = (some (f, flag), q')) :
    q'.priority = q.priority ∧ flag = independent q.priority f ∧
      ∃ pre post, q.frames = pre ++ f :: post ∧ q'.frames = pre ++ post ∧
        (∀ g ∈ pre, independent q.priority g = true) ∧
        (pre = [] ∨
          flag = false ∧ (q.controlBurst < CONTROL_BURST ∨ bulkReady = false) ∧
            q'.controlBurst = bump q.controlBurst) := by
  unfold pop at h
  split at h
  · cases h
  · next head rest hframes =>
    simp only at h
    split at h
    · next hplain =>
      split at h
      · cases h
        refine ⟨rfl, ?_, [], rest, hframes, rfl, by simp, .inl rfl⟩
        simp [independent, hplain.1, hplain.2]
      · cases h
    · next hplain =>
      split at h
      · next hindependent =>
        have hhead : independent q.priority head = true := by
          simp only [independent, Bool.or_eq_true, Bool.and_eq_true]
          rcases hindependent with hpublic | hbulk
          · exact .inl hpublic
          · by_cases hpublic : reliableUnordered head = true
            · exact .inl hpublic
            · exact .inr ⟨by simpa [hpublic] using hplain, hbulk⟩
        split at h
        · next index hover =>
          obtain ⟨hburst, pre, g, post, hsplit, hlength, hg, hpre⟩ := overtaking_some hover
          simp only [hsplit, ← hlength, Prod.mk.injEq] at h
          obtain ⟨hgot, rfl⟩ := h
          simp only [List.getElem?_append_right le_rfl, Nat.sub_self,
            List.getElem?_cons_zero, Option.map_some, Option.some.injEq, Prod.mk.injEq] at hgot
          obtain ⟨rfl, rfl⟩ := hgot
          refine ⟨rfl, hg.symm, pre, post, hsplit, ?_, hpre, .inr ⟨rfl, hburst, rfl⟩⟩
          simp [List.eraseIdx_append_of_length_le]
        · split at h
          · cases h
            exact ⟨rfl, hhead.symm, [], rest, hframes, rfl, by simp, .inl rfl⟩
          · cases h
      · next hordered =>
        split at h
        · cases h
          refine ⟨rfl, ?_, [], rest, hframes, rfl, by simp, .inl rfl⟩
          simp only [not_or, Bool.not_eq_true] at hordered
          simp [independent, hordered.1, hordered.2]
        · cases h

theorem pop_ready {f : T} {flag : Bool} (h : (q.pop orderedReady bulkReady).1 = some (f, flag)) :
    (if flag then bulkReady else orderedReady) = true := by
  unfold pop at h
  split at h
  · cases h
  · next head rest hframes =>
    simp only at h
    split at h
    · split at h
      · next hready =>
        cases h
        exact hready
      · cases h
    · split at h
      · split at h
        · next index hover =>
          obtain ⟨g, -, hpair⟩ := Option.map_eq_some_iff.mp h
          cases hpair
          unfold overtaking at hover
          split at hover
          · next hready => exact hready.1
          · cases hover
        · split at h
          · next hready =>
            cases h
            exact hready
          · cases h
      · split at h
        · next hready =>
          cases h
          exact hready
        · cases h

/-- A pop that yields nothing changes nothing, and happens only to an empty
queue or when a writer is busy. -/
theorem pop_none {q' : LaneQueue T} (h : q.pop orderedReady bulkReady = (none, q')) :
    q' = q ∧ (q.frames = [] ∨ orderedReady = false ∨ bulkReady = false) := by
  unfold pop at h
  split at h
  · next hempty =>
    cases h
    exact ⟨rfl, .inl hempty⟩
  · next head rest hframes =>
    simp only at h
    split at h
    · split at h
      · cases h
      · next hbusy =>
        cases h
        exact ⟨rfl, .inr (.inl (by simpa using hbusy))⟩
    · split at h
      · split at h
        · next index hover =>
          obtain ⟨_, pre, g, post, hsplit, hlength, _, _⟩ := overtaking_some hover
          simp [hsplit, ← hlength] at h
        · split at h
          · cases h
          · next hbusy =>
            cases h
            exact ⟨rfl, .inr (.inr (by simpa using hbusy))⟩
      · split at h
        · cases h
        · next hbusy =>
          cases h
          exact ⟨rfl, .inr (.inl (by simpa using hbusy))⟩

/-! ### Frames renamed -/

omit [ScheduledSend T] [ScheduledSend U] in
/-- The queue with every frame renamed. -/
def map (g : T → U) (q : LaneQueue T) : LaneQueue U where
  frames := q.frames.map g
  priority := q.priority
  controlBurst := q.controlBurst

section Renaming

variable {g : T → U} (hclass : ∀ f, sendClass (g f) = sendClass f)
  (hunordered : ∀ f, reliableUnordered (g f) = reliableUnordered f)

include hclass hunordered

theorem overtaking_map (q : LaneQueue T) (head : T) (orderedReady bulkReady : Bool) :
    (q.map g).overtaking (g head) orderedReady bulkReady =
      q.overtaking head orderedReady bulkReady := by
  have hsame : (fun f => ! independent q.priority (g f)) =
      fun f => ! independent q.priority f := by
    funext f
    simp [independent, hclass, hunordered]
  simp only [overtaking, map, List.findIdx?_map, Function.comp_def, hsame, hclass, hunordered,
    List.getElem?_map, Option.map_map]

theorem pop_map (q : LaneQueue T) (orderedReady bulkReady : Bool) :
    (q.map g).pop orderedReady bulkReady =
      ((q.pop orderedReady bulkReady).1.map fun p => (g p.1, p.2),
        (q.pop orderedReady bulkReady).2.map g) := by
  rcases hframes : q.frames with _ | ⟨head, rest⟩
  · simp [pop, map, hframes]
  · have hmapped : (q.map g).frames = g head :: rest.map g := by simp [map, hframes]
    have hover := overtaking_map hclass hunordered q head orderedReady bulkReady
    have hpriority : (q.map g).priority = q.priority := rfl
    simp only [pop, hframes, hmapped, hclass, hunordered, hover, hpriority]
    by_cases hplain : ¬ q.priority = true ∧ ¬ reliableUnordered head = true
    · cases orderedReady <;> simp [hplain, map, hframes]
    · simp only [if_neg hplain]
      by_cases hbulk : reliableUnordered head = true ∨ (sendClass head).unsequencedBulk = true
      · simp only [if_pos hbulk]
        cases q.overtaking head orderedReady bulkReady with
        | some index =>
          have htaken : (g head :: rest.map g) = (head :: rest).map g := rfl
          simp [map, htaken, -List.map_cons, List.eraseIdx_map, List.getElem?_map, Function.comp_def]
        | none => cases bulkReady <;> simp [map, hframes]
      · cases orderedReady <;> simp [hbulk, map, hframes]

end Renaming

end LaneQueue

/-! ### Runs -/

inductive Call (T : Type) where
  | pushBack (frame : T)
  | pop (orderedReady bulkReady : Bool)
deriving DecidableEq, Repr

/-- The pops of a run all find both writers ready. -/
def Call.BothReady : Call T → Prop
  | .pushBack _ => True
  | .pop orderedReady bulkReady => orderedReady = true ∧ bulkReady = true

def Call.frame? : Call T → Option T
  | .pushBack frame => some frame
  | .pop _ _ => none

def Call.isPop : Call T → Bool
  | .pushBack _ => false
  | .pop _ _ => true

namespace LaneQueue

/-- One call; a pop that yields a frame adds it to the output. -/
def call (q : LaneQueue T) : Call T → List (T × Bool) × LaneQueue T
  | .pushBack frame => ([], q.pushBack frame)
  | .pop orderedReady bulkReady =>
    ((q.pop orderedReady bulkReady).1.toList, (q.pop orderedReady bulkReady).2)

def run (q : LaneQueue T) : List (Call T) → List (T × Bool) × LaneQueue T
  | [] => ([], q)
  | c :: rest => ((q.call c).1 ++ ((q.call c).2.run rest).1, ((q.call c).2.run rest).2)

end LaneQueue

/-- A frame with the number of its push. -/
structure Numbered (T : Type) where
  number : Nat
  frame : T
deriving DecidableEq, Repr

instance : ScheduledSend (Numbered T) where
  sendClass f := sendClass f.frame
  reliableUnordered f := reliableUnordered f.frame

/-- A queue with all that went in and all that came out, oldest first. -/
structure History (T : Type) where
  queue : LaneQueue (Numbered T)
  pushed : List (Numbered T)
  popped : List (Numbered T × Bool)

namespace History

def new (T : Type) (priority : Bool) : History T where
  queue := .new _ priority
  pushed := []
  popped := []

def step (h : History T) : Call T → History T
  | .pushBack frame =>
    { h with
      queue := h.queue.pushBack ⟨h.pushed.length, frame⟩
      pushed := h.pushed ++ [⟨h.pushed.length, frame⟩] }
  | .pop orderedReady bulkReady =>
    { h with
      queue := (h.queue.pop orderedReady bulkReady).2
      popped := h.popped ++ (h.queue.pop orderedReady bulkReady).1.toList }

/-- The history after the calls given, starting with an empty queue. -/
def after (priority : Bool) (calls : List (Call T)) : History T :=
  calls.foldl step (.new T priority)

/-- Frame `x` was popped, and before `y`. -/
def PoppedBefore (h : History T) (x y : Numbered T) : Prop :=
  ∃ pre post, h.popped.map Prod.fst = pre ++ y :: post ∧ x ∈ pre

/-- What holds of every history: nothing is lost or doubled, each writer
receives its frames in the order of their pushes, and no frame passes one
that is not independent. -/
structure Faithful (priority : Bool) (h : History T) : Prop where
  priority_eq : h.queue.priority = priority
  numbers : h.pushed.map Numbered.number = List.range h.pushed.length
  conserved : (h.popped.map Prod.fst ++ h.queue.frames).Perm h.pushed
  queued : h.queue.frames.Sublist h.pushed
  flags : ∀ p ∈ h.popped, p.2 = independent priority p.1
  classes : ∀ b, (h.popped.map Prod.fst ++ h.queue.frames).filter (independent priority · = b) =
    h.pushed.filter (independent priority · = b)
  barrier : ∀ x ∈ h.pushed, independent priority x = false →
    ∀ y ∈ h.popped.map Prod.fst, x.number < y.number → h.PoppedBefore x y

omit [ScheduledSend T] in
theorem PoppedBefore.mono {h h' : History T} {x y : Numbered T} (hb : h.PoppedBefore x y)
    (hgrown : h.popped <+: h'.popped) : h'.PoppedBefore x y := by
  obtain ⟨pre, post, hsplit, hx⟩ := hb
  obtain ⟨more, hmore⟩ := hgrown
  refine ⟨pre, post ++ more.map Prod.fst, ?_, hx⟩
  rw [← hmore, List.map_append, hsplit, List.append_assoc, List.cons_append]

namespace Faithful

variable {priority : Bool} {h : History T}

theorem new (priority : Bool) : (History.new T priority).Faithful priority where
  priority_eq := rfl
  numbers := rfl
  conserved := .refl _
  queued := .refl _
  flags := nofun
  classes _ := rfl
  barrier := nofun

section

variable (hf : h.Faithful priority)
include hf

theorem sorted : h.pushed.Pairwise (·.number < ·.number) := by
  have hrange : (h.pushed.map Numbered.number).Pairwise (· < ·) := by
    rw [hf.numbers]
    exact List.pairwise_lt_range
  exact List.pairwise_map.mp hrange

theorem nodup : h.pushed.Nodup :=
  hf.sorted.imp fun hlt heq => by simp [heq] at hlt

theorem number_lt {x : Numbered T} (hx : x ∈ h.pushed) : x.number < h.pushed.length := by
  have hmem : x.number ∈ h.pushed.map Numbered.number := List.mem_map_of_mem hx
  rw [hf.numbers] at hmem
  exact List.mem_range.mp hmem

theorem mem_pushed {x : Numbered T} :
    x ∈ h.pushed ↔ x ∈ h.popped.map Prod.fst ∨ x ∈ h.queue.frames := by
  rw [← hf.conserved.mem_iff, List.mem_append]

theorem pushBack (frame : T) : (h.step (.pushBack frame)).Faithful priority where
  priority_eq := hf.priority_eq
  numbers := by simp [step, hf.numbers, List.range_succ]
  conserved := by
    simp only [step, LaneQueue.pushBack, ← List.append_assoc]
    exact hf.conserved.append_right _
  queued := hf.queued.append (.refl _)
  flags := hf.flags
  classes b := by
    simp only [step, LaneQueue.pushBack, ← List.append_assoc]
    rw [List.filter_append, hf.classes b, List.filter_append]
  barrier := by
    intro x hx hindependent y hy hlt
    rcases List.mem_append.mp hx with hold | hnew
    · exact (hf.barrier x hold hindependent y hy hlt).mono (List.prefix_refl _)
    · -- the new frame has the largest number of all
      have hy' := hf.number_lt (hf.mem_pushed.mpr (.inl hy))
      simp only [List.mem_singleton] at hnew
      rw [hnew] at hlt
      exact absurd hlt (by simpa using hy'.le)

/-- A frame taken out of the queue, whichever it is, has only independent
frames before it. -/
theorem pop (orderedReady bulkReady : Bool) :
    (h.step (.pop orderedReady bulkReady)).Faithful priority := by
  rcases hpop : h.queue.pop orderedReady bulkReady with ⟨_ | ⟨f, flag⟩, q'⟩
  · obtain ⟨rfl, _⟩ := LaneQueue.pop_none hpop
    simpa only [step, hpop, Option.toList_none, List.append_nil] using hf
  · obtain ⟨hpriority, hflag, pre, post, hframes, hframes', hpre, hpass⟩ :=
      LaneQueue.pop_some hpop
    rw [hf.priority_eq] at hpriority hflag hpre
    have hstep : h.step (.pop orderedReady bulkReady) =
        { h with queue := q', popped := h.popped ++ [(f, flag)] } := by
      simp [step, hpop]
    have hsame : (h.popped.map Prod.fst ++ (pre ++ f :: post)).Perm
        (h.popped.map Prod.fst ++ [f] ++ (pre ++ post)) := by
      rw [List.append_assoc]
      exact (List.perm_middle).append_left _
    rw [hstep]
    refine ⟨hpriority, hf.numbers, ?_, ?_, ?_, ?_, ?_⟩
    · simp only [List.map_append, List.map_cons, List.map_nil, hframes']
      exact hsame.symm.trans (hframes ▸ hf.conserved)
    · rw [hframes']
      refine List.Sublist.trans ?_ (hframes ▸ hf.queued)
      exact (List.Sublist.refl pre).append (List.sublist_cons_self f post)
    · intro p hp
      rcases List.mem_append.mp hp with hold | hnew
      · exact hf.flags p hold
      · simp only [List.mem_singleton] at hnew
        rw [hnew]
        exact hflag
    · intro b
      have hclass := hf.classes b
      simp only [hframes, hframes', List.map_append, List.map_cons, List.map_nil,
        List.filter_append, List.filter_cons, List.filter_nil] at hclass ⊢
      rw [← hclass]
      cases hfb : decide (independent priority f = b) with
      | false => simp
      | true =>
        -- what the frame passed is independent, so none of it is of its class
        rcases hpass with rfl | ⟨rfl, _⟩
        · simp
        · have hb : b = false := by simpa [← hflag] using of_decide_eq_true hfb
          have hnone : pre.filter (independent priority · = b) = [] := by
            rw [List.filter_eq_nil_iff]
            intro g hg
            simp [hpre g hg, hb]
          simp [hnone]
    · intro x hx hindependent y hy hlt
      rw [List.map_append, List.mem_append] at hy
      rcases hy with hold | hnew
      · exact (hf.barrier x hx hindependent y hold hlt).mono (List.prefix_append _ _)
      · simp only [List.map_cons, List.map_nil, List.mem_singleton] at hnew
        subst hnew
        refine ⟨h.popped.map Prod.fst, [], by simp, ?_⟩
        rcases hf.mem_pushed.mp hx with hpopped | hqueued
        · exact hpopped
        · -- still queued with a smaller number, it would stand before the frame
          have hsorted : (pre ++ y :: post).Pairwise (·.number < ·.number) :=
            hframes ▸ hf.sorted.sublist hf.queued
          rw [hframes, List.mem_append, List.mem_cons] at hqueued
          rcases hqueued with hbefore | rfl | hafter
          · rw [hpre x hbefore] at hindependent
            cases hindependent
          · exact absurd hlt (lt_irrefl _)
          · have := (List.pairwise_cons.mp (List.pairwise_append.mp hsorted).2.1).1 x hafter
            omega

theorem step (c : Call T) : (h.step c).Faithful priority := by
  cases c with
  | pushBack frame => exact hf.pushBack frame
  | pop orderedReady bulkReady => exact hf.pop orderedReady bulkReady

theorem steps (calls : List (Call T)) : (calls.foldl History.step h).Faithful priority := by
  induction calls generalizing h with
  | nil => exact hf
  | cons c rest ih => exact ih (hf.step c)

end

theorem after (priority : Bool) (calls : List (Call T)) :
    (History.after priority calls).Faithful priority :=
  (Faithful.new priority).steps calls

/-- What was pushed is queued or popped, once. -/
theorem once (hf : h.Faithful priority) :
    (h.popped.map Prod.fst).Nodup ∧
      ∀ x ∈ h.pushed, x ∈ h.queue.frames ↔ x ∉ h.popped.map Prod.fst := by
  have hnodup := hf.conserved.nodup_iff.mpr hf.nodup
  obtain ⟨hpopped, _, hdisjoint⟩ := List.nodup_append.mp hnodup
  refine ⟨hpopped, ?_⟩
  intro x hx
  constructor
  · intro hqueued hgone
    exact hdisjoint x hgone x hqueued rfl
  · intro hkept
    exact (hf.mem_pushed.mp hx).resolve_left hkept

theorem inOrder (hf : h.Faithful priority) (b : Bool) :
    ((h.popped.map Prod.fst).filter (independent priority · = b)) <+:
      h.pushed.filter (independent priority · = b) := by
  rw [← hf.classes b, List.filter_append]
  exact List.prefix_append _ _

end Faithful

/-! ### Numbers change nothing -/

/-- The history is that of the plain queue. -/
structure Shows (h : History T) (out : List (T × Bool)) (q : LaneQueue T) : Prop where
  popped : h.popped.map (fun p => (p.1.frame, p.2)) = out
  queue : h.queue.map Numbered.frame = q

theorem Shows.step {h : History T} {out : List (T × Bool)} {q : LaneQueue T} (hs : h.Shows out q)
    (c : Call T) : (h.step c).Shows (out ++ (q.call c).1) (q.call c).2 := by
  obtain ⟨rfl, rfl⟩ := hs
  cases c with
  | pushBack frame =>
    constructor
    · simp [History.step, LaneQueue.call]
    · simp [History.step, LaneQueue.call, LaneQueue.map, LaneQueue.pushBack]
  | pop orderedReady bulkReady =>
    have hpop := LaneQueue.pop_map (g := Numbered.frame) (fun _ => rfl) (fun _ => rfl) h.queue
      orderedReady bulkReady
    constructor
    · simp [History.step, LaneQueue.call, hpop, Option.toList_map]
    · simp [History.step, LaneQueue.call, hpop]

theorem Shows.steps {h : History T} {out : List (T × Bool)} {q : LaneQueue T} (hs : h.Shows out q)
    (calls : List (Call T)) :
    (calls.foldl History.step h).Shows (out ++ (q.run calls).1) (q.run calls).2 := by
  induction calls generalizing h out q with
  | nil => simpa [LaneQueue.run] using hs
  | cons c rest ih => simpa [LaneQueue.run, List.append_assoc] using ih (hs.step c)

theorem after_shows (priority : Bool) (calls : List (Call T)) :
    (after priority calls).Shows ((LaneQueue.new T priority).run calls).1
      ((LaneQueue.new T priority).run calls).2 := by
  have hnew : (History.new T priority).Shows [] (LaneQueue.new T priority) := ⟨rfl, rfl⟩
  simpa [after] using hnew.steps calls

theorem after_pushed (priority : Bool) (calls : List (Call T)) :
    (after priority calls).pushed.map Numbered.frame = calls.filterMap Call.frame? := by
  have hsteps : ∀ (h : History T), (calls.foldl step h).pushed.map Numbered.frame =
      h.pushed.map Numbered.frame ++ calls.filterMap Call.frame? := by
    induction calls with
    | nil => simp
    | cons c rest ih =>
      intro h
      rw [List.foldl_cons, ih]
      cases c with
      | pushBack frame => simp [step, Call.frame?]
      | pop orderedReady bulkReady => rfl
  exact hsteps (.new T priority)

/-! ### How long an independent head waits -/

theorem popped_prefix (h : History T) (calls : List (Call T)) :
    h.popped <+: (calls.foldl step h).popped := by
  induction calls generalizing h with
  | nil => exact List.prefix_refl _
  | cons c rest ih =>
    refine List.IsPrefix.trans ?_ (ih (h.step c))
    cases c with
    | pushBack frame => exact List.prefix_refl _
    | pop orderedReady bulkReady => exact List.prefix_append _ _

/-- Frame `f` waits at the head, and at most `room` frames may still pass it. -/
structure Waits (h : History T) (f : Numbered T) (room : Nat) : Prop where
  head : h.queue.frames.head? = some f
  independent : independent h.queue.priority f = true
  room : CONTROL_BURST ≤ h.queue.controlBurst + room

/-- A step pops the head, passes it once, or leaves it. -/
theorem Waits.step {h : History T} {f : Numbered T} {room : Nat} (hw : h.Waits f room)
    {c : Call T} (hready : c.BothReady) :
    (c.isPop = false ∧ (h.step c).popped = h.popped ∧ (h.step c).Waits f room) ∨
    (c.isPop = true ∧ (h.step c).popped = h.popped ++ [(f, true)]) ∨
    (c.isPop = true ∧ ∃ g left, room = left + 1 ∧ (h.step c).popped = h.popped ++ [(g, false)] ∧
      (h.step c).Waits f left) := by
  cases c with
  | pushBack frame =>
    refine .inl ⟨rfl, rfl, ⟨?_, hw.independent, hw.room⟩⟩
    simp [History.step, LaneQueue.pushBack, hw.head]
  | pop orderedReady bulkReady =>
    obtain ⟨rfl, rfl⟩ := hready
    obtain ⟨rest, hhead⟩ := List.head?_eq_some_iff.mp hw.head
    rcases hpop : h.queue.pop true true with ⟨_ | ⟨g, flag⟩, q'⟩
    · have hblocked := (LaneQueue.pop_none hpop).2
      simp [hhead] at hblocked
    · obtain ⟨hpriority, hflag, pre, post, hframes, hframes', hpre, hpass⟩ :=
        LaneQueue.pop_some hpop
      rcases pre with _ | ⟨f', pre⟩
      · obtain ⟨rfl, rfl⟩ : f = g ∧ rest = post := by simpa [hhead] using hframes
        rw [hw.independent] at hflag
        exact .inr (.inl ⟨rfl, by simp [History.step, hpop, hflag]⟩)
      · obtain rfl : f = f' := by
          have := hhead.symm.trans hframes
          simp only [List.cons_append, List.cons.injEq] at this
          exact this.1
        -- the head was passed, so the burst was still below its bound
        obtain ⟨rfl, hburst, hbump⟩ : flag = false ∧
            (h.queue.controlBurst < CONTROL_BURST ∨ true = false) ∧
              q'.controlBurst = bump h.queue.controlBurst := by simpa using hpass
        have hroom := hw.room
        have hcounted : q'.controlBurst = h.queue.controlBurst + 1 := by
          simp only [CONTROL_BURST, Bool.true_eq_false, or_false] at hburst
          rw [hbump, bump, Nat.mod_eq_of_lt (by omega)]
        refine .inr (.inr ⟨rfl, g, room - 1, ?_, by simp [History.step, hpop], ?_⟩)
        · simp only [Bool.true_eq_false, or_false] at hburst
          omega
        · refine ⟨?_, ?_, ?_⟩
          · simp [History.step, hpop, hframes']
          · simpa [History.step, hpop, hpriority] using hw.independent
          · simp only [History.step, hpop, hcounted]
            omega

/-- While both writers are ready, at most `room` frames pass the head. -/
theorem Waits.steps {h : History T} {f : Numbered T} {room : Nat} (hw : h.Waits f room)
    {calls : List (Call T)} (hready : ∀ c ∈ calls, c.BothReady) :
    ∃ passing : List (Numbered T × Bool), passing.length ≤ room ∧ (∀ p ∈ passing, p.2 = false) ∧
      ((∃ later, (calls.foldl History.step h).popped =
          h.popped ++ passing ++ (f, true) :: later) ∨
        (calls.foldl History.step h).popped = h.popped ++ passing ∧
          (calls.foldl History.step h).queue.frames.head? = some f ∧
          (calls.countP Call.isPop) = passing.length) := by
  induction calls generalizing h room with
  | nil => exact ⟨[], by simp, by simp, .inr ⟨by simp, hw.head, rfl⟩⟩
  | cons c rest ih =>
    have hrest : ∀ c ∈ rest, c.BothReady := fun c hc => hready c (List.mem_cons_of_mem _ hc)
    rcases hw.step (hready c List.mem_cons_self) with
      ⟨hpush, hsame, hw'⟩ | ⟨_, htaken⟩ | ⟨hpop, g, left, rfl, hpassed, hw'⟩
    · obtain ⟨passing, hlength, hflags, hout⟩ := ih hw' hrest
      refine ⟨passing, hlength, hflags, ?_⟩
      simpa [hsame, hpush] using hout
    · obtain ⟨later, hlater⟩ := popped_prefix (h.step c) rest
      refine ⟨[], by simp, by simp, .inl ⟨later, ?_⟩⟩
      rw [List.foldl_cons, ← hlater, htaken]
      simp
    · obtain ⟨passing, hlength, hflags, hout⟩ := ih hw' hrest
      refine ⟨(g, false) :: passing, by simpa using hlength, by simpa using hflags, ?_⟩
      simpa [hpassed, hpop] using hout

end History

/-- **The scheduler keeps the ordered stream.** Over any calls, with frames numbered by their
pushes: every frame pushed is popped once or still queued, the flag tells the independent frames
from the others, each of the two kinds leaves in the order of its pushes, and no frame leaves
before one that is not independent and was pushed earlier. With both writers ready a queue that is
not empty yields a frame, and an independent head is passed by at most sixteen. -/
theorem laneQueue_keepsOrder (priority : Bool) (calls : List (Call T)) :
    let h := History.after priority calls
    h.Shows ((LaneQueue.new T priority).run calls).1 ((LaneQueue.new T priority).run calls).2 ∧
    h.pushed.map Numbered.frame = calls.filterMap Call.frame? ∧
    ((h.popped.map Prod.fst).Nodup ∧ (∀ x ∈ h.popped.map Prod.fst, x ∈ h.pushed) ∧
      ∀ x ∈ h.pushed, x ∈ h.queue.frames ↔ x ∉ h.popped.map Prod.fst) ∧
    (∀ p ∈ h.popped, p.2 = independent priority p.1) ∧
    (∀ b, ((h.popped.map Prod.fst).filter (independent priority · = b)) <+:
      h.pushed.filter (independent priority · = b)) ∧
    (∀ x ∈ h.pushed, independent priority x = false → ∀ y ∈ h.popped.map Prod.fst,
      x.number < y.number → h.PoppedBefore x y) ∧
    ((h.queue.pop true true).1 = none → h.queue.frames = []) ∧
    (∀ f, h.queue.frames.head? = some f → independent priority f = true →
      ∀ more : List (Call T), (∀ c ∈ more, c.BothReady) →
        let h' := History.after priority (calls ++ more)
        ∃ passing : List (Numbered T × Bool), passing.length ≤ CONTROL_BURST ∧
          (∀ p ∈ passing, p.2 = false) ∧
          ((∃ later, h'.popped = h.popped ++ passing ++ (f, true) :: later) ∨
            h'.popped = h.popped ++ passing ∧ h'.queue.frames.head? = some f ∧
              more.countP Call.isPop = passing.length)) := by
  intro h
  have hf : h.Faithful priority := History.Faithful.after priority calls
  refine ⟨History.after_shows priority calls, History.after_pushed priority calls, ?_, hf.flags,
    hf.inOrder, hf.barrier, ?_, ?_⟩
  · exact ⟨hf.once.1, fun x hx => hf.mem_pushed.mpr (.inl hx), hf.once.2⟩
  · intro hnone
    have hpop : h.queue.pop true true = (none, (h.queue.pop true true).2) := by rw [← hnone]
    simpa using (LaneQueue.pop_none hpop).2
  · intro f hhead hindependent more hready h'
    have hw : h.Waits f CONTROL_BURST :=
      ⟨hhead, by rw [hf.priority_eq]; exact hindependent, Nat.le_add_left _ _⟩
    have happended : h' = more.foldl History.step h := List.foldl_append
    rw [happended]
    exact hw.steps hready

end Mistlib.Transport
