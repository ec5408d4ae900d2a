import Mistlib.Storage.WantLoop

/-!
# One attempt at a provider

An attempt waits for a permit, registers with the want registry and then polls three futures: the
cap, the receiver of the block and the loop that asks the provider. A poll looks at them in this
order, and the registry and the clock may act between any two of these looks.

A block that is handed over is therefore not lost as long as the attempt looks at its receiver
once more, and the only looks after its last one, in the poll that ends it, are at the cap and
the grace timer. There a block does get lost (`handed_lost`).
-/

namespace Mistlib.Storage

open Reactive

inductive Slot where
  | empty
  | full (data : Bytes)
  /-- The sender was dropped. -/
  | closed
deriving DecidableEq, Repr

/-- What `try_recv` and the polls of the receiver take from it. -/
def Slot.taken : Slot → Option Bytes
  | .full data => some data
  | _ => none

inductive AttemptPhase where
  /-- It is about to look at the cap, and has no permit. -/
  | queued
  /-- It is about to look whether it gets the permit. -/
  | admitting
  /-- It is registered and about to call `try_recv`. -/
  | registered
  /-- A poll of the three futures begins with the cap. -/
  | cap (l : WantLoop)
  | data (l : WantLoop)
  | running (l : WantLoop)
  /-- The loop gave up, and `now_or_never` looks at the receiver. -/
  | lastLook
  /-- The loop found a watch closed; the grace period begins. -/
  | graceData
  | graceCap
  | graceTimer
  /-- The result is fixed, and what is left are log lines. -/
  | ending (result : Option Bytes)
  | ended (result : Option Bytes)
deriving DecidableEq, Repr

structure Attempt where
  phase : AttemptPhase
  slot : Slot
  capElapsed : Bool
deriving DecidableEq, Repr

inductive AttemptInput where
  | hand (data : Bytes)
  | dropSender
  | elapse
  /-- The attempt does what it can do by itself. -/
  | go
  | permit (ok : Bool)
  /-- What is polled last is not ready. -/
  | blocked
  | loop (i : LoopInput)
  /-- The grace timer is looked at. -/
  | grace (elapsed : Bool)
deriving DecidableEq, Repr

namespace AttemptPhase

/-- Another look at the receiver is to come, unless the cap elapses. -/
def Looks : AttemptPhase → Prop
  | .registered | .cap _ | .data _ | .running _ | .lastLook | .graceData => True
  | _ => False

/-- The attempt may end without another look at the receiver. -/
def Leaving : AttemptPhase → Prop
  | .graceCap | .graceTimer | .ending _ => True
  | _ => False

def receives : AttemptPhase → Bool
  | .queued | .admitting | .ended _ => false
  | _ => true

def Returns (data : Bytes) (phase : AttemptPhase) : Prop :=
  phase = .ending (some data) ∨ phase = .ended (some data)

theorem looks_or_leaving {phase : AttemptPhase} (h : phase.receives = true) :
    phase.Looks ∨ phase.Leaving := by
  cases phase <;> simp_all [receives, Looks, Leaving]

end AttemptPhase

namespace Attempt

/-- An attempt that needs a permit if fetches from the provider are limited. -/
def start (limited : Bool) : Attempt :=
  { phase := if limited then .queued else .registered, slot := .empty, capElapsed := false }

def goTo (a : Attempt) (phase : AttemptPhase) : Attempt := { a with phase }

/-- A look at the receiver: take what is there, or go on to `pending`. -/
def look (a : Attempt) (pending : AttemptPhase) : AttemptPhase :=
  match a.slot with
  | .empty => pending
  | slot => .ending slot.taken

def advance (a : Attempt) (i : AttemptInput) : Option AttemptPhase :=
  match i, a.phase with
  | .go, .queued => some (if a.capElapsed then .ended none else .admitting)
  | .permit ok, .admitting => some (if ok then .registered else .ended none)
  | .blocked, .admitting => some .queued
  | .go, .registered => some (a.look (.cap .start))
  | .go, .cap l => some (if a.capElapsed then .ending none else .data l)
  | .go, .data l => some (a.look (.running l))
  | .loop i, .running l => (l.next i).map .running
  | .blocked, .running l =>
    match l.point with
    | .returned _ => none
    | _ => some (.cap l)
  | .go, .running l =>
    match l.point with
    | .returned watchesClosed => some (if watchesClosed then .graceData else .lastLook)
    | _ => none
  | .go, .lastLook => some (.ending a.slot.taken)
  | .go, .graceData => some (a.look .graceCap)
  | .go, .graceCap => some (if a.capElapsed then .ending none else .graceTimer)
  | .grace elapsed, .graceTimer => some (if elapsed then .ending none else .graceData)
  | .go, .ending result => some (.ended result)
  | _, _ => none

def next (a : Attempt) (i : AttemptInput) : Option Attempt :=
  match i with
  | .hand data =>
    if a.phase.receives ∧ a.slot = .empty then some { a with slot := .full data } else none
  | .dropSender =>
    if a.phase.receives ∧ a.slot = .empty then some { a with slot := .closed } else none
  | .elapse => some { a with capElapsed := true }
  | i => (a.advance i).map a.goTo

theorem next_cases {a a' : Attempt} {i : AttemptInput} (hmove : a.next i = some a') :
    (a.phase.receives = true ∧ a.slot = .empty ∧ ∃ slot, a' = { a with slot }) ∨
      a' = { a with capElapsed := true } ∨
      ∃ phase, a.advance i = some phase ∧ a' = a.goTo phase := by
  unfold next at hmove
  split at hmove
  · obtain ⟨⟨hreceives, hempty⟩, ⟨⟩⟩ := Option.ite_none_right_eq_some.mp hmove
    exact .inl ⟨hreceives, hempty, _, rfl⟩
  · obtain ⟨⟨hreceives, hempty⟩, ⟨⟩⟩ := Option.ite_none_right_eq_some.mp hmove
    exact .inl ⟨hreceives, hempty, _, rfl⟩
  · cases hmove
    exact .inr (.inl rfl)
  · obtain ⟨phase, hphase, rfl⟩ := Option.map_eq_some_iff.mp hmove
    exact .inr (.inr ⟨phase, hphase, rfl⟩)

/-! ## The loop inside -/

def loopMove : Move Attempt AttemptInput → Option (Move WantLoop LoopInput)
  | ⟨a, .loop i⟩ =>
    match a.phase with
    | .running l => some ⟨l, i⟩
    | _ => none
  | _ => none

/-- The state of the loop, as long as it matters. -/
def Holds (a : Attempt) (l : WantLoop) : Prop :=
  match a.phase with
  | .queued | .admitting | .registered => l = .start
  | .cap l' | .data l' | .running l' => l = l'
  | _ => True

theorem holds_start (limited : Bool) : (start limited).Holds .start := by
  cases limited <;> rfl

theorem loopMove_eq_some {a : Attempt} {i : AttemptInput} {m : Move WantLoop LoopInput}
    (h : loopMove ⟨a, i⟩ = some m) : a.phase = .running m.before ∧ i = .loop m.input := by
  unfold loopMove at h
  split at h
  · split at h
    · next heq =>
      cases h
      exact ⟨by simp_all, by simp_all⟩
    · cases h
  · cases h

theorem holds_advance {a : Attempt} {phase : AttemptPhase} {i : AttemptInput} {l : WantLoop}
    (hmove : a.advance i = some phase) (hholds : a.Holds l) (hview : loopMove ⟨a, i⟩ = none) :
    (a.goTo phase).Holds l := by
  obtain ⟨old, slot, capElapsed⟩ := a
  unfold advance at hmove
  dsimp only at hmove
  split at hmove
  · cases hmove
    cases capElapsed
    · exact hholds
    · trivial
  · next ok =>
    cases hmove
    cases ok
    · trivial
    · exact hholds
  · cases hmove
    exact hholds
  · cases hmove
    cases slot
    · exact hholds
    · trivial
    · trivial
  · cases hmove
    cases capElapsed
    · exact hholds
    · trivial
  · cases hmove
    cases slot
    · exact hholds
    · trivial
    · trivial
  · cases hview
  · split at hmove
    · cases hmove
    · cases hmove
      exact hholds
  · split at hmove
    · next closed _ =>
      cases hmove
      cases closed <;> trivial
    · cases hmove
  · cases hmove
    trivial
  · cases hmove
    cases slot <;> trivial
  · cases hmove
    cases capElapsed <;> trivial
  · next elapsed =>
    cases hmove
    cases elapsed <;> trivial
  · cases hmove
    trivial
  · cases hmove

theorem part_loop : Part Attempt.next WantLoop.next loopMove Holds where
  own hmove hholds hview := by
    obtain ⟨hphase, rfl⟩ := loopMove_eq_some hview
    simp only [next, advance, hphase, Option.map_map, Option.map_eq_some_iff] at hmove
    obtain ⟨l', hmove, rfl⟩ := hmove
    unfold Holds at hholds
    rw [hphase] at hholds
    cases hholds
    exact ⟨rfl, l', hmove, rfl⟩
  other hmove hholds hview := by
    obtain ⟨_, _, _, rfl⟩ | rfl | ⟨phase, hphase, rfl⟩ := next_cases hmove
    · exact hholds
    · exact hholds
    · exact holds_advance hphase hholds hview

/-! ## A block handed over -/

section Handed

variable {a a' : Attempt} {i : AttemptInput} {data : Bytes} {phase : AttemptPhase}

/-- A block in the channel is taken by the next look, and only the cap can
come before that. -/
theorem looks_advance (hfull : a.slot = .full data) (hlooks : a.phase.Looks)
    (hmove : a.advance i = some phase) :
    a.capElapsed = true ∨ phase.Returns data ∨ phase.Looks := by
  obtain ⟨old, slot, capElapsed⟩ := a
  cases hfull
  unfold advance at hmove
  dsimp only at hmove hlooks
  split at hmove
  · cases hlooks
  · cases hlooks
  · cases hlooks
  · cases hmove
    exact .inr (.inl (.inl rfl))
  · cases hmove
    cases capElapsed
    · exact .inr (.inr trivial)
    · exact .inl rfl
  · cases hmove
    exact .inr (.inl (.inl rfl))
  · obtain ⟨l', _, rfl⟩ := Option.map_eq_some_iff.mp hmove
    exact .inr (.inr trivial)
  · split at hmove
    · cases hmove
    · cases hmove
      exact .inr (.inr trivial)
  · split at hmove
    · next closed _ =>
      cases hmove
      cases closed <;> exact .inr (.inr trivial)
    · cases hmove
  · cases hmove
    exact .inr (.inl (.inl rfl))
  · cases hmove
    exact .inr (.inl (.inl rfl))
  · cases hlooks
  · cases hlooks
  · cases hlooks
  · cases hmove

theorem leaving_advance (hleaving : a.phase.Leaving) (hmove : a.advance i = some phase) :
    phase.Looks ∨ phase.Leaving ∨ ∃ result, phase = .ended result := by
  obtain ⟨old, slot, capElapsed⟩ := a
  unfold advance at hmove
  dsimp only at hmove hleaving
  cases old with
  | graceCap =>
    cases i with
    | go =>
      cases hmove
      cases capElapsed <;> exact .inr (.inl trivial)
    | _ => cases hmove
  | graceTimer =>
    cases i with
    | grace elapsed =>
      cases hmove
      cases elapsed
      · exact .inl trivial
      · exact .inr (.inl trivial)
    | _ => cases hmove
  | ending result =>
    cases i with
    | go =>
      cases hmove
      exact .inr (.inr ⟨result, rfl⟩)
    | _ => cases hmove
  | _ => cases hleaving

theorem returns_advance (hreturns : a.phase.Returns data) (hmove : a.advance i = some phase) :
    phase.Returns data := by
  obtain ⟨old, slot, capElapsed⟩ := a
  unfold advance at hmove
  dsimp only at hmove hreturns
  obtain rfl | rfl := hreturns
  · cases i with
    | go =>
      cases hmove
      exact .inr rfl
    | _ => cases hmove
  · cases i <;> cases hmove

theorem not_ended_advance {result : Option Bytes} (hended : a.phase = .ended result) :
    a.advance i = none := by
  unfold advance
  rw [hended]
  cases i <;> rfl

/-- After a block was handed over, with `newer` the moves since: it will be
returned, or the cap elapsed, or it came behind the last look. -/
def Assured (data : Bytes) (newer : List (Move Attempt AttemptInput)) (a : Attempt) : Prop :=
  a.slot = .full data ∧ (a.capElapsed = true ∨ a.phase.Returns data ∨ a.phase.Looks ∨
    (∀ m ∈ newer, m.before.phase.Leaving) ∧
      (a.phase.Leaving ∨ ∃ result, a.phase = .ended result))

theorem assured_next {newer : List (Move Attempt AttemptInput)} (h : Assured data newer a)
    (hmove : a.next i = some a') : Assured data (⟨a, i⟩ :: newer) a' := by
  obtain ⟨hfull, hcase⟩ := h
  obtain ⟨_, hempty, _⟩ | rfl | ⟨phase, hphase, rfl⟩ := next_cases hmove
  · rw [hfull] at hempty
    cases hempty
  · exact ⟨hfull, .inl rfl⟩
  · refine ⟨hfull, ?_⟩
    obtain hcap | hreturns | hlooks | ⟨hall, hleaving | ⟨result, hended⟩⟩ := hcase
    · exact .inl hcap
    · exact .inr (.inl (returns_advance hreturns hphase))
    · obtain hcap | hreturns | hlooks := looks_advance hfull hlooks hphase
      · exact .inl hcap
      · exact .inr (.inl hreturns)
      · exact .inr (.inr (.inl hlooks))
    · obtain hlooks | hon := leaving_advance hleaving hphase
      · exact .inr (.inr (.inl hlooks))
      · exact .inr (.inr (.inr ⟨List.forall_mem_cons.mpr ⟨hleaving, hall⟩, hon⟩))
    · rw [not_ended_advance hended] at hphase
      cases hphase

/-- A block handed to an attempt whose cap does not elapse is what the attempt
returns, unless it came behind the last look at the receiver: then nothing
follows but looks at the cap and the grace timer and the end. -/
theorem returned_of_handed {limited : Bool} {newer older : List (Move Attempt AttemptInput)}
    {met : Attempt} {result : Option Bytes}
    (run : Run Attempt.next (start limited) (newer ++ ⟨met, .hand data⟩ :: older) a)
    (hended : a.phase = .ended result) (hcap : a.capElapsed = false) :
    result = some data ∨ ∀ m ∈ newer, m.before.phase.Leaving := by
  obtain ⟨mid, _, hhand, hafter⟩ := run.split
  have hstart : Assured data [] mid := by
    unfold next at hhand
    obtain ⟨⟨hreceives, _⟩, ⟨⟩⟩ := Option.ite_none_right_eq_some.mp hhand
    refine ⟨rfl, ?_⟩
    obtain hlooks | hleaving := AttemptPhase.looks_or_leaving hreceives
    · exact .inr (.inr (.inl hlooks))
    · exact .inr (.inr (.inr ⟨by simp, .inl hleaving⟩))
  obtain ⟨_, hcase⟩ := hafter.keeps hstart fun _ _ _ _ h hmove => assured_next h hmove
  rw [hended, hcap] at hcase
  obtain hfalse | hreturns | hlooks | ⟨hall, _⟩ := hcase
  · cases hfalse
  · obtain hending | hsame := hreturns
    · cases hending
    · cases hsame
      exact .inl rfl
  · cases hlooks
  · exact .inr hall

end Handed

end Attempt

end Mistlib.Storage
