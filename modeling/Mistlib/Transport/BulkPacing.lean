import Mistlib.Async.Reactive
import Mistlib.Data.Table
import Mistlib.Types

/-!
# Bulk pacing

How many bulk bytes may be under way on a link. The pacer estimates the delivery rate from what
was submitted and what is still buffered, and keeps a budget; `BulkLink` keeps the counters for
it, one for each channel.

Nothing is assumed of floating point values (`Floats`). A subtraction of whole numbers that would
go below zero has no result (`subtract`). None does, since every time in the history is one that
the last sample has seen (`BulkPacer.Sound`).
-/

namespace Mistlib.Transport

def MAX_BULK_BUDGET : Nat := 1024 * 1024
def SAMPLE_INTERVAL_MS : Nat := 50
def INITIAL_MAX_FRAME : Nat := 17 * 1024
def NATIVE_MIN_BUDGET : Nat := 64 * 1024
def NATIVE_RATE_WINDOW_MS : Nat := 2000
def U32_MAX : Nat := 2 ^ 32 - 1

/-- What the pacer computes in floating point. -/
structure Floats (F : Type) where
  finitePositive : F → Bool
  min : F → F → F
  fallbackRtt : F
  ceilMs : F → Nat
  /-- Bytes released over the milliseconds that passed. -/
  instant : Nat → Nat → F
  peak : List F → F
  /-- The old rate moved towards the new one, by the milliseconds that passed. -/
  average : F → F → Nat → F
  /-- The delay target, and the round trip where it counts. -/
  allowance : Nat → Option F → F
  estimate : F → F → Nat
  fills : Nat → Nat → Bool
  sustains : F → F → Nat → Bool

/-- `a - b` in `u64`. -/
def subtract (a b : Nat) : Option Nat := if b ≤ a then some (a - b) else none

structure Sample where
  generation : Nat
  atMs : Nat
  submitted : Nat
  buffered : Nat
  backlogged : Bool
deriving DecidableEq, Repr

structure BulkPacer (F : Type) where
  targetMs : Nat
  native : Bool
  maxFrame : Nat
  previous : Option Sample
  rate : Option F
  budget : Nat
  rttMinMs : Option F
  deliveryRates : List (Nat × F)

namespace BulkPacer

variable {F : Type} (floats : Floats F)

/-- The least budget: two frames, and what a native link needs at least. -/
def floor (p : BulkPacer F) : Nat :=
  min (max (min (p.maxFrame * 2) U32_MAX) (if p.native then NATIVE_MIN_BUDGET else 0)) MAX_BULK_BUDGET

def clamp (p : BulkPacer F) (bytes : Nat) : Nat := min (max bytes p.floor) MAX_BULK_BUDGET

def new (targetMs : Nat) (native : Bool) (maxFrame : Nat) : BulkPacer F :=
  let pacer : BulkPacer F :=
    { targetMs, native, maxFrame, previous := none, rate := none, budget := 64 * 1024, rttMinMs := none
      deliveryRates := [] }
  { pacer with budget := pacer.clamp pacer.budget }

def noteFrame (p : BulkPacer F) (bytes : Nat) : BulkPacer F :=
  let p := { p with maxFrame := max p.maxFrame (min bytes U32_MAX) }
  { p with budget := p.clamp p.budget }

def noteRtt (p : BulkPacer F) (rttMs : F) : BulkPacer F :=
  if floats.finitePositive rttMs then
    { p with rttMinMs := some ((p.rttMinMs.map fun old => floats.min old rttMs).getD rttMs) }
  else p

/-- `delivery_rates.retain`: the entries of the last two seconds. -/
def recent (atMs : Nat) : List (Nat × F) → Option (List (Nat × F))
  | [] => some []
  | e :: rest =>
    (subtract atMs e.1).bind fun age => (recent atMs rest).map fun kept =>
      if age < NATIVE_RATE_WINDOW_MS then e :: kept else kept

/-- The rate that follows from a sample, with the history it is read off. -/
def measure (p : BulkPacer F) (atMs elapsed : Nat) (instant : F) : Option (F × List (Nat × F)) :=
  if p.native then
    (recent atMs p.deliveryRates).map fun kept =>
      let deliveryRates := kept ++ [(atMs, instant)]
      (floats.peak (deliveryRates.map Prod.snd), deliveryRates)
  else some ((p.rate.map fun old => floats.average old instant elapsed).getD instant, p.deliveryRates)

/-- The part of `observe` that estimates. -/
def estimate (p : BulkPacer F) (prev sample : Sample) (elapsed : Nat) : Option (BulkPacer F) :=
  let rttMs := p.rttMinMs.getD floats.fallbackRtt
  (subtract sample.submitted prev.submitted).bind fun accepted =>
    let released := min (prev.buffered + accepted) (2 ^ 64 - 1) - sample.buffered
    let instant := floats.instant released elapsed
    (p.measure floats sample.atMs elapsed instant).map fun (rate, deliveryRates) =>
      let allowanceMs := floats.allowance p.targetMs (if p.native then some rttMs else none)
      let estimated := p.clamp (floats.estimate rate allowanceMs)
      let nativeLimited := p.native && floats.fills sample.buffered p.budget &&
        floats.sustains instant allowanceMs p.budget
      { p with
        deliveryRates
        budget :=
          if released > 0 ∧ (sample.buffered = 0 ∨ nativeLimited) then
            p.clamp (max estimated (min (p.budget + p.budget / 2) U32_MAX))
          else estimated
        rate := some rate
        previous := some sample }

/-- How long a sample has to be. ACK releases are bursty, so a native one spans a round trip. -/
def sampleMs (p : BulkPacer F) : Nat :=
  if p.native then max SAMPLE_INTERVAL_MS (floats.ceilMs (p.rttMinMs.getD floats.fallbackRtt))
  else SAMPLE_INTERVAL_MS

def observe (p : BulkPacer F) (sample : Sample) : Option (BulkPacer F) :=
  match p.previous with
  | none => some { p with previous := some sample }
  | some prev =>
    if sample.generation ≠ prev.generation ∨ sample.submitted < prev.submitted ∨ sample.atMs < prev.atMs then
      some { (new p.targetMs p.native p.maxFrame : BulkPacer F) with previous := some sample }
    else if sample.backlogged = false ∨ prev.backlogged = false then some { p with previous := some sample }
    else
      (subtract sample.atMs prev.atMs).bind fun elapsed =>
        if elapsed < p.sampleMs floats then some p else p.estimate floats prev sample elapsed

inductive Input (F : Type) where
  | noteFrame (bytes : Nat)
  | noteRtt (rttMs : F)
  | observe (sample : Sample)

def step (p : BulkPacer F) : Input F → Option (BulkPacer F)
  | .noteFrame bytes => some (p.noteFrame bytes)
  | .noteRtt rttMs => some (p.noteRtt floats rttMs)
  | .observe sample => p.observe floats sample

end BulkPacer

structure BulkLink (F : Type) where
  policy : BulkPacer F
  submitted : Table Nat Nat
  channel : Option Nat
  buffered : Nat

namespace BulkLink

variable {F : Type} (floats : Floats F)

def new (targetMs : Nat) (native : Bool) : BulkLink F where
  policy := .new targetMs native INITIAL_MAX_FRAME
  submitted := ∅
  channel := none
  buffered := 0

def submit (l : BulkLink F) (channel bytes : Nat) (bulk : Bool) : BulkLink F :=
  let counter := min ((l.submitted.get channel).getD 0 + bytes) (2 ^ 64 - 1)
  { l with
    submitted := l.submitted.insert channel counter
    buffered := if l.channel = some channel then min (l.buffered + bytes) (2 ^ 64 - 1) else l.buffered
    policy := if bulk then l.policy.noteFrame bytes else l.policy }

def observe (l : BulkLink F) (channel nowMs buffered : Nat) (backlogged : Bool) : Option (BulkLink F) :=
  (l.policy.observe floats ⟨channel, nowMs, (l.submitted.get channel).getD 0, buffered, backlogged⟩).map
    fun policy => { l with channel := some channel, buffered, policy }

def canSubmit (l : BulkLink F) (channel bytes : Nat) : Bool :=
  l.channel = some channel &&
    (decide (min (l.buffered + bytes) (2 ^ 64 - 1) ≤ l.policy.budget) || decide (l.buffered = 0))

inductive Input (F : Type) where
  /-- A call of the policy itself. -/
  | policy (input : BulkPacer.Input F)
  | submitted (channel bytes : Nat) (bulk : Bool)
  | observe (channel nowMs buffered : Nat) (backlogged : Bool)

def step (l : BulkLink F) : Input F → Option (BulkLink F)
  | .policy input => (l.policy.step floats input).map fun policy => { l with policy }
  | .submitted channel bytes bulk => some (l.submit channel bytes bulk)
  | .observe channel nowMs buffered backlogged => l.observe floats channel nowMs buffered backlogged

/-- A call after which a channel that was observed empty still is the one observed, and empty. -/
def Input.Quiet (channel : Nat) : Input F → Prop
  | .policy _ => True
  | .submitted other bytes _ => other = channel → bytes = 0
  | .observe other _ buffered _ => other = channel ∧ buffered = 0

/-- The channel was observed with nothing buffered, and nothing was submitted on it since. -/
def Idle (channel : Nat) (inputs : List (Input F)) : Prop :=
  ∃ before nowMs backlogged rest, inputs = before ++ .observe channel nowMs 0 backlogged :: rest ∧
    ∀ input ∈ rest, input.Quiet channel

end BulkLink

/-! ## Within bounds -/

section Bounds

variable {F : Type} {floats : Floats F}

theorem subtract_of_le {a b : Nat} (h : b ≤ a) : subtract a b = some (a - b) := if_pos h

namespace BulkPacer

variable {p p' : BulkPacer F}

theorem floor_le (p : BulkPacer F) : p.floor ≤ MAX_BULK_BUDGET := Nat.min_le_right _ _

theorem floor_eq (p : BulkPacer F) : p.floor =
    min (max (2 * p.maxFrame) (if p.native then NATIVE_MIN_BUDGET else 0)) MAX_BULK_BUDGET := by
  have hmax : MAX_BULK_BUDGET ≤ U32_MAX := by decide
  unfold floor
  omega

/-- The budget is within its bounds, and the history is no later than the last sample. -/
structure Sound (p : BulkPacer F) : Prop where
  atLeast : p.floor ≤ p.budget
  atMost : p.budget ≤ MAX_BULK_BUDGET
  history : ∀ e ∈ p.deliveryRates, ∃ prev ∈ p.previous, e.1 ≤ prev.atMs

theorem floor_le_clamp (p : BulkPacer F) (bytes : Nat) : p.floor ≤ p.clamp bytes :=
  Nat.le_min.mpr ⟨Nat.le_max_right _ _, p.floor_le⟩

theorem clamp_le (p : BulkPacer F) (bytes : Nat) : p.clamp bytes ≤ MAX_BULK_BUDGET := Nat.min_le_right _ _

namespace Sound

theorem new (targetMs : Nat) (native : Bool) (maxFrame : Nat) :
    (BulkPacer.new targetMs native maxFrame : BulkPacer F).Sound :=
  ⟨floor_le_clamp _ _, clamp_le _ _, List.forall_mem_nil _⟩

theorem noteFrame (h : p.Sound) (bytes : Nat) : (p.noteFrame bytes).Sound :=
  ⟨floor_le_clamp _ _, clamp_le _ _, h.history⟩

theorem noteRtt (h : p.Sound) (rttMs : F) : (p.noteRtt floats rttMs).Sound := by
  unfold BulkPacer.noteRtt
  split
  · exact { h with }
  · exact h

theorem sampled (h : p.Sound) {sample : Sample} (hlater : ∀ prev ∈ p.previous, prev.atMs ≤ sample.atMs) :
    Sound { p with previous := some sample } where
  atLeast := h.atLeast
  atMost := h.atMost
  history e he := by
    obtain ⟨prev, hprev, hle⟩ := h.history e he
    exact ⟨sample, rfl, Nat.le_trans hle (hlater prev hprev)⟩

end Sound

theorem recent_of_le {atMs : Nat} {rates : List (Nat × F)} (h : ∀ e ∈ rates, e.1 ≤ atMs) :
    ∃ kept, recent atMs rates = some kept ∧ kept ⊆ rates := by
  induction rates with
  | nil => exact ⟨[], rfl, List.Subset.refl _⟩
  | cons e rest ih =>
    obtain ⟨he, hrest⟩ := List.forall_mem_cons.mp h
    obtain ⟨kept, hkept, hsub⟩ := ih hrest
    refine ⟨if atMs - e.1 < NATIVE_RATE_WINDOW_MS then e :: kept else kept, ?_, ?_⟩
    · rw [recent, subtract_of_le he, hkept]
      rfl
    · split
      · exact List.cons_subset_cons e hsub
      · exact List.subset_cons_of_subset e hsub

theorem measure_of_le {atMs elapsed : Nat} {instant : F} (h : ∀ e ∈ p.deliveryRates, e.1 ≤ atMs) :
    ∃ rate rates, p.measure floats atMs elapsed instant = some (rate, rates) ∧ ∀ e ∈ rates, e.1 ≤ atMs := by
  unfold measure
  split
  · obtain ⟨kept, hkept, hsub⟩ := recent_of_le h
    refine ⟨_, _, by rw [hkept]; rfl, fun e he => ?_⟩
    rcases List.mem_append.mp he with he | he
    · exact h e (hsub he)
    · rw [List.mem_singleton.mp he]
  · exact ⟨_, _, rfl, h⟩

theorem Sound.estimate (h : p.Sound) {prev sample : Sample} (elapsed : Nat) (hprev : p.previous = some prev)
    (hsubmitted : prev.submitted ≤ sample.submitted) (hat : prev.atMs ≤ sample.atMs) :
    ∃ p', p.estimate floats prev sample elapsed = some p' ∧ p'.Sound ∧ p'.maxFrame = p.maxFrame ∧
      p'.native = p.native := by
  have hhistory : ∀ e ∈ p.deliveryRates, e.1 ≤ sample.atMs := by
    intro e he
    obtain ⟨last, hlast, hle⟩ := h.history e he
    rw [hprev] at hlast
    cases hlast
    exact Nat.le_trans hle hat
  unfold BulkPacer.estimate
  rw [subtract_of_le hsubmitted]
  simp only [Option.bind_some]
  obtain ⟨rate, rates, hmeasure, hrates⟩ := measure_of_le hhistory
  rw [hmeasure]
  refine ⟨_, rfl, ⟨?_, ?_, fun e he => ⟨sample, rfl, hrates e he⟩⟩, rfl, rfl⟩
  · show p.floor ≤ _
    dsimp only
    rw [← apply_ite p.clamp]
    exact p.floor_le_clamp _
  · dsimp only
    rw [← apply_ite p.clamp]
    exact p.clamp_le _

theorem Sound.observe (h : p.Sound) (sample : Sample) :
    ∃ p', p.observe floats sample = some p' ∧ p'.Sound ∧ p'.maxFrame = p.maxFrame ∧ p'.native = p.native := by
  unfold BulkPacer.observe
  cases hprev : p.previous with
  | none => exact ⟨_, rfl, h.sampled (by rw [hprev]; nofun), rfl, rfl⟩
  | some prev =>
    dsimp only
    split
    · exact ⟨_, rfl, (Sound.new p.targetMs p.native p.maxFrame).sampled nofun, rfl, rfl⟩
    · next hgoes =>
      have hsubmitted : prev.submitted ≤ sample.submitted :=
        Nat.le_of_not_lt fun hlt => hgoes (.inr (.inl hlt))
      have hat : prev.atMs ≤ sample.atMs := Nat.le_of_not_lt fun hlt => hgoes (.inr (.inr hlt))
      split
      · refine ⟨_, rfl, h.sampled ?_, rfl, rfl⟩
        rw [hprev]
        rintro _ ⟨⟩
        exact hat
      · rw [subtract_of_le hat]
        simp only [Option.bind_some]
        split
        · exact ⟨p, rfl, h, rfl, rfl⟩
        · exact h.estimate _ hprev hsubmitted hat

/-- Every call has a result, and keeps the policy within its bounds. -/
theorem Sound.step (h : p.Sound) (input : Input F) :
    ∃ p', p.step floats input = some p' ∧ p'.Sound ∧ p.maxFrame ≤ p'.maxFrame ∧ p'.native = p.native := by
  cases input with
  | noteFrame bytes => exact ⟨_, rfl, h.noteFrame bytes, Nat.le_max_left _ _, rfl⟩
  | noteRtt rttMs =>
    refine ⟨_, rfl, h.noteRtt rttMs, ?_, ?_⟩
    · unfold BulkPacer.noteRtt
      split <;> exact le_rfl
    · unfold BulkPacer.noteRtt
      split <;> rfl
  | observe sample =>
    obtain ⟨p', hobserve, hsound, hframe, hnative⟩ := h.observe sample
    exact ⟨p', hobserve, hsound, Nat.le_of_eq hframe.symm, hnative⟩

end BulkPacer

namespace BulkLink

/-- Every call on a link keeps its policy within the bounds. -/
theorem step_policy {l : BulkLink F} (h : l.policy.Sound) (input : Input F) :
    ∃ l', l.step floats input = some l' ∧ l'.policy.Sound ∧ l.policy.maxFrame ≤ l'.policy.maxFrame ∧
      l'.policy.native = l.policy.native := by
  cases input with
  | policy input =>
    obtain ⟨policy, hstep, hsound⟩ := h.step input
    exact ⟨{ l with policy }, by rw [step, hstep]; rfl, hsound⟩
  | submitted channel bytes bulk =>
    refine ⟨_, rfl, ?_⟩
    cases bulk with
    | true => exact ⟨h.noteFrame bytes, Nat.le_max_left _ _, rfl⟩
    | false => exact ⟨h, le_rfl, rfl⟩
  | observe channel nowMs buffered backlogged =>
    obtain ⟨policy, hobserve, hsound, hframe, hnative⟩ :=
      h.observe ⟨channel, nowMs, (l.submitted.get channel).getD 0, buffered, backlogged⟩
    refine ⟨{ l with channel := some channel, buffered, policy }, ?_, hsound, Nat.le_of_eq hframe.symm, hnative⟩
    rw [step, BulkLink.observe, hobserve]
    rfl

theorem canSubmit_empty {l : BulkLink F} {channel : Nat} (hchannel : l.channel = some channel)
    (hempty : l.buffered = 0) (bytes : Nat) : l.canSubmit channel bytes = true := by
  simp [canSubmit, hchannel, hempty]

/-- A quiet call leaves the observed channel observed, and empty. -/
theorem step_quiet {l l' : BulkLink F} {channel : Nat} {input : Input F} (hquiet : input.Quiet channel)
    (hempty : l.channel = some channel ∧ l.buffered = 0) (hstep : l.step floats input = some l') :
    l'.channel = some channel ∧ l'.buffered = 0 := by
  cases input with
  | policy input =>
    obtain ⟨policy, -, rfl⟩ := Option.map_eq_some_iff.mp hstep
    exact hempty
  | submitted other bytes bulk =>
    cases hstep
    refine ⟨hempty.1, ?_⟩
    show (if l.channel = some other then min (l.buffered + bytes) (2 ^ 64 - 1) else l.buffered) = 0
    split
    · next hother =>
      have hsame : other = channel := Option.some.inj (hother.symm.trans hempty.1)
      rw [hempty.2, hquiet hsame, Nat.zero_add, Nat.zero_min]
    · exact hempty.2
  | observe other nowMs buffered backlogged =>
    obtain ⟨policy, -, rfl⟩ := Option.map_eq_some_iff.mp hstep
    exact ⟨congrArg some hquiet.1, hquiet.2⟩

/-- The observed channel is the one that `observe` was last called with, and what is buffered on it
what that call said and what was submitted since. -/
theorem canSubmit_idle {l l' : BulkLink F} {channel : Nat} {inputs : List (Input F)}
    (hidle : Idle channel inputs) (hrun : List.foldlM (step floats) l inputs = some l') (bytes : Nat) :
    l'.canSubmit channel bytes = true := by
  obtain ⟨before, nowMs, backlogged, rest, rfl, hquiet⟩ := hidle
  rw [List.foldlM_append] at hrun
  obtain ⟨l₁, -, hrun⟩ := Option.bind_eq_some_iff.mp hrun
  rw [List.foldlM_cons] at hrun
  obtain ⟨l₂, hobserve, hrun⟩ := Option.bind_eq_some_iff.mp hrun
  obtain ⟨policy, -, rfl⟩ := Option.map_eq_some_iff.mp hobserve
  have hempty : ∀ (rest : List (Input F)) (l₂ : BulkLink F), (∀ input ∈ rest, input.Quiet channel) →
      l₂.channel = some channel ∧ l₂.buffered = 0 → List.foldlM (step floats) l₂ rest = some l' →
      l'.channel = some channel ∧ l'.buffered = 0 := by
    intro rest
    induction rest with
    | nil =>
      intro l₂ _ hempty hrun
      cases hrun
      exact hempty
    | cons input rest ih =>
      intro l₂ hquiet hempty hrun
      rw [List.foldlM_cons] at hrun
      obtain ⟨l₃, hstep, hrun⟩ := Option.bind_eq_some_iff.mp hrun
      obtain ⟨hinput, hrest⟩ := List.forall_mem_cons.mp hquiet
      exact ih l₃ hrest (step_quiet hinput hempty hstep) hrun
  obtain ⟨hchannel, hbuffered⟩ := hempty rest _ hquiet ⟨rfl, rfl⟩ hrun
  exact canSubmit_empty hchannel hbuffered bytes

end BulkLink

end Bounds

/-! ## Runs -/

/-- The budget of the pacer is between what its largest frame and its kind need and the
largest there is. -/
def BulkPacer.Within {F : Type} (p : BulkPacer F) : Prop :=
  min (max (2 * p.maxFrame) (if p.native then NATIVE_MIN_BUDGET else 0)) MAX_BULK_BUDGET ≤ p.budget ∧
    p.budget ≤ MAX_BULK_BUDGET

theorem BulkPacer.Sound.within {F : Type} {p : BulkPacer F} (h : p.Sound) : p.Within :=
  ⟨p.floor_eq ▸ h.atLeast, h.atMost⟩

/-- **Bulk pacing stays within its bounds.** Any calls of a pacer or of a link have a
result, whatever the floating point gives, so no subtraction went below zero. The budget
is within its bounds then, no further call makes the largest frame smaller, and on a link
the observed channel takes a frame of any size while nothing is buffered: by the link's own books,
and by the calls that were made. -/
theorem bulkPacing_within {F : Type} (floats : Floats F) :
    (∀ targetMs native maxFrame inputs, ∃ p : BulkPacer F,
      List.foldlM (BulkPacer.step floats) (.new targetMs native maxFrame) inputs = some p ∧
        p.native = native ∧ p.Within ∧
        ∀ input, ∃ p', p.step floats input = some p' ∧ p.maxFrame ≤ p'.maxFrame) ∧
    ∀ targetMs native inputs, ∃ l : BulkLink F,
      List.foldlM (BulkLink.step floats) (.new targetMs native) inputs = some l ∧
        l.policy.native = native ∧ l.policy.Within ∧
        (∀ input, ∃ l', l.step floats input = some l' ∧ l.policy.maxFrame ≤ l'.policy.maxFrame) ∧
        (∀ channel, l.channel = some channel → l.buffered = 0 →
          ∀ bytes, l.canSubmit channel bytes = true) ∧
        ∀ channel, BulkLink.Idle channel inputs → ∀ bytes, l.canSubmit channel bytes = true := by
  constructor
  · intro targetMs native maxFrame inputs
    have hstep : ∀ (p : BulkPacer F) input, p.Sound ∧ p.native = native →
        ∃ p', p.step floats input = some p' ∧ p'.Sound ∧ p'.native = native := by
      rintro p input ⟨hsound, hnative⟩
      obtain ⟨p', hnext, hsound', -, hsame⟩ := hsound.step input
      exact ⟨p', hnext, hsound', hsame.trans hnative⟩
    obtain ⟨p, hrun, hsound, hnative⟩ := Reactive.foldlM_total hstep ⟨.new targetMs native maxFrame, rfl⟩ inputs
    refine ⟨p, hrun, hnative, hsound.within, fun input => ?_⟩
    obtain ⟨p', hnext, -, hframe, -⟩ := hsound.step input
    exact ⟨p', hnext, hframe⟩
  · intro targetMs native inputs
    have hstep : ∀ (l : BulkLink F) input, l.policy.Sound ∧ l.policy.native = native →
        ∃ l', l.step floats input = some l' ∧ l'.policy.Sound ∧ l'.policy.native = native := by
      rintro l input ⟨hsound, hnative⟩
      obtain ⟨l', hnext, hsound', -, hsame⟩ := BulkLink.step_policy hsound input
      exact ⟨l', hnext, hsound', hsame.trans hnative⟩
    have hnew : (BulkLink.new targetMs native : BulkLink F).policy.Sound ∧
        (BulkLink.new targetMs native : BulkLink F).policy.native = native :=
      ⟨.new targetMs native INITIAL_MAX_FRAME, rfl⟩
    obtain ⟨l, hrun, hsound, hnative⟩ := Reactive.foldlM_total hstep hnew inputs
    refine ⟨l, hrun, hnative, hsound.within, fun input => ?_, fun channel => BulkLink.canSubmit_empty,
      fun channel hidle => BulkLink.canSubmit_idle hidle hrun⟩
    obtain ⟨l', hnext, -, hframe, -⟩ := BulkLink.step_policy hsound input
    exact ⟨l', hnext, hframe⟩

/-- Floating point by whole numbers. -/
def wholeFloats : Floats Nat where
  finitePositive rtt := decide (0 < rtt)
  min := min
  fallbackRtt := 100
  ceilMs := id
  instant released elapsed := released * 1000 / elapsed
  peak rates := rates.foldl max 0
  average old new _ := (old + new) / 2
  allowance targetMs rtt := targetMs + rtt.getD 0
  estimate rate allowance := rate * allowance / 1000
  fills buffered budget := decide (budget * 9 ≤ buffered * 10)
  sustains instant allowance budget := decide (budget * 9 ≤ instant * allowance / 100)

/-- A channel that was full is seen empty, while another one is used. -/
def drained : List (BulkLink.Input Nat) :=
  [.submitted 1 70000 true, .observe 1 100 70000 true, .submitted 1 9000 true, .observe 1 250 0 true,
    .submitted 2 500 false, .policy (.noteRtt 40)]

theorem bulkPacing_within_drained : ∃ l : BulkLink Nat,
    List.foldlM (BulkLink.step wholeFloats) (.new 50 true) drained = some l ∧
      l.policy.budget = 210000 ∧ l.canSubmit 1 5000000 = true := by
  obtain ⟨l, hrun, -, -, -, -, hidle⟩ := (bulkPacing_within wholeFloats).2 50 true drained
  refine ⟨l, hrun, ?_, hidle 1 ⟨drained.take 3, 250, true, drained.drop 4, rfl, ?_⟩ 5000000⟩
  · have hbudget : (List.foldlM (BulkLink.step wholeFloats) (.new 50 true) drained).map
        (fun l => l.policy.budget) = some 210000 := by decide +kernel
    rw [hrun] at hbudget
    exact Option.some.inj hbudget
  · rintro input hinput
    rcases List.mem_pair.mp hinput with rfl | rfl
    · exact fun heq => absurd heq (by decide)
    · trivial

end Mistlib.Transport
