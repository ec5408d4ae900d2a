import Mathlib.Data.List.Infix

/-!
# Machines driven by inputs

Sequential code in an environment it does not control: a state says where the
code stands, an input is the next answer it gets, and `next` is what it does
with the answer, if it can get that one there. An arbitrary environment is an
arbitrary list of inputs.

A run is a list of moves with the latest first. A move keeps the state it
started from, so that whatever is observed of a run is a function of its moves.
-/

namespace Reactive

variable {σ ι τ κ ε : Type}

structure Move (σ ι : Type) where
  before : σ
  input : ι
deriving DecidableEq, Repr

inductive Run (next : σ → ι → Option σ) (start : σ) : List (Move σ ι) → σ → Prop
  | nil : Run next start [] start
  | snoc {past : List (Move σ ι)} {s s' : σ} {i : ι} (run : Run next start past s)
      (move : next s i = some s') : Run next start (⟨s, i⟩ :: past) s'

namespace Run

variable {next : σ → ι → Option σ} {start s : σ} {moves newer older : List (Move σ ι)}

/-- What holds at the start and is kept by each move holds after every run. -/
theorem keeps {P : List (Move σ ι) → σ → Prop} (hstart : P [] start)
    (hmove : ∀ past s i s', P past s → next s i = some s' → P (⟨s, i⟩ :: past) s')
    (run : Run next start moves s) : P moves s := by
  induction run with
  | nil => exact hstart
  | snoc _ move ih => exact hmove _ _ _ _ ih move

/-- A run can be cut at any of its moves. -/
theorem split {move : Move σ ι} (run : Run next start (newer ++ move :: older) s) :
    ∃ mid, Run next start older move.before ∧ next move.before move.input = some mid ∧
      Run next mid newer s := by
  induction newer generalizing s with
  | nil =>
    cases run with
    | snoc run hmove => exact ⟨s, run, hmove, .nil⟩
  | cons latest newer ih =>
    cases run with
    | snoc run hmove =>
      obtain ⟨mid, hbefore, hmid, hafter⟩ := ih run
      exact ⟨mid, hbefore, hmid, hafter.snoc hmove⟩

theorem unique {moves' : List (Move σ ι)} {s' : σ} (run : Run next start moves s) (run' : Run next start moves' s')
    (h : moves.map Move.input = moves'.map Move.input) : moves = moves' ∧ s = s' := by
  induction run generalizing moves' s' with
  | nil =>
    cases run' with
    | nil => exact ⟨rfl, rfl⟩
    | snoc => cases h
  | @snoc past before s i _ move ih =>
    cases run' with
    | nil => cases h
    | @snoc past' before' _ i' run' move' =>
      obtain ⟨hinput, hpast⟩ := List.cons_eq_cons.mp h
      obtain ⟨rfl, rfl⟩ := ih run' hpast
      have hinput : i = i' := hinput
      subst hinput
      exact ⟨rfl, Option.some.inj (move.symm.trans move')⟩

/-- What holds at the start and is kept by every move that meets a condition
holds after every run whose moves all meet it. -/
theorem keepsUnder {P : σ → Prop} {C : σ → ι → Prop} (hstart : P start)
    (hmove : ∀ s i s', P s → C s i → next s i = some s' → P s')
    (run : Run next start moves s) (hok : ∀ m ∈ moves, C m.before m.input) : P s := by
  induction run with
  | nil => exact hstart
  | snoc _ move ih =>
    have hbefore := ih fun m hm => hok m (List.mem_cons_of_mem _ hm)
    exact hmove _ _ _ hbefore (hok _ List.mem_cons_self) move

/-- Where a move keeps a property exactly if it meets a condition, a run has the
property throughout exactly if it starts with it and every move meets the
condition. -/
theorem throughout_iff {I P : σ → Prop} {C : σ → ι → Prop} (hinv : I start)
    (hkeeps : ∀ s i s', I s → next s i = some s' → I s')
    (hmove : ∀ s i s', I s → P s → next s i = some s' → (P s' ↔ C s i))
    (run : Run next start moves s) :
    (P s ∧ ∀ m ∈ moves, P m.before) ↔ P start ∧ ∀ m ∈ moves, C m.before m.input := by
  have hinvs : I s ∧ ∀ m ∈ moves, I m.before := by
    refine run.keeps (P := fun moves s => I s ∧ ∀ m ∈ moves, I m.before) ⟨hinv, by simp⟩ ?_
    rintro past s i s' ⟨hs, hpast⟩ move
    exact ⟨hkeeps _ _ _ hs move, List.forall_mem_cons.mpr ⟨hs, hpast⟩⟩
  induction run with
  | nil => simp
  | @snoc past s s' i _ move ih =>
    simp only [List.forall_mem_cons] at hinvs ⊢
    obtain ⟨_, hs, hpast⟩ := hinvs
    have hbefore := ih ⟨hs, hpast⟩
    constructor
    · rintro ⟨hlast, hP, hrest⟩
      obtain ⟨hfirst, hok⟩ := hbefore.mp ⟨hP, hrest⟩
      exact ⟨hfirst, (hmove _ _ _ hs hP move).mp hlast, hok⟩
    · rintro ⟨hfirst, hlatest, hok⟩
      obtain ⟨hP, hrest⟩ := hbefore.mpr ⟨hfirst, hok⟩
      exact ⟨(hmove _ _ _ hs hP move).mpr hlatest, hP, hrest⟩

end Run

theorem observed_cons (event : Move σ ι → Option ε) (m : Move σ ι) (past : List (Move σ ι)) :
    (m :: past).filterMap event = (event m).toList ++ past.filterMap event := by
  rw [List.filterMap_cons]
  cases event m <;> rfl

/-! ## Parts of a machine -/

/-- A machine inside another one. `view` picks the moves that are its own, and
`Holds` relates the states of the two. -/
structure Part (next : σ → ι → Option σ) (inner : τ → κ → Option τ)
    (view : Move σ ι → Option (Move τ κ)) (Holds : σ → τ → Prop) : Prop where
  own : ∀ {s i s' t m}, next s i = some s' → Holds s t → view ⟨s, i⟩ = some m →
    m.before = t ∧ ∃ t', inner t m.input = some t' ∧ Holds s' t'
  other : ∀ {s i s' t}, next s i = some s' → Holds s t → view ⟨s, i⟩ = none → Holds s' t

/-- A run holds a run of each of its parts. -/
theorem Run.part {next : σ → ι → Option σ} {inner : τ → κ → Option τ}
    {view : Move σ ι → Option (Move τ κ)} {Holds : σ → τ → Prop}
    (part : Part next inner view Holds) {start s : σ} {first : τ} (hstart : Holds start first)
    {moves : List (Move σ ι)} (run : Run next start moves s) :
    ∃ t, Run inner first (moves.filterMap view) t ∧ Holds s t := by
  induction run with
  | nil => exact ⟨first, .nil, hstart⟩
  | @snoc past s s' i _ move ih =>
    obtain ⟨t, hinner, hholds⟩ := ih
    cases hview : view ⟨s, i⟩ with
    | none =>
      rw [List.filterMap_cons_none hview]
      exact ⟨t, hinner, part.other move hholds hview⟩
    | some m =>
      obtain ⟨hbefore, t', hmove, hholds'⟩ := part.own move hholds hview
      rw [List.filterMap_cons_some hview]
      refine ⟨t', ?_, hholds'⟩
      obtain ⟨before, input⟩ := m
      cases hbefore
      exact hinner.snoc hmove

/-! ## Runs under given inputs -/

/-- The run under inputs, the latest input first. An input that cannot be had
where the machine stands is passed over. -/
def play (next : σ → ι → Option σ) (start : σ) : List ι → List (Move σ ι) × σ
  | [] => ([], start)
  | i :: past =>
    let before := play next start past
    match next before.2 i with
    | some s => (⟨before.2, i⟩ :: before.1, s)
    | none => before

/-- What is played is a run. -/
theorem run_play (next : σ → ι → Option σ) (start : σ) (inputs : List ι) :
    Run next start (play next start inputs).1 (play next start inputs).2 := by
  induction inputs with
  | nil => exact .nil
  | cons i past ih =>
    unfold play
    simp only
    split
    · next s hmove => exact ih.snoc hmove
    · exact ih

/-- What steps that all have a result preserve holds after a run, which has one. -/
theorem foldlM_total {next : σ → ι → Option σ} {P : σ → Prop}
    (hstep : ∀ s i, P s → ∃ s', next s i = some s' ∧ P s') {s : σ} (h : P s) (inputs : List ι) :
    ∃ s', inputs.foldlM next s = some s' ∧ P s' := by
  induction inputs generalizing s with
  | nil => exact ⟨s, rfl, h⟩
  | cons i rest ih =>
    obtain ⟨s', hnext, h'⟩ := hstep s i h
    obtain ⟨s'', hrest, h''⟩ := ih h'
    exact ⟨s'', by rw [List.foldlM_cons, hnext]; exact hrest, h''⟩

end Reactive
