import Mistlib.Async.Turn
import Mistlib.Data.Table
import Mistlib.Types

/-!
# The byte budget of a peer

A budget admits bytes up to a limit that may change while permits are out. Permits stay charged
when the limit drops below what is in use, shrink on demand and give back the rest when they are
dropped.

Reservations take turns. Each is a future that waits for the turn, and then listens for changes,
looks for room and parks until something changes. Every critical section is a step of its own,
as is each notification, and a future may be cancelled wherever it waits. What a party can do
when it is polled is a function of its phase (`Budget.poll`).
-/

namespace Mistlib.Transport

open Async (Turn)

def u32Add (a b : Nat) : Nat := (a + b) % 2 ^ 32

def u32Sub (a b : Nat) : Nat := (a + (2 ^ 32 - b)) % 2 ^ 32

def closedSend : MistError := .network "send queue or channel closed"

structure BudgetState where
  limit : Nat
  used : Nat
  closed : Bool
deriving DecidableEq, Repr

/-- Charge the bytes if there is room. A received frame also fits an idle
budget that is smaller than the frame. -/
def BudgetState.acquire (s : BudgetState) (bytes : Nat) (received : Bool) :
    Except MistError (Option BudgetState) :=
  if s.closed then .error closedSend
  else if s.used + bytes ≤ s.limit ∨ received ∧ s.used = 0 ∧ bytes > s.limit then
    .ok (some { s with used := u32Add s.used bytes })
  else .ok none

inductive Phase where
  /-- the future was made and has not been polled -/
  | created
  /-- it asked for the turn -/
  | queued
  /-- it has the turn -/
  | admitted
  /-- it listens since the given number of notifications and will look for room -/
  | listening (since : Nat)
  /-- it found no room and waits for a notification -/
  | parked (since : Nat)
  /-- `try_reserve`, with the turn, will look for room -/
  | trying
  /-- the result is there, the turn not yet given back -/
  | leaving (result : Except MistError Unit)
  | returned (result : Except MistError Unit)
  | cancelled

/-- Whether a reservation in this phase has run with the turn in hand. -/
def Phase.holds : Phase → Bool
  | .admitted | .listening _ | .parked _ | .trying | .leaving _ => true
  | _ => false

/-- Whether the next thing a reservation does is to look for room. -/
def Phase.looks : Phase → Bool
  | .listening _ | .trying => true
  | _ => false

theorem Phase.holds_of_looks {phase : Phase} (h : phase.looks = true) : phase.holds = true := by
  cases phase <;> first | rfl | cases h

structure Reservation where
  bytes : Nat
  received : Bool
  phase : Phase

/-- What a call still has to do after its first critical section. -/
inductive FollowUp where
  | closeTurn
  | notifyWaiters
deriving DecidableEq, Repr

/-- A budget with everybody who uses it. `permits` are the live permits by
the reservation they were granted to. -/
structure Budget where
  ceiling : Nat
  state : BudgetState
  turn : Turn Nat
  notified : Nat
  reservations : Table Nat Reservation
  permits : Table Nat Nat
  followUps : List FollowUp

inductive BudgetCall where
  | reserve (id bytes : Nat)
  | reserveReceived (id bytes : Nat)
  | tryReserve (id bytes : Nat)
  | poll (id : Nat)
  | cancel (id : Nat)
  | setLimit (limit : Nat)
  | shrinkPermit (id bytes : Nat)
  | dropPermit (id : Nat)
  | close
  | followUp (index : Nat)
deriving DecidableEq, Repr

namespace Budget

def new (limit : UInt32) : Budget where
  ceiling := limit.toNat
  state := { limit := limit.toNat, used := 0, closed := false }
  turn := .new Nat
  notified := 0
  reservations := ∅
  permits := ∅
  followUps := []

def check (b : Budget) (bytes : Nat) : Except MistError Nat :=
  if bytes > b.ceiling then .error (.messageTooLarge bytes b.ceiling) else .ok bytes

def goTo (b : Budget) (id : Nat) (r : Reservation) (phase : Phase) : Budget :=
  { b with reservations := b.reservations.insert id { r with phase } }

/-- Look for room with the turn in hand; `full` is where it goes if there is none. -/
def look (b : Budget) (id : Nat) (r : Reservation) (full : Phase) : Budget :=
  match b.state.acquire r.bytes r.received with
  | .error e => b.goTo id r (.leaving (.error e))
  | .ok none => b.goTo id r full
  | .ok (some state) =>
    { b.goTo id r (.leaving (.ok ())) with state, permits := b.permits.insert id r.bytes }

/-- One step of a reservation. A future that has to wait does nothing. -/
def poll (b : Budget) (id : Nat) (r : Reservation) : Budget :=
  match r.phase with
  | .created =>
    if b.turn.closed then b.goTo id r (.returned (.error closedSend))
    else if b.turn.free then { b.goTo id r .admitted with turn := b.turn.ask id }
    else { b.goTo id r .queued with turn := b.turn.ask id }
  | .queued =>
    if b.turn.closed then
      { b.goTo id r (.returned (.error closedSend)) with turn := b.turn.quit id }
    else if b.turn.holder = some id then b.goTo id r .admitted
    else b
  | .admitted => b.goTo id r (.listening b.notified)
  | .listening since => b.look id r (.parked since)
  | .parked since => if b.notified = since then b else b.goTo id r .admitted
  | .trying => b.look id r (.leaving (.error closedSend))
  | .leaving result => { b.goTo id r (.returned result) with turn := b.turn.pass }
  | .returned _ | .cancelled => b

/-- A future is dropped where it waits, or before it ran at all. -/
def cancel (b : Budget) (id : Nat) (r : Reservation) : Budget :=
  match r.phase with
  | .created => b.goTo id r .cancelled
  | .queued | .parked _ => { b.goTo id r .cancelled with turn := b.turn.quit id }
  | _ => b

/-- Start a reservation under a name not used before. -/
def start (b : Budget) (id : Nat) (r : Reservation) : Budget :=
  if b.reservations.contains id then b else { b with reservations := b.reservations.insert id r }

/-- Lower the charge of a permit to at most `bytes`. -/
def shrinkTo (b : Budget) (id charge bytes : Nat) : Budget :=
  let bytes := min bytes charge
  { b with
    state := { b.state with used := u32Sub b.state.used (charge - bytes) }
    permits := b.permits.insert id bytes
    followUps := b.followUps ++ [.notifyWaiters] }

/-- One critical section of one of the parties. -/
def step (b : Budget) : BudgetCall → Budget
  | .reserve id bytes =>
    match b.check bytes with
    | .error _ => b
    | .ok bytes => b.start id { bytes, received := false, phase := .created }
  | .reserveReceived id bytes =>
    b.start id { bytes := min bytes b.ceiling, received := true, phase := .created }
  | .tryReserve id bytes =>
    match b.check bytes with
    | .error _ => b
    | .ok bytes =>
      if b.turn.free ∧ ¬ b.reservations.contains id then
        { b.start id { bytes, received := false, phase := .trying } with turn := b.turn.ask id }
      else b
  | .poll id =>
    match b.reservations.get id with
    | some r => b.poll id r
    | none => b
  | .cancel id =>
    match b.reservations.get id with
    | some r => b.cancel id r
    | none => b
  | .setLimit limit =>
    { b with
      state := { b.state with limit := min limit b.ceiling }
      followUps := b.followUps ++ [.notifyWaiters] }
  | .shrinkPermit id bytes =>
    match b.permits.get id with
    | some charge => b.shrinkTo id charge bytes
    | none => b
  | .dropPermit id =>
    match b.permits.get id with
    | some charge =>
      let b := b.shrinkTo id charge 0
      { b with permits := b.permits.erase id }
    | none => b
  | .close =>
    { b with
      state := { b.state with closed := true }
      followUps := b.followUps ++ [.closeTurn] }
  | .followUp index =>
    match b.followUps[index]? with
    | none => b
    | some .closeTurn =>
      { b with
        turn := b.turn.close
        followUps := b.followUps.eraseIdx index ++ [.notifyWaiters] }
    | some .notifyWaiters =>
      { b with notified := b.notified + 1, followUps := b.followUps.eraseIdx index }

def run (b : Budget) (calls : List BudgetCall) : Budget := calls.foldl step b

/-! ### What a step can do -/

def charged (b : Budget) : Nat := b.permits.sumBy fun bytes => bytes

/-- What holds between any two critical sections. -/
structure Sound (b : Budget) : Prop where
  word : b.ceiling < 2 ^ 32
  limit : b.state.limit ≤ b.ceiling
  used : b.state.used = b.charged
  bounded : b.state.used ≤ b.ceiling
  /-- a reservation that runs with the turn in hand is its holder -/
  turns : ∀ id r, b.reservations.get id = some r → r.phase.holds = true → b.turn.holder = some id
  fits : ∀ id r, b.reservations.get id = some r → r.bytes ≤ b.ceiling
  /-- a reservation that has its permit will not look for room again -/
  settled : ∀ id r, b.reservations.get id = some r → b.permits.contains id = true →
    ∃ result, r.phase = .leaving result ∨ r.phase = .returned result
  named : ∀ id, b.permits.contains id = true → b.reservations.contains id = true

namespace Sound

variable {b : Budget}

theorem new (limit : UInt32) : (Budget.new limit).Sound where
  word := limit.toNat_lt
  limit := le_rfl
  used := rfl
  bounded := Nat.zero_le _
  turns := by simp [Budget.new]
  fits := by simp [Budget.new]
  settled := by simp [Budget.new]
  named := by simp [Budget.new, Table.contains]

variable {r : Reservation}

section

variable (hs : b.Sound) {id : Nat} (hr : b.reservations.get id = some r)
include hs hr

/-- One reservation changes its phase, and perhaps takes or gives back the
turn; everybody else keeps what it has. -/
theorem move {phase : Phase} {turn : Turn Nat}
    (hothers : ∀ other, other ≠ id → b.turn.holder = some other → turn.holder = some other)
    (hown : phase.holds = true → turn.holder = some id)
    (hsettled : b.permits.contains id = true → ∃ result, phase = .leaving result ∨ phase = .returned result) :
    ({ b.goTo id r phase with turn } : Budget).Sound where
  word := hs.word
  limit := hs.limit
  used := hs.used
  bounded := hs.bounded
  turns := by
    intro other r' hr' hholds
    simp only [goTo, Table.get_insert] at hr'
    split at hr'
    · next heq =>
      cases hr'
      rw [heq]
      exact hown hholds
    · next hne => exact hothers other hne (hs.turns other r' hr' hholds)
  fits := by
    intro other r' hr'
    simp only [goTo, Table.get_insert] at hr'
    split at hr'
    · cases hr'
      exact hs.fits id r hr
    · exact hs.fits other r' hr'
  settled := by
    intro other r' hr' hpermit
    simp only [goTo, Table.get_insert] at hr'
    split at hr'
    · next heq =>
      cases hr'
      exact hsettled (heq ▸ hpermit)
    · exact hs.settled other r' hr' hpermit
  named := by
    intro other hpermit
    have hold := hs.named other hpermit
    simp only [goTo, Table.contains, Table.get_insert] at hold ⊢
    split
    · rfl
    · exact hold

theorem goTo {phase : Phase} (hown : phase.holds = true → b.turn.holder = some id)
    (hsettled : b.permits.contains id = true → ∃ result, phase = .leaving result ∨ phase = .returned result) :
    (b.goTo id r phase).Sound :=
  hs.move hr (fun _ _ h => h) hown hsettled

theorem no_permit (hphase : ∀ result, r.phase ≠ .leaving result ∧ r.phase ≠ .returned result) :
    b.permits.get id = none := by
  by_contra hsome
  obtain ⟨result, hleaving | hreturned⟩ :=
    hs.settled id r hr (Option.isSome_iff_ne_none.mpr hsome)
  · exact (hphase result).1 hleaving
  · exact (hphase result).2 hreturned

theorem no_permit_of_looks (hlooks : r.phase.looks = true) : b.permits.get id = none := by
  refine hs.no_permit hr fun result => ⟨?_, ?_⟩
  · intro hphase
    simp [hphase, Phase.looks] at hlooks
  · intro hphase
    simp [hphase, Phase.looks] at hlooks

end

end Sound

variable {bytes : Nat}

theorem check_ok {b : Budget} {checked : Nat} (h : b.check bytes = .ok checked) :
    checked ≤ b.ceiling := by
  unfold check at h
  split at h
  · cases h
  · cases h
    omega

theorem acquire_some {s s' : BudgetState} {received : Bool}
    (h : s.acquire bytes received = .ok (some s')) :
    s.closed = false ∧ (s.used + bytes ≤ s.limit ∨ received = true ∧ s.used = 0) ∧
      s' = { s with used := u32Add s.used bytes } := by
  unfold BudgetState.acquire at h
  split at h
  · cases h
  · next hopen =>
    split at h
    · next hroom =>
      cases h
      refine ⟨by simpa using hopen, ?_, rfl⟩
      rcases hroom with hfits | ⟨hreceived, hidle, _⟩
      · exact .inl hfits
      · exact .inr ⟨hreceived, hidle⟩
    · cases h

namespace Sound

variable {b : Budget}

variable {r : Reservation}

variable {id : Nat}

section

variable (hs : b.Sound) (hr : b.reservations.get id = some r)
include hs hr

theorem acquire_exact
    (hroom : b.state.used + r.bytes ≤ b.state.limit ∨ r.received = true ∧ b.state.used = 0) :
    b.state.used + r.bytes ≤ b.ceiling ∧ u32Add b.state.used r.bytes = b.state.used + r.bytes := by
  have hlimit := hs.limit
  have hfits := hs.fits id r hr
  have hword := hs.word
  have hle : b.state.used + r.bytes ≤ b.ceiling := by omega
  exact ⟨hle, Nat.mod_eq_of_lt (by omega)⟩

theorem look (hlooks : r.phase.looks = true) {full : Phase} : (b.look id r full).Sound := by
  have hturn := hs.turns id r hr (Phase.holds_of_looks hlooks)
  have hnone := hs.no_permit_of_looks hr hlooks
  have hfree : b.permits.contains id = false := by simp [Table.contains, hnone]
  unfold Budget.look
  split
  · exact hs.goTo hr (fun _ => hturn) (by simp [hfree])
  · exact hs.goTo hr (fun _ => hturn) (by simp [hfree])
  · next state hacquired =>
    obtain ⟨_, hroom, rfl⟩ := acquire_some hacquired
    obtain ⟨hle, hexact⟩ := hs.acquire_exact hr hroom
    have hmoved : (b.goTo id r (.leaving (.ok ()))).Sound :=
      hs.goTo hr (fun _ => hturn) (by simp [hfree])
    refine ⟨hs.word, hs.limit, ?_, ?_, hmoved.turns, hmoved.fits, ?_, ?_⟩
    · simp only [hexact, charged, Table.sumBy_insert, Table.erase_of_get_none hnone]
      rw [hs.used, charged, Nat.add_comm]
    · rw [hexact]
      exact hle
    · intro other r' hr' hpermit
      by_cases heq : other = id
      · subst heq
        simp only [Budget.goTo, Table.get_insert_self, Option.some.injEq] at hr'
        exact ⟨.ok (), .inl (by rw [← hr'])⟩
      · refine hmoved.settled other r' hr' ?_
        simpa [Budget.goTo, Table.contains, Table.get_insert, heq] using hpermit
    · intro other hpermit
      by_cases heq : other = id
      · simp [heq, Budget.goTo, Table.contains]
      · refine hmoved.named other ?_
        simpa [Budget.goTo, Table.contains, Table.get_insert, heq] using hpermit

theorem passes (hholder : b.turn.holder = some id) {phase : Phase} (hphase : phase.holds = false)
    (hsettled : b.permits.contains id = true → ∃ result, phase = .leaving result ∨ phase = .returned result) :
    ({ b.goTo id r phase with turn := b.turn.pass } : Budget).Sound := by
  refine hs.move hr ?_ (by simp [hphase]) hsettled
  intro other hne hother
  rw [hholder] at hother
  exact absurd (Option.some.inj hother).symm hne

theorem quits {phase : Phase} (hphase : phase.holds = false)
    (hsettled : b.permits.contains id = true → ∃ result, phase = .leaving result ∨ phase = .returned result) :
    ({ b.goTo id r phase with turn := b.turn.quit id } : Budget).Sound := by
  unfold Turn.quit
  split
  · next hholder => exact hs.passes hr hholder hphase hsettled
  · exact hs.move hr (fun _ _ h => h) (by simp [hphase]) hsettled

theorem poll : (b.poll id r).Sound := by
  unfold Budget.poll
  cases hphase : r.phase with
  | created =>
    have hfree : b.permits.contains id = false := by
      simp [Table.contains, hs.no_permit hr (by simp [hphase])]
    simp only
    split
    · exact hs.goTo hr (by rintro ⟨⟩) (by simp [hfree])
    · next hopen =>
      split
      · next hturn =>
        have hnone : b.turn.holder = none := by simpa [Turn.free, hopen] using hturn
        have hasked : (b.turn.ask id).holder = some id := by simp [Turn.ask, hopen, hnone]
        refine hs.move hr ?_ (fun _ => hasked) (by simp [hfree])
        intro other _ hother
        rw [hnone] at hother
        cases hother
      · refine hs.move hr ?_ (by rintro ⟨⟩) (by simp [hfree])
        intro other _ hother
        simp [Turn.ask, hopen, hother]
  | queued =>
    have hfree : b.permits.contains id = false := by
      simp [Table.contains, hs.no_permit hr (by simp [hphase])]
    simp only
    split
    · exact hs.quits hr rfl (by simp [hfree])
    · split
      · next hholder => exact hs.goTo hr (fun _ => hholder) (by simp [hfree])
      · exact hs
  | admitted =>
    have hfree : b.permits.contains id = false := by
      simp [Table.contains, hs.no_permit hr (by simp [hphase])]
    exact hs.goTo hr (fun _ => hs.turns id r hr (by simp [hphase, Phase.holds])) (by simp [hfree])
  | listening since | trying => exact hs.look hr (by simp [hphase, Phase.looks])
  | parked since =>
    have hfree : b.permits.contains id = false := by
      simp [Table.contains, hs.no_permit hr (by simp [hphase])]
    simp only
    split
    · exact hs
    · exact hs.goTo hr (fun _ => hs.turns id r hr (by simp [hphase, Phase.holds]))
        (by simp [hfree])
  | leaving result =>
    exact hs.passes hr (hs.turns id r hr (by simp [hphase, Phase.holds])) rfl
      (fun _ => ⟨result, .inr rfl⟩)
  | returned result | cancelled => exact hs

theorem cancel : (b.cancel id r).Sound := by
  unfold Budget.cancel
  split
  · next hphase =>
    refine hs.goTo hr nofun ?_
    simp [Table.contains, hs.no_permit hr (by simp [hphase])]
  · next hphase =>
    refine hs.quits hr rfl ?_
    simp [Table.contains, hs.no_permit hr (by simp [hphase])]
  · next since hphase =>
    refine hs.quits hr rfl ?_
    simp [Table.contains, hs.no_permit hr (by simp [hphase])]
  · exact hs

end

theorem begins (hs : b.Sound) (hnew : b.reservations.get id = none) (hfits : r.bytes ≤ b.ceiling)
    {turn : Turn Nat} (hothers : ∀ other, b.turn.holder = some other → turn.holder = some other)
    (hown : r.phase.holds = true → turn.holder = some id) :
    ({ b with reservations := b.reservations.insert id r, turn } : Budget).Sound where
  word := hs.word
  limit := hs.limit
  used := hs.used
  bounded := hs.bounded
  turns := by
    intro other r' hr' hholds
    simp only [Table.get_insert] at hr'
    split at hr'
    · next heq =>
      cases hr'
      rw [heq]
      exact hown hholds
    · exact hothers other (hs.turns other r' hr' hholds)
  fits := by
    intro other r' hr'
    simp only [Table.get_insert] at hr'
    split at hr'
    · cases hr'
      exact hfits
    · exact hs.fits other r' hr'
  settled := by
    intro other r' hr' hpermit
    simp only [Table.get_insert] at hr'
    split at hr'
    · next heq =>
      have hnamed := hs.named other hpermit
      simp [heq, Table.contains, hnew] at hnamed
    · exact hs.settled other r' hr' hpermit
  named := by
    intro other hpermit
    have hold := hs.named other hpermit
    simp only [Table.contains, Table.get_insert] at hold ⊢
    split
    · rfl
    · exact hold

theorem start (hs : b.Sound) (hfits : r.bytes ≤ b.ceiling) (hphase : r.phase = .created) :
    (b.start id r).Sound := by
  unfold Budget.start
  split
  · exact hs
  · next hnew =>
    refine hs.begins ?_ hfits (fun _ h => h) (by simp [hphase, Phase.holds])
    simpa [Table.contains] using hnew

variable {charge : Nat}

section

variable (hs : b.Sound) {id : Nat} (hpermit : b.permits.get id = some charge)
include hs hpermit

theorem shrink_exact (bytes : Nat) : charge - min bytes charge ≤ b.state.used ∧
      u32Sub b.state.used (charge - min bytes charge) =
        b.state.used - (charge - min bytes charge) := by
  have hsum : b.state.used = charge + (b.permits.erase id).sumBy fun bytes => bytes := by
    rw [hs.used, charged, Table.sumBy_of_get _ hpermit]
  have hword := hs.word
  have hbounded := hs.bounded
  refine ⟨by omega, ?_⟩
  rw [u32Sub, show b.state.used + (2 ^ 32 - (charge - min bytes charge)) =
    b.state.used - (charge - min bytes charge) + 2 ^ 32 by omega, Nat.add_mod_right]
  exact Nat.mod_eq_of_lt (by omega)

theorem shrinkTo (bytes : Nat) : (b.shrinkTo id charge bytes).Sound := by
  obtain ⟨hle, hexact⟩ := hs.shrink_exact hpermit bytes
  have hbounded := hs.bounded
  have hkept : ∀ other, (b.permits.insert id (min bytes charge)).contains other = true →
      b.permits.contains other = true := by
    intro other hother
    simp only [Table.contains, Table.get_insert] at hother ⊢
    split at hother
    · next heq => simp [heq, hpermit]
    · exact hother
  refine ⟨hs.word, hs.limit, ?_, ?_, hs.turns, hs.fits, ?_, ?_⟩
  · have hsum := hs.used
    simp only [charged, Table.sumBy_of_get _ hpermit] at hsum
    simp only [Budget.shrinkTo, charged, Table.sumBy_insert, hexact] at hsum ⊢
    omega
  · simp only [Budget.shrinkTo, hexact]
    omega
  · exact fun other r hr hother => hs.settled other r hr (hkept other hother)
  · exact fun other hother => hs.named other (hkept other hother)

theorem dropPermit : ({ b.shrinkTo id charge 0 with
      permits := (b.shrinkTo id charge 0).permits.erase id } : Budget).Sound := by
  have hshrunk := hs.shrinkTo hpermit 0
  have hkept : ∀ other, ((b.shrinkTo id charge 0).permits.erase id).contains other = true →
      (b.shrinkTo id charge 0).permits.contains other = true := by
    intro other hother
    simp only [Table.contains, Table.get_erase] at hother ⊢
    split at hother
    · cases hother
    · exact hother
  refine ⟨hs.word, hs.limit, ?_, hshrunk.bounded, hs.turns, hs.fits, ?_, ?_⟩
  · have hzero : (b.shrinkTo id charge 0).permits.get id = some 0 := by simp [Budget.shrinkTo]
    have hsum := hshrunk.used
    simp only [charged, Table.sumBy_of_get _ hzero, Nat.zero_add] at hsum
    exact hsum
  · exact fun other r hr hother => hshrunk.settled other r hr (hkept other hother)
  · exact fun other hother => hshrunk.named other (hkept other hother)

end

theorem tryReserve (hs : b.Sound) {id : Nat} (hnew : b.reservations.get id = none)
    (hturn : b.turn.free = true) (hfits : r.bytes ≤ b.ceiling) :
    ({ b with reservations := b.reservations.insert id r, turn := b.turn.ask id } : Budget).Sound := by
  obtain ⟨hopen, hnone⟩ : b.turn.closed = false ∧ b.turn.holder = none := by
    simpa [Turn.free] using hturn
  refine hs.begins hnew hfits ?_ (fun _ => by simp [Turn.ask, hopen, hnone])
  intro other hother
  rw [hnone] at hother
  cases hother

/-- Each critical section keeps the budget sound. -/
theorem step (hs : b.Sound) (call : BudgetCall) : (b.step call).Sound := by
  cases call with
  | reserve id bytes =>
    simp only [Budget.step]
    split
    · exact hs
    · next checked hchecked => exact hs.start (check_ok hchecked) rfl
  | reserveReceived id bytes => exact hs.start (Nat.min_le_right _ _) rfl
  | tryReserve id bytes =>
    simp only [Budget.step]
    split
    · exact hs
    · next checked hchecked =>
      split
      · next hfree =>
        obtain ⟨hturn, hnew⟩ := hfree
        have hget : b.reservations.get id = none := by simpa [Table.contains] using hnew
        simp only [Budget.start, hnew]
        exact hs.tryReserve hget hturn (check_ok hchecked)
      · exact hs
  | poll id =>
    simp only [Budget.step]
    split
    · next r hr => exact hs.poll hr
    · exact hs
  | cancel id =>
    simp only [Budget.step]
    split
    · next r hr => exact hs.cancel hr
    · exact hs
  | setLimit limit =>
    exact ⟨hs.word, Nat.min_le_right _ _, hs.used, hs.bounded, hs.turns, hs.fits, hs.settled,
      hs.named⟩
  | shrinkPermit id bytes =>
    simp only [Budget.step]
    split
    · next charge hpermit => exact hs.shrinkTo hpermit bytes
    · exact hs
  | dropPermit id =>
    simp only [Budget.step]
    split
    · next charge hpermit => exact hs.dropPermit hpermit
    · exact hs
  | close => exact { hs with }
  | followUp index =>
    simp only [Budget.step]
    split
    · exact hs
    · exact { hs with }
    · exact { hs with }

/-- Any calls keep the budget sound. -/
theorem run (hs : b.Sound) (calls : List BudgetCall) : (b.run calls).Sound := by
  induction calls generalizing b with
  | nil => exact hs
  | cons call rest ih => exact ih (hs.step call)

end Sound

/-! ### What a step does to the permits -/

/-- A permit over `bytes` bytes comes to life between two states. -/
def Granted (b b' : Budget) (id bytes : Nat) : Prop :=
  b.permits.get id = none ∧ b'.permits.get id = some bytes

/-- What a step does to permits and charges: nothing, one grant to a
reservation that looks for room, or a cut of one permit. -/
inductive Effect (b b' : Budget) : Prop
  | none (hpermits : b'.permits = b.permits)
  | grant (id : Nat) (r : Reservation) (hr : b.reservations.get id = some r)
      (hlooks : r.phase.looks = true) (hopen : b.state.closed = false)
      (hroom : b.state.used + r.bytes ≤ b.state.limit ∨ r.received = true ∧ b.state.used = 0)
      (hpermits : b'.permits = b.permits.insert id r.bytes)
      (hused : b'.state.used = u32Add b.state.used r.bytes)
  | cut (id charge bytes : Nat) (hpermit : b.permits.get id = some charge)
      (hleft : ((b'.permits.get id).getD 0) = min bytes charge)
      (hothers : ∀ other, other ≠ id → b'.permits.get other = b.permits.get other)
      (hused : b'.state.used = u32Sub b.state.used (charge - min bytes charge))

/-- What a step does: the ceiling is fixed and nothing opens a closed budget. -/
structure Change (b b' : Budget) : Prop where
  ceiling : b'.ceiling = b.ceiling
  closed : b.state.closed = true → b'.state.closed = true
  effect : Effect b b'

theorem Change.still {b b' : Budget} (hceiling : b'.ceiling = b.ceiling)
    (hstate : b'.state = b.state) (hpermits : b'.permits = b.permits) : Change b b' :=
  ⟨hceiling, fun h => hstate ▸ h, .none hpermits⟩

variable {id : Nat}

variable {b : Budget}

theorem look_change {r : Reservation} (hr : b.reservations.get id = some r)
    (hlooks : r.phase.looks = true) (full : Phase) : Change b (b.look id r full) := by
  unfold look
  split
  · exact .still rfl rfl rfl
  · exact .still rfl rfl rfl
  · next state hacquired =>
    obtain ⟨hopen, hroom, rfl⟩ := acquire_some hacquired
    exact ⟨rfl, fun h => h, .grant id r hr hlooks hopen hroom rfl rfl⟩

theorem poll_change {r : Reservation} (hr : b.reservations.get id = some r) :
    Change b (b.poll id r) := by
  unfold poll
  cases hphase : r.phase with
  | listening since | trying => exact look_change hr (by simp [hphase, Phase.looks]) _
  | created | queued =>
    simp only
    split
    · exact .still rfl rfl rfl
    · split <;> exact .still rfl rfl rfl
  | parked since =>
    simp only
    split <;> exact .still rfl rfl rfl
  | admitted | leaving result | returned result | cancelled => exact .still rfl rfl rfl

theorem start_change (b : Budget) (id : Nat) (r : Reservation) : Change b (b.start id r) := by
  unfold start
  split <;> exact .still rfl rfl rfl

/-- What a critical section changes, case by case. -/
theorem step_change (b : Budget) (call : BudgetCall) : Change b (b.step call) := by
  cases call with
  | reserve id bytes =>
    simp only [step]
    split
    · exact .still rfl rfl rfl
    · exact start_change b _ _
  | reserveReceived id bytes => exact start_change b _ _
  | tryReserve id bytes =>
    simp only [step]
    split
    · exact .still rfl rfl rfl
    · split
      · next hfree =>
        simp only [start, hfree.2]
        exact .still rfl rfl rfl
      · exact .still rfl rfl rfl
  | poll id =>
    simp only [step]
    split
    · next r hr => exact poll_change hr
    · exact .still rfl rfl rfl
  | cancel id =>
    simp only [step]
    split
    · unfold cancel
      split <;> exact .still rfl rfl rfl
    · exact .still rfl rfl rfl
  | setLimit limit => exact ⟨rfl, fun h => h, .none rfl⟩
  | shrinkPermit id bytes =>
    simp only [step]
    split
    · next charge hpermit =>
      refine ⟨rfl, fun h => h, .cut id charge bytes hpermit ?_ ?_ rfl⟩
      · simp [shrinkTo]
      · intro other hne
        simp [shrinkTo, Table.get_insert, hne]
    · exact .still rfl rfl rfl
  | dropPermit id =>
    simp only [step]
    split
    · next charge hpermit =>
      refine ⟨rfl, fun h => h, .cut id charge 0 hpermit ?_ ?_ rfl⟩
      · simp [Table.get_erase]
      · intro other hne
        simp [shrinkTo, hne, Table.get_erase, Table.get_insert]
    · exact .still rfl rfl rfl
  | close => exact ⟨rfl, fun _ => rfl, .none rfl⟩
  | followUp index =>
    simp only [step]
    split <;> exact .still rfl rfl rfl

theorem run_ceiling (b : Budget) (calls : List BudgetCall) : (b.run calls).ceiling = b.ceiling := by
  induction calls generalizing b with
  | nil => rfl
  | cons call rest ih => exact (ih (b.step call)).trans (step_change b call).ceiling

theorem step_permits_closed (hclosed : b.state.closed = true) (call : BudgetCall)
    (hpermit : (b.step call).permits.contains id = true) : b.permits.contains id = true := by
  rcases (step_change b call).effect with
    ⟨hpermits⟩ | ⟨_, _, _, _, hopen, _, _, _⟩ | ⟨cut, charge, bytes, hcut, _, hothers, _⟩
  · rwa [hpermits] at hpermit
  · rw [hclosed] at hopen
    cases hopen
  · by_cases heq : id = cut
    · simp [Table.contains, heq, hcut]
    · rwa [Table.contains, hothers id heq] at hpermit

theorem run_permits_closed (hclosed : b.state.closed = true) (calls : List BudgetCall)
    (hpermit : (b.run calls).permits.contains id = true) : b.permits.contains id = true := by
  induction calls generalizing b with
  | nil => exact hpermit
  | cons call rest ih =>
    exact step_permits_closed hclosed call (ih ((step_change b call).closed hclosed) hpermit)

/-- A grant fits, and adds up without a wrap. -/
theorem Sound.granted (hs : b.Sound) {call : BudgetCall}
    (hgranted : Granted b (b.step call) id bytes) :
    b.state.used + bytes < 2 ^ 32 ∧ (b.step call).state.used = b.state.used + bytes ∧
      b.state.closed = false ∧ b.turn.holder = some id ∧
      ∃ r, b.reservations.get id = some r ∧ r.bytes = bytes ∧
        (b.state.used + bytes ≤ b.state.limit ∨ r.received = true ∧ b.state.used = 0) := by
  obtain ⟨hbefore, hafter⟩ := hgranted
  rcases (step_change b call).effect with
    ⟨hpermits⟩ | ⟨granted, r, hr, hlooks, hopen, hroom, hpermits, hused⟩ |
    ⟨cut, charge, kept, hcut, _, hothers, _⟩
  · rw [hpermits, hbefore] at hafter
    cases hafter
  · rw [hpermits, Table.get_insert] at hafter
    split at hafter
    · next heq =>
      subst heq
      cases hafter
      obtain ⟨hle, hexact⟩ := hs.acquire_exact hr hroom
      have hword := hs.word
      have hturn := hs.turns id r hr (Phase.holds_of_looks hlooks)
      exact ⟨by omega, hused.trans hexact, hopen, hturn, r, hr, rfl, hroom⟩
    · rw [hbefore] at hafter
      cases hafter
  · by_cases heq : id = cut
    · rw [heq, hcut] at hbefore
      cases hbefore
    · rw [hothers id heq, hbefore] at hafter
      cases hafter

/-- A step takes no more from a permit than is in use. -/
theorem Sound.kept (hs : b.Sound) (call : BudgetCall) {charge : Nat}
    (hpermit : b.permits.get id = some charge) : let left := ((b.step call).permits.get id).getD 0
    left ≤ charge ∧ charge - left ≤ b.state.used ∧
      (left < charge → (b.step call).state.used = b.state.used - (charge - left)) := by
  rcases (step_change b call).effect with
    ⟨hpermits⟩ | ⟨granted, r, hr, hlooks, hopen, hroom, hpermits, hused⟩ |
    ⟨cut, held, kept, hcut, hleft, hothers, hused⟩
  · simp [hpermits, hpermit]
  · have hne : id ≠ granted := by
      rintro rfl
      rw [hs.no_permit_of_looks hr hlooks] at hpermit
      cases hpermit
    simp [hpermits, Table.get_insert, hne, hpermit]
  · by_cases heq : id = cut
    · subst heq
      cases hpermit.symm.trans hcut
      obtain ⟨hle, hexact⟩ := hs.shrink_exact hpermit kept
      simp only [hleft]
      exact ⟨Nat.min_le_right _ _, hle, fun _ => hused.trans hexact⟩
    · simp [hothers id heq, hpermit]

end Budget

/-- **The budget keeps its books.** After any calls of any parties, each
critical section a step: what is in use is the sum of the live permits and
within the ceiling the budget was made with; the next grant goes to who has
the turn, to nobody once the budget is closed, fits the limit of the moment
or is a received frame on an idle budget, and adds up without a wrap; the next
cut of a permit takes away no more than is in use; and what is live after a
close was live before. -/
theorem byteBudget_conserved (limit : UInt32) (calls : List BudgetCall) :
    let b := (Budget.new limit).run calls
    b.state.used = b.charged ∧ b.state.used ≤ limit.toNat ∧
    (∀ call id bytes, Budget.Granted b (b.step call) id bytes →
      b.state.used + bytes < 2 ^ 32 ∧ (b.step call).state.used = b.state.used + bytes ∧
        b.state.closed = false ∧ b.turn.holder = some id ∧
        ∃ r, b.reservations.get id = some r ∧ r.bytes = bytes ∧
          (b.state.used + bytes ≤ b.state.limit ∨ r.received = true ∧ b.state.used = 0)) ∧
    (∀ call id charge, b.permits.get id = some charge →
      let left := ((b.step call).permits.get id).getD 0
      left ≤ charge ∧ charge - left ≤ b.state.used ∧
        (left < charge → (b.step call).state.used = b.state.used - (charge - left))) ∧
    (b.state.closed = true → ∀ later id, (b.run later).permits.contains id = true →
      b.permits.contains id = true) := by
  intro b
  have hs : b.Sound := (Budget.Sound.new limit).run calls
  have hceiling : b.ceiling = limit.toNat := Budget.run_ceiling _ _
  refine ⟨hs.used, hceiling ▸ hs.bounded, ?_, ?_, ?_⟩
  · exact fun call id bytes hgranted => hs.granted hgranted
  · exact fun call id charge hpermit => hs.kept call hpermit
  · exact fun hclosed later id hpermit => Budget.run_permits_closed hclosed later hpermit

end Mistlib.Transport
