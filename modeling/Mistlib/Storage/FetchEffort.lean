import Mistlib.Storage.Attempt
import Mistlib.Storage.Discovery

/-!
# The effort of a fetch

`resolve_uncoalesced` step by step, with the attempts and the discovery it
makes inside. Whatever the environment answers and in whatever order things
happen, a fetch tries each provider once at most and no more of them than
allowed, discovers at most once, and keeps to the bounds on WANTs and QUERYs
(`fetch_effort`).
-/

namespace Mistlib.Storage

open Reactive

structure FetchLimits where
  maxAttempts : Nat
  maxFetchesPerProvider : Nat
deriving DecidableEq, Repr

inductive FetchPhase where
  /-- It is about to read the cached providers. -/
  | knowing
  | picking
  | chosen (peer : NodeId)
  | attempting (peer : NodeId) (a : Attempt)
  /-- It is about to read the providers cached since the discovery. -/
  | refreshing
  /-- It is about to discover. -/
  | asking
  | discovering (d : Discovery)
  | returned (result : Except String (Option Bytes))

structure Fetch where
  peers : List NodeId
  tried : List NodeId
  discovered : Bool
  phase : FetchPhase

inductive FetchInput where
  | known (cached : List NodeId) (nextPeer : Nat)
  /-- The provider to try next, with those that have a free permit. -/
  | pick (free : NodeId → Bool)
  | consider
  | attempt (i : AttemptInput)
  | attempted
  | getPeers (cached : List NodeId)
  | discover
  | discovery (i : DiscoveryInput)
  | discovered

namespace Fetch

def start : Fetch := { peers := [], tried := [], discovered := false, phase := .knowing }

def goTo (f : Fetch) (phase : FetchPhase) : Fetch := { f with phase }

section Code

variable (limits : FetchLimits) (cid : Cid)

/-- The index of the provider to try next: the first untried one with a free
permit, or else the first. -/
def nextIndex (f : Fetch) (free : NodeId → Bool) : Nat :=
  if limits.maxFetchesPerProvider = 0 then 0
  else (f.peers.findIdx? fun peer => decide (peer ∉ f.tried) && free peer).getD 0

/-- The head of the inner loop of `resolve_uncoalesced`, and what follows its end. -/
def inner (f : Fetch) : Fetch :=
  match f.peers with
  | _ :: _ => f.goTo .picking
  | [] =>
    if f.tried.length ≥ limits.maxAttempts then f.goTo (.returned (.ok none))
    else if f.discovered then f.goTo .refreshing
    else f.goTo .asking

def outer (f : Fetch) : Fetch :=
  if f.tried.length < limits.maxAttempts then f.inner limits else f.goTo (.returned (.ok none))

/-- What becomes of the provider picked. -/
def consider (f : Fetch) (peer : NodeId) : Fetch :=
  if f.tried.length ≥ limits.maxAttempts then f.goTo (.returned (.ok none))
  else if peer ∈ f.tried then f.inner limits
  else
    { f with
      tried := f.tried ++ [peer]
      phase := .attempting peer (.start (limits.maxFetchesPerProvider ≠ 0)) }

def afterAttempt (f : Fetch) : Option Bytes → Fetch
  | some data => f.goTo (.returned (.ok (some data)))
  | none => f.inner limits

def afterDiscovery (f : Fetch) : Except DiscoveryFailure (List NodeId) → Fetch
  | .error reason => f.goTo (.returned (.error (reason.message ++ ": " ++ cid)))
  | .ok peers => { f with peers, discovered := true }.outer limits

def next (f : Fetch) (i : FetchInput) : Option Fetch :=
  match f.phase, i with
  | .knowing, .known cached nextPeer =>
    some ({ f with peers := cached.rotate (nextPeer % cached.length) }.outer limits)
  | .picking, .pick free =>
    f.peers[f.nextIndex limits free]?.map fun peer =>
      { f with peers := f.peers.eraseIdx (f.nextIndex limits free), phase := .chosen peer }
  | .chosen peer, .consider => some (f.consider limits peer)
  | .attempting peer a, .attempt i => (a.next i).map fun a => f.goTo (.attempting peer a)
  | .attempting _ a, .attempted =>
    match a.phase with
    | .ended result => some (f.afterAttempt limits result)
    | _ => none
  | .refreshing, .getPeers cached =>
    let peers := NetworkPeerResolver.untried cached f.tried
    if peers.isEmpty then some (f.goTo (.returned (.ok none)))
    else some ({ f with peers }.outer limits)
  | .asking, .discover => some (f.goTo (.discovering (.start f.tried)))
  | .discovering d, .discovery i => (d.next i).map fun d => f.goTo (.discovering d)
  | .discovering d, .discovered =>
    match d.turn with
    | .ended result => some (f.afterDiscovery limits cid result)
    | _ => none
  | _, _ => none

/-! ## What is seen of a fetch -/

def begun : Move Fetch FetchInput → Option NodeId
  | ⟨f, .consider⟩ =>
    match f.phase with
    | .chosen peer =>
      if f.tried.length < limits.maxAttempts ∧ peer ∉ f.tried then some peer else none
    | _ => none
  | _ => none

def attempts (moves : List (Move Fetch FetchInput)) : List NodeId :=
  (moves.filterMap (begun limits)).reverse

end Code

def beginsDiscovery : Move Fetch FetchInput → Bool
  | ⟨_, .discover⟩ => true
  | _ => false

def discoveries (moves : List (Move Fetch FetchInput)) : Nat := moves.countP beginsDiscovery

def attemptMove (peer : NodeId) : Move Fetch FetchInput → Option (Move Attempt AttemptInput)
  | ⟨f, .attempt i⟩ =>
    match f.phase with
    | .attempting p a => if p = peer then some ⟨a, i⟩ else none
    | _ => none
  | _ => none

def discoveryMove : Move Fetch FetchInput → Option (Move Discovery DiscoveryInput)
  | ⟨f, .discovery i⟩ =>
    match f.phase with
    | .discovering d => some ⟨d, i⟩
    | _ => none
  | _ => none

def wants (peer : NodeId) (moves : List (Move Fetch FetchInput)) : List (Rounds.Event Room) :=
  WantLoop.log ((moves.filterMap (attemptMove peer)).filterMap Attempt.loopMove)

def queries (moves : List (Move Fetch FetchInput)) : List (Rounds.Event Room) :=
  Exchange.log ((moves.filterMap discoveryMove).filterMap Discovery.exchangeMove)

/-! ## What a move does -/

def Fresh (f : Fetch) : Prop :=
  f.discovered = false ∧
    match f.phase with
    | .discovering _ | .returned _ => False
    | _ => True

/-- A move of the two loops: nothing begins, and what ran before has ended. -/
structure Turns (f f' : Fetch) : Prop where
  tried : f'.tried = f.tried
  fresh : f'.Fresh → f.Fresh
  attempting : ∀ peer a, f'.phase ≠ .attempting peer a
  discovering : ∀ d, f'.phase ≠ .discovering d
  asking : f'.phase = .asking → f'.discovered = false

variable {limits : FetchLimits} {cid : Cid} {f f' : Fetch} {i : FetchInput}

theorem turns_returned (result : Except String (Option Bytes)) (htried : f'.tried = f.tried) :
    Turns f (f'.goTo (.returned result)) where
  tried := htried
  fresh hfresh := hfresh.2.elim
  attempting _ _ := nofun
  discovering _ := nofun
  asking := nofun

theorem turns_inner (htried : f'.tried = f.tried) (hfresh : f'.discovered = false → f.Fresh) :
    Turns f (f'.inner limits) := by
  unfold inner
  split
  · exact ⟨htried, fun h => hfresh h.1, fun _ _ => nofun, fun _ => nofun, nofun⟩
  · split
    · exact turns_returned _ htried
    · split
      · exact ⟨htried, fun h => hfresh h.1, fun _ _ => nofun, fun _ => nofun, nofun⟩
      · next hdiscovered =>
        exact ⟨htried, fun h => hfresh h.1, fun _ _ => nofun, fun _ => nofun,
          fun _ => Bool.eq_false_iff.mpr hdiscovered⟩

theorem turns_outer (htried : f'.tried = f.tried) (hfresh : f'.discovered = false → f.Fresh) :
    Turns f (f'.outer limits) := by
  unfold outer
  split
  · exact turns_inner htried hfresh
  · exact turns_returned _ htried

/-- Nothing of an attempt or a discovery is seen of a move. -/
structure Silent (limits : FetchLimits) (m : Move Fetch FetchInput) : Prop where
  begun : begun limits m = none
  discovery : beginsDiscovery m = false
  attemptMove : ∀ peer, attemptMove peer m = none
  discoveryMove : discoveryMove m = none

inductive Moves (limits : FetchLimits) (f : Fetch) (i : FetchInput) (f' : Fetch) : Prop
  | turn (silent : Silent limits ⟨f, i⟩) (turns : Turns f f')
  | begins (peer : NodeId) (phase : f.phase = .chosen peer) (input : i = .consider)
      (room : f.tried.length < limits.maxAttempts) (new : peer ∉ f.tried)
      (after : f' = { f with
        tried := f.tried ++ [peer]
        phase := .attempting peer (.start (limits.maxFetchesPerProvider ≠ 0)) })
  | attempts (peer : NodeId) (a a' : Attempt) (j : AttemptInput)
      (phase : f.phase = .attempting peer a) (input : i = .attempt j) (move : a.next j = some a')
      (after : f' = f.goTo (.attempting peer a'))
  | asks (phase : f.phase = .asking) (input : i = .discover)
      (after : f' = f.goTo (.discovering (.start f.tried)))
  | discovers (d d' : Discovery) (j : DiscoveryInput) (phase : f.phase = .discovering d)
      (input : i = .discovery j) (move : d.next j = some d')
      (after : f' = f.goTo (.discovering d'))

theorem moves_of_next (hmove : f.next limits cid i = some f') : Moves limits f i f' := by
  obtain ⟨peers, tried, discovered, phase⟩ := f
  unfold next at hmove
  dsimp only at hmove
  split at hmove
  · cases hmove
    exact .turn ⟨rfl, rfl, fun _ => rfl, rfl⟩ (turns_outer rfl fun h => ⟨h, trivial⟩)
  · obtain ⟨peer, _, rfl⟩ := Option.map_eq_some_iff.mp hmove
    exact .turn ⟨rfl, rfl, fun _ => rfl, rfl⟩
      ⟨rfl, fun h => ⟨h.1, trivial⟩, fun _ _ => nofun, fun _ => nofun, nofun⟩
  · next peer =>
    cases hmove
    unfold consider
    dsimp only
    split
    · next hspent =>
      refine .turn ⟨if_neg fun h => ?_, rfl, fun _ => rfl, rfl⟩ (turns_returned _ rfl)
      exact absurd h.1 (Nat.not_lt.mpr hspent)
    · next hroom =>
      split
      · next hold =>
        exact .turn ⟨if_neg fun h => h.2 hold, rfl, fun _ => rfl, rfl⟩
          (turns_inner rfl fun h => ⟨h, trivial⟩)
      · next hnew => exact .begins peer rfl rfl (Nat.lt_of_not_le hroom) hnew rfl
  · next peer a j =>
    obtain ⟨a', hattempt, rfl⟩ := Option.map_eq_some_iff.mp hmove
    exact .attempts peer a a' j rfl rfl hattempt rfl
  · split at hmove
    · next result _ =>
      cases hmove
      cases result with
      | some data => exact .turn ⟨rfl, rfl, fun _ => rfl, rfl⟩ (turns_returned _ rfl)
      | none =>
        exact .turn ⟨rfl, rfl, fun _ => rfl, rfl⟩ (turns_inner rfl fun h => ⟨h, trivial⟩)
    · cases hmove
  · split at hmove
    · cases hmove
      exact .turn ⟨rfl, rfl, fun _ => rfl, rfl⟩ (turns_returned _ rfl)
    · cases hmove
      exact .turn ⟨rfl, rfl, fun _ => rfl, rfl⟩ (turns_outer rfl fun h => ⟨h, trivial⟩)
  · cases hmove
    exact .asks rfl rfl rfl
  · next d j =>
    obtain ⟨d', hdiscovery, rfl⟩ := Option.map_eq_some_iff.mp hmove
    exact .discovers d d' j rfl rfl hdiscovery rfl
  · split at hmove
    · next result _ =>
      cases hmove
      cases result with
      | error reason => exact .turn ⟨rfl, rfl, fun _ => rfl, rfl⟩ (turns_returned _ rfl)
      | ok peers => exact .turn ⟨rfl, rfl, fun _ => rfl, rfl⟩ (turns_outer rfl nofun)
    · cases hmove
  · cases hmove

/-! ## The books of a fetch -/

structure Books (limits : FetchLimits) (moves : List (Move Fetch FetchInput)) (f : Fetch) :
    Prop where
  tried : attempts limits moves = f.tried
  nodup : f.tried.Nodup
  most : f.tried.length ≤ limits.maxAttempts
  asking : f.phase = .asking → f.discovered = false
  once : discoveries moves ≤ 1
  fresh : f.Fresh → discoveries moves = 0

section Views

variable {moves : List (Move Fetch FetchInput)} {m : Move Fetch FetchInput}

theorem attempts_cons_none (h : begun limits m = none) :
    attempts limits (m :: moves) = attempts limits moves := by
  rw [attempts, List.filterMap_cons_none h, attempts]

theorem attempts_cons_some {peer : NodeId} (h : begun limits m = some peer) :
    attempts limits (m :: moves) = attempts limits moves ++ [peer] := by
  rw [attempts, List.filterMap_cons_some h, List.reverse_cons, attempts]

theorem discoveries_cons (moves : List (Move Fetch FetchInput)) (h : beginsDiscovery m = false) :
    discoveries (m :: moves) = discoveries moves :=
  List.countP_cons_of_neg (by simp [h])

end Views

/-- Each step of a fetch keeps its books. -/
theorem Books.next {moves : List (Move Fetch FetchInput)} (h : Books limits moves f)
    (hmove : f.next limits cid i = some f') : Books limits (⟨f, i⟩ :: moves) f' := by
  cases moves_of_next hmove with
  | turn silent turns =>
    have hcount := discoveries_cons moves silent.discovery
    refine ⟨?_, ?_, ?_, turns.asking, ?_, fun hfresh => ?_⟩
    · rw [attempts_cons_none silent.begun, turns.tried, h.tried]
    · rw [turns.tried]
      exact h.nodup
    · rw [turns.tried]
      exact h.most
    · rw [hcount]
      exact h.once
    · rw [hcount]
      exact h.fresh (turns.fresh hfresh)
  | begins peer phase input room new after =>
    subst input after
    have hbegun : begun limits ⟨f, .consider⟩ = some peer := by
      simp [begun, phase, room, new]
    refine ⟨?_, ?_, ?_, nofun, h.once, fun hfresh => h.fresh ⟨hfresh.1, by rw [phase]; trivial⟩⟩
    · rw [attempts_cons_some hbegun, h.tried]
    · exact List.nodup_append.mpr ⟨h.nodup, List.nodup_singleton _, by
        intro p hp q hq
        rw [List.mem_singleton.mp hq]
        exact fun heq => new (heq ▸ hp)⟩
    · rw [List.length_append, List.length_singleton]
      exact room
  | attempts peer a a' j phase input move after =>
    subst input after
    exact ⟨h.tried, h.nodup, h.most, nofun, h.once,
      fun hfresh => h.fresh ⟨hfresh.1, by rw [phase]; trivial⟩⟩
  | asks phase input after =>
    subst input after
    have hnone : discoveries moves = 0 := h.fresh ⟨h.asking phase, by rw [phase]; trivial⟩
    have hone : discoveries (⟨f, .discover⟩ :: moves) = discoveries moves + 1 :=
      List.countP_cons_of_pos rfl
    refine ⟨h.tried, h.nodup, h.most, nofun, ?_, fun hfresh => hfresh.2.elim⟩
    rw [hone, hnone]
  | discovers d d' j phase input move after =>
    subst input after
    exact ⟨h.tried, h.nodup, h.most, nofun, h.once, fun hfresh => hfresh.2.elim⟩

theorem books_start : Books limits [] start :=
  ⟨rfl, .nil, Nat.zero_le _, nofun, Nat.zero_le _, fun _ => rfl⟩

/-! ## The parts of a fetch -/

/-- How far the attempt at `peer` is. -/
structure AttemptAt (limits : FetchLimits) (peer : NodeId) (f : Fetch) (a : Attempt) : Prop where
  untried : peer ∉ f.tried → a = .start (limits.maxFetchesPerProvider ≠ 0)
  current : ∀ a', f.phase = .attempting peer a' → a' = a
  tried : ∀ p a', f.phase = .attempting p a' → p ∈ f.tried

theorem attemptMove_eq_some {peer : NodeId} {m : Move Attempt AttemptInput}
    (h : attemptMove peer ⟨f, i⟩ = some m) :
    f.phase = .attempting peer m.before ∧ i = .attempt m.input := by
  obtain ⟨peers, tried, discovered, phase⟩ := f
  cases i with
  | attempt j =>
    cases phase with
    | attempting p a =>
      obtain ⟨rfl, ⟨⟩⟩ := Option.ite_none_right_eq_some.mp h
      exact ⟨rfl, rfl⟩
    | _ => cases h
  | _ => cases h

theorem part_attempt (limits : FetchLimits) (cid : Cid) (peer : NodeId) :
    Part (Fetch.next limits cid) Attempt.next (attemptMove peer) (AttemptAt limits peer) where
  own := by
    intro f i f' a m hmove hholds hview
    obtain ⟨hphase, rfl⟩ := attemptMove_eq_some hview
    simp only [Fetch.next, hphase, Option.map_eq_some_iff] at hmove
    obtain ⟨a', hmove, rfl⟩ := hmove
    have htried := hholds.tried _ _ hphase
    refine ⟨hholds.current _ hphase, a', hholds.current _ hphase ▸ hmove, ?_⟩
    exact ⟨fun hnew => (hnew htried).elim, by rintro _ ⟨⟩; rfl, by rintro _ _ ⟨⟩; exact htried⟩
  other := by
    intro f i f' a hmove hholds hview
    cases moves_of_next hmove with
    | turn silent turns =>
      refine ⟨?_, fun a' h => (turns.attempting _ _ h).elim,
        fun p a' h => (turns.attempting _ _ h).elim⟩
      rw [turns.tried]
      exact hholds.untried
    | begins p phase input room new after =>
      subst after
      refine ⟨fun hnew => hholds.untried fun hold => hnew (List.mem_append_left _ hold), ?_, ?_⟩
      · rintro a' ⟨⟩
        exact (hholds.untried new).symm
      · rintro _ _ ⟨⟩
        exact List.mem_append_right _ (List.mem_singleton_self _)
    | attempts p b b' j phase input move after =>
      subst input after
      refine ⟨hholds.untried, ?_, ?_⟩
      · rintro a' ⟨⟩
        simp [attemptMove, phase] at hview
      · rintro _ _ ⟨⟩
        exact hholds.tried _ _ phase
    | asks phase input after | discovers d d' j phase input move after =>
      subst after
      exact ⟨hholds.untried, fun _ h => (by cases h), fun _ _ h => (by cases h)⟩

/-- How far the exchange of the discovery is. -/
structure ExchangeAt (f : Fetch) (e : Exchange) : Prop where
  fresh : f.Fresh → e = .start
  current : ∀ d, f.phase = .discovering d → d.exchange = e
  asking : f.phase = .asking → f.discovered = false

theorem discoveryMove_eq_some {m : Move Discovery DiscoveryInput}
    (h : discoveryMove ⟨f, i⟩ = some m) :
    f.phase = .discovering m.before ∧ i = .discovery m.input := by
  obtain ⟨peers, tried, discovered, phase⟩ := f
  cases i with
  | discovery j =>
    cases phase with
    | discovering d =>
      cases h
      exact ⟨rfl, rfl⟩
    | _ => cases h
  | _ => cases h

def exchangeMove (m : Move Fetch FetchInput) : Option (Move Exchange ExchangeInput) :=
  (discoveryMove m).bind Discovery.exchangeMove

theorem part_exchange (limits : FetchLimits) (cid : Cid) :
    Part (Fetch.next limits cid) Exchange.next exchangeMove ExchangeAt where
  own := by
    intro f i f' e m hmove hholds hview
    obtain ⟨⟨d, j⟩, hdiscovery, hexchange⟩ := Option.bind_eq_some_iff.mp hview
    obtain ⟨hphase, rfl⟩ := discoveryMove_eq_some hdiscovery
    simp only [Fetch.next, hphase, Option.map_eq_some_iff] at hmove
    obtain ⟨d', hmove, rfl⟩ := hmove
    obtain ⟨hbefore, e', hmove, hafter⟩ :=
      Discovery.part_exchange.own hmove (hholds.current _ hphase) hexchange
    exact ⟨hbefore, e', hmove, fun hfresh => hfresh.2.elim, by rintro _ ⟨⟩; exact hafter, by rintro ⟨⟩⟩
  other := by
    intro f i f' e hmove hholds hview
    cases moves_of_next hmove with
    | turn silent turns =>
      exact ⟨fun hfresh => hholds.fresh (turns.fresh hfresh),
        fun d h => (turns.discovering d h).elim, turns.asking⟩
    | begins p phase input room new after | attempts p b b' j phase input move after =>
      subst after
      exact ⟨fun hfresh => hholds.fresh ⟨hfresh.1, by rw [phase]; trivial⟩,
        fun _ h => (by cases h), (by rintro ⟨⟩)⟩
    | asks phase input after =>
      subst after
      have hfresh : f.Fresh := ⟨hholds.asking phase, by rw [phase]; trivial⟩
      refine ⟨fun hnever => hnever.2.elim, ?_, (by rintro ⟨⟩)⟩
      rintro _ ⟨⟩
      exact (hholds.fresh hfresh).symm
    | discovers d d' j phase input move after =>
      subst input after
      have hown : Discovery.exchangeMove ⟨d, j⟩ = none := by
        simpa [exchangeMove, discoveryMove, phase] using hview
      refine ⟨fun hnever => hnever.2.elim, ?_, (by rintro ⟨⟩)⟩
      rintro _ ⟨⟩
      exact Discovery.part_exchange.other move (hholds.current _ phase) hown

theorem queries_eq (moves : List (Move Fetch FetchInput)) :
    queries moves = Exchange.log (moves.filterMap exchangeMove) := by
  rw [queries, List.filterMap_filterMap]
  rfl

/-- A run of a fetch holds a run of each of its attempts. -/
theorem attempt_run {moves : List (Move Fetch FetchInput)}
    (run : Run (Fetch.next limits cid) start moves f) (peer : NodeId) :
    ∃ a, Run Attempt.next (.start (limits.maxFetchesPerProvider ≠ 0))
        (moves.filterMap (attemptMove peer)) a ∧ AttemptAt limits peer f a :=
  run.part (part_attempt limits cid peer)
    ⟨fun _ => rfl, fun _ h => (by cases h), fun _ _ h => (by cases h)⟩

/-- The effort of a fetch, whatever the environment does. It attempts distinct
providers and no more than allowed; it discovers once at most, and broadcasts
QUERYs in four rounds at most; to no provider it sends WANTs in more than three
rounds, and in a round one to a room. And a block handed to an attempt whose
cap does not elapse is what the attempt returns, unless it came behind the last
look at the receiver, when nothing was left but the cap, the grace timer and
the end. -/
theorem fetch_effort (limits : FetchLimits) (cid : Cid) {moves : List (Move Fetch FetchInput)}
    {f : Fetch} (run : Run (Fetch.next limits cid) start moves f) :
    ((attempts limits moves).Nodup ∧ (attempts limits moves).length ≤ limits.maxAttempts) ∧
    (discoveries moves ≤ 1 ∧ ∀ round, Rounds.Covered (queries moves) round ∧
      (MAX_DISCOVERY_QUERY_ROUNDS ≤ round → Rounds.sends round (queries moves) = [])) ∧
    (∀ peer round, Rounds.Covered (wants peer moves) round ∧
      (1 + MAX_RESET_REREQUESTS ≤ round → Rounds.sends round (wants peer moves) = [])) ∧
    ∀ peer a result, f.phase = .attempting peer a → a.phase = .ended result →
      a.capElapsed = false → ∀ newer older met data,
        moves.filterMap (attemptMove peer) = newer ++ ⟨met, .hand data⟩ :: older →
          result = some data ∨ ∀ m ∈ newer, m.before.phase.Leaving := by
  have hbooks : Books limits moves f := run.keeps books_start fun _ _ _ _ h hmove => h.next hmove
  refine ⟨?_, ⟨hbooks.once, fun round => ?_⟩, fun peer round => ?_, ?_⟩
  · rw [hbooks.tried]
    exact ⟨hbooks.nodup, hbooks.most⟩
  · obtain ⟨e, hexchange, _⟩ :=
      run.part (part_exchange limits cid)
        ⟨fun _ => rfl, fun _ h => (by cases h), fun h => (by cases h)⟩
    rw [queries_eq]
    exact Exchange.queries_bounded hexchange round
  · obtain ⟨a, hattempt, _⟩ := attempt_run run peer
    obtain ⟨l, hloop, _⟩ := hattempt.part Attempt.part_loop (Attempt.holds_start _)
    obtain ⟨hcovered, hlast⟩ := WantLoop.wants_bounded hloop round
    exact ⟨hcovered, fun hle => hlast (by omega)⟩
  · intro peer a result hphase hended hcap newer older met data hmoves
    obtain ⟨a', hattempt, hat⟩ := attempt_run run peer
    cases hat.current a hphase
    rw [hmoves] at hattempt
    exact Attempt.returned_of_handed hattempt hended hcap

/-! ## Two runs on given inputs -/

namespace Idle

def alice : NodeId := ⟨"alice"⟩

def fourAttempts : FetchLimits := { maxAttempts := 4, maxFetchesPerProvider := 0 }

/-- Alice is asked in one room and does not answer in the idle window. -/
def asked : List FetchInput :=
  [.attempt .go, .attempt (.loop (.idle true)), .attempt (.loop (.sent true)),
    .attempt (.loop (.isReachable true)), .attempt (.loop (.sessions ["r"])), .attempt .go,
    .attempt .go, .attempt .go, .consider, .pick fun _ => true, .known [alice] 0]

/-- The block comes just before the last look at the receiver. -/
def early : List FetchInput :=
  .attempt .go :: .attempt .go :: .attempt (.hand [1]) :: asked

def late : List FetchInput :=
  .attempt .go :: .attempt (.hand [1]) :: .attempt .go :: asked

def run (inputs : List FetchInput) : List (Move Fetch FetchInput) × Fetch :=
  play (Fetch.next fourAttempts "c") start inputs

/-- The registry hands over the block while the attempt is not over and its
cap has not elapsed, and the attempt returns nothing. -/
theorem handed_lost :
    ∃ moves f a met data, Run (Fetch.next fourAttempts "c") start moves f ∧
      f.phase = .attempting alice a ∧ ⟨met, .hand data⟩ ∈ moves.filterMap (attemptMove alice) ∧
      (∀ result, met.phase ≠ .ended result) ∧ a.capElapsed = false ∧ a.phase = .ended none := by
  refine ⟨(run late).1, (run late).2, ⟨.ended none, .full [1], false⟩,
    ⟨.ending none, .empty, false⟩, [1], run_play _ _ _, rfl, by decide, nofun, rfl, rfl⟩

/-- In time, it is what the attempt returns. -/
theorem handed_inTime :
    (run early).2.phase = .attempting alice ⟨.ended (some [1]), .full [1], false⟩ ∧
      (attempts fourAttempts (run early).1).length ≤ 4 ∧
      ∀ round, 3 ≤ round → Rounds.sends round (wants alice (run early).1) = [] := by
  obtain ⟨⟨_, hattempts⟩, _, hwants, _⟩ :=
    fetch_effort fourAttempts "c" (run_play (Fetch.next fourAttempts "c") start early)
  exact ⟨rfl, hattempts, fun round hround => (hwants alice round).2 hround⟩

end Idle

end Fetch

end Mistlib.Storage
