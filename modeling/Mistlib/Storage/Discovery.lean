import Mistlib.Async.Reactive
import Mistlib.Async.Rounds
import Mistlib.Storage.Resolver

/-!
# Looking for a provider

`discover` polls three futures: the cap, a search that waits for an untried
provider to be cached, and an exchange that broadcasts a QUERY and repeats it
after silence to the rooms in which one of the peers asked first can be
reached. As in an attempt, the answers of the environment are inputs.
-/

namespace Mistlib.Storage

open Reactive

def MAX_DISCOVERY_QUERY_ROUNDS : Nat := 4

/-- Where a QUERY went: `queried` in the source. -/
abbrev QueryPath := Room × NodeId

/-- What `query_path_state` sees of a path. -/
inductive PathState where
  /-- The room is gone. -/
  | gone
  | reachable
  /-- There is no route, but nothing was reset. -/
  | suspended
  /-- There is no route and the path was reset. -/
  | reset
deriving DecidableEq, Repr

inductive ExchangePoint where
  /-- `broadcast_query` awaits the session transports. -/
  | sessions
  /-- `broadcast_query` comes to the first of the rooms left. -/
  | room (rooms : List Room) (enqueued : Bool)
  | broadcasting (rest : List Room)
  /-- It waits for progress or the end of the idle window. -/
  | idle
  | checking
  /-- It sleeps before it checks again. -/
  | pausing
  | returned (reason : DiscoveryFailure)
deriving DecidableEq, Repr

/-- The async block `exchange` inside `discover`. -/
structure Exchange where
  queried : List QueryPath
  /-- The first `broadcast_query` is not over. -/
  initial : Bool
  rounds : Nat
  point : ExchangePoint
deriving DecidableEq, Repr

inductive ExchangeInput where
  | sessions (rooms : List Room)
  | connectedNodes (peers : List NodeId)
  | isReachable (reachable : NodeId → Bool)
  | broadcast (ok : Bool)
  | progress
  | progressClosed
  | silence
  | pathState (state : QueryPath → PathState) (outstanding : Bool)
  | slept

namespace Exchange

def start : Exchange := { queried := [], initial := true, rounds := 1, point := .sessions }

def goTo (e : Exchange) (point : ExchangePoint) : Exchange := { e with point }

/-- The number of the round a broadcast belongs to, counted from 0. -/
def round (e : Exchange) : Nat := if e.initial then 0 else e.rounds

/-- The loop of `broadcast_query` over the rooms, and what follows its end. -/
def broadcastQuery (e : Exchange) (rooms : List Room) (enqueued : Bool) : Exchange :=
  match rooms with
  | room :: rest => e.goTo (.room (room :: rest) enqueued)
  | [] =>
    if e.initial then { e with initial := false, point := .idle }
    else if enqueued then { e with rounds := e.rounds + 1, point := .idle }
    else e.goTo .pausing

/-- Whether a repeated QUERY goes to a room. -/
def repeats (e : Exchange) (room : Room) (reachable : NodeId → Bool) : Bool :=
  e.queried.any fun path => path.1 = room && reachable path.2

/-- What the exchange does after silence, with what it sees of its paths. -/
def check (e : Exchange) (state : QueryPath → PathState) (outstanding : Bool) : Exchange :=
  let reachable := e.queried.any fun path => state path = .reachable
  let temporary := e.queried.any fun path => state path = .suspended
  if reachable ∧ e.rounds < MAX_DISCOVERY_QUERY_ROUNDS then e.goTo .sessions
  else if !outstanding ∧ !reachable ∧ !temporary then e.goTo (.returned .noReachablePeers)
  else if !outstanding ∧ e.rounds = MAX_DISCOVERY_QUERY_ROUNDS then
    e.goTo (.returned .queryBudgetExhausted)
  else if !reachable ∧ temporary then e.goTo .pausing
  else e.goTo .idle

def next (e : Exchange) (i : ExchangeInput) : Option Exchange :=
  match e.point, i with
  | .sessions, .sessions rooms => some (e.broadcastQuery rooms false)
  | .room (room :: rest) _, .connectedNodes peers =>
    if e.initial then
      some { e with queried := e.queried ++ peers.map (Prod.mk room), point := .broadcasting rest }
    else none
  | .room (room :: rest) enqueued, .isReachable reachable =>
    if e.initial then none
    else if e.repeats room reachable then some (e.goTo (.broadcasting rest))
    else some (e.broadcastQuery rest enqueued)
  | .broadcasting rest, .broadcast _ => some (e.broadcastQuery rest true)
  | .idle, .progress => some e
  | .idle, .progressClosed => some (e.goTo (.returned .transportTimeout))
  | .idle, .silence => some (e.goTo .checking)
  | .checking, .pathState state outstanding => some (e.check state outstanding)
  | .pausing, .slept => some (e.goTo .checking)
  | _, _ => none

/-- What a move does to the outside: a snapshot of the rooms, or a QUERY. -/
def event : Move Exchange ExchangeInput → Option (Rounds.Event Room)
  | ⟨e, .sessions rooms⟩ => some (.listed e.round rooms)
  | ⟨e, .connectedNodes _⟩ =>
    match e.point with
    | .room (room :: _) _ => some (.sent e.round room)
    | _ => none
  | ⟨e, .isReachable reachable⟩ =>
    match e.point with
    | .room (room :: _) _ => if e.repeats room reachable then some (.sent e.round room) else none
    | _ => none
  | _ => none

def log (moves : List (Move Exchange ExchangeInput)) : List (Rounds.Event Room) :=
  moves.filterMap event

/-! ## Rounds of QUERYs -/

/-- A broadcast belongs to a round that is allowed. -/
def Allowed (e : Exchange) : Prop := e.initial = false → e.rounds < MAX_DISCOVERY_QUERY_ROUNDS

/-- Where an exchange stands with the QUERYs of its rounds. -/
def Stands (log : List (Rounds.Event Room)) (e : Exchange) : Prop :=
  match e.point with
  | .sessions => Rounds.Before log e.round ∧ e.Allowed
  | .room rooms enqueued =>
    Rounds.Within log e.round rooms ∧ (enqueued = false → Rounds.sends e.round log = []) ∧ e.Allowed
  | .broadcasting rest => Rounds.Within log e.round rest ∧ e.Allowed
  | _ => Rounds.Before log e.rounds ∧ e.initial = false

/-- The first round is over before rounds are counted. -/
structure Counts (e : Exchange) : Prop where
  first : e.initial = true → e.rounds = 1
  last : e.rounds ≤ MAX_DISCOVERY_QUERY_ROUNDS

variable {log : List (Rounds.Event Room)} {e e' : Exchange} {i : ExchangeInput}

theorem stands_broadcastQuery {rooms : List Room} {enqueued : Bool} (hcounts : e.Counts)
    (h : Rounds.Within log e.round rooms)
    (hnone : enqueued = false → Rounds.sends e.round log = []) (hallowed : e.Allowed) :
    (e.broadcastQuery rooms enqueued).Stands log ∧ (e.broadcastQuery rooms enqueued).Counts := by
  cases rooms with
  | cons room rest => exact ⟨⟨h, hnone, hallowed⟩, hcounts.first, hcounts.last⟩
  | nil =>
    have hover := h.over
    unfold broadcastQuery
    cases hinitial : e.initial with
    | true =>
      have hfirst := hcounts.first hinitial
      rw [round, if_pos hinitial, Nat.zero_add, ← hfirst] at hover
      exact ⟨⟨hover, rfl⟩, by simp, hcounts.last⟩
    | false =>
      have hround : e.round = e.rounds := by simp [round, hinitial]
      rw [hround] at hover
      cases enqueued with
      | true =>
        exact ⟨⟨hover, rfl⟩, by simp, Nat.succ_le_of_lt (hallowed hinitial)⟩
      | false =>
        have hagain := h.again (hnone rfl)
        rw [hround] at hagain
        exact ⟨⟨hagain, hinitial⟩, hcounts.first, hcounts.last⟩

theorem stands_check (hcounts : e.Counts) (h : Rounds.Before log e.rounds)
    (hinitial : e.initial = false) (state : QueryPath → PathState) (outstanding : Bool) :
    (e.check state outstanding).Stands log ∧ (e.check state outstanding).Counts := by
  have hround : e.round = e.rounds := by simp [round, hinitial]
  unfold check
  dsimp only
  split
  · next hagain =>
    exact ⟨⟨hround ▸ h, fun _ => hagain.2⟩, hcounts.first, hcounts.last⟩
  · split
    · exact ⟨⟨h, hinitial⟩, hcounts.first, hcounts.last⟩
    · split
      · exact ⟨⟨h, hinitial⟩, hcounts.first, hcounts.last⟩
      · split
        · exact ⟨⟨h, hinitial⟩, hcounts.first, hcounts.last⟩
        · exact ⟨⟨h, hinitial⟩, hcounts.first, hcounts.last⟩

theorem stands_next (hcounts : e.Counts) (h : e.Stands log) (hmove : e.next i = some e') :
    e'.Stands ((event ⟨e, i⟩).toList ++ log) ∧ e'.Counts := by
  obtain ⟨queried, initial, rounds, point⟩ := e
  unfold next at hmove
  dsimp only at hmove
  split at hmove
  · cases hmove
    obtain ⟨hbefore, hallowed⟩ := h
    exact stands_broadcastQuery hcounts (hbefore.listed _)
      (fun _ => hbefore.unsent _ le_rfl) hallowed
  · obtain ⟨_, ⟨⟩⟩ := Option.ite_none_right_eq_some.mp hmove
    obtain ⟨hwithin, _, hallowed⟩ := h
    exact ⟨⟨hwithin.sent, hallowed⟩, hcounts.first, hcounts.last⟩
  · next room rest enqueued reachable =>
    obtain ⟨hwithin, hnone, hallowed⟩ := h
    obtain ⟨_, hmove⟩ := Option.ite_none_left_eq_some.mp hmove
    split at hmove
    · next hrepeats =>
      cases hmove
      have hevent : event ⟨⟨queried, initial, rounds, .room (room :: rest) enqueued⟩,
          .isReachable reachable⟩ = some (.sent (round ⟨queried, initial, rounds,
            .room (room :: rest) enqueued⟩) room) := if_pos hrepeats
      rw [hevent]
      exact ⟨⟨hwithin.sent, hallowed⟩, hcounts.first, hcounts.last⟩
    · next hrepeats =>
      cases hmove
      have hevent : event ⟨⟨queried, initial, rounds, .room (room :: rest) enqueued⟩,
          .isReachable reachable⟩ = none := if_neg hrepeats
      rw [hevent]
      exact stands_broadcastQuery hcounts hwithin.skip hnone hallowed
  · cases hmove
    obtain ⟨hwithin, hallowed⟩ := h
    exact stands_broadcastQuery hcounts hwithin (by simp) hallowed
  · cases hmove
    exact ⟨h, hcounts⟩
  · cases hmove
    exact ⟨h, hcounts.first, hcounts.last⟩
  · cases hmove
    exact ⟨h, hcounts.first, hcounts.last⟩
  · cases hmove
    exact stands_check hcounts h.1 h.2 _ _
  · cases hmove
    exact ⟨h, hcounts.first, hcounts.last⟩
  · cases hmove

theorem Stands.over (h : e.Stands log) (hcounts : e.Counts) :
    ∃ last, last ≤ MAX_DISCOVERY_QUERY_ROUNDS ∧ Rounds.Before log last := by
  have hround : e.Allowed → e.round + 1 ≤ MAX_DISCOVERY_QUERY_ROUNDS := by
    intro hallowed
    unfold round
    cases hinitial : e.initial with
    | true => simp [MAX_DISCOVERY_QUERY_ROUNDS]
    | false => exact hallowed hinitial
  unfold Stands at h
  split at h
  · exact ⟨_, Nat.le_of_succ_le (hround h.2), h.1⟩
  · exact ⟨_, hround h.2.2, h.1.over⟩
  · exact ⟨_, hround h.2, h.1.over⟩
  · exact ⟨_, hcounts.last, h.1⟩

/-- An exchange broadcasts in four rounds at most. In each it goes once
through the rooms of one snapshot. -/
theorem queries_bounded {moves : List (Move Exchange ExchangeInput)}
    (run : Run Exchange.next start moves e) (round : Nat) :
    Rounds.Covered (Exchange.log moves) round ∧
      (MAX_DISCOVERY_QUERY_ROUNDS ≤ round → Rounds.sends round (Exchange.log moves) = []) := by
  have hinvariant : e.Stands (Exchange.log moves) ∧ e.Counts := by
    refine run.keeps (P := fun moves e => e.Stands (Exchange.log moves) ∧ e.Counts)
      ⟨⟨Rounds.before_nil 0, by simp [Allowed, start]⟩, by simp [start], by decide⟩ ?_
    rintro past e i e' ⟨hstands, hcounts⟩ hmove
    rw [Exchange.log, observed_cons]
    exact stands_next hcounts hstands hmove
  obtain ⟨last, hlast, hbefore⟩ := hinvariant.1.over hinvariant.2
  exact ⟨hbefore.covered round, fun hle => hbefore.unsent round (Nat.le_trans hlast hle)⟩

end Exchange

/-! ## The whole discovery -/

/-- Where the search for an untried provider stands. -/
inductive SearchPoint where
  | reading
  /-- It waits to be notified. -/
  | waiting
deriving DecidableEq, Repr

/-- Which of the three futures is polled. -/
inductive DiscoveryTurn where
  | cap
  | search
  | exchange
  | ended (result : Except DiscoveryFailure (List NodeId))

structure Discovery where
  tried : List NodeId
  search : SearchPoint
  exchange : Exchange
  turn : DiscoveryTurn

inductive DiscoveryInput where
  | cap (elapsed : Bool)
  | getPeers (cached : List NodeId)
  | notified
  /-- What is polled is not ready. -/
  | blocked
  | exchange (i : ExchangeInput)
  | returned

namespace Discovery

def start (tried : List NodeId) : Discovery :=
  { tried, search := .reading, exchange := .start, turn := .cap }

def next (d : Discovery) (i : DiscoveryInput) : Option Discovery :=
  match d.turn, i with
  | .cap, .cap elapsed =>
    some { d with turn := if elapsed then .ended (.error .transportTimeout) else .search }
  | .search, .getPeers cached =>
    match d.search with
    | .reading =>
      let peers := NetworkPeerResolver.untried cached d.tried
      if peers.isEmpty then some { d with search := .waiting }
      else some { d with turn := .ended (.ok peers) }
    | .waiting => none
  | .search, .notified =>
    match d.search with
    | .reading => none
    | .waiting => some { d with search := .reading }
  | .search, .blocked =>
    match d.search with
    | .reading => none
    | .waiting => some { d with turn := .exchange }
  | .exchange, .exchange i => (d.exchange.next i).map fun exchange => { d with exchange }
  | .exchange, .blocked =>
    match d.exchange.point with
    | .returned _ => none
    | _ => some { d with turn := .cap }
  | .exchange, .returned =>
    match d.exchange.point with
    | .returned reason => some { d with turn := .ended (.error reason) }
    | _ => none
  | _, _ => none

def exchangeMove : Move Discovery DiscoveryInput → Option (Move Exchange ExchangeInput)
  | ⟨d, .exchange i⟩ =>
    match d.turn with
    | .exchange => some ⟨d.exchange, i⟩
    | _ => none
  | _ => none

theorem exchangeMove_eq_some {d : Discovery} {i : DiscoveryInput} {m : Move Exchange ExchangeInput}
    (h : exchangeMove ⟨d, i⟩ = some m) :
    d.turn = .exchange ∧ m.before = d.exchange ∧ i = .exchange m.input := by
  obtain ⟨tried, search, exchange, turn⟩ := d
  cases i with
  | exchange i =>
    cases turn with
    | exchange =>
      cases h
      exact ⟨rfl, rfl, rfl⟩
    | _ => cases h
  | _ => cases h

theorem exchange_next {d d' : Discovery} {i : DiscoveryInput} (hmove : d.next i = some d')
    (hview : exchangeMove ⟨d, i⟩ = none) : d'.exchange = d.exchange := by
  obtain ⟨tried, search, exchange, turn⟩ := d
  unfold next at hmove
  dsimp only at hmove
  split at hmove
  · cases hmove
    rfl
  · split at hmove
    · split at hmove <;> cases hmove <;> rfl
    · cases hmove
  · split at hmove <;> cases hmove
    rfl
  · split at hmove <;> cases hmove
    rfl
  · cases hview
  · split at hmove <;> cases hmove
    rfl
  · split at hmove <;> cases hmove
    rfl
  · cases hmove

theorem part_exchange :
    Part Discovery.next Exchange.next exchangeMove fun d e => d.exchange = e where
  own hmove hholds hview := by
    obtain ⟨hturn, hbefore, rfl⟩ := exchangeMove_eq_some hview
    simp only [next, hturn, Option.map_eq_some_iff] at hmove
    obtain ⟨e', hmove, rfl⟩ := hmove
    exact ⟨hbefore.trans hholds, e', hholds ▸ hmove, rfl⟩
  other hmove hholds hview := (exchange_next hmove hview).trans hholds

end Discovery

end Mistlib.Storage
