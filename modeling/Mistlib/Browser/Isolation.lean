import Mistlib.Browser.NodeEntries

/-!
# Attempts in flight and isolation

`is_isolated` counts the entries of `connection_attempt_ids` as attempts in
flight: while there is one, the session is not reset. An attempt's entry goes
with its peer. A run is about any number of nodes; what a call reads of the
others is arbitrary.
-/

namespace Mistlib.Browser

def isIsolated (states : List ConnectionState) (inFlightAttempts : Nat) : Bool :=
  if 0 < inFlightAttempts then false else states.all fun state => !activeState state

namespace Isolation

/-- What `schedule_isolation_recovery` asks. -/
def isolated (nodes : List Node) : Bool :=
  isIsolated (nodes.filterMap fun n => n.transport.connectionStates)
    (nodes.countP fun n => n.transport.connectionAttemptIds.isSome)

def step (nodes : List Node) (input : Nat × NodeInput) : Option (List Node) :=
  nodes[input.1]?.bind fun n => (n.step input.2).map fun n => nodes.set input.1 n

/-- Nothing counts as under way without a registered peer. -/
structure Backed (n : Node) : Prop where
  attempt : n.transport.connectionAttemptIds.isSome → n.transport.peers.isSome
  active : n.transport.connectionStates.any activeState = true → n.transport.peers.isSome

/-- No callback ends a peer that has an attempt's entry, and no `connect`
reserves an attempt for a peer that it then cannot create. -/
def Tidy (n : Node) : NodeInput → Prop
  | .call (.connect around) =>
    n.transport.connectionStates.any activeState = true ∨
      around.maxConnections ≤ n.transport.activeConnections around ∨ around.created = true ∨
        n.transport.peers.isSome
  | .iceStateChange peer ice _ =>
    n.isCurrent peer = true → ice.terminal = true → n.transport.connectionAttemptIds = none
  | .channelClose peer channel =>
    n.isCurrent peer = true → channel ≠ .bulk → n.transport.connectionAttemptIds = none
  | _ => True

instance (n : Node) : DecidablePred (Tidy n)
  | .call (.connect _) => inferInstanceAs (Decidable (_ ∨ _ ∨ _ ∨ _))
  | .call (.offer _) | .call .disconnect | .call (.rejoin _)
  | .call (.resume _ _ _) => .isTrue trivial
  | .iceStateChange _ _ _ => inferInstanceAs (Decidable (_ → _ → _))
  | .channelOpen _ _ => .isTrue trivial
  | .channelClose _ _ => inferInstanceAs (Decidable (_ → _ → _))
  | .watchdog _ _ _ _ | .sweep _ => .isTrue trivial

variable {n n' : Node} {peer : PeerId}

namespace Backed

theorem new : Backed .new where
  attempt := nofun
  active := nofun

theorem of_rest {t : Transport} {announced : List PeerId} {notices : List Notice}
    (hattempts : t.connectionAttemptIds = none) (hstates : t.connectionStates.any activeState = false) :
    Backed ⟨t, announced, notices⟩ where
  attempt := by
    rw [hattempts]
    nofun
  active := by
    rw [hstates]
    nofun

theorem of_peer {t : Transport} {announced : List PeerId} {notices : List Notice}
    (hpeers : t.peers.isSome) : Backed ⟨t, announced, notices⟩ where
  attempt := fun _ => hpeers
  active := fun _ => hpeers

theorem tellIfAnnounced (h : Backed n) (peer : PeerId) : Backed (n.tellIfAnnounced peer) := by
  unfold Node.tellIfAnnounced
  split
  · exact ⟨h.attempt, h.active⟩
  · exact h

theorem call (h : Backed n) {input : Input} (htidy : Tidy n (.call input))
    (hstep : n.step (.call input) = some n') : Backed n' := by
  obtain ⟨t, hcall, rfl⟩ := Option.map_eq_some_iff.mp hstep
  cases Transport.step_does hcall with
  | same hpeers hstates hattempts =>
    refine ⟨?_, ?_⟩
    · rw [hpeers, hattempts]
      exact h.attempt
    · rw [hpeers, hstates]
      exact h.active
  | cleans hcleans hpeers hstates hattempts =>
    refine of_rest hattempts ?_
    rw [hstates]
    rfl
  | reserves hinactive hroom hstates hattempts hpeers =>
    refine of_peer ?_
    rcases hpeers with ⟨hbuilt, -⟩ | ⟨hsame, -, around, rfl, hfailed⟩
    · rw [hbuilt]
      rfl
    · obtain ⟨a, ha, hless⟩ := hroom
      have ha : around = a := by
        rcases ha with heq | heq
        · exact Input.connect.inj heq
        · cases heq
      subst ha
      rw [hsame]
      rcases htidy with hactive | hfull | hcreated | hpeer
      · rw [hinactive] at hactive
        cases hactive
      · exact absurd hless (Nat.not_lt.mpr hfull)
      · rw [hfailed] at hcreated
        cases hcreated
      · exact hpeer
  | builds hpeers =>
    refine of_peer ?_
    rw [hpeers]
    rfl

theorem iceStateChange (h : Backed n) {ice : IceState} {hasOpenChannel : Bool}
    (hcurrent : n.isCurrent peer = true)
    (htidy : ice.terminal = true → n.transport.connectionAttemptIds = none) :
    Backed (n.onIceStateChange ice hasOpenChannel) := by
  have hpeers : n.transport.peers.isSome := by
    rw [eq_of_beq hcurrent]
    rfl
  unfold Node.onIceStateChange
  split
  · exact h
  · next state hstate =>
    simp only
    split
    · next hterminal =>
      refine of_rest (htidy hterminal) ?_
      cases ice with
      | failed | closed =>
        cases hstate
        rfl
      | _ => cases hterminal
    · exact of_peer hpeers

theorem channelOpen (hcurrent : n.isCurrent peer = true) : Backed (n.onOpen peer) := by
  have hpeers : n.transport.peers.isSome := by
    rw [eq_of_beq hcurrent]
    rfl
  unfold Node.onOpen
  simp only
  split
  · exact of_peer hpeers
  · exact of_peer hpeers

theorem sweep (h : Backed n) (failing : Bool) : Backed (n.sweep failing) := by
  unfold Node.sweep
  split
  · exact h
  · split
    · next hpeers =>
      have hattempts : n.transport.connectionAttemptIds = none := by
        cases hattempt : n.transport.connectionAttemptIds with
        | none => rfl
        | some attemptId =>
          have hpeer := h.attempt (by rw [hattempt]; rfl)
          rw [hpeers] at hpeer
          cases hpeer
      exact of_rest hattempts rfl
    · split
      · exact (of_rest rfl rfl).tellIfAnnounced _
      · exact h

/-- A tidy step leaves nothing under way without a registered peer. -/
theorem step (h : Backed n) {input : NodeInput} (htidy : Tidy n input) (hstep : n.step input = some n') :
    Backed n' := by
  cases input with
  | call input => exact h.call htidy hstep
  | iceStateChange peer ice hasOpenChannel =>
    cases hstep
    split
    · next hcurrent => exact h.iceStateChange hcurrent (htidy hcurrent)
    · exact h
  | channelOpen peer channel =>
    cases hstep
    split
    · next hopen => exact channelOpen hopen.2
    · exact h
  | channelClose peer channel =>
    cases hstep
    split
    · next hclose => exact of_rest (htidy hclose.2 hclose.1) rfl
    · exact h
  | watchdog peer attemptId phase healthy =>
    cases hstep
    split
    · exact (of_rest rfl rfl).tellIfAnnounced _
    · exact h
  | sweep failing =>
    cases hstep
    exact h.sweep failing

end Backed

theorem isolated_of_backed {nodes : List Node} (h : ∀ n ∈ nodes, Backed n)
    (hnone : ∀ n ∈ nodes, n.transport.peers = none) : isolated nodes = true := by
  have hattempts : (nodes.countP fun n => n.transport.connectionAttemptIds.isSome) = 0 := by
    refine List.countP_eq_zero.mpr fun n hn hattempt => ?_
    have hpeer := (h n hn).attempt hattempt
    rw [hnone n hn] at hpeer
    cases hpeer
  have hstates : (nodes.filterMap fun n => n.transport.connectionStates).all
      (fun state => !activeState state) = true := by
    refine List.all_eq_true.mpr fun state hstate => ?_
    obtain ⟨n, hn, hsome⟩ := List.mem_filterMap.mp hstate
    cases hactive : activeState state with
    | false => rfl
    | true =>
      have hpeer := (h n hn).active (by rw [hsome]; exact hactive)
      rw [hnone n hn] at hpeer
      cases hpeer
  rw [isolated, isIsolated, hattempts]
  exact hstates

end Isolation

open Reactive Isolation

/-- In a run whose steps are all tidy every attempt in flight has its peer, and
once no peer is registered the isolation is recognized. -/
theorem isolated_of_tidy (count : Nat) {moves : List (Move (List Node) (Nat × NodeInput))} {nodes : List Node}
    (run : Run Isolation.step (List.replicate count .new) moves nodes)
    (htidy : ∀ m ∈ moves, ∀ n ∈ m.before[m.input.1]?, Tidy n m.input.2) :
    (∀ n ∈ nodes, n.transport.connectionAttemptIds.isSome → n.transport.peers.isSome) ∧
      ((∀ n ∈ nodes, n.transport.peers = none) → isolated nodes = true) := by
  have hbacked : ∀ n ∈ nodes, Backed n := by
    refine run.keepsUnder (P := fun nodes => ∀ n ∈ nodes, Backed n)
      (C := fun nodes input => ∀ n ∈ nodes[input.1]?, Tidy n input.2) ?_ ?_ htidy
    · intro n hn
      rw [List.eq_of_mem_replicate hn]
      exact .new
    · intro nodes input nodes' hnodes hin hstep
      obtain ⟨n, hn, hmap⟩ := Option.bind_eq_some_iff.mp hstep
      obtain ⟨n', hn', rfl⟩ := Option.map_eq_some_iff.mp hmap
      exact Calls.forall_set hnodes ((Calls.of_get hnodes hn).step (hin n hn) hn')
  exact ⟨fun n hn => (hbacked n hn).attempt, isolated_of_backed hbacked⟩

/-! ### The last peer goes -/

section Runs

/-- An attempt that connects and is then ended by `disconnect`; the latest input first. -/
def connectedThenLeft : List (Nat × NodeInput) :=
  [(0, .call .disconnect), (0, .channelOpen 0 .reliableOrdered), (0, .call (.resume 0 calm .fulfilled)),
    (0, .call (.resume 0 calm .fulfilled)), (0, .call (.resume 0 calm .fulfilled)),
    (0, .call (.resume 0 calm .fulfilled)), (0, .call (.connect calm))]

theorem connectedThenLeft_isolated :
    (play Isolation.step (List.replicate 1 .new) connectedThenLeft).1.length = 7 ∧
      isolated (play Isolation.step (List.replicate 1 .new) connectedThenLeft).2 = true :=
  ⟨by decide, (isolated_of_tidy 1 (run_play Isolation.step (List.replicate 1 .new) connectedThenLeft)
    (by decide)).2 (by decide)⟩

/-- The same attempt, ended by the channel's `onclose`, and a sweeper pass after it. -/
def connectedThenClosed : List (Nat × NodeInput) :=
  (0, .sweep true) :: (0, .channelClose 0 .reliableOrdered) :: connectedThenLeft.tail

/-- No peer and no call is left, but the attempt's entry is. -/
theorem connectedThenClosed_blocked :
    ∃ moves n, Run Isolation.step (List.replicate 1 .new) moves [n] ∧ n.transport.calls = [.returned] ∧
      n.transport.peers = none ∧ n.transport.connectionAttemptIds = some 1 ∧ isolated [n] = false := by
  have hrun := run_play Isolation.step (List.replicate 1 .new) connectedThenClosed
  have hstate : ∃ n, (play Isolation.step (List.replicate 1 .new) connectedThenClosed).2 = [n] ∧
      n.transport.calls = [.returned] ∧ n.transport.peers = none ∧
        n.transport.connectionAttemptIds = some 1 ∧ isolated [n] = false := by
    refine ⟨_, rfl, ?_⟩
    decide
  obtain ⟨n, hn, hrest⟩ := hstate
  rw [hn] at hrun
  exact ⟨_, n, hrun, hrest⟩

end Runs

end Mistlib.Browser
