import Mistlib.Browser.NodeEntries

/-!
# The limit of active connections

`connect` and `handle_offer` reserve a connection only while fewer than
`max_connections` nodes are active. A run is about any number of nodes, each with
its own entries, calls and callbacks.
-/

namespace Mistlib.Browser

/-- The surroundings of a call, with the numbers that its transport counts. -/
def Surroundings.within (around : Surroundings) (otherActive maxConnections : Nat) : Surroundings :=
  { around with otherActive, maxConnections }

def Input.within (otherActive maxConnections : Nat) : Input → Input
  | .connect around => .connect (around.within otherActive maxConnections)
  | .offer around => .offer (around.within otherActive maxConnections)
  | .disconnect => .disconnect
  | .rejoin epoch => .rejoin epoch
  | .resume i around outcome => .resume i (around.within otherActive maxConnections) outcome

def NodeInput.within (otherActive maxConnections : Nat) : NodeInput → NodeInput
  | .call input => .call (input.within otherActive maxConnections)
  | input => input

def Node.active (n : Node) : Bool := n.transport.connectionStates.any activeState

namespace Limit

def activeConnectionCount (nodes : List Node) : Nat := nodes.countP Node.active

def otherActive (nodes : List Node) (n : Node) : Nat :=
  activeConnectionCount nodes - if n.active then 1 else 0

def step (maxConnections : Nat) (nodes : List Node) (input : Nat × NodeInput) : Option (List Node) :=
  nodes[input.1]?.bind fun n =>
    (n.step (input.2.within (otherActive nodes n) maxConnections)).map fun n => nodes.set input.1 n

def Limited (maxConnections : Nat) (nodes : List Node) : Prop :=
  activeConnectionCount nodes ≤ maxConnections
deriving Decidable

end Limit

/-- A callback of the registered peer makes the node active, if it was not. -/
def NodeInput.activates (n : Node) : NodeInput → Bool
  | .iceStateChange peer ice hasOpenChannel =>
    n.isCurrent peer && (stateAfterIce hasOpenChannel ice).any activeState
  | .channelOpen peer channel => channel == .reliableOrdered && n.isCurrent peer
  | _ => false

namespace Limit

/-- No callback makes another node active while as many are as may be. -/
def Admitted (maxConnections : Nat) (nodes : List Node) (input : Nat × NodeInput) : Prop :=
  ∀ n ∈ nodes[input.1]?, n.active = false → input.2.activates n = true →
    activeConnectionCount nodes < maxConnections
deriving Decidable

end Limit

/-! ## How a node becomes active -/

section Activity

variable {n n' : Node} {otherActive maxConnections : Nat}

theorem Input.within_around {input : Input} {around : Surroundings}
    (h : input.within otherActive maxConnections = .connect around ∨
      input.within otherActive maxConnections = .offer around) :
    around.otherActive = otherActive ∧ around.maxConnections = maxConnections := by
  rcases h with h | h
  · cases input with
    | connect a =>
      cases h
      exact ⟨rfl, rfl⟩
    | _ => cases h
  · cases input with
    | offer a =>
      cases h
      exact ⟨rfl, rfl⟩
    | _ => cases h

/-- What a step makes of the node's activity. -/
inductive Node.Shifts (n n' : Node) (otherActive maxConnections : Nat) (input : NodeInput) : Prop
  | keeps (h : n'.active = true → n.active = true) (hquiet : input.activates n = false)
  | reserves (hinactive : n.active = false) (hquiet : input.activates n = false)
      (hroom : otherActive < maxConnections)
  | activates (h : n'.active = true) (hactivates : input.activates n = true)

theorem Node.call_shifts {input : Input}
    (h : n.step (.call (input.within otherActive maxConnections)) = some n') :
    n.Shifts n' otherActive maxConnections (.call input) := by
  obtain ⟨t, hstep, rfl⟩ := Option.map_eq_some_iff.mp h
  cases Transport.step_does hstep with
  | same hpeers hstates =>
    refine .keeps ?_ rfl
    rw [Node.active, Node.active, hstates]
    exact id
  | cleans hcleans hpeers hstates =>
    refine .keeps ?_ rfl
    rw [Node.active, hstates]
    nofun
  | reserves hinactive hroom =>
    obtain ⟨around, hinput, hless⟩ := hroom
    obtain ⟨hother, hlimit⟩ := Input.within_around hinput
    rw [Transport.activeConnections, hinactive, hother, hlimit] at hless
    exact .reserves hinactive rfl hless
  | builds hpeers hattempts hstates =>
    refine .keeps ?_ rfl
    rcases hstates with ⟨hsame, -⟩ | ⟨hdisconnected, -⟩
    · rw [Node.active, Node.active, hsame]
      exact id
    · rw [Node.active, hdisconnected]
      nofun

@[simp] theorem Node.active_tellIfAnnounced (n : Node) (peer : PeerId) :
    (n.tellIfAnnounced peer).active = n.active := by
  unfold Node.tellIfAnnounced
  split
  · rfl
  · rfl

theorem Node.onIceStateChange_active (n : Node) (ice : IceState) (hasOpenChannel : Bool) :
    (n.onIceStateChange ice hasOpenChannel).active =
      ((stateAfterIce hasOpenChannel ice).elim n.active activeState) := by
  unfold Node.onIceStateChange
  cases stateAfterIce hasOpenChannel ice with
  | none => rfl
  | some state =>
    simp only
    split
    · rfl
    · rfl

theorem Node.onOpen_active (n : Node) (peer : PeerId) : (n.onOpen peer).active = true := by
  unfold Node.onOpen
  simp only
  split
  · rfl
  · rfl

theorem Node.sweep_active (n : Node) (failing : Bool) (h : (n.sweep failing).active = true) :
    n.active = true := by
  unfold Node.sweep at h
  split at h
  · exact h
  · split at h
    · cases h
    · split at h
      · rw [Node.sweepPeer, Node.active_tellIfAnnounced] at h
        cases h
      · exact h

/-- What a step does to the entries of one node. -/
theorem Node.step_shifts {input : NodeInput}
    (h : n.step (input.within otherActive maxConnections) = some n') :
    n.Shifts n' otherActive maxConnections input := by
  cases input with
  | call input => exact Node.call_shifts h
  | iceStateChange peer ice hasOpenChannel =>
    cases h
    split
    · next hcurrent =>
      have hafter := n.onIceStateChange_active ice hasOpenChannel
      cases hstate : stateAfterIce hasOpenChannel ice with
      | none =>
        refine .keeps ?_ ?_
        · rw [hafter, hstate]
          exact id
        · simp [NodeInput.activates, hstate]
      | some state =>
        rw [hstate] at hafter
        cases hactive : activeState state with
        | true =>
          refine .activates (hafter.trans hactive) ?_
          simp [NodeInput.activates, hcurrent, hstate, hactive]
        | false =>
          refine .keeps ?_ ?_
          · rw [hafter]
            exact fun h => absurd (hactive.symm.trans h) Bool.false_ne_true
          · simp [NodeInput.activates, hstate, hactive]
    · next hstale =>
      refine .keeps id ?_
      simp [NodeInput.activates, hstale]
  | channelOpen peer channel =>
    cases h
    split
    · next hopen =>
      refine .activates (n.onOpen_active peer) ?_
      simp [NodeInput.activates, hopen]
    · next hnot =>
      refine .keeps id ?_
      simpa [NodeInput.activates] using hnot
  | channelClose peer channel =>
    cases h
    refine .keeps ?_ rfl
    split
    · nofun
    · exact id
  | watchdog peer attemptId phase healthy =>
    cases h
    refine .keeps ?_ rfl
    split
    · rw [Node.timeOut, Node.active_tellIfAnnounced]
      nofun
    · exact id
  | sweep failing =>
    cases h
    exact .keeps (n.sweep_active failing) rfl

end Activity

namespace Limit

variable {maxConnections : Nat} {nodes nodes' : List Node} {input : Nat × NodeInput}

/-- A step keeps the limit exactly if no callback goes over it. -/
theorem step_limited (h : Limited maxConnections nodes) (hstep : step maxConnections nodes input = some nodes') :
    Limited maxConnections nodes' ↔ Admitted maxConnections nodes input := by
  obtain ⟨n, hn, hmap⟩ := Option.bind_eq_some_iff.mp hstep
  obtain ⟨n', hn', rfl⟩ := Option.map_eq_some_iff.mp hmap
  have hcount := Calls.countP_set hn n' Node.active
  have hadmitted : Admitted maxConnections nodes input ↔
      (n.active = false → input.2.activates n = true → activeConnectionCount nodes < maxConnections) := by
    rw [Admitted, hn]
    simp
  rw [hadmitted]
  unfold Limited activeConnectionCount at *
  cases Node.step_shifts hn' with
  | keeps hkeeps hquiet =>
    rw [hquiet]
    refine ⟨fun _ _ => nofun, fun _ => ?_⟩
    cases hafter : n'.active with
    | false =>
      rw [hafter] at hcount
      simp only [Bool.false_eq_true, if_false] at hcount
      omega
    | true =>
      rw [hafter, hkeeps hafter] at hcount
      omega
  | reserves hinactive hquiet hroom =>
    rw [hquiet]
    refine ⟨fun _ _ => nofun, fun _ => ?_⟩
    rw [otherActive, activeConnectionCount, hinactive] at hroom
    rw [hinactive] at hcount
    simp only [Bool.false_eq_true, if_false] at hroom hcount
    split at hcount
    · omega
    · omega
  | activates hafter hactivates =>
    rw [hactivates]
    rw [hafter] at hcount
    simp only [if_true] at hcount
    cases hbefore : n.active with
    | false =>
      rw [hbefore] at hcount
      simp only [Bool.false_eq_true, if_false] at hcount
      constructor
      · intro hle _ _
        omega
      · intro hless
        have hroom := hless rfl rfl
        omega
    | true =>
      rw [hbefore] at hcount
      simp only [if_true] at hcount
      refine ⟨fun _ => nofun, fun _ => ?_⟩
      omega

theorem new_limited (maxConnections count : Nat) : Limited maxConnections (List.replicate count .new) := by
  have hnone : activeConnectionCount (List.replicate count .new) = 0 := by
    rw [activeConnectionCount, List.countP_replicate]
    rfl
  rw [Limited, hnone]
  exact Nat.zero_le _

end Limit

open Reactive Limit

/-- In a run the limit holds throughout exactly if no callback makes another
node active while as many are as may be. -/
theorem limited_throughout_iff (maxConnections count : Nat) {moves : List (Move (List Node) (Nat × NodeInput))}
    {nodes : List Node} (run : Run (step maxConnections) (List.replicate count .new) moves nodes) :
    (Limited maxConnections nodes ∧ ∀ m ∈ moves, Limited maxConnections m.before) ↔
      ∀ m ∈ moves, Admitted maxConnections m.before m.input := by
  have hiff := run.throughout_iff (I := fun _ => True) (P := Limited maxConnections)
    (C := Admitted maxConnections) trivial (fun _ _ _ _ _ => trivial)
    fun s i s' _ hs hstep => step_limited hs hstep
  rw [hiff]
  exact ⟨fun h => h.2, fun h => ⟨new_limited maxConnections count, h⟩⟩

/-! ### A node that becomes active late -/

section Runs

/-- Two nodes and room for one: the second attempt is refused, and the first
peer opens; the latest input first. -/
def oneOfTwo : List (Nat × NodeInput) :=
  [(0, .channelOpen 0 .reliableOrdered), (0, .iceStateChange 0 .checking false), (1, .call (.connect calm)),
    (0, .call (.connect calm))]

theorem oneOfTwo_limited :
    (play (step 1) (List.replicate 2 .new) oneOfTwo).1.length = 4 ∧
      Limited 1 (play (step 1) (List.replicate 2 .new) oneOfTwo).2 ∧
        ∀ m ∈ (play (step 1) (List.replicate 2 .new) oneOfTwo).1, Limited 1 m.before :=
  ⟨by decide, (limited_throughout_iff 1 2 (run_play (step 1) (List.replicate 2 .new) oneOfTwo)).mpr (by decide)⟩

/-- The first node rejoins and its offer builds a peer without a reservation.
The second node takes the only place, and then the ICE of that peer starts. -/
def reactivated : List (Nat × NodeInput) :=
  [(0, .iceStateChange 1 .checking false), (1, .call (.connect calm)), (0, .call (.offer calm)),
    (0, .call (.rejoin 0)), (0, .call (.connect calm))]

theorem reactivated_overshoots :
    ∃ moves nodes, Run (step 1) (List.replicate 2 .new) moves nodes ∧ activeConnectionCount nodes = 2 ∧
      ¬ Limited 1 nodes :=
  ⟨_, _, run_play (step 1) (List.replicate 2 .new) reactivated, by decide, by decide⟩

end Runs

end Mistlib.Browser
